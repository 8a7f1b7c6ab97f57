import DotQuery.Proofs.Json.NumberLocality
import DotQuery.Proofs.Json.Reading

/-! What is read of a value without parts.

An escape is decided by the characters that belong to it (`LooksAt`), so a string is read
up to its closing quote whatever stands behind that. A value without parts ends with a
digit, a quote or a letter, and no text behind it that continues no number decides it
(`isLocal_readScalar`). -/
namespace DotQuery.Json
open Text

/-! ### Strings -/

/-- The reader looks at the next `n` characters alone. -/
def LooksAt {α : Type} (read : List Char → Except Fault α) (n : Nat) (s : List Char) (a : α) :
    Prop :=
  ∃ front rest, s = front ++ rest ∧ front.length = n ∧ ∀ other, read (front ++ other) = .ok a

/-- So it reads the same in any text that goes on alike that far. -/
theorem LooksAt.append {α : Type} {read : List Char → Except Fault α} {n : Nat}
    {front rest other : List Char} {a : α} (h : LooksAt read n (front ++ rest) a)
    (hn : n ≤ front.length) : read (front ++ other) = .ok a := by
  obtain ⟨seen, behind, hs, hlength, hread⟩ := h
  obtain ⟨more, rfl⟩ : seen <+: front :=
    List.prefix_of_prefix_length_le ⟨behind, hs.symm⟩ ⟨rest, rfl⟩ (hlength ▸ hn)
  rw [List.append_assoc]
  exact hread _

theorem readHex_looksAt {s : List Char} {n : Nat} (h : readHex s = .ok n) :
    LooksAt readHex 4 s n := by
  unfold readHex at h
  split at h
  · rename_i a b c d rest
    split at h
    · rename_i hn
      cases h
      refine ⟨[a, b, c, d], rest, rfl, rfl, fun other => ?_⟩
      simp [readHex, hn]
    · cases h
  · split at h <;> cases h

theorem readTrailing_looksAt {leading : Nat} {s : List Char} {c : Char}
    (h : readTrailing leading s = .ok c) : LooksAt (readTrailing leading) 6 s c := by
  unfold readTrailing at h
  split at h
  · cases h
  · cases h
  · split at h
    · cases h
    · rename_i n hn
      split at h
      · rename_i htrailing
        have hc := Except.ok.inj h
        subst hc
        obtain ⟨digits, rest, rfl, hlength, hread⟩ := readHex_looksAt hn
        refine ⟨'\\' :: 'u' :: digits, rest, rfl, by simp [hlength], fun other => ?_⟩
        show readTrailing leading ('\\' :: 'u' :: (digits ++ other)) = _
        rw [readTrailing, hread]
        exact if_pos htrailing
      · cases h
  · cases h
  · cases h

theorem readNumbered_looksAt {s : List Char} {c : Char} {n : Nat}
    (h : readNumbered s = .ok (c, n)) : ∃ m, m + 1 = n ∧ LooksAt readNumbered m s (c, n) := by
  unfold readNumbered at h
  split at h
  · cases h
  · rename_i code hcode
    obtain ⟨digits, rest, rfl, hlength, hread⟩ := readHex_looksAt hcode
    have hdrop : ∀ other, (digits ++ other).drop 4 = other := fun other => List.drop_left' hlength
    rw [hdrop] at h
    split at h
    · cases h
    · rename_i htrailing
      split at h
      · rename_i hleading
        split at h
        · cases h
        · rename_i htail
          cases h
          obtain ⟨tail, rest, rfl, htaillength, htailread⟩ := readTrailing_looksAt htail
          refine ⟨10, rfl, digits ++ tail, rest, (List.append_assoc _ _ _).symm, by simp [*],
            fun other => ?_⟩
          simp [readNumbered, hread, hdrop, htrailing, hleading, htailread]
      · rename_i hleading
        cases h
        refine ⟨4, rfl, digits, rest, rfl, hlength, fun other => ?_⟩
        simp [readNumbered, hread, htrailing, hleading]

/-- An escape is decided by the characters that belong to it. -/
theorem readEscape_looksAt {s : List Char} {c : Char} {n : Nat} (h : readEscape s = .ok (c, n)) :
    LooksAt readEscape n s (c, n) := by
  unfold readEscape at h
  split at h
  · cases h
  -- Eight escapes are one character.
  iterate 8
    · cases h
      exact ⟨[_], _, rfl, rfl, fun _ => rfl⟩
  · obtain ⟨m, rfl, front, rest, rfl, rfl, hread⟩ := readNumbered_looksAt h
    exact ⟨'u' :: front, rest, rfl, rfl, hread⟩
  · cases h

/-- What is read of a string ends with its closing quote, and nothing behind that decides
it. -/
theorem readChars_eq_ok {done s rest : List Char} {passed : Nat} {t : String}
    (h : readChars done passed s = .ok (t, rest)) :
    ∃ front, s = front ++ rest ∧ passed < front.length ∧ EndsIn (· == '"') front ∧
      ∀ other, readChars done passed (front ++ other) = .ok (t, other) := by
  induction s generalizing done passed with
  | nil => cases h
  | cons c s ih =>
    cases passed with
    | succ n =>
      obtain ⟨front, rfl, hpassed, hlast, hread⟩ := ih h
      have hne := List.ne_nil_of_length_pos (Nat.zero_lt_of_lt hpassed)
      exact ⟨c :: front, rfl, by simpa using hpassed, hlast.behind hne [c], hread⟩
    | zero =>
      rw [readChars] at h
      split at h
      · rename_i hquote
        cases h
        refine ⟨[c], rfl, Nat.one_pos, endsIn_singleton (beq_of_eq hquote), fun other => ?_⟩
        rw [List.singleton_append, readChars, if_pos hquote]
      · rename_i hquote
        split at h
        · rename_i hbackslash
          split at h
          · cases h
          · rename_i e n hescape
            obtain ⟨front, rfl, hpassed, hlast, hread⟩ := ih h
            have hne := List.ne_nil_of_length_pos (Nat.zero_lt_of_lt hpassed)
            refine ⟨c :: front, rfl, Nat.succ_pos _, hlast.behind hne [c], fun other => ?_⟩
            rw [List.cons_append, readChars, if_neg hquote, if_pos hbackslash,
              (readEscape_looksAt hescape).append (Nat.le_of_lt hpassed)]
            exact hread other
        · rename_i hbackslash
          split at h
          · cases h
          · rename_i hcontrol
            obtain ⟨front, rfl, hpassed, hlast, hread⟩ := ih h
            have hne := List.ne_nil_of_length_pos (Nat.zero_lt_of_lt hpassed)
            refine ⟨c :: front, rfl, Nat.succ_pos _, hlast.behind hne [c], fun other => ?_⟩
            rw [List.cons_append, readChars, if_neg hquote, if_neg hbackslash, if_neg hcontrol]
            exact hread other

theorem isLocal_readString : IsLocal (· == '"') readString := by
  intro s t rest h
  obtain ⟨front, hs, -, hlast, hread⟩ := readChars_eq_ok h
  exact ⟨front, hs, hlast, fun other _ => hread other⟩

/-! ### Values without parts -/

theorem readLetters_eq_ok {letters s rest : List Char} (h : readLetters letters s = .ok rest) :
    s = letters ++ rest := by
  induction letters generalizing s with
  | nil => exact Except.ok.inj h
  | cons x letters ih =>
    cases s with
    | nil => cases h
    | cons c s =>
      rw [readLetters] at h
      split at h
      · rename_i hc
        rw [hc, ih h, List.cons_append]
      · cases h

/-- Whether a value can end with the character. -/
def endsValue (c : Char) : Bool :=
  c ∈ [']', '}', '"', 'l', 'e'] || c.isDigit

theorem endsValue_of_isDigit (c : Char) (h : c.isDigit = true) : endsValue c = true := by
  rw [endsValue, h, Bool.or_true]

theorem endsValue_quote (c : Char) (h : (c == '"') = true) : endsValue c = true := by
  rw [eq_of_beq h]
  decide

/-- **A value without parts is read off a front of the text**, and nothing behind that
which continues no number decides it. -/
theorem isLocal_readScalar : IsLocal endsValue readScalar := by
  intro s v rest h
  have hok := h
  unfold readScalar at h
  split at h
  · cases h
  · obtain ⟨rest, hletters, he⟩ := map_eq_ok h
    cases he
    cases readLetters_eq_ok hletters
    exact ⟨['n', 'u', 'l', 'l'], rfl, fun c hc => by cases hc; decide, fun other _ => rfl⟩
  · obtain ⟨rest, hletters, he⟩ := map_eq_ok h
    cases he
    cases readLetters_eq_ok hletters
    exact ⟨['t', 'r', 'u', 'e'], rfl, fun c hc => by cases hc; decide, fun other _ => rfl⟩
  · obtain ⟨rest, hletters, he⟩ := map_eq_ok h
    cases he
    cases readLetters_eq_ok hletters
    exact ⟨['f', 'a', 'l', 's', 'e'], rfl, fun c hc => by cases hc; decide, fun other _ => rfl⟩
  · have hlocal := (isLocal_readString.map Value.string).imp endsValue_quote
    refine hlocal.takes_cons (fun _ => rfl) (fun s v hv => ?_) hok
    obtain ⟨⟨t, rest⟩, ht, he⟩ := map_eq_ok hv
    cases he
    exact Nat.lt_irrefl _ (readString_length_lt ht)
  · split at h
    · obtain ⟨⟨n, rest⟩, hn, he⟩ := map_eq_ok h
      cases he
      obtain ⟨front, hs, hlast, hfront⟩ := isLocal_readNumber _ _ _ hn
      exact ⟨front, hs, fun c hc => endsValue_of_isDigit c (hlast c hc), fun other hother =>
        readScalar_number (hfront other hother)⟩
    · cases h

end DotQuery.Json
