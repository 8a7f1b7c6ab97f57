import DotQuery.Json.Printer
import DotQuery.Json.Strings

/-! The text of a string is read back as the string.

What is written for a character is read as that character alone, whatever stands
behind it, so a string is read back character by character. -/
namespace DotQuery.Json

theorem hexValue?_control {n : Nat} (h : n < 0x20) :
    hexValue? '0' '0' (Nat.digitChar (n / 16)) (Nat.digitChar (n % 16)) = some n := by
  revert n
  decide

theorem readNumbered_control {c : Char} (h : c.toNat < 0x20) (rest : List Char) :
    readNumbered
        ('0' :: '0' :: Nat.digitChar (c.toNat / 16) :: Nat.digitChar (c.toNat % 16) :: rest) =
      .ok (c, 5) := by
  have htrailing : isTrailingSurrogate c.toNat = false := by
    rw [isTrailingSurrogate, decide_eq_false (by omega), Bool.false_and]
  have hleading : isLeadingSurrogate c.toNat = false := by
    rw [isLeadingSurrogate, decide_eq_false (by omega), Bool.false_and]
  simp [readNumbered, readHex, hexValue?_control h, htrailing, hleading]

/-- What is written for a character is read as it. -/
theorem readChars_escapedChar (done : List Char) (c : Char) (rest : List Char) :
    readChars done 0 (escapedChar c ++ rest) = readChars (c :: done) 0 rest := by
  unfold escapedChar
  -- Seven characters have a short escape.
  iterate 7
    split
    · rename_i h
      subst h
      rfl
  split
  · rename_i h
    have hescape := readNumbered_control h rest
    simp [readChars, readEscape, hescape]
  · rename_i hquote hbackslash _ _ _ _ _ hcontrol
    simp [readChars, hquote, hbackslash, hcontrol]

theorem readChars_flatMap (done s rest : List Char) :
    readChars done 0 (s.flatMap escapedChar ++ '"' :: rest) =
      .ok (String.ofList (done.reverse ++ s), rest) := by
  induction s generalizing done with
  | nil => simp [readChars]
  | cons c s ih =>
    rw [List.flatMap_cons, List.append_assoc, readChars_escapedChar, ih]
    simp

/-- **The text of a string is read back as it**, behind its opening quote. -/
theorem readString_text (s : String) (rest : List Char) :
    ∃ t, stringText s ++ rest = '"' :: t ∧ readString t = .ok (s, rest) := by
  refine ⟨s.toList.flatMap escapedChar ++ '"' :: rest, by simp [stringText], ?_⟩
  rw [readString, readChars_flatMap]
  simp

end DotQuery.Json
