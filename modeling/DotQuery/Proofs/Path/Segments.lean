import DotQuery.Path.Reader
import DotQuery.Proofs.Text.Numeral
import DotQuery.Proofs.Text.Scan

/-! Reading one segment.

A piece is a text without points. It spells a segment (`Spells`) if it is a key, or an
index in brackets with or without a key before it. The reader looks for a closing
bracket across points and checks the index only then; it still takes a whole piece or
fails (`readSegment_piece`). -/
namespace DotQuery.Path
open Text

/-! ### What a piece spells -/

/-- What a piece stands for. The sign of the root is that only by itself: before an
index it is a key. -/
inductive Spells : List Char → Segment → Prop where
  | root : Spells ['$'] .root
  | key {k : List Char} (ne_nil : k ≠ []) (ne_root : k ≠ ['$']) (no_bracket : '[' ∉ k) :
      Spells k (.key (String.ofList k))
  | keyIndex {k digits : List Char} {i : Nat} (ne_nil : k ≠ []) (no_bracket : '[' ∉ k)
      (number : Numeral digits i) (bound : i < 2 ^ 64) :
      Spells (k ++ '[' :: (digits ++ [']'])) (.keyIndex (String.ofList k) i)
  | index {digits : List Char} {i : Nat} (number : Numeral digits i) (bound : i < 2 ^ 64) :
      Spells ('[' :: (digits ++ [']'])) (.index i)

/-- A piece that is a segment: a key, or an index in brackets behind at most a key. -/
def IsSegment (piece : List Char) : Prop :=
  (piece ≠ [] ∧ '[' ∉ piece) ∨
    ∃ k digits i, '[' ∉ k ∧ Numeral digits i ∧ i < 2 ^ 64 ∧ piece = k ++ '[' :: (digits ++ [']'])

theorem Spells.indexed {k digits : List Char} {i : Nat} (hk : '[' ∉ k) (hd : Numeral digits i)
    (hi : i < 2 ^ 64) : Spells (k ++ '[' :: (digits ++ [']'])) (indexedSegment k i) := by
  cases k with
  | nil => exact .index hd hi
  | cons c k => exact .keyIndex (List.cons_ne_nil c k) hk hd hi

theorem Spells.exists_index {piece : List Char} {segment : Segment} (h : Spells piece segment)
    (hb : '[' ∈ piece) :
    ∃ k digits i, '[' ∉ k ∧ Numeral digits i ∧ i < 2 ^ 64 ∧
      piece = k ++ '[' :: (digits ++ [']']) ∧ segment = indexedSegment k i := by
  cases h with
  | root => exact absurd hb (by decide)
  | key _ _ hk => exact absurd hb hk
  | @keyIndex k digits i hne hk hd hi =>
    obtain ⟨c, k, rfl⟩ := List.exists_cons_of_ne_nil hne
    exact ⟨c :: k, digits, i, hk, hd, hi, rfl, rfl⟩
  | index hd hi => exact ⟨[], _, _, List.not_mem_nil, hd, hi, rfl, rfl⟩

theorem Spells.ne_nil {piece : List Char} {segment : Segment} (h : Spells piece segment) :
    piece ≠ [] := by
  cases h with
  | root => simp
  | key hne => exact hne
  | keyIndex => simp
  | index => simp

theorem isSegment_iff {piece : List Char} : IsSegment piece ↔ ∃ segment, Spells piece segment := by
  constructor
  · rintro (⟨hne, hb⟩ | ⟨k, digits, i, hk, hd, hi, rfl⟩)
    · by_cases hr : piece = ['$']
      · exact ⟨.root, hr ▸ .root⟩
      · exact ⟨_, .key hne hr hb⟩
    · exact ⟨_, .indexed hk hd hi⟩
  · intro h
    obtain ⟨_, h⟩ := h
    cases h with
    | root => exact .inl ⟨by decide, by decide⟩
    | key hne _ hb => exact .inl ⟨hne, hb⟩
    | keyIndex _ hb hd hi => exact .inr ⟨_, _, _, hb, hd, hi, rfl⟩
    | index hd hi => exact .inr ⟨[], _, _, List.not_mem_nil, hd, hi, rfl⟩

/-! ### Reading one segment -/

theorem isKeyChar_iff {c : Char} : isKeyChar c = true ↔ c ≠ '.' ∧ c ≠ '[' := by
  simp [isKeyChar]

theorem all_isKeyChar_iff {k : List Char} :
    (∀ c ∈ k, isKeyChar c = true) ↔ '.' ∉ k ∧ '[' ∉ k := by
  simp only [isKeyChar_iff]
  constructor
  · intro h
    exact ⟨fun hd => (h _ hd).1 rfl, fun hb => (h _ hb).2 rfl⟩
  · rintro ⟨hd, hb⟩ c hc
    exact ⟨fun he => hd (he ▸ hc), fun he => hb (he ▸ hc)⟩

/-- A text that a piece can end before: it is empty or starts with a point. -/
def EndsPiece (s : List Char) : Prop :=
  ∀ c ∈ s.head?, c = '.'

theorem EndsPiece.eq_nil_or {s : List Char} (h : EndsPiece s) : s = [] ∨ ∃ t, s = '.' :: t := by
  cases s with
  | nil => exact .inl rfl
  | cons c s => exact .inr ⟨s, by rw [h c rfl]⟩

theorem endsPiece_nil : EndsPiece [] := by
  intro c hc
  cases hc

theorem endsPiece_point (s : List Char) : EndsPiece ('.' :: s) := by
  intro c hc
  cases hc
  rfl

theorem EndsPiece.stops {s : List Char} (h : EndsPiece s) : Stops isKeyChar s := by
  intro c hc
  rw [h c hc]
  rfl

theorem indexOfText?_eq_some_iff {digits : List Char} {i : Nat} :
    indexOfText? digits = some i ↔ Numeral digits i ∧ i < 2 ^ 64 := by
  rw [numeral_iff]
  unfold indexOfText?
  by_cases hd : digits ≠ [] ∧ ∀ c ∈ digits, c.isDigit = true
  · have hb : (digits.isEmpty || !digits.all Char.isDigit) = false := by simpa using hd
    rw [hb]
    simp only [Bool.false_eq_true, if_false]
    split
    · rename_i hlt
      simp only [Option.some.injEq]
      exact ⟨fun h => ⟨⟨hd.1, hd.2, h⟩, h ▸ hlt⟩, fun h => h.1.2.2⟩
    · rename_i hge
      simp only [reduceCtorEq, false_iff]
      intro h
      obtain ⟨⟨_, _, rfl⟩, hlt⟩ := h
      exact hge hlt
  · have hb : (digits.isEmpty || !digits.all Char.isDigit) = true := by
      by_contra hb
      apply hd
      simpa using hb
    rw [hb]
    simp only [if_true, reduceCtorEq, false_iff]
    intro h
    obtain ⟨⟨hne, hall, _⟩, _⟩ := h
    exact hd ⟨hne, hall⟩

theorem readIndex_open (key : List Char) {s : List Char} (h : ']' ∉ s) :
    readIndex key s = .error ⟨.expected ']', []⟩ := by
  have hs : s.dropWhile (· != ']') = [] := by
    rw [List.dropWhile_eq_nil_iff]
    intro c hc
    simpa using fun he : c = ']' => h (he ▸ hc)
  simp only [readIndex, hs]

theorem scan_bracket {text : List Char} (rest : List Char) (h : ']' ∉ text) :
    (text ++ ']' :: rest).takeWhile (· != ']') = text ∧
      (text ++ ']' :: rest).dropWhile (· != ']') = ']' :: rest := by
  have ht : ∀ c ∈ text, (c != ']') = true := by
    intro c hc
    simpa using fun he : c = ']' => h (he ▸ hc)
  have hr : Stops (· != ']') (']' :: rest) := stops_cons rfl
  exact ⟨takeWhile_append_stops ht hr, dropWhile_append_stops ht hr⟩

theorem readSegment_bracket {k : List Char} (rest : List Char)
    (h : ∀ c ∈ k, isKeyChar c = true) : readSegment (k ++ '[' :: rest) = readIndex k rest := by
  have hr : Stops isKeyChar ('[' :: rest) := stops_cons rfl
  simp only [readSegment, takeWhile_append_stops h hr, dropWhile_append_stops h hr]

theorem readSegment_plain {k rest : List Char} (h : ∀ c ∈ k, isKeyChar c = true)
    (hr : EndsPiece rest) :
    readSegment (k ++ rest) =
      match plainSegment? k with
      | none => .error ⟨.emptySegment, k ++ rest⟩
      | some segment => .ok (segment, rest) := by
  simp only [readSegment, takeWhile_append_stops h hr.stops, dropWhile_append_stops h hr.stops]
  rcases hr.eq_nil_or with rfl | ⟨t, rfl⟩ <;> rfl

/-- The three ways in which the key at the front of a text can end. -/
theorem key_cases (s : List Char) :
    ∃ k rest, (∀ c ∈ k, isKeyChar c = true) ∧
      (s = k ++ '[' :: rest ∨ (s = k ++ rest ∧ EndsPiece rest)) := by
  obtain ⟨k, b, rfl, hk, hb⟩ := exists_scan isKeyChar s
  cases b with
  | nil => exact ⟨k, [], hk, .inr ⟨rfl, endsPiece_nil⟩⟩
  | cons c b =>
    by_cases hc : c = '['
    · exact ⟨k, b, hk, .inl (by rw [hc])⟩
    · refine ⟨k, c :: b, hk, .inr ⟨rfl, ?_⟩⟩
      intro d hd
      cases hd
      by_contra hp
      have := hb c rfl
      rw [isKeyChar_iff.2 ⟨hp, hc⟩] at this
      cases this

theorem plainSegment?_eq_some_iff {k : List Char} {segment : Segment} (h : '[' ∉ k) :
    plainSegment? k = some segment ↔ Spells k segment := by
  constructor
  · intro hs
    unfold plainSegment? at hs
    split at hs
    · cases hs
    · cases hs
      exact .root
    · rename_i hne hr
      cases hs
      exact .key hne hr h
  · intro hs
    cases hs with
    | root => rfl
    | key hne hr _ =>
      unfold plainSegment?
      split
      · exact absurd rfl hne
      · exact absurd rfl hr
      · rfl
    | keyIndex => simp at h
    | index => simp at h

theorem readIndex_eq_ok_iff {key s rest : List Char} {segment : Segment} :
    readIndex key s = .ok (segment, rest) ↔
      ∃ digits i, s = digits ++ ']' :: rest ∧ Numeral digits i ∧ i < 2 ^ 64 ∧
        segment = indexedSegment key i ∧ EndsPiece rest := by
  constructor
  · intro h
    obtain ⟨text, b, rfl, ht, hb⟩ := exists_scan (· != ']') s
    have hmem : ']' ∉ text := fun hc => by simpa using ht _ hc
    cases b with
    | nil =>
      rw [List.append_nil, readIndex_open key hmem] at h
      cases h
    | cons c b =>
      have hc : c = ']' := by simpa using hb c rfl
      subst hc
      obtain ⟨htake, hdrop⟩ := scan_bracket b hmem
      simp only [readIndex, htake, hdrop] at h
      split at h
      · cases h
      · rename_i i hi
        obtain ⟨hd, hlt⟩ := indexOfText?_eq_some_iff.1 hi
        split at h
        · cases h
          exact ⟨text, i, rfl, hd, hlt, rfl, endsPiece_nil⟩
        · cases h
          exact ⟨text, i, rfl, hd, hlt, rfl, endsPiece_point _⟩
        · cases h
  · intro h
    obtain ⟨digits, i, rfl, hd, hlt, rfl, hr⟩ := h
    have hmem : ']' ∉ digits := fun hc => absurd (hd.isDigit _ hc) (by decide)
    obtain ⟨htake, hdrop⟩ := scan_bracket rest hmem
    simp only [readIndex, htake, hdrop, indexOfText?_eq_some_iff.2 ⟨hd, hlt⟩]
    rcases hr.eq_nil_or with rfl | ⟨t, rfl⟩ <;> rfl

/-- **A segment is read exactly where a piece spells it** and a point or the end of
the text follows. -/
theorem readSegment_eq_ok_iff {s rest : List Char} {segment : Segment} :
    readSegment s = .ok (segment, rest) ↔
      ∃ piece, s = piece ++ rest ∧ '.' ∉ piece ∧ Spells piece segment ∧ EndsPiece rest := by
  constructor
  · intro h
    obtain ⟨k, b, hk, rfl | ⟨rfl, hb⟩⟩ := key_cases s
    · obtain ⟨hp, hbr⟩ := all_isKeyChar_iff.1 hk
      rw [readSegment_bracket b hk, readIndex_eq_ok_iff] at h
      obtain ⟨digits, i, rfl, hd, hlt, rfl, hr⟩ := h
      refine ⟨k ++ '[' :: (digits ++ [']']), by simp, ?_, .indexed hbr hd hlt, hr⟩
      have hpd : '.' ∉ digits := fun hc => absurd (hd.isDigit _ hc) (by decide)
      simp [hp, hpd]
    · obtain ⟨hp, hbr⟩ := all_isKeyChar_iff.1 hk
      rw [readSegment_plain hk hb] at h
      split at h
      · cases h
      · rename_i hs
        cases h
        exact ⟨k, rfl, hp, (plainSegment?_eq_some_iff hbr).1 hs, hb⟩
  · intro h
    obtain ⟨piece, rfl, hp, hs, hr⟩ := h
    by_cases hb : '[' ∈ piece
    · obtain ⟨k, digits, i, hk, hd, hlt, rfl, rfl⟩ := hs.exists_index hb
      have hkc : ∀ c ∈ k, isKeyChar c = true :=
        all_isKeyChar_iff.2 ⟨fun hc => hp (by simp [hc]), hk⟩
      rw [List.append_assoc, List.cons_append, List.append_assoc, readSegment_bracket _ hkc]
      exact readIndex_eq_ok_iff.2 ⟨digits, i, rfl, hd, hlt, rfl, hr⟩
    · rw [readSegment_plain (all_isKeyChar_iff.2 ⟨hp, hb⟩) hr,
        (plainSegment?_eq_some_iff hb).2 hs]

/-- The same at the front of a piece: the reader takes all of it or fails. -/
theorem readSegment_piece {piece rest : List Char} (hp : '.' ∉ piece) (hr : EndsPiece rest)
    (segment : Segment) (unread : List Char) :
    readSegment (piece ++ rest) = .ok (segment, unread) ↔ Spells piece segment ∧ unread = rest := by
  rw [readSegment_eq_ok_iff]
  constructor
  · intro h
    obtain ⟨taken, h, ht, hs, hu⟩ := h
    have not_point : ∀ {l : List Char}, '.' ∉ l → ∀ c ∈ l, (c != '.') = true := by
      intro l hl c hc
      simpa using fun he : c = '.' => hl (he ▸ hc)
    have stops : ∀ {l : List Char}, EndsPiece l → Stops (· != '.') l := by
      intro l hl c hc
      simp [hl c hc]
    obtain ⟨rfl, rfl⟩ := scan_unique h (not_point hp) (stops hr) (not_point ht) (stops hu)
    exact ⟨hs, rfl⟩
  · intro h
    obtain ⟨hs, rfl⟩ := h
    exact ⟨piece, rfl, hp, hs, hr⟩

end DotQuery.Path
