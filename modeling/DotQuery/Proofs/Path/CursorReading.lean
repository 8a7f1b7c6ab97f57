import DotQuery.Path.Cursor
import DotQuery.Proofs.Path.Faults

/-! Where the cursor stands.

In every state of a reading the text is cut in two where the cursor stands, and the reader of
lists of characters, set to the text from the last segment on, comes to the result that the
steps come to. Both are one invariant (`Stands`) with a case for each point. -/
namespace DotQuery.Path.Cursor
open Text

/-- What comes of the whole text if `segments` were read of it and `read` comes of the rest. -/
def resultOf (s : List Char) (segments : List Segment) (read : Except Fault (List Segment)) :
    Except SyntaxError Path :=
  (read.map fun others => ⟨segments ++ others⟩).mapError (Fault.error s)

/-- Where the cursor stands in the text, and the result. In a segment, what was read of it is
kept apart from what was read before it, as the reader has to start from there. -/
inductive Stands (s : List Char) : Cursor → Except SyntaxError Path → Prop where
  | start : Stands s start ((readText s).mapError (Fault.error s))
  | segment (whole : s = front ++ body) :
      Stands s ⟨byteLength front, .segment, found⟩ (resultOf s found (readSegments body))
  | inKey (whole : s = front ++ (key ++ rest)) (plain : ∀ c ∈ key, isKeyChar c = true) :
      Stands s ⟨byteLength (front ++ key), .inKey (byteLength front), found⟩
        (resultOf s found (readSegments (key ++ rest)))
  | keyRead (whole : s = front ++ (key ++ rest)) (plain : ∀ c ∈ key, isKeyChar c = true)
      (stops : Stops isKeyChar rest) :
      Stands s ⟨byteLength (front ++ key), .keyRead (byteLength front) key, found⟩
        (resultOf s found (readSegments (key ++ rest)))
  | inIndex (whole : s = front ++ key ++ ['['] ++ (text ++ rest))
      (plain : ∀ c ∈ key, isKeyChar c = true) (no_close : ']' ∉ text) :
      Stands s
        ⟨byteLength (front ++ key ++ ['['] ++ text),
          .inIndex key (byteLength (front ++ key ++ ['['])), found⟩
        (resultOf s found (readSegments (key ++ '[' :: (text ++ rest))))
  | indexRead (whole : s = front ++ key ++ ['['] ++ (text ++ ']' :: rest))
      (plain : ∀ c ∈ key, isKeyChar c = true) (no_close : ']' ∉ text) :
      Stands s
        ⟨byteLength (front ++ key ++ ['['] ++ text),
          .indexRead key (byteLength (front ++ key ++ ['['])) text, found⟩
        (resultOf s found (readSegments (key ++ '[' :: (text ++ ']' :: rest))))
  | closed (whole : s = front ++ key ++ ['['] ++ (text ++ ']' :: rest))
      (plain : ∀ c ∈ key, isKeyChar c = true) (no_close : ']' ∉ text) :
      Stands s
        ⟨byteLength (front ++ key ++ ['['] ++ (text ++ [']'])),
          .closed key (byteLength (front ++ key ++ ['['])) text, found⟩
        (resultOf s found (readSegments (key ++ '[' :: (text ++ ']' :: rest))))
  | atEnd : Stands s ⟨byteLength s, .segmentRead, found⟩ (.ok ⟨found⟩)
  | atPoint (whole : s = front ++ '.' :: rest) :
      Stands s ⟨byteLength front, .segmentRead, found⟩ (resultOf s found (readSegments rest))

variable {s : List Char} {r : Cursor} {result : Except SyntaxError Path}

theorem Stands.exists_split (h : Stands s r result) :
    ∃ front rest, s = front ++ rest ∧ r.position = byteLength front := by
  cases h with
  | start => exact ⟨[], s, rfl, rfl⟩
  | segment whole => exact ⟨_, _, whole, rfl⟩
  | inKey whole | keyRead whole | inIndex whole | indexRead whole =>
    exact ⟨_, _, whole.trans (List.append_assoc ..).symm, rfl⟩
  | @closed _ _ _ rest _ whole =>
    refine ⟨_, rest, whole.trans ?_, rfl⟩
    simp
  | atEnd => exact ⟨s, [], (List.append_nil s).symm, rfl⟩
  | atPoint whole => exact ⟨_, _, whole, rfl⟩

/-- The step from here is the result, or the cursor then stands where the result is the same. -/
def Continues (s : List Char) (r : Cursor) (result : Except SyntaxError Path) : Prop :=
  step s r = some (.inr result) ∨ ∃ r', step s r = some (.inl r') ∧ Stands s r' result

theorem continues_fails {position : Nat} {cause : SyntaxCause}
    (hstep : step s r = some (fail position cause)) (h : result = .error ⟨position, cause⟩) :
    Continues s r result :=
  .inl (h ▸ hstep)

/-! ### What the reader makes of a segment -/

variable {front key text rest body : List Char} {found : List Segment} {segment : Segment}

theorem resultOf_error {unread : List Char} {cause : SyntaxCause} (whole : s = front ++ unread)
    (h : readSegment body = .error ⟨cause, unread⟩) :
    resultOf s found (readSegments body) = .error ⟨byteLength front, cause⟩ := by
  have hposition := Fault.position_error ⟨cause, unread⟩ front
  rw [readSegments_error h, whole, ← hposition]
  rfl

theorem resultOf_map (found : List Segment) (segment : Segment)
    (read : Except Fault (List Segment)) :
    resultOf s found (read.map (segment :: ·)) = resultOf s (found ++ [segment]) read := by
  cases read with
  | error => rfl
  | ok others => simp [resultOf, Except.map, Except.mapError]

/-- Behind a segment the text ends or has a point. -/
theorem Stands.push (whole : s = front ++ rest) (h : readSegment body = .ok (segment, rest)) :
    Stands s ⟨byteLength front, .segmentRead, found ++ [segment]⟩
      (resultOf s found (readSegments body)) := by
  obtain ⟨-, -, -, -, ends⟩ := readSegment_eq_ok_iff.1 h
  rcases ends.eq_nil_or with rfl | ⟨rest, rfl⟩
  · rw [readSegments_last h, whole, List.append_nil]
    exact .atEnd
  · rw [readSegments_point h, resultOf_map]
    exact .atPoint whole

/-! ### The step that a point takes -/

/-- The next character is in a class, or a scan of the class stops here. -/
theorem head?_filter_cases (p : Char → Bool) (rest : List Char) :
    (rest.head?.filter p = none ∧ Stops p rest) ∨
      ∃ c t, rest = c :: t ∧ p c = true ∧ rest.head?.filter p = some c := by
  cases hnext : rest.head?.filter p with
  | none =>
    refine .inl ⟨rfl, fun c hc => ?_⟩
    simpa using Option.filter_eq_none_iff.1 hnext c hc
  | some c =>
    obtain ⟨hhead, hc⟩ := Option.filter_eq_some_iff.1 hnext
    obtain ⟨t, rfl⟩ := List.head?_eq_some_iff.1 hhead
    exact .inr ⟨c, t, rfl, hc, rfl⟩

theorem continues_start : Continues s start ((readText s).mapError (Fault.error s)) := by
  cases s with
  | nil => exact .inl rfl
  | cons c s =>
    have hlength : ¬ byteLength (c :: s) ≤ 0 := by
      have := byteLength_pos_of_cons c s
      omega
    exact .inr ⟨_, if_neg hlength, .segment (List.nil_append _).symm⟩

theorem continues_inKey (whole : s = front ++ (key ++ rest))
    (plain : ∀ c ∈ key, isKeyChar c = true) :
    Continues s ⟨byteLength (front ++ key), .inKey (byteLength front), found⟩
      (resultOf s found (readSegments (key ++ rest))) := by
  have hpeek : peek? s (byteLength (front ++ key)) = some rest.head? :=
    whole ▸ peek?_behind front key rest
  have hslice : slice? s (byteLength front) (byteLength (front ++ key)) = some key :=
    whole ▸ slice?_append front key rest
  rcases head?_filter_cases isKeyChar rest with ⟨hnext, stops⟩ | ⟨c, rest, rfl, hc, hnext⟩
  · refine .inr ⟨_, ?_, .keyRead whole plain stops⟩
    simp only [step, hpeek, hslice, hnext, Option.bind_some, Option.map_some]
    rfl
  · refine .inr ⟨_, by simp only [step, hpeek, hnext, Option.bind_some]; rfl, ?_⟩
    rw [List.append_cons] at whole ⊢
    have hbehind :
        Stands s ⟨byteLength (front ++ (key ++ [c])), .inKey (byteLength front), found⟩ _ :=
      .inKey whole (by simpa [or_imp, forall_and, hc] using plain)
    rwa [← List.append_assoc, byteLength_append_one] at hbehind

theorem continues_keyRead (whole : s = front ++ (key ++ rest))
    (plain : ∀ c ∈ key, isKeyChar c = true) (stops : Stops isKeyChar rest) :
    Continues s ⟨byteLength (front ++ key), .keyRead (byteLength front) key, found⟩
      (resultOf s found (readSegments (key ++ rest))) := by
  have hpeek : peek? s (byteLength (front ++ key)) = some rest.head? :=
    whole ▸ peek?_behind front key rest
  by_cases hbracket : rest.head? = some '['
  · obtain ⟨rest, rfl⟩ := List.head?_eq_some_iff.1 hbracket
    refine .inr ⟨_, by simp only [step, hpeek, Option.map_some, hbracket, if_true]; rfl, ?_⟩
    have hwhole : s = front ++ key ++ ['['] ++ ([] ++ rest) := by simpa using whole
    have hbehind :
        Stands s ⟨byteLength (front ++ key ++ ['['] ++ []),
          .inIndex key (byteLength (front ++ key ++ ['['])), found⟩ _ :=
      .inIndex hwhole plain List.not_mem_nil
    rwa [List.append_nil, byteLength_append_one] at hbehind
  · have ends : EndsPiece rest := by
      intro c hc
      by_contra hpoint
      have := stops c hc
      rw [isKeyChar_iff.2 ⟨hpoint, fun he => hbracket (he ▸ hc)⟩] at this
      cases this
    have hread := readSegment_plain plain ends
    cases hkey : plainSegment? key with
    | none =>
      rw [hkey] at hread
      refine continues_fails ?_ (resultOf_error whole hread)
      simp only [step, hpeek, Option.map_some, hbracket, if_false, hkey]
    | some segment =>
      rw [hkey] at hread
      refine .inr ⟨_, ?_, .push (whole.trans (List.append_assoc ..).symm) hread⟩
      simp only [step, hpeek, Option.map_some, hbracket, if_false, hkey]
      rfl

theorem continues_inIndex (whole : s = front ++ key ++ ['['] ++ (text ++ rest))
    (plain : ∀ c ∈ key, isKeyChar c = true) (no_close : ']' ∉ text) :
    Continues s
      ⟨byteLength (front ++ key ++ ['['] ++ text),
        .inIndex key (byteLength (front ++ key ++ ['['])), found⟩
      (resultOf s found (readSegments (key ++ '[' :: (text ++ rest)))) := by
  have hpeek : peek? s (byteLength (front ++ key ++ ['['] ++ text)) = some rest.head? :=
    whole ▸ peek?_behind (front ++ key ++ ['[']) text rest
  have hslice :
      slice? s (byteLength (front ++ key ++ ['['])) (byteLength (front ++ key ++ ['['] ++ text)) =
        some text :=
    whole ▸ slice?_append (front ++ key ++ ['[']) text rest
  cases rest with
  | nil =>
    have hread : readSegment (key ++ '[' :: (text ++ [])) = .error ⟨.expected ']', []⟩ := by
      rw [readSegment_bracket _ plain, List.append_nil, readIndex_open key no_close]
    refine continues_fails ?_ (resultOf_error (whole.trans (List.append_assoc ..).symm) hread)
    simp only [step, hpeek, Option.bind_some, List.head?_nil]
  | cons c rest =>
    by_cases hc : c = ']'
    · subst hc
      refine .inr ⟨_, ?_, .indexRead whole plain no_close⟩
      simp only [step, hpeek, hslice, Option.bind_some, List.head?_cons, if_true, Option.map_some]
      rfl
    · refine .inr
        ⟨_, by simp only [step, hpeek, Option.bind_some, List.head?_cons, if_neg hc]; rfl, ?_⟩
      rw [List.append_cons text] at whole ⊢
      have hbehind :
          Stands s ⟨byteLength (front ++ key ++ ['['] ++ (text ++ [c])),
            .inIndex key (byteLength (front ++ key ++ ['['])), found⟩ _ :=
        .inIndex whole plain (by simp [no_close, Ne.symm hc])
      rwa [← List.append_assoc, byteLength_append_one] at hbehind

theorem continues_indexRead (whole : s = front ++ key ++ ['['] ++ (text ++ ']' :: rest))
    (plain : ∀ c ∈ key, isKeyChar c = true) (no_close : ']' ∉ text) :
    Continues s
      ⟨byteLength (front ++ key ++ ['['] ++ text),
        .indexRead key (byteLength (front ++ key ++ ['['])) text, found⟩
      (resultOf s found (readSegments (key ++ '[' :: (text ++ ']' :: rest)))) := by
  have hpeek : peek? s (byteLength (front ++ key ++ ['['] ++ text)) = some (some ']') :=
    whole ▸ peek?_behind (front ++ key ++ ['[']) text (']' :: rest)
  refine .inr ⟨_, by simp only [step, hpeek, Option.map_some, if_true]; rfl, ?_⟩
  have hbehind :
      Stands s ⟨byteLength (front ++ key ++ ['['] ++ (text ++ [']'])),
        .closed key (byteLength (front ++ key ++ ['['])) text, found⟩ _ :=
    .closed whole plain no_close
  rwa [← List.append_assoc, byteLength_append_one] at hbehind

theorem continues_closed (whole : s = front ++ key ++ ['['] ++ (text ++ ']' :: rest))
    (plain : ∀ c ∈ key, isKeyChar c = true) (no_close : ']' ∉ text) :
    Continues s
      ⟨byteLength (front ++ key ++ ['['] ++ (text ++ [']'])),
        .closed key (byteLength (front ++ key ++ ['['])) text, found⟩
      (resultOf s found (readSegments (key ++ '[' :: (text ++ ']' :: rest)))) := by
  have hbehind : s = front ++ key ++ ['['] ++ (text ++ [']']) ++ rest := by simpa using whole
  have hpeek : peek? s (byteLength (front ++ key ++ ['['] ++ (text ++ [']']))) = some rest.head? :=
    hbehind ▸ peek?_append (front ++ key ++ ['['] ++ (text ++ [']'])) rest
  obtain ⟨htake, hdrop⟩ := scan_bracket rest no_close
  have hbracket := readSegment_bracket (text ++ ']' :: rest) plain
  cases hindex : indexOfText? text with
  | none =>
    have hread : readSegment (key ++ '[' :: (text ++ ']' :: rest)) =
        .error ⟨.invalidIndex (String.ofList text), text ++ ']' :: rest⟩ := by
      simp only [hbracket, readIndex, htake, hdrop, hindex]
    exact continues_fails (by simp only [step, hindex]) (resultOf_error whole hread)
  | some index =>
    rcases head?_filter_cases (· != '.') rest with ⟨hnext, stops⟩ | ⟨c, rest, rfl, hc, hnext⟩
    · have ends : EndsPiece rest := fun c hc => by simpa using stops c hc
      obtain ⟨number, bound⟩ := indexOfText?_eq_some_iff.1 hindex
      have hread := hbracket.trans
        (readIndex_eq_ok_iff.2 ⟨text, index, rfl, number, bound, rfl, ends⟩)
      refine .inr ⟨_, ?_, .push hbehind hread⟩
      simp only [step, hindex, hpeek, hnext, Option.map_some]
      rfl
    · have hpoint : c ≠ '.' := by simpa using hc
      have hread : readSegment (key ++ '[' :: (text ++ ']' :: c :: rest)) =
          .error ⟨.unexpectedAfterIndex c, c :: rest⟩ := by
        simp only [hbracket, readIndex, htake, hdrop, hindex]
      refine continues_fails ?_ (resultOf_error hbehind hread)
      simp only [step, hindex, hpeek, hnext, Option.map_some]

theorem not_length_le_of_point (whole : s = front ++ '.' :: rest) :
    ¬ byteLength s ≤ byteLength front := by
  have := byteLength_pos_of_cons '.' rest
  rw [whole, byteLength_append]
  omega

theorem continues_atPoint (whole : s = front ++ '.' :: rest) :
    Continues s ⟨byteLength front, .segmentRead, found⟩
      (resultOf s found (readSegments rest)) := by
  have hpeek : peek? s (byteLength front) = some (some '.') :=
    whole ▸ peek?_append front ('.' :: rest)
  have hlength := not_length_le_of_point whole
  refine .inr
    ⟨_, by simp only [step, if_neg hlength, hpeek, Option.map_some, if_true]; rfl, ?_⟩
  rw [List.append_cons] at whole
  have hbehind : Stands s ⟨byteLength (front ++ ['.']), .segment, found⟩ _ := .segment whole
  rwa [byteLength_append_one] at hbehind

/-- The step from where the cursor stands exists, and it keeps the result. -/
theorem Stands.continues (h : Stands s r result) : Continues s r result := by
  cases h with
  | start => exact continues_start
  | @segment front body found whole =>
    have hbegin :
        Stands s ⟨byteLength (front ++ []), .inKey (byteLength front), found⟩
          (resultOf s found (readSegments ([] ++ body))) :=
      .inKey whole (by simp)
    rw [List.append_nil] at hbegin
    exact .inr ⟨_, rfl, hbegin⟩
  | inKey whole plain => exact continues_inKey whole plain
  | keyRead whole plain stops => exact continues_keyRead whole plain stops
  | inIndex whole plain no_close => exact continues_inIndex whole plain no_close
  | indexRead whole plain no_close => exact continues_indexRead whole plain no_close
  | closed whole plain no_close => exact continues_closed whole plain no_close
  | atEnd => exact .inl (if_pos (Nat.le_refl _))
  | atPoint whole => exact continues_atPoint whole

end DotQuery.Path.Cursor
