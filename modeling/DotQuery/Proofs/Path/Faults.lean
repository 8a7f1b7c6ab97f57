import DotQuery.Proofs.Path.Joining

/-! Where and why a text is no path.

The first piece that is no segment decides. If it is empty, that is the fault, and it
stands where the piece starts. If not, the piece has a bracket, and what follows its
first bracket decides, be it part of the piece or not (`Fails`): nothing closes the
bracket, what it encloses is no index, or the index is not the end of a piece. The
reader reports just that, although it never looks for the ends of pieces. -/
namespace DotQuery.Path
open Text

/-! ### What a bad piece is blamed for -/

/-- The pieces, each with the point behind it. -/
def frontOf (good : List (List Char)) : List Char :=
  good.flatMap (· ++ ['.'])

/-- The text writes no index: it is empty, holds something other than a digit, or writes
a number that is too great. -/
def NoIndex (s : List Char) : Prop :=
  s = [] ∨ (∃ c ∈ s, c.isDigit = false) ∨ ∃ i, Numeral s i ∧ 2 ^ 64 ≤ i

/-- At which byte a text fails, and what is said. The text is `front` and then `rest`,
which starts with the bad piece; `k` is what the piece has before its first bracket. -/
inductive Fails (front piece rest : List Char) : Nat → String → Prop where
  | empty (nil : piece = []) : Fails front piece rest (byteLength front) "empty segment"
  | unclosed {k inner behind : List Char} (bracket : piece = k ++ '[' :: inner)
      (first : '[' ∉ k) (text : rest = k ++ '[' :: behind) (no_close : ']' ∉ behind) :
      Fails front piece rest (byteLength (front ++ rest)) "expected ']'"
  | noIndex {k inner enclosed behind : List Char} (bracket : piece = k ++ '[' :: inner)
      (first : '[' ∉ k) (text : rest = k ++ '[' :: (enclosed ++ ']' :: behind))
      (close : ']' ∉ enclosed) (invalid : NoIndex enclosed) :
      Fails front piece rest (byteLength (front ++ k) + 1)
        ("invalid index `" ++ String.ofList enclosed ++ "`")
  | goesOn {k inner digits behind : List Char} {i : Nat} {c : Char}
      (bracket : piece = k ++ '[' :: inner) (first : '[' ∉ k)
      (text : rest = k ++ '[' :: (digits ++ ']' :: c :: behind))
      (number : Numeral digits i) (bound : i < 2 ^ 64) (no_point : c ≠ '.') :
      Fails front piece rest (byteLength (front ++ k ++ '[' :: (digits ++ [']'])))
        ("unexpected `" ++ c.toString ++ "` after index")

/-- At which byte the text fails and what is said: `piece` is the first of its pieces that
is no segment, and `rest` is the text from that piece on. -/
inductive FirstFault (text : String) (position : Nat) (message : String) : Prop where
  | intro {good others : List (List Char)} {piece rest : List Char} (ne_empty : text ≠ "")
      (split : pieces text = good ++ piece :: others) (segments : ∀ q ∈ good, IsSegment q)
      (bad : ¬ IsSegment piece) (start : text.toList = frontOf good ++ rest)
      (fails : Fails (frontOf good) piece rest position message)

/-! ### Indices -/

theorem indexOfText?_eq_none {s : List Char} (h : NoIndex s) : indexOfText? s = none := by
  rw [Option.eq_none_iff_forall_not_mem]
  intro i hi
  obtain ⟨number, hlt⟩ := indexOfText?_eq_some_iff.1 hi
  rcases h with rfl | ⟨c, hc, hdigit⟩ | ⟨j, hj, hle⟩
  · exact number.ne_nil rfl
  · rw [number.isDigit c hc] at hdigit
    cases hdigit
  · have := number.value.symm.trans hj.value
    omega

theorem index_cases (s : List Char) : NoIndex s ∨ ∃ i, Numeral s i ∧ i < 2 ^ 64 := by
  by_cases hnil : s = []
  · exact .inl (.inl hnil)
  by_cases hdigit : ∃ c ∈ s, c.isDigit = false
  · exact .inl (.inr (.inl hdigit))
  have number : Numeral s (digitsValue s) := by
    refine numeral_iff.2 ⟨hnil, fun c hc => ?_, rfl⟩
    by_contra hno
    exact hdigit ⟨c, hc, by simpa using hno⟩
  by_cases hlt : digitsValue s < 2 ^ 64
  · exact .inr ⟨_, number, hlt⟩
  · exact .inl (.inr (.inr ⟨_, number, Nat.le_of_not_lt hlt⟩))

/-! ### A bad piece -/

/-- A fault stands behind what has been read. -/
theorem Fault.position_error (f : Fault) (read : List Char) :
    (f.error (read ++ f.unread)).position = byteLength read := by
  simp [error]

theorem readSegment_first_bracket {piece k inner rest behind : List Char} (hp : '.' ∉ piece)
    (hpiece : piece = k ++ '[' :: inner) (hk : '[' ∉ k) (htext : rest = k ++ '[' :: behind) :
    readSegment rest = readIndex k behind := by
  have hno : '.' ∉ k := fun hc => hp (hpiece ▸ List.mem_append_left _ hc)
  rw [htext]
  exact readSegment_bracket behind (all_isKeyChar_iff.2 ⟨hno, hk⟩)

section
variable {piece rest tail : List Char} (hp : '.' ∉ piece) (hrest : rest = piece ++ tail)
  (htail : EndsPiece tail)
include hp hrest htail

/-- The reader blames a piece for what it fails for. -/
theorem Fails.readSegment_eq {front : List Char} {position : Nat} {message : String}
    (h : Fails front piece rest position message) :
    ∃ f, readSegment rest = .error f ∧ (f.error (front ++ rest)).position = position ∧
      f.cause.message = message := by
  cases h with
  | empty hnil =>
    have hrest : rest = tail := by simpa [hnil] using hrest
    rw [hrest]
    exact ⟨⟨.emptySegment, tail⟩, readSegment_plain (k := []) (by simp) htail,
      Fault.position_error ⟨.emptySegment, tail⟩ front, rfl⟩
  | unclosed hpiece hk htext hclose =>
    refine ⟨⟨.expected ']', []⟩, ?_, ?_, rfl⟩
    · rw [readSegment_first_bracket hp hpiece hk htext, readIndex_open _ hclose]
    · simpa using Fault.position_error ⟨.expected ']', []⟩ (front ++ rest)
  | @noIndex k _ enclosed behind hpiece hk htext hclose hinvalid =>
    let f : Fault := ⟨.invalidIndex (String.ofList enclosed), enclosed ++ ']' :: behind⟩
    refine ⟨f, ?_, ?_, rfl⟩
    · obtain ⟨htake, hdrop⟩ := scan_bracket behind hclose
      rw [readSegment_first_bracket hp hpiece hk htext]
      simp only [readIndex, htake, hdrop, indexOfText?_eq_none hinvalid, f]
    · have hread : front ++ rest = (front ++ k ++ ['[']) ++ f.unread := by simp [htext, f]
      rw [hread, Fault.position_error, byteLength_append]
      rfl
  | @goesOn k _ digits behind i c hpiece hk htext number hlt hpoint =>
    let f : Fault := ⟨.unexpectedAfterIndex c, c :: behind⟩
    refine ⟨f, ?_, ?_, rfl⟩
    · have hclose : ']' ∉ digits := fun hc => absurd (number.isDigit _ hc) (by decide)
      obtain ⟨htake, hdrop⟩ := scan_bracket (c :: behind) hclose
      rw [readSegment_first_bracket hp hpiece hk htext]
      simp only [readIndex, htake, hdrop, indexOfText?_eq_some_iff.2 ⟨number, hlt⟩, f]
    · have hread : front ++ rest = (front ++ k ++ '[' :: (digits ++ [']'])) ++ f.unread := by
        simp [htext, f]
      rw [hread, Fault.position_error]

/-- A piece that is no segment fails. -/
theorem exists_fails (hbad : ¬ IsSegment piece) (front : List Char) :
    ∃ position message, Fails front piece rest position message := by
  by_cases hnil : piece = []
  · exact ⟨_, _, .empty hnil⟩
  have hbracket : '[' ∈ piece := by
    by_contra hno
    exact hbad (.inl ⟨hnil, hno⟩)
  obtain ⟨k, inner, hpiece, hk⟩ := List.eq_append_cons_of_mem hbracket
  have htext : rest = k ++ '[' :: (inner ++ tail) := by simp [hrest, hpiece]
  by_cases hclose : ']' ∈ inner ++ tail
  · obtain ⟨enclosed, behind, hsplit, hno⟩ := List.eq_append_cons_of_mem hclose
    rw [hsplit] at htext
    rcases index_cases enclosed with hinvalid | ⟨i, number, hlt⟩
    · exact ⟨_, _, .noIndex hpiece hk htext hno hinvalid⟩
    · -- if the piece ended behind the index, it would be a segment
      have goes_on : ¬ EndsPiece behind := by
        intro hend
        have hread : readSegment rest = .ok (indexedSegment k i, behind) := by
          rw [readSegment_first_bracket hp hpiece hk htext, readIndex_eq_ok_iff]
          exact ⟨enclosed, i, rfl, number, hlt, rfl, hend⟩
        rw [hrest, readSegment_piece hp htail] at hread
        exact hbad (isSegment_iff.2 ⟨_, hread.1⟩)
      cases behind with
      | nil => exact absurd endsPiece_nil goes_on
      | cons c behind =>
        have hpoint : c ≠ '.' := by
          rintro rfl
          exact goes_on (endsPiece_point behind)
        exact ⟨_, _, .goesOn hpiece hk htext number hlt hpoint⟩
  · exact ⟨_, _, .unclosed hpiece hk htext hclose⟩

end

theorem Fails.message_ne {front piece rest : List Char} {position : Nat} {message : String}
    (h : Fails front piece rest position message) : message ≠ "expected '.'" := by
  intro he
  cases h with
  | empty => exact absurd he (by decide)
  | unclosed => exact absurd he (by decide)
  | noIndex => simp [← String.toList_inj] at he
  | goesOn => simp [← String.toList_inj] at he

/-! ### The first bad piece -/

theorem exists_first_bad {ps : List (List Char)} (h : ¬ ∀ piece ∈ ps, IsSegment piece) :
    ∃ good piece others, ps = good ++ piece :: others ∧ (∀ q ∈ good, IsSegment q) ∧
      ¬ IsSegment piece := by
  classical
  obtain ⟨piece, hfind⟩ : ∃ piece, ps.find? (fun q => !decide (IsSegment q)) = some piece := by
    rw [← Option.isSome_iff_exists, List.find?_isSome]
    simpa using h
  obtain ⟨hbad, good, others, hsplit, hgood⟩ := List.find?_eq_some_iff_append.1 hfind
  exact ⟨good, piece, others, hsplit, by simpa using hgood, by simpa using hbad⟩

theorem intercalate_pieces (text : String) : ['.'].intercalate (pieces text) = text.toList :=
  List.intercalate_splitOn '.'

theorem intercalate_front (good : List (List Char)) (piece : List Char)
    (others : List (List Char)) :
    ['.'].intercalate (good ++ piece :: others) =
      frontOf good ++ ['.'].intercalate (piece :: others) := by
  induction good with
  | nil => rfl
  | cons q good ih =>
    have hne : good ++ piece :: others ≠ [] := by simp
    rw [List.cons_append, List.intercalate_cons_of_ne_nil hne, ih]
    simp [frontOf]

/-- Behind segments the reader finds the fault that it would find alone. -/
theorem readSegments_front {good : List (List Char)} (hp : ∀ q ∈ good, '.' ∉ q)
    (hgood : ∀ q ∈ good, IsSegment q) {rest : List Char} {f : Fault}
    (h : readSegments rest = .error f) : readSegments (frontOf good ++ rest) = .error f := by
  induction good with
  | nil => exact h
  | cons q good ih =>
    rw [List.forall_mem_cons] at hp hgood
    obtain ⟨segment, hs⟩ := isSegment_iff.1 hgood.1
    have hread := (readSegment_piece hp.1 (endsPiece_point (frontOf good ++ rest)) segment _).2
      ⟨hs, rfl⟩
    have htext : frontOf (q :: good) ++ rest = q ++ '.' :: (frontOf good ++ rest) := by
      simp [frontOf]
    rw [htext, readSegments_point hread, ih hp.2 hgood.2]
    rfl

/-! ### Texts -/

section
variable {text : String} {good others : List (List Char)} {piece : List Char}
  (hsplit : pieces text = good ++ piece :: others)
include hsplit

theorem no_point_of_split : (∀ q ∈ good, '.' ∉ q) ∧ '.' ∉ piece := by
  have hno : ∀ q ∈ good ++ piece :: others, '.' ∉ q :=
    hsplit ▸ no_point_of_mem_splitOn text.toList
  rw [List.forall_mem_append, List.forall_mem_cons] at hno
  exact ⟨hno.1, hno.2.1⟩

/-- From a piece on, the text goes on with the piece and then ends or has a point. -/
theorem exists_tail : ∃ tail, text.toList = frontOf good ++ (piece ++ tail) ∧ EndsPiece tail := by
  rw [← intercalate_pieces, hsplit, intercalate_front]
  cases others with
  | nil => exact ⟨[], by simp, endsPiece_nil⟩
  | cons q others =>
    exact ⟨'.' :: ['.'].intercalate (q :: others), by simp, endsPiece_point _⟩

end

variable {text : String}

theorem ne_empty_of_parse_eq_error {e : SyntaxError} (h : parse text = .error e) : text ≠ "" := by
  rintro rfl
  cases h

theorem FirstFault.parse_eq {position : Nat} {message : String}
    (h : FirstFault text position message) :
    ∃ e, parse text = .error e ∧ e.position = position ∧ e.cause.message = message := by
  obtain @⟨good, others, piece, rest, hne, hsplit, hgood, -, hstart, hfails⟩ := h
  obtain ⟨hnoGood, hno⟩ := no_point_of_split hsplit
  obtain ⟨tail, htext, htail⟩ := exists_tail hsplit
  have hrest : rest = piece ++ tail := List.append_cancel_left (hstart.symm.trans htext)
  obtain ⟨f, hread, hposition, hmessage⟩ := hfails.readSegment_eq hno hrest htail
  have hfault : readSegments text.toList = .error f := by
    rw [hstart]
    exact readSegments_front hnoGood hgood (readSegments_error hread)
  rw [← hstart] at hposition
  exact ⟨f.error text.toList, (parse_eq_error_iff hne).2 ⟨f, hfault, rfl⟩, hposition, hmessage⟩

theorem exists_firstFault {e : SyntaxError} (h : parse text = .error e) :
    ∃ position message, FirstFault text position message := by
  have hne := ne_empty_of_parse_eq_error h
  have hbad : ¬ ∀ piece ∈ pieces text, IsSegment piece := by
    rw [← exists_spells_iff]
    rintro ⟨segments, hs⟩
    have hok : parse text = .ok ⟨segments⟩ := parse_eq_ok_iff.2 (.inr ⟨hne, hs⟩)
    rw [h] at hok
    cases hok
  obtain ⟨good, piece, others, hsplit, hgood, hbad⟩ := exists_first_bad hbad
  obtain ⟨tail, htext, htail⟩ := exists_tail hsplit
  obtain ⟨position, message, hfails⟩ :=
    exists_fails (no_point_of_split hsplit).2 rfl htail hbad (frontOf good)
  exact ⟨position, message, .intro hne hsplit hgood hbad htext hfails⟩

/-- Where a text is cut in two is no byte inside a character. -/
theorem isValid_of_append {front rest : List Char} (h : text.toList = front ++ rest) :
    (⟨byteLength front⟩ : String.Pos.Raw).IsValid text := by
  refine String.Pos.Raw.isValid_iff_exists_append.2
    ⟨String.ofList front, String.ofList rest, ?_, ?_⟩
  · rw [← String.ofList_append, ← h, String.ofList_toList]
  · rw [byteLength_ofList]
    rfl

/-- A fault does not stand inside a character. -/
theorem isValid_position {e : SyntaxError} (h : parse text = .error e) :
    (⟨e.position⟩ : String.Pos.Raw).IsValid text := by
  obtain ⟨f, hf, rfl⟩ := (parse_eq_error_iff (ne_empty_of_parse_eq_error h)).1 h
  obtain ⟨read, hread⟩ := readSegments_unread hf
  rw [← hread, Fault.position_error]
  exact isValid_of_append hread.symm

/-- **A text is refused for its first piece that is no segment**, at the byte and with the
words that this piece and what follows its first bracket call for, and with no others.
In particular the reader never misses a point behind a segment, and it never names a
byte inside a character. -/
theorem parse_error_iff_firstFault (text : String) :
    (∀ position message,
      (∃ e, parse text = .error e ∧ e.position = position ∧ e.cause.message = message) ↔
        FirstFault text position message) ∧
    ∀ e, parse text = .error e →
      e.cause ≠ .expected '.' ∧ (⟨e.position⟩ : String.Pos.Raw).IsValid text := by
  have blamed : ∀ e, parse text = .error e → FirstFault text e.position e.cause.message := by
    intro e he
    obtain ⟨position, message, hfault⟩ := exists_firstFault he
    obtain ⟨e', he', rfl, rfl⟩ := hfault.parse_eq
    rw [he] at he'
    cases he'
    exact hfault
  refine ⟨fun position message => ⟨?_, FirstFault.parse_eq⟩, fun e he => ⟨?_, isValid_position he⟩⟩
  · rintro ⟨e, he, rfl, rfl⟩
    exact blamed e he
  · intro hcause
    obtain ⟨-, -, -, -, -, hfails⟩ := blamed e he
    rw [hcause] at hfails
    exact hfails.message_ne rfl

/-- The index of the second piece is closed in the third, behind a piece of two bytes. -/
theorem parse_error_iff_firstFault_beyond :
    parse "é.x[1.5]" = .error ⟨5, .invalidIndex "1.5"⟩ ∧
      FirstFault "é.x[1.5]" 5 "invalid index `1.5`" ∧
      (⟨5⟩ : String.Pos.Raw).IsValid "é.x[1.5]" := by
  have herror : parse "é.x[1.5]" = .error ⟨5, .invalidIndex "1.5"⟩ := by
    refine (parse_eq_error_iff (by decide)).2 ⟨⟨.invalidIndex "1.5", "1.5]".toList⟩, ?_, rfl⟩
    have hfirst : readSegment "é.x[1.5]".toList = .ok (.key "é", '.' :: "x[1.5]".toList) := rfl
    rw [readSegments_point hfirst, readSegments_error rfl]
    rfl
  obtain ⟨blamed, within⟩ := parse_error_iff_firstFault "é.x[1.5]"
  exact ⟨herror, (blamed _ _).1 ⟨_, herror, rfl, rfl⟩, (within _ herror).2⟩

end DotQuery.Path
