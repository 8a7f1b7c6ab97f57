import DotQuery.Proofs.Path.Segments

/-! The grammar of paths.

The pieces of a text are what stands between its points. The reader knows nothing of
pieces: it goes on behind the segment that it has read. It still accepts exactly the
texts whose pieces all spell segments, and gives those segments. -/
namespace DotQuery.Path
open Text

/-- What stands between the points of a text. -/
def pieces (text : String) : List (List Char) :=
  text.toList.splitOn '.'

/-! ### Reading all segments -/

theorem readSegments_error {s : List Char} {f : Fault} (h : readSegment s = .error f) :
    readSegments s = .error f := by
  rw [readSegments]
  split <;> simp_all

theorem readSegments_last {s : List Char} {segment : Segment}
    (h : readSegment s = .ok (segment, [])) : readSegments s = .ok [segment] := by
  rw [readSegments]
  split <;> simp_all

theorem readSegments_point {s rest : List Char} {segment : Segment}
    (h : readSegment s = .ok (segment, '.' :: rest)) :
    readSegments s = (readSegments rest).map (segment :: ·) := by
  rw [readSegments]
  split
  · simp_all
  · simp_all
  · rename_i h'
    rw [h'] at h
    cases h
    cases readSegments rest <;> rfl
  · simp_all

/-- Reading goes on behind a segment, or ends with the text. -/
theorem readSegments_step {s : List Char} {segments : List Segment} :
    readSegments s = .ok segments ↔
      ∃ segment unread, readSegment s = .ok (segment, unread) ∧
        ((unread = [] ∧ segments = [segment]) ∨
          ∃ rest others, unread = '.' :: rest ∧ readSegments rest = .ok others ∧
            segments = segment :: others) := by
  cases h : readSegment s with
  | error f => simp [readSegments_error h]
  | ok r =>
    obtain ⟨segment, unread⟩ := r
    obtain ⟨_, _, _, _, hu⟩ := readSegment_eq_ok_iff.1 h
    rcases hu.eq_nil_or with rfl | ⟨rest, rfl⟩
    · simp [readSegments_last h, eq_comm]
    · rw [readSegments_point h]
      cases ho : readSegments rest <;> simp [Except.map, ho, eq_comm (a := segments)]

theorem readSegments_piece {piece : List Char} (hp : '.' ∉ piece) {segments : List Segment} :
    readSegments piece = .ok segments ↔ ∃ segment, Spells piece segment ∧ segments = [segment] := by
  have hread := readSegment_piece hp endsPiece_nil
  simp only [List.append_nil] at hread
  simp [readSegments_step (s := piece), hread]

theorem readSegments_piece_point {piece : List Char} (rest : List Char) (hp : '.' ∉ piece)
    {segments : List Segment} :
    readSegments (piece ++ '.' :: rest) = .ok segments ↔
      ∃ segment others, Spells piece segment ∧ readSegments rest = .ok others ∧
        segments = segment :: others := by
  simp [readSegments_step (s := piece ++ '.' :: rest), readSegment_piece hp (endsPiece_point rest)]

/-! ### Reading a text -/

/-- The first piece of a text and what comes behind it. -/
theorem piece_cases (s : List Char) :
    ('.' ∉ s ∧ s.splitOn '.' = [s]) ∨
      ∃ piece rest, s = piece ++ '.' :: rest ∧ '.' ∉ piece ∧
        s.splitOn '.' = piece :: rest.splitOn '.' := by
  obtain ⟨piece, b, rfl, hp, hb⟩ := exists_scan (· != '.') s
  have hmem : '.' ∉ piece := fun hc => by simpa using hp _ hc
  cases b with
  | nil => exact .inl ⟨by simpa using hmem, by simp [List.splitOn_eq_singleton hmem]⟩
  | cons c rest =>
    have hc : c = '.' := by simpa using hb c rfl
    subst hc
    exact .inr ⟨piece, rest, rfl, hmem, List.splitOn_append_cons_self_of_not_mem hmem rest⟩

theorem no_point_of_mem_splitOn (s : List Char) : ∀ piece ∈ s.splitOn '.', '.' ∉ piece := by
  rcases piece_cases s with ⟨hp, hsplit⟩ | ⟨piece, rest, rfl, hp, hsplit⟩
  · rw [hsplit]
    simpa using hp
  · rw [hsplit]
    rintro q (_ | ⟨_, hq⟩)
    · exact hp
    · exact no_point_of_mem_splitOn rest q hq
termination_by s.length
decreasing_by
  subst_vars
  simp only [List.length_append, List.length_cons]
  omega

/-- The reader of segments takes the pieces one by one, although it does not look for
them. -/
theorem readSegments_eq_ok_iff (s : List Char) (segments : List Segment) :
    readSegments s = .ok segments ↔ List.Forall₂ Spells (s.splitOn '.') segments := by
  rcases piece_cases s with ⟨hp, hsplit⟩ | ⟨piece, rest, rfl, hp, hsplit⟩
  · rw [hsplit, readSegments_piece hp]
    constructor
    · intro h
      obtain ⟨segment, hs, rfl⟩ := h
      exact .cons hs .nil
    · intro h
      cases h with
      | cons hs ht =>
        cases ht
        exact ⟨_, hs, rfl⟩
  · rw [hsplit, readSegments_piece_point rest hp]
    constructor
    · intro h
      obtain ⟨segment, others, hs, ho, rfl⟩ := h
      exact .cons hs ((readSegments_eq_ok_iff rest others).1 ho)
    · intro h
      cases h with
      | cons hs ht => exact ⟨_, _, hs, (readSegments_eq_ok_iff rest _).2 ht, rfl⟩
termination_by s.length
decreasing_by
  all_goals
    subst_vars
    simp only [List.length_append, List.length_cons]
    omega

theorem parse_of_ne_empty {text : String} (h : text ≠ "") :
    parse text =
      ((readSegments text.toList).map Path.mk).mapError (Fault.error text.toList) := by
  have he : text.toList.isEmpty = false := by simpa using h
  simp [parse, readText, he]

theorem parse_eq_ok_iff {text : String} {p : Path} :
    parse text = .ok p ↔
      (text = "" ∧ p.segments = []) ∨
        (text ≠ "" ∧ List.Forall₂ Spells (pieces text) p.segments) := by
  obtain ⟨segments⟩ := p
  by_cases h : text = ""
  · subst h
    have he : parse "" = .ok ⟨[]⟩ := rfl
    simp [he, eq_comm]
  · rw [parse_of_ne_empty h]
    have hr := readSegments_eq_ok_iff text.toList segments
    unfold pieces
    rw [← hr]
    cases readSegments text.toList <;> simp [Except.map, Except.mapError, h]

/-- The sign of the root and a point may stand before a path. -/
theorem parse_anchored {text : String} (h : text ≠ "") {p : Path} (hp : parse text = .ok p) :
    parse ("$." ++ text) = .ok ⟨.root :: p.segments⟩ := by
  rcases parse_eq_ok_iff.1 hp with ⟨he, _⟩ | ⟨_, hs⟩
  · exact absurd he h
  · have hpieces : pieces ("$." ++ text) = ['$'] :: pieces text := by
      have ht : ("$." ++ text).toList = ['$'] ++ '.' :: text.toList := by simp
      rw [pieces, ht]
      exact List.splitOn_append_cons_self_of_not_mem (by decide) _
    refine parse_eq_ok_iff.2 (.inr ⟨by simp, ?_⟩)
    rw [hpieces]
    exact .cons .root hs

theorem exists_spells_iff {ps : List (List Char)} :
    (∃ segments, List.Forall₂ Spells ps segments) ↔ ∀ piece ∈ ps, IsSegment piece := by
  induction ps with
  | nil =>
    refine ⟨fun _ => ?_, fun _ => ⟨[], .nil⟩⟩
    simp
  | cons piece ps ih =>
    rw [List.forall_mem_cons, ← ih, isSegment_iff]
    constructor
    · intro h
      obtain ⟨_, h⟩ := h
      cases h with
      | cons hs ht => exact ⟨⟨_, hs⟩, ⟨_, ht⟩⟩
    · intro h
      obtain ⟨⟨segment, hs⟩, ⟨segments, ht⟩⟩ := h
      exact ⟨segment :: segments, .cons hs ht⟩

/-- **The reader accepts exactly the texts all of whose pieces are segments**, and the
empty text; it gives one segment for each piece, in order, the one that the piece
spells. -/
theorem parse_grammar (text : String) :
    ((∃ p, parse text = .ok p) ↔ text = "" ∨ ∀ piece ∈ pieces text, IsSegment piece) ∧
      ∀ p, parse text = .ok p ↔
        (text = "" ∧ p.segments = []) ∨
          (text ≠ "" ∧ List.Forall₂ Spells (pieces text) p.segments) := by
  refine ⟨?_, fun p => parse_eq_ok_iff⟩
  rw [← exists_spells_iff]
  by_cases h : text = ""
  · subst h
    exact ⟨fun _ => .inl rfl, fun _ => ⟨⟨[]⟩, rfl⟩⟩
  · simp only [parse_eq_ok_iff, h, false_and, false_or, ne_eq, not_false_eq_true, true_and]
    exact ⟨fun ⟨p, hp⟩ => ⟨p.segments, hp⟩, fun ⟨segments, hs⟩ => ⟨⟨segments⟩, hs⟩⟩

end DotQuery.Path
