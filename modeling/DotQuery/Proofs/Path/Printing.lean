import DotQuery.Proofs.Path.Keys
import Mathlib.Data.List.Forall2

/-! Writing paths.

A path is written as its segments with points between them. Not every path can be
written: a segment that stands for a key alone needs a plain key, and a key before an
index must at least be free of points and brackets, though it may be the sign of the
root. What can be written is read back, and what is read can be written. -/
namespace DotQuery
open Text

namespace Segment

/-- An index between brackets. -/
def indexText (i : Nat) : String :=
  "[" ++ toString i ++ "]"

def text : Segment → String
  | .root => "$"
  | .key name => name
  | .keyIndex name i => name ++ indexText i
  | .index i => indexText i

/-- The segments that a text can stand for. -/
def IsWritable : Segment → Prop
  | .root => True
  | .key name => Path.isPlainKey name = true
  | .keyIndex name i => name ≠ "" ∧ '.' ∉ name.toList ∧ '[' ∉ name.toList ∧ i < 2 ^ 64
  | .index i => i < 2 ^ 64

instance : DecidablePred IsWritable
  | .root => inferInstanceAs (Decidable True)
  | .key name => inferInstanceAs (Decidable (Path.isPlainKey name = true))
  | .keyIndex name i =>
    inferInstanceAs
      (Decidable (name ≠ "" ∧ '.' ∉ name.toList ∧ '[' ∉ name.toList ∧ i < 2 ^ 64))
  | .index i => inferInstanceAs (Decidable (i < 2 ^ 64))

end Segment

namespace Path

/-- The segments with points between them. -/
def textOf (segments : List Segment) : String :=
  ".".intercalate (segments.map Segment.text)

/-! ### Single segments -/

theorem numeral_toString (i : Nat) : Numeral (toString i).toList i := by
  have h : (toString i).toList = Nat.toDigits 10 i := Nat.toList_repr
  rw [h, numeral_iff]
  exact ⟨Nat.toDigits_ne_nil, isDigit_toDigits i, digitsValue_toDigits i⟩

theorem toList_indexText (i : Nat) :
    (Segment.indexText i).toList = '[' :: ((toString i).toList ++ [']']) := by
  simp [Segment.indexText]

theorem no_point_indexText (i : Nat) : '.' ∉ (Segment.indexText i).toList := by
  have hdigits : '.' ∉ (toString i).toList :=
    fun h => absurd ((numeral_toString i).isDigit _ h) (by decide)
  rw [toList_indexText]
  simpa using hdigits

/-- The text of a segment is a piece. -/
theorem no_point_text {segment : Segment} (h : segment.IsWritable) : '.' ∉ segment.text.toList := by
  cases segment with
  | root => decide
  | key name => exact (isPlainKey_iff.1 h).2.2.1
  | keyIndex name i =>
    rw [Segment.text, String.toList_append, List.mem_append, not_or]
    exact ⟨h.2.1, no_point_indexText i⟩
  | index i => exact no_point_indexText i

/-- The text of a segment spells that segment. -/
theorem spells_text {segment : Segment} (h : segment.IsWritable) :
    Spells segment.text.toList segment := by
  cases segment with
  | root => exact .root
  | key name => exact (spells_key_iff (no_point_text h)).2 ⟨rfl, h⟩
  | keyIndex name i =>
    obtain ⟨hne, -, hbracket, hi⟩ := h
    have hs := Spells.keyIndex (by simpa using hne) hbracket (numeral_toString i) hi
    rwa [String.ofList_toList, ← toList_indexText, ← String.toList_append] at hs
  | index i =>
    rw [Segment.text, toList_indexText]
    exact .index (numeral_toString i) h

/-- A piece spells only segments that can be written. -/
theorem Spells.isWritable {piece : List Char} {segment : Segment} (hp : '.' ∉ piece)
    (h : Spells piece segment) : segment.IsWritable := by
  cases h with
  | root => trivial
  | key hne hr hb => exact ((spells_key_iff hp).1 (.key hne hr hb)).2
  | @keyIndex k _ i hne hb _ hi =>
    have hk : '.' ∉ k := fun hc => hp (List.mem_append_left _ hc)
    refine ⟨?_, ?_, ?_, hi⟩
    · simpa [← String.toList_inj] using hne
    · rwa [String.toList_ofList]
    · rwa [String.toList_ofList]
  | index _ hi => exact hi

/-! ### Paths -/

/-- A written path is cut between its segments again. -/
theorem pieces_textOf {segments : List Segment} (hne : segments ≠ [])
    (h : ∀ segment ∈ segments, segment.IsWritable) :
    pieces (textOf segments) = segments.map fun segment => segment.text.toList := by
  rw [pieces, textOf, String.toList_intercalate, List.map_map]
  refine List.splitOn_intercalate '.' ?_ (by simpa using hne)
  intro piece hpiece
  obtain ⟨segment, hs, rfl⟩ := List.mem_map.1 hpiece
  exact no_point_text (h segment hs)

theorem forall₂_spells_text {segments : List Segment}
    (h : ∀ segment ∈ segments, segment.IsWritable) :
    List.Forall₂ Spells (segments.map fun segment => segment.text.toList) segments := by
  rw [List.forall₂_map_left_iff, List.forall₂_same]
  exact fun segment hs => spells_text (h segment hs)

theorem parse_textOf {segments : List Segment} (h : ∀ segment ∈ segments, segment.IsWritable) :
    parse (textOf segments) = .ok ⟨segments⟩ := by
  by_cases hne : segments = []
  · subst hne
    rfl
  · have hpieces := pieces_textOf hne h
    have hspells := forall₂_spells_text h
    rw [← hpieces] at hspells
    refine parse_eq_ok_iff.2 (.inr ⟨?_, hspells⟩)
    -- the one piece of the empty text spells nothing
    intro hempty
    rw [hempty] at hspells
    cases hspells with
    | cons hs _ => exact hs.ne_nil rfl

theorem isWritable_of_forall₂ {ps : List (List Char)} {segments : List Segment}
    (hp : ∀ piece ∈ ps, '.' ∉ piece) (h : List.Forall₂ Spells ps segments) :
    ∀ segment ∈ segments, segment.IsWritable := by
  induction h with
  | nil => simp
  | cons hs _ ih =>
    rw [List.forall_mem_cons] at hp ⊢
    exact ⟨hs.isWritable hp.1, ih hp.2⟩

theorem isWritable_of_parse {text : String} {p : Path} (h : parse text = .ok p) :
    ∀ segment ∈ p.segments, segment.IsWritable := by
  rcases parse_eq_ok_iff.1 h with ⟨-, hs⟩ | ⟨-, hs⟩
  · simp [hs]
  · exact isWritable_of_forall₂ (no_point_of_mem_splitOn text.toList) hs

/-- **What is written is read back, and what is read can be written.** Segments that can
be written are read back from their text; every path that is read, from any text, has
only such segments; and a key is plain exactly if it is read as that key alone. -/
theorem parse_textOf_inverse :
    (∀ segments : List Segment, (∀ segment ∈ segments, segment.IsWritable) →
      parse (textOf segments) = .ok ⟨segments⟩) ∧
    (∀ text p, parse text = .ok p → ∀ segment ∈ p.segments, segment.IsWritable) ∧
    ∀ k, isPlainKey k = true ↔ parse k = .ok ⟨[.key k]⟩ := by
  refine ⟨fun _ => parse_textOf, fun _ _ => isWritable_of_parse, fun k => ⟨?_, ?_⟩⟩
  · exact parse_of_isPlainKey
  · intro h
    exact isWritable_of_parse h (.key k) List.mem_cons_self

/-- The sign of the root before an index is a key, and a closing bracket may be part of
one. -/
theorem parse_textOf_inverse_signs :
    let segments := [Segment.root, .keyIndex "$" 3, .key "a]", .index 18446744073709551615]
    textOf segments = "$.$[3].a].[18446744073709551615]" ∧
      (∀ segment ∈ segments, segment.IsWritable) ∧ parse (textOf segments) = .ok ⟨segments⟩ ∧
      parse "a]" = .ok ⟨[.key "a]"]⟩ ∧ (Segment.key "a]").IsWritable := by
  intro segments
  have writable : ∀ segment ∈ segments, segment.IsWritable := by decide
  obtain ⟨back, written, plain⟩ := parse_textOf_inverse
  have hplain : parse "a]" = .ok ⟨[.key "a]"]⟩ := (plain "a]").1 (by decide)
  exact ⟨rfl, writable, back segments writable, hplain,
    written "a]" _ hplain _ List.mem_cons_self⟩

end Path
end DotQuery
