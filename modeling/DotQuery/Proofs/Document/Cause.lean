import DotQuery.Document
import DotQuery.Proofs.Text.Numeral

/-! What a document tells of a text that does not parse.

The reader describes what it met by a cause with a place behind it, and a document tells the
two apart again: it takes the cause to be what stands before the last mark of a place. A
mark is the last one if none begins further on, be it inside this one or behind it
(`beforeLast?_eq_some_iff`). Whatever the cause says, the mark of the place behind it is the
last: every mark has an `a` as its second character, and there is no other from there on
(`beforeLast?_placeMark`). So a document tells just what the reader met
(`ofDescription_exact`). -/
namespace DotQuery

namespace Text

/-! ### The last occurrence -/

section
variable {x : Char} {m s front back : List Char}

theorem beforeLast?_eq_none_iff : beforeLast? (x :: m) s = none ↔ ¬ x :: m <:+: s := by
  induction s with
  | nil => simp [beforeLast?]
  | cons c s ih =>
    rw [List.infix_cons_iff, not_or, ← ih, ← List.isPrefixOf_iff_prefix]
    cases h : beforeLast? (x :: m) s <;> simp [beforeLast?, h]

/-- What stands in front of the last occurrence is cut off whole, also if it has others or
runs into this one. -/
theorem beforeLast?_append (hno : ¬ x :: m <:+: m ++ back) :
    beforeLast? (x :: m) (front ++ x :: (m ++ back)) = some front := by
  induction front with
  | nil =>
    have hhere : (x :: m).isPrefixOf (x :: (m ++ back)) = true :=
      List.isPrefixOf_iff_prefix.2 (List.prefix_append (x :: m) back)
    simp only [List.nil_append, beforeLast?, beforeLast?_eq_none_iff.2 hno, if_pos hhere]
  | cons c front ih => rw [List.cons_append, beforeLast?, ih]

theorem exists_back_of_beforeLast? (h : beforeLast? (x :: m) s = some front) :
    ∃ back, s = front ++ x :: (m ++ back) ∧ ¬ x :: m <:+: m ++ back := by
  induction s generalizing front with
  | nil => simp [beforeLast?] at h
  | cons c s ih =>
    cases hlater : beforeLast? (x :: m) s with
    | some later =>
      simp only [beforeLast?, hlater, Option.some.injEq] at h
      obtain ⟨back, rfl, hno⟩ := ih hlater
      exact ⟨back, by rw [← h, List.cons_append], hno⟩
    | none =>
      simp only [beforeLast?, hlater, Option.ite_none_right_eq_some, Option.some.injEq] at h
      obtain ⟨hhere, rfl⟩ := h
      obtain ⟨rfl, back, rfl⟩ := List.cons_prefix_cons.1 (List.isPrefixOf_iff_prefix.1 hhere)
      exact ⟨back, rfl, beforeLast?_eq_none_iff.1 hlater⟩

/-- An occurrence is the last one if none begins behind its first character. -/
theorem beforeLast?_eq_some_iff :
    beforeLast? (x :: m) s = some front ↔
      ∃ back, s = front ++ x :: (m ++ back) ∧ ¬ x :: m <:+: m ++ back := by
  constructor
  · exact exists_back_of_beforeLast?
  · rintro ⟨back, rfl, hno⟩
    exact beforeLast?_append hno

end

/-- No occurrence begins further on if the second character of the marker is not found
again. -/
theorem beforeLast?_of_not_mem {x y : Char} {m front back : List Char} (hne : x ≠ y)
    (honce : y ∉ m ++ back) :
    beforeLast? (x :: y :: m) (front ++ x :: y :: (m ++ back)) = some front := by
  refine beforeLast?_eq_some_iff.2 ⟨back, rfl, fun hagain => ?_⟩
  rw [List.cons_append, List.infix_cons_iff, List.cons_prefix_cons] at hagain
  -- one that began at that character itself would begin with the wrong one; any later one
  -- has the character again
  rcases hagain with ⟨hxy, -⟩ | hlater
  · exact hne hxy
  · exact honce (hlater.subset (List.mem_cons_of_mem x List.mem_cons_self))

end Text

namespace DocumentError
open Json Text

/-! ### The mark of a place -/

theorem toList_placeMark : placeMark.toList = ' ' :: 'a' :: "t line ".toList := by
  decide

/-- What stands behind the mark of a place. -/
def behindMark (place : Place) : List Char :=
  (toString place.line).toList ++ (" column ".toList ++ (toString place.column).toList)

theorem toList_suffix (place : Place) :
    place.suffix.toList = placeMark.toList ++ behindMark place := by
  simp [Place.suffix, placeMark, behindMark]

theorem a_not_mem_toString (n : Nat) : 'a' ∉ (toString n).toList := by
  have hdigits : (toString n).toList = Nat.toDigits 10 n := Nat.toList_repr
  rw [hdigits]
  exact fun h => absurd (isDigit_toDigits n 'a' h) (by decide)

theorem a_not_mem_behindMark (place : Place) : 'a' ∉ behindMark place := by
  rw [behindMark, List.mem_append, List.mem_append, not_or, not_or]
  exact ⟨a_not_mem_toString place.line, by decide, a_not_mem_toString place.column⟩

/-- The mark of the place is the last one, whatever the cause says. -/
theorem beforeLast?_placeMark (cause : String) (place : Place) :
    beforeLast? placeMark.toList (cause ++ place.suffix).toList = some cause.toList := by
  have honce : 'a' ∉ "t line ".toList ++ behindMark place := by
    rw [List.mem_append, not_or]
    exact ⟨by decide, a_not_mem_behindMark place⟩
  rw [String.toList_append, toList_suffix, toList_placeMark]
  exact beforeLast?_of_not_mem (by decide) honce

theorem ofDescription_suffix (cause : String) (place : Place) :
    ofDescription (cause ++ place.suffix) place = ⟨place.line, place.column, cause⟩ := by
  rw [ofDescription, causeOf, beforeLast?_placeMark]
  simp

/-- **The cause is cut out exactly.** A description of any cause at any place is told as that
place and that cause, also if the cause itself speaks of a place or ends as if it were about
to. So what is wrong with a text is told as the reader met it. -/
theorem ofDescription_exact :
    (∀ (cause : String) (line column : Nat),
      ofDescription (cause ++ " at line " ++ toString line ++ " column " ++ toString column)
        ⟨line, column⟩ = ⟨line, column, cause⟩) ∧
    ∀ e : ReadError, ofReadError e = ⟨e.place.line, e.place.column, e.cause.message⟩ := by
  refine ⟨fun cause line column => ?_, fun e => ofDescription_suffix e.cause.message e.place⟩
  have h := ofDescription_suffix cause ⟨line, column⟩
  simpa only [Place.suffix, ← String.append_assoc] using h

/-- A cause that speaks of a place and ends in half of a mark. -/
example : causeOf "no at line 1 column 2 at lin at line 3 column 4" =
    "no at line 1 column 2 at lin" := by
  cbv

end DocumentError
end DotQuery
