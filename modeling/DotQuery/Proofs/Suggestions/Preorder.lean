import DotQuery.Proofs.Json.Everywhere
import DotQuery.Proofs.Path.Keys
import DotQuery.Proofs.Suggestions.Listing
import Mathlib.Data.List.Nodup
import Mathlib.Logic.Function.Iterate

/-! The order of the suggestions.

The walk visits one pending value a turn: it puts the members of the value before all
that is pending and writes down the path of the value. At any turn the paths written
down are the first suggestions, and what is pending stands for the others
(`listed_turns`, `visit_turns`). So the walk ends, after as many turns as there are
suggestions, and what it leaves is the listing by recursion. No path stands in it twice
if no key does in a mapping, as the first piece of a path is the key of its member. -/
namespace DotQuery.Suggestions
open Json

/-! ### The walk, turn by turn -/

theorem visit_eq_nil_iff {work : List (String × Value)} : visit work = [] ↔ work = [] := by
  cases work with
  | nil => simp [visit]
  | cons e rest =>
    obtain ⟨path, v⟩ := e
    simp [visit]

/-- A walk under way: the values still to visit with their paths, the next one first,
and the paths that are written down. -/
structure Walk where
  pending : List (String × Value)
  listed : List String

namespace Walk

def start (anchored : Bool) (v : Value) : Walk :=
  ⟨descend (anchorOf anchored) v, []⟩

/-- Visits the next value, if there is one. -/
def turn (w : Walk) : Walk :=
  match w.pending with
  | [] => w
  | (path, v) :: rest => ⟨descend path v ++ rest, w.listed ++ [path]⟩

/-- A turn writes down the first of the paths that are to come and leaves the others. -/
theorem turn_next (w : Walk) :
    w.turn.listed = w.listed ++ (visit w.pending).take 1 ∧
      visit w.turn.pending = (visit w.pending).drop 1 := by
  obtain ⟨pending, listed⟩ := w
  cases pending with
  | nil => simp [turn, visit]
  | cons e rest =>
    obtain ⟨path, v⟩ := e
    rw [visit]
    exact ⟨rfl, rfl⟩

theorem visit_turns (n : Nat) (w : Walk) :
    visit (turn^[n] w).pending = (visit w.pending).drop n := by
  induction n generalizing w with
  | zero => rfl
  | succ n ih =>
    rw [Function.iterate_succ_apply, ih, (turn_next w).2, List.drop_drop, Nat.add_comm]

theorem listed_turns (n : Nat) (w : Walk) :
    (turn^[n] w).listed = w.listed ++ (visit w.pending).take n := by
  induction n generalizing w with
  | zero => simp
  | succ n ih =>
    obtain ⟨hlisted, hvisit⟩ := turn_next w
    rw [Function.iterate_succ_apply, ih, hlisted, hvisit, List.append_assoc, ← List.take_add,
      Nat.add_comm]

/-- Nothing is pending once there have been as many turns as there are paths. -/
theorem pending_turns_eq_nil_iff (n : Nat) (w : Walk) :
    (turn^[n] w).pending = [] ↔ (visit w.pending).length ≤ n := by
  rw [← visit_eq_nil_iff, visit_turns, List.drop_eq_nil_iff]

end Walk

/-! ### No path twice -/

theorem join_injective (k : String) : Function.Injective (k ++ "." ++ ·) := by
  intro s t h
  simpa [String.append_assoc] using h

theorem join_ne_self (k t : String) : k ++ "." ++ t ≠ k := by
  intro h
  have hlength := congrArg String.length h
  simp only [String.length_append, show ".".length = 1 from rfl] at hlength
  omega

/-- The first piece of a path is the key of the member that it leads into. -/
theorem head?_pieces_of_mem_entry {m : String × Value} (h : Path.isPlainKey m.1 = true)
    {s : String} (hs : s ∈ entry m) : (Path.pieces s).head? = some m.1.toList := by
  have hno := (Path.isPlainKey_iff.1 h).2.2.1
  rcases List.mem_cons.1 hs with rfl | hs
  · rw [Path.pieces_eq_singleton hno]
    rfl
  · obtain ⟨t, -, rfl⟩ := List.mem_map.1 hs
    rw [Path.pieces_append_point hno]
    rfl

theorem nodup_entry {m : String × Value} (h : (listing m.2).Nodup) : (entry m).Nodup := by
  refine List.nodup_cons.2 ⟨?_, h.map (join_injective m.1)⟩
  intro hm
  obtain ⟨t, -, ht⟩ := List.mem_map.1 hm
  exact join_ne_self m.1 t ht

theorem nodup_listing {v : Value} (h : v.DistinctKeys) : (listing v).Nodup := by
  induction h with
  | @intro v hkeys _ ih =>
    cases v with
    | mapping members =>
      rw [listing, membersListing_eq, List.nodup_flatMap]
      refine ⟨fun m hm => ?_, ?_⟩
      · exact nodup_entry (ih m.2 (List.mem_map_of_mem (List.mem_of_mem_filter hm)))
      · have distinct : members.Pairwise fun m m' => m.1 ≠ m'.1 := List.pairwise_map.1 hkeys
        refine (distinct.filter _).imp_of_mem ?_
        intro m m' hm hm' hne s hs hs'
        have hhead := head?_pieces_of_mem_entry (List.mem_filter.1 hm).2 hs
        rw [head?_pieces_of_mem_entry (List.mem_filter.1 hm').2 hs', Option.some_inj,
          String.toList_inj] at hhead
        exact hne hhead.symm
    | _ => exact List.nodup_nil

/-- **The walk ends and lists by recursion.** At any turn it has written down the first
suggestions, one a turn, and nothing is pending as soon as it has written down all of
them. They are the keys that a path can spell, in the order of the document, each before
the paths below it; an anchor only puts the sign of the root before each. No path is
listed twice if no mapping has a key twice. -/
theorem ofValue_preorder (v : Value) :
    (∀ anchored n,
      (Walk.turn^[n] (Walk.start anchored v)).listed = (ofValue anchored v).take n ∧
      ((Walk.turn^[n] (Walk.start anchored v)).pending = [] ↔ (ofValue anchored v).length ≤ n)) ∧
    ofValue false v = listing v ∧
    ofValue true v = (listing v).map ("$." ++ ·) ∧
    (v.DistinctKeys → ∀ anchored, (ofValue anchored v).Nodup) := by
  refine ⟨fun anchored n => ⟨?_, ?_⟩, ofValue_false v, ofValue_true v, ?_⟩
  · exact Walk.listed_turns n (Walk.start anchored v)
  · exact Walk.pending_turns_eq_nil_iff n (Walk.start anchored v)
  · rintro h (_ | _)
    · rw [ofValue_false]
      exact nodup_listing h
    · rw [ofValue_true]
      exact (nodup_listing h).map (join_injective "$")

/-- A key that no path can spell is passed over; the walk needs three turns, not two. -/
theorem ofValue_preorder_nested :
    let v := Value.mapping [("a", .mapping [("y.z", .null), ("x", .null)]), ("b", .list [])]
    v.DistinctKeys ∧ ofValue false v = ["a", "a.x", "b"] ∧
      ofValue true v = ["$.a", "$.a.x", "$.b"] ∧ (ofValue true v).Nodup ∧
      (Walk.turn^[2] (Walk.start true v)).listed = ["$.a", "$.a.x"] ∧
      (Walk.turn^[2] (Walk.start true v)).pending ≠ [] ∧
      (Walk.turn^[3] (Walk.start true v)).pending = [] := by
  intro v
  have hd : v.DistinctKeys := by simp [v]
  obtain ⟨turns, plain, anchored, nodup⟩ := ofValue_preorder v
  have hlisting : listing v = ["a", "a.x", "b"] := by decide
  have htrue : ofValue true v = ["$.a", "$.a.x", "$.b"] := by
    rw [anchored, hlisting]
    rfl
  refine ⟨hd, plain.trans hlisting, htrue, nodup hd true, ?_, ?_, ?_⟩
  · rw [(turns true 2).1, htrue]
    rfl
  · rw [ne_eq, (turns true 2).2, htrue]
    decide
  · rw [(turns true 3).2, htrue]
    decide

end DotQuery.Suggestions
