import DotQuery.Json.Value
import DotQuery.Path.Basic

/-! The paths that reach something in a document by keys alone.

They are listed before what lies below them, the members of a mapping in their
order. A key that no path can spell is left out with everything below it. The walk
keeps a list of the values still to visit, so it is as good for a deep document as
for a flat one. -/
namespace DotQuery.Suggestions
open Json

/-- The path of the member `key` of what has the given path. -/
def below (path key : String) : String :=
  if path.isEmpty then key else path ++ "." ++ key

/-- The members that a path can spell, with their paths. -/
def children (path : String) (members : List (String × Value)) : List (String × Value) :=
  (members.filter fun m => Path.isPlainKey m.1).map fun m => (below path m.1, m.2)

/-- The members to visit below a value. -/
def descend (path : String) : Value → List (String × Value)
  | .mapping members => children path members
  | _ => []

/-! ### The walk gets shorter -/

mutual

/-- How many values a value holds, itself included. -/
def size : Value → Nat
  | .list items => itemsSize items + 1
  | .mapping members => membersSize members + 1
  | _ => 1

def itemsSize : List Value → Nat
  | [] => 0
  | v :: items => size v + itemsSize items

def membersSize : List (String × Value) → Nat
  | [] => 0
  | (_, v) :: members => size v + membersSize members

end

theorem membersSize_append (a b : List (String × Value)) :
    membersSize (a ++ b) = membersSize a + membersSize b := by
  induction a with
  | nil => simp [membersSize]
  | cons m a ih =>
    obtain ⟨k, v⟩ := m
    simp only [List.cons_append, membersSize, ih]
    omega

theorem membersSize_children_le (path : String) (members : List (String × Value)) :
    membersSize (children path members) ≤ membersSize members := by
  induction members with
  | nil => simp [children, membersSize]
  | cons m members ih =>
    obtain ⟨k, v⟩ := m
    simp only [children, List.filter_cons] at ih ⊢
    split
    · simp only [List.map_cons, membersSize]
      omega
    · simp only [membersSize]
      omega

theorem membersSize_descend_lt (path : String) (v : Value) :
    membersSize (descend path v) < size v := by
  unfold descend
  split
  · simp only [size]
    have := membersSize_children_le path ‹_›
    omega
  · cases v <;> simp [membersSize, size]

/-- Lists the paths of the values to visit and of all that lies below them. -/
def visit : List (String × Value) → List String
  | [] => []
  | (path, v) :: rest => path :: visit (descend path v ++ rest)
termination_by work => membersSize work
decreasing_by
  have := membersSize_descend_lt path v
  simp only [membersSize_append, membersSize]
  omega

/-- The sign of the root before every path, or nothing. -/
def anchorOf (anchored : Bool) : String :=
  if anchored then "$" else ""

/-- The suggestions for a document, with the sign of the root before each if they
are anchored. -/
def ofValue (anchored : Bool) (v : Value) : List String :=
  visit (descend (anchorOf anchored) v)

/-- The suggestions that start with the given text. -/
def matching (start : String) (suggestions : List String) : List String :=
  suggestions.filter fun s => start.toList.isPrefixOf s.toList

end DotQuery.Suggestions
