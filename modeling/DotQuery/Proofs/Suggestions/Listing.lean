import DotQuery.Proofs.Json.Everywhere
import DotQuery.Suggestions

/-! Suggestions by recursion.

The walk over pending values lists the same paths as a recursion on the value: each
key that a path can spell, and behind it what the value under it lists, with that key
and a point in front. -/
namespace DotQuery.Suggestions
open Json

mutual

/-- The paths into a value by keys alone, each before what lies below it. -/
def listing : Value → List String
  | .mapping members => membersListing members
  | _ => []

def membersListing : List (String × Value) → List String
  | [] => []
  | (key, v) :: members =>
    if Path.isPlainKey key then
      key :: (listing v).map (key ++ "." ++ ·) ++ membersListing members
    else membersListing members

end

/-- The path of a value and the paths below it. -/
def entry (e : String × Value) : List String :=
  e.1 :: (listing e.2).map (e.1 ++ "." ++ ·)

theorem membersListing_eq (members : List (String × Value)) :
    membersListing members = (members.filter fun m => Path.isPlainKey m.1).flatMap entry := by
  induction members with
  | nil => rfl
  | cons m members ih =>
    obtain ⟨key, v⟩ := m
    rw [membersListing, ih, List.filter_cons]
    split <;> simp [entry]

theorem isEmpty_of_isPlainKey {key : String} (h : Path.isPlainKey key = true) :
    key.isEmpty = false := by
  simp [Path.isPlainKey] at h
  simpa using h.1.1

theorem below_of_isEmpty {path : String} (h : path.isEmpty = true) (key : String) :
    below path key = key := by
  simp [below, h]

theorem below_of_not_isEmpty {path : String} (h : path.isEmpty = false) (key : String) :
    below path key = path ++ "." ++ key := by
  simp [below, h]

theorem entry_below {path : String} (h : path.isEmpty = false) (m : String × Value) :
    entry (below path m.1, m.2) = (entry m).map (path ++ "." ++ ·) := by
  simp [entry, below_of_not_isEmpty h, String.append_assoc]

/-- The members below a path list what the value lists, behind that path. -/
theorem flatMap_descend {path : String} (h : path.isEmpty = false) (v : Value) :
    (descend path v).flatMap entry = (listing v).map (path ++ "." ++ ·) := by
  cases v with
  | mapping members =>
    simp only [descend, children, listing, membersListing_eq, List.flatMap_map, List.map_flatMap,
      entry_below h]
  | _ => rfl

theorem flatMap_descend_empty (v : Value) : (descend "" v).flatMap entry = listing v := by
  cases v with
  | mapping members =>
    simp only [descend, children, listing, membersListing_eq, List.flatMap_map,
      below_of_isEmpty (show "".isEmpty = true from rfl)]
  | _ => rfl

/-- A value that is to be visited has a path. -/
theorem path_of_mem_descend {path : String} {v : Value} {e : String × Value}
    (h : e ∈ descend path v) : e.1.isEmpty = false := by
  cases v with
  | mapping members =>
    simp only [descend, children, List.mem_map, List.mem_filter] at h
    obtain ⟨m, ⟨_, hm⟩, rfl⟩ := h
    have hk := isEmpty_of_isPlainKey hm
    cases hp : path.isEmpty with
    | true => rwa [below_of_isEmpty hp]
    | false => simp [below_of_not_isEmpty hp]
  | _ => cases h

/-- The walk lists the entries of the values still to visit, one after the other. -/
theorem visit_eq (work : List (String × Value)) (h : ∀ e ∈ work, e.1.isEmpty = false) :
    visit work = work.flatMap entry := by
  fun_induction visit work with
  | case1 => rfl
  | case2 path v rest ih =>
    have hpath : path.isEmpty = false := h _ List.mem_cons_self
    rw [ih, List.flatMap_append, flatMap_descend hpath]
    · rfl
    · intro e he
      rcases List.mem_append.1 he with he | he
      · exact path_of_mem_descend he
      · exact h e (List.mem_cons_of_mem _ he)

theorem ofValue_false (v : Value) : ofValue false v = listing v := by
  rw [ofValue, visit_eq _ fun _ => path_of_mem_descend]
  exact flatMap_descend_empty v

theorem ofValue_true (v : Value) : ofValue true v = (listing v).map ("$." ++ ·) := by
  rw [ofValue, visit_eq _ fun _ => path_of_mem_descend]
  exact flatMap_descend rfl v

end DotQuery.Suggestions
