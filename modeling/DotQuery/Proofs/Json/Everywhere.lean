import DotQuery.Json.Value

/-! Properties of a value and of everything in it. -/
namespace DotQuery.Json

namespace Value

/-- The values directly in a value. -/
def parts : Value → List Value
  | list items => items
  | mapping members => members.map Prod.snd
  | _ => []

/-- The keys of a mapping, in order. -/
def keys : Value → List String
  | mapping members => members.map Prod.fst
  | _ => []

/-- The property holds of the value and of every value in it, at any depth. -/
inductive Everywhere (p : Value → Prop) : Value → Prop where
  | intro {v : Value} (here : p v) (within : ∀ u ∈ v.parts, Everywhere p u) : Everywhere p v

theorem Everywhere.here {p : Value → Prop} {v : Value} (h : v.Everywhere p) : p v := by
  cases h with
  | intro here _ => exact here

theorem Everywhere.part {p : Value → Prop} {v u : Value} (h : v.Everywhere p)
    (hu : u ∈ v.parts) : u.Everywhere p := by
  cases h with
  | intro _ within => exact within u hu

theorem Everywhere.imp {p q : Value → Prop} (hpq : ∀ v, p v → q v) {v : Value}
    (h : v.Everywhere p) : v.Everywhere q := by
  induction h with
  | intro here _ ih => exact .intro (hpq _ here) ih

/-- No mapping in the value has a key twice. -/
def DistinctKeys (v : Value) : Prop :=
  v.Everywhere fun u => u.keys.Nodup

theorem distinctKeys_iff {v : Value} :
    v.DistinctKeys ↔ v.keys.Nodup ∧ ∀ u ∈ v.parts, u.DistinctKeys :=
  ⟨fun h => ⟨Everywhere.here h, fun _ hu => Everywhere.part h hu⟩, fun h => .intro h.1 h.2⟩

@[simp] theorem distinctKeys_null : null.DistinctKeys := by
  rw [distinctKeys_iff]
  simp [keys, parts]

@[simp] theorem distinctKeys_list_iff {items : List Value} :
    (list items).DistinctKeys ↔ ∀ u ∈ items, u.DistinctKeys := by
  rw [distinctKeys_iff]
  simp [keys, parts]

@[simp] theorem distinctKeys_mapping_iff {members : List (String × Value)} :
    (mapping members).DistinctKeys ↔
      (members.map Prod.fst).Nodup ∧ ∀ m ∈ members, m.2.DistinctKeys := by
  rw [distinctKeys_iff, parts, List.forall_mem_map]
  rfl

end Value

/-! ### What is kept of a text -/

/-- The integers that are kept exactly, and all floats. -/
def Number.IsKept : Number → Prop
  | integer n => leastInteger ≤ n ∧ n ≤ greatestInteger
  | float _ => True

namespace Value

/-- What holds of each value that a text can hold. -/
structure IsKept (v : Value) : Prop where
  distinct : v.keys.Nodup
  number : ∀ n, v = .number n → n.IsKept

/-- What holds of a value that a text can be. -/
def WellFormed (v : Value) : Prop :=
  v.Everywhere IsKept

theorem WellFormed.distinctKeys {v : Value} (h : v.WellFormed) : v.DistinctKeys :=
  Everywhere.imp (fun _ hu => hu.distinct) h

end Value

/-! ### Members of a mapping -/

theorem mem_of_member?_eq_some {key : String} {v : Value} {members : List (String × Value)}
    (h : member? key members = some v) : (key, v) ∈ members := by
  induction members with
  | nil => cases h
  | cons m rest ih =>
    obtain ⟨k, u⟩ := m
    simp only [member?, List.lookup_cons] at h ih
    split at h
    · rename_i hk
      cases h
      rw [eq_of_beq hk]
      exact List.mem_cons_self
    · exact List.mem_cons_of_mem _ (ih h)

/-- With distinct keys, every member is the one found under its key. -/
theorem member?_eq_some_iff {key : String} {v : Value} {members : List (String × Value)}
    (h : (members.map Prod.fst).Nodup) : member? key members = some v ↔ (key, v) ∈ members := by
  refine ⟨mem_of_member?_eq_some, fun hm => ?_⟩
  induction members with
  | nil => cases hm
  | cons m rest ih =>
    obtain ⟨k, u⟩ := m
    rw [List.map_cons, List.nodup_cons] at h
    rcases List.mem_cons.1 hm with he | hrest
    · cases he
      simp [member?]
    · have hne : key ≠ k := by
        intro he
        subst he
        exact h.1 (List.mem_map.2 ⟨_, hrest, rfl⟩)
      have hb : (key == k) = false := by simpa using hne
      have := ih h.2 hrest
      simpa [member?, List.lookup_cons, hb] using this

theorem member?_eq_none_iff {key : String} {members : List (String × Value)} :
    member? key members = none ↔ key ∉ members.map Prod.fst := by
  rw [member?, List.lookup_eq_none_iff, List.mem_map, not_exists]
  refine forall_congr' fun m => ?_
  rw [not_and, bne_iff_ne]
  exact forall_congr' fun _ => ne_comm

end DotQuery.Json
