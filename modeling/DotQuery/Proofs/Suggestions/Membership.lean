import DotQuery.Path.Evaluation
import DotQuery.Proofs.Path.Keys
import DotQuery.Proofs.Suggestions.Listing

/-! Which paths are suggested.

A path is suggested for a document exactly if it is made of keys alone and names
something in it. The walk, the choice of the keys that it writes down, and the reader
and evaluator of paths are separate programs; that they agree rests on the keys of a
mapping being distinct, as a path can only reach the first of two members with one
key. -/
namespace DotQuery.Suggestions
open Json

/-- The text is a path of keys alone, at least one, and names something in the
document. -/
def NamesByKeys (v : Value) (s : String) : Prop :=
  ∃ p u, Path.parse s = .ok p ∧ p.segments ≠ [] ∧
    (∀ segment ∈ p.segments, ∃ name, segment = .key name) ∧ evaluate (some v) s = .ok (some u)

theorem namesByKeys_iff {v : Value} {s : String} :
    NamesByKeys v s ↔
      ∃ (keys : List String) (u : Value), keys ≠ [] ∧ (∀ key ∈ keys, Path.isPlainKey key = true) ∧
        Path.pieces s = keys.map String.toList ∧
        Path.follow v (keys.map .key) = .ok (some u) := by
  have eval : ∀ p, Path.parse s = .ok p → evaluate (some v) s = Path.follow v p.segments := by
    intro p hp
    simp [evaluate, hp, Path.resolve]
  constructor
  · intro h
    obtain ⟨p, u, hp, hne, hall, hu⟩ := h
    obtain ⟨keys, hkeys, hplain, hpieces, hs⟩ := Path.parse_keys_iff.1 ⟨hp, hne, hall⟩
    rw [eval p hp, hs] at hu
    exact ⟨keys, u, hkeys, hplain, hpieces, hu⟩
  · intro h
    obtain ⟨keys, u, hkeys, hplain, hpieces, hu⟩ := h
    obtain ⟨hp, hne, hall⟩ :=
      (Path.parse_keys_iff (p := ⟨keys.map .key⟩)).2 ⟨keys, hkeys, hplain, hpieces, rfl⟩
    exact ⟨_, u, hp, hne, hall, by rw [eval _ hp]; exact hu⟩

/-! ### Following keys -/

theorem follow_key {members : List (String × Value)} {key : String} {keys : List String}
    {u : Value} :
    Path.follow (.mapping members) ((key :: keys).map .key) = .ok (some u) ↔
      ∃ w, member? key members = some w ∧ Path.follow w (keys.map .key) = .ok (some u) := by
  rw [List.map_cons, Path.follow]
  cases h : member? key members <;> simp [Segment.step, stepKey, h]

/-- A key leads nowhere but from a mapping. -/
theorem exists_mapping_of_follow {v u : Value} {key : String} {segments : List Segment}
    (h : Path.follow v (.key key :: segments) = .ok (some u)) : ∃ members, v = .mapping members := by
  cases v with
  | mapping members => exact ⟨members, rfl⟩
  | _ => cases h

/-! ### Members of the listing -/

theorem mem_membersListing {members : List (String × Value)} {s : String} :
    s ∈ membersListing members ↔
      ∃ key v, (key, v) ∈ members ∧ Path.isPlainKey key = true ∧
        (s = key ∨ ∃ t ∈ listing v, s = key ++ "." ++ t) := by
  rw [membersListing_eq]
  simp only [entry, List.mem_flatMap, List.mem_filter, List.mem_cons, List.mem_map, Prod.exists,
    eq_comm (b := s), and_assoc]

theorem mem_listing_iff {v : Value} (h : v.DistinctKeys) (s : String) :
    s ∈ listing v ↔ NamesByKeys v s := by
  rw [namesByKeys_iff]
  induction h generalizing s with
  | @intro v hkeys _ ih =>
    constructor
    · intro hs
      cases v with
      | mapping members =>
        obtain ⟨key, u, hm, hplain, hcase⟩ := mem_membersListing.1 hs
        have hno := (Path.isPlainKey_iff.1 hplain).2.2.1
        have hfound := (member?_eq_some_iff hkeys).2 hm
        rcases hcase with rfl | ⟨t, ht, rfl⟩
        · exact ⟨[s], u, by simp, by simpa using hplain, Path.pieces_eq_singleton hno,
            follow_key.2 ⟨u, hfound, rfl⟩⟩
        · obtain ⟨keys, w, _, hall, hp, hw⟩ := (ih u (List.mem_map.2 ⟨_, hm, rfl⟩) t).1 ht
          refine ⟨key :: keys, w, List.cons_ne_nil _ _, List.forall_mem_cons.2 ⟨hplain, hall⟩, ?_,
            follow_key.2 ⟨u, hfound, hw⟩⟩
          rw [Path.pieces_append_point hno, hp, List.map_cons]
      | _ => cases hs
    · intro h
      obtain ⟨keys, u, hne, hall, hp, hu⟩ := h
      obtain ⟨key, keys, rfl⟩ := List.exists_cons_of_ne_nil hne
      obtain ⟨members, rfl⟩ := exists_mapping_of_follow hu
      obtain ⟨w, hm, hw⟩ := follow_key.1 hu
      rw [List.forall_mem_cons] at hall
      have hno := (Path.isPlainKey_iff.1 hall.1).2.2.1
      have hmem := mem_of_member?_eq_some hm
      refine mem_membersListing.2 ⟨key, w, hmem, hall.1, ?_⟩
      cases keys with
      | nil => exact .inl (Path.pieces_injective (hp.trans (Path.pieces_eq_singleton hno).symm))
      | cons key' keys =>
        obtain ⟨t, rfl, ht⟩ := Path.exists_append_point (List.cons_ne_nil _ _) hp
        refine .inr ⟨t, (ih w (List.mem_map.2 ⟨_, hmem, rfl⟩) t).2 ?_, rfl⟩
        exact ⟨key' :: keys, u, List.cons_ne_nil _ _, hall.2, ht, hw⟩

/-! ### Suggestions -/

theorem NamesByKeys.ne_empty {v : Value} {s : String} (h : NamesByKeys v s) : s ≠ "" := by
  intro he
  subst he
  obtain ⟨p, _, hp, hne, _⟩ := h
  have he : Path.parse "" = .ok ⟨[]⟩ := rfl
  cases he.symm.trans hp
  exact hne rfl

theorem evaluate_anchored {v : Value} {s : String} (h : NamesByKeys v s) :
    evaluate (some v) ("$." ++ s) = evaluate (some v) s := by
  obtain ⟨p, _, hp, _⟩ := id h
  rw [evaluate, evaluate, Path.parse_anchored h.ne_empty hp, hp]
  rfl

/-- **A path is suggested exactly if it is made of keys alone and names something**;
with an anchor, exactly if it is such a path behind the sign of the root. Hence every
suggestion is found. -/
theorem mem_ofValue_iff (v : Value) (h : v.DistinctKeys) (s : String) :
    (s ∈ ofValue false v ↔ NamesByKeys v s) ∧
      (s ∈ ofValue true v ↔ ∃ t, s = "$." ++ t ∧ NamesByKeys v t) ∧
      ∀ anchored, s ∈ ofValue anchored v → ∃ u, evaluate (some v) s = .ok (some u) := by
  have plain : ∀ t, t ∈ ofValue false v ↔ NamesByKeys v t := by
    intro t
    rw [ofValue_false, mem_listing_iff h]
  have behind : s ∈ ofValue true v ↔ ∃ t, s = "$." ++ t ∧ NamesByKeys v t := by
    simp only [ofValue_true, List.mem_map, mem_listing_iff h, eq_comm (a := s), and_comm]
  refine ⟨plain s, behind, ?_⟩
  rintro (_ | _) hs
  · obtain ⟨_, u, _, _, _, hu⟩ := (plain s).1 hs
    exact ⟨u, hu⟩
  · obtain ⟨t, rfl, ht⟩ := behind.1 hs
    obtain ⟨_, u, _, _, _, hu⟩ := id ht
    exact ⟨u, by rw [evaluate_anchored ht, hu]⟩

/-- A nested key is suggested, found, and found again behind the sign of the root. -/
theorem mem_ofValue_nested :
    let v := Value.mapping [("a", .mapping [("b c", .list [])]), ("x.y", .null)]
    v.DistinctKeys ∧ NamesByKeys v "a.b c" ∧ "$.a.b c" ∈ ofValue true v ∧
      ∃ u, evaluate (some v) "$.a.b c" = .ok (some u) := by
  intro v
  have inner : (Value.mapping [("b c", .list [])]).DistinctKeys :=
    .intro (by decide) (by simpa [Value.parts] using .intro (by decide) (by simp [Value.parts]))
  have hd : v.DistinctKeys := by
    refine .intro (by decide) ?_
    simp only [v, Value.parts, List.map_cons, List.map_nil, List.forall_mem_cons]
    exact ⟨inner, .intro (by decide) (by simp [Value.parts]), by simp⟩
  have hs : "a.b c" ∈ ofValue false v := by
    rw [ofValue_false]
    decide
  have plain := (mem_ofValue_iff v hd "a.b c").1.1 hs
  have anchored := (mem_ofValue_iff v hd "$.a.b c").2.1.2 ⟨"a.b c", rfl, plain⟩
  exact ⟨hd, plain, anchored, (mem_ofValue_iff v hd "$.a.b c").2.2 true anchored⟩

end DotQuery.Suggestions
