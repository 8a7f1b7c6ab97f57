import DotQuery.Proofs.Path.Joining
import DotQuery.Proofs.Suggestions.Membership
import DotQuery.Proofs.Suggestions.Preorder

/-! What is suggested below a suggestion.

A text that goes on behind a suggestion and a point is a path into the value that the
suggestion names. In the list these paths stand together, right behind the suggestion
(`Block`): a member whose key only begins alike has another first piece, so none of its
paths goes on below the suggestion. -/
namespace DotQuery.Suggestions
open Json

/-! ### Texts that go on below a path -/

/-- The text goes on behind the path and a point. -/
def GoesBelow (p s : String) : Prop :=
  ∃ t, s = p ++ "." ++ t

theorem isPrefixOf_toList_iff {start s : String} :
    start.toList.isPrefixOf s.toList = true ↔ ∃ t, s = start ++ t := by
  rw [List.isPrefixOf_iff_prefix]
  constructor
  · intro h
    obtain ⟨rest, h⟩ := h
    exact ⟨String.ofList rest, by rw [← String.toList_inj]; simp [h]⟩
  · intro h
    obtain ⟨t, rfl⟩ := h
    exact ⟨t.toList, by simp⟩

theorem mem_matching_iff {p s : String} {l : List String} :
    s ∈ matching (p ++ ".") l ↔ s ∈ l ∧ GoesBelow p s := by
  rw [matching, List.mem_filter, isPrefixOf_toList_iff]
  rfl

theorem matching_append (start : String) (a b : List String) :
    matching start (a ++ b) = matching start a ++ matching start b :=
  List.filter_append ..

theorem matching_eq_nil {p : String} {l : List String} (h : ∀ s ∈ l, ¬ GoesBelow p s) :
    matching (p ++ ".") l = [] := by
  rw [List.eq_nil_iff_forall_not_mem]
  intro s hs
  obtain ⟨hl, hp⟩ := mem_matching_iff.1 hs
  exact h s hl hp

theorem matching_join (p : String) (l : List String) :
    matching (p ++ ".") (l.map (p ++ "." ++ ·)) = l.map (p ++ "." ++ ·) := by
  rw [matching, List.filter_eq_self]
  intro s hs
  obtain ⟨t, -, rfl⟩ := List.mem_map.1 hs
  exact isPrefixOf_toList_iff.2 ⟨t, rfl⟩

theorem not_goesBelow_self (p : String) : ¬ GoesBelow p p := by
  intro h
  obtain ⟨t, h⟩ := h
  exact join_ne_self p t h.symm

theorem goesBelow_join_iff {k p s : String} :
    GoesBelow (k ++ "." ++ p) (k ++ "." ++ s) ↔ GoesBelow p s := by
  simp only [GoesBelow, String.append_assoc, String.append_right_inj]

theorem not_goesBelow_join (k p : String) : ¬ GoesBelow (k ++ "." ++ p) k := by
  intro h
  obtain ⟨t, h⟩ := h
  refine join_ne_self k (p ++ "." ++ t) ?_
  simpa [String.append_assoc] using h.symm

/-! ### Blocks -/

/-- In the list, the path `p` and behind it the paths below it, which are those that `u`
lists, stand together, and no other path goes below `p`. -/
def Block (l : List String) (p : String) (u : Value) : Prop :=
  ∃ before after, l = before ++ entry (p, u) ++ after ∧ ∀ s ∈ before ++ after, ¬ GoesBelow p s

theorem map_entry (k p : String) (u : Value) :
    (entry (p, u)).map (k ++ "." ++ ·) = entry (k ++ "." ++ p, u) := by
  simp [entry, String.append_assoc]

theorem block_entry (p : String) (u : Value) : Block (entry (p, u)) p u :=
  ⟨[], [], by simp, by simp⟩

namespace Block
variable {l : List String} {p : String} {u : Value}

/-- A block stays one between paths that do not go below its first. -/
theorem within (h : Block l p u) {a b : List String} (ha : ∀ s ∈ a, ¬ GoesBelow p s)
    (hb : ∀ s ∈ b, ¬ GoesBelow p s) : Block (a ++ l ++ b) p u := by
  obtain ⟨before, after, rfl, hrest⟩ := h
  refine ⟨a ++ before, after ++ b, by simp, ?_⟩
  intro s hs
  simp only [List.mem_append] at hs hrest
  rcases hs with (hs | hs) | (hs | hs)
  · exact ha s hs
  · exact hrest s (.inl hs)
  · exact hrest s (.inr hs)
  · exact hb s hs

/-- A block stays one behind a key and a point. -/
theorem join (h : Block l p u) (k : String) :
    Block (l.map (k ++ "." ++ ·)) (k ++ "." ++ p) u := by
  obtain ⟨before, after, rfl, hrest⟩ := h
  refine ⟨before.map (k ++ "." ++ ·), after.map (k ++ "." ++ ·), ?_, ?_⟩
  · rw [List.map_append, List.map_append, map_entry]
  · rw [← List.map_append]
    intro s hs
    obtain ⟨t, ht, rfl⟩ := List.mem_map.1 hs
    rw [goesBelow_join_iff]
    exact hrest t ht

/-- The paths that go on below the first of a block are the others of the block. -/
theorem matching_eq (h : Block l p u) :
    matching (p ++ ".") l = (listing u).map (p ++ "." ++ ·) := by
  obtain ⟨before, after, rfl, hrest⟩ := h
  have hbefore : matching (p ++ ".") before = [] :=
    matching_eq_nil fun s hs => hrest s (List.mem_append_left after hs)
  have hafter : matching (p ++ ".") after = [] :=
    matching_eq_nil fun s hs => hrest s (List.mem_append_right before hs)
  have hself : matching (p ++ ".") [p] = [] :=
    matching_eq_nil (by simpa using not_goesBelow_self p)
  have hentry : entry (p, u) = [p] ++ (listing u).map (p ++ "." ++ ·) := rfl
  rw [matching_append, matching_append, hbefore, hafter, hentry, matching_append, hself,
    matching_join, List.nil_append, List.nil_append, List.append_nil]

end Block

/-! ### Each suggestion heads a block -/

/-- Paths into another member do not go below a path into this one. -/
theorem not_goesBelow_of_ne {m m' : String × Value} (hm : Path.isPlainKey m.1 = true)
    (hm' : Path.isPlainKey m'.1 = true) (hne : m.1 ≠ m'.1) {p s : String} (hp : p ∈ entry m)
    (hs : s ∈ entry m') : ¬ GoesBelow p s := by
  intro h
  obtain ⟨t, rfl⟩ := h
  -- what goes on below a path has the first piece of the path
  have hfirst : (Path.pieces (p ++ "." ++ t)).head? = some m.1.toList := by
    rw [Path.pieces_join, List.head?_append, head?_pieces_of_mem_entry hm hp]
    rfl
  rw [head?_pieces_of_mem_entry hm' hs, Option.some_inj, String.toList_inj] at hfirst
  exact hne hfirst.symm

/-- A block in the paths of one member is one in the paths of all members. -/
theorem Block.among {members : List (String × Value)}
    (hplain : ∀ m ∈ members, Path.isPlainKey m.1 = true)
    (hkeys : members.Pairwise fun m m' => m.1 ≠ m'.1) {m : String × Value} (hm : m ∈ members)
    {p : String} {u : Value} (hp : p ∈ entry m) (h : Block (entry m) p u) :
    Block (members.flatMap entry) p u := by
  obtain ⟨a, b, rfl⟩ := List.append_of_mem hm
  obtain ⟨-, hb, hab⟩ := List.pairwise_append.1 hkeys
  have others : ∀ m' ∈ a ++ b, Path.isPlainKey m'.1 = true ∧ m.1 ≠ m'.1 := by
    intro m' hm'
    rcases List.mem_append.1 hm' with hm' | hm'
    · exact ⟨hplain m' (List.mem_append_left _ hm'), (hab m' hm' m List.mem_cons_self).symm⟩
    · exact ⟨hplain m' (List.mem_append_right _ (List.mem_cons_of_mem m hm')),
        (List.pairwise_cons.1 hb).1 m' hm'⟩
  have none_below : ∀ l : List (String × Value), (∀ m' ∈ l, m' ∈ a ++ b) →
      ∀ s ∈ l.flatMap entry, ¬ GoesBelow p s := by
    intro l hl s hs
    obtain ⟨m', hm', hs⟩ := List.mem_flatMap.1 hs
    obtain ⟨hplain', hne⟩ := others m' (hl m' hm')
    exact not_goesBelow_of_ne (hplain m hm) hplain' hne hp hs
  rw [List.flatMap_append, List.flatMap_cons, ← List.append_assoc]
  exact h.within (none_below a fun _ => List.mem_append_left b)
    (none_below b fun _ => List.mem_append_right a)

theorem evaluate_member {members : List (String × Value)} (hkeys : (members.map Prod.fst).Nodup)
    {m : String × Value} (hm : m ∈ members) (hplain : Path.isPlainKey m.1 = true) :
    evaluate (some (.mapping members)) m.1 = .ok (some m.2) := by
  rw [evaluate_eq_resolve (Path.parse_of_isPlainKey hplain)]
  show Path.follow (.mapping members) ([m.1].map .key) = _
  exact follow_key.2 ⟨m.2, (member?_eq_some_iff hkeys).2 hm, rfl⟩

/-- A path below a member leads where its rest leads from the member. -/
theorem evaluate_below {v w u : Value} {key q : String} (hplain : Path.isPlainKey key = true)
    (hkey : evaluate (some v) key = .ok (some w)) (hw : w.DistinctKeys) (hq : q ∈ listing w)
    (hu : evaluate (some w) q = .ok (some u)) :
    evaluate (some v) (key ++ "." ++ q) = .ok (some u) := by
  have names := (mem_listing_iff hw q).1 hq
  obtain ⟨path, _, hparse, _⟩ := id names
  rw [evaluate_join_found (Path.isPlainKey_iff.1 hplain).1 (Path.parse_of_isPlainKey hplain)
    names.ne_empty hparse hkey, hu]

theorem exists_block_listing {v : Value} (h : v.DistinctKeys) {p : String} (hp : p ∈ listing v) :
    ∃ u, evaluate (some v) p = .ok (some u) ∧ Block (listing v) p u := by
  induction h generalizing p with
  | @intro v hkeys within ih =>
    cases v with
    | mapping members =>
      rw [listing, membersListing_eq] at hp ⊢
      obtain ⟨m, hm, hpm⟩ := List.mem_flatMap.1 hp
      obtain ⟨hmem, hplain⟩ := List.mem_filter.1 hm
      have hpart : m.2 ∈ (Value.mapping members).parts := List.mem_map_of_mem hmem
      have hkey := evaluate_member hkeys hmem hplain
      have distinct : members.Pairwise fun m m' => m.1 ≠ m'.1 := List.pairwise_map.1 hkeys
      have among : ∀ {u}, Block (entry m) p u → Block _ p u :=
        Block.among (fun _ h => (List.mem_filter.1 h).2) (distinct.filter _) hm hpm
      rcases List.mem_cons.1 hpm with rfl | hbelow
      · exact ⟨m.2, hkey, among (block_entry m.1 m.2)⟩
      · obtain ⟨q, hq, rfl⟩ := List.mem_map.1 hbelow
        obtain ⟨u, hu, hblock⟩ := ih m.2 hpart hq
        refine ⟨u, evaluate_below hplain hkey (within m.2 hpart) hq hu, among ?_⟩
        -- the key of the member itself stands before its block
        have hentry : entry m = [m.1] ++ (listing m.2).map (m.1 ++ "." ++ ·) ++ [] := by
          simp [entry]
        rw [hentry]
        exact (hblock.join m.1).within (by simpa using not_goesBelow_join m.1 q) (by simp)
    | _ => cases hp

theorem exists_block {v : Value} (h : v.DistinctKeys) {anchored : Bool} {p : String}
    (hp : p ∈ ofValue anchored v) :
    ∃ u, evaluate (some v) p = .ok (some u) ∧ Block (ofValue anchored v) p u := by
  cases anchored with
  | false =>
    rw [ofValue_false] at hp ⊢
    exact exists_block_listing h hp
  | true =>
    rw [ofValue_true] at hp ⊢
    obtain ⟨q, hq, rfl⟩ := List.mem_map.1 hp
    obtain ⟨u, hu, hblock⟩ := exists_block_listing h hq
    refine ⟨u, ?_, hblock.join "$"⟩
    rw [evaluate_anchored ((mem_listing_iff h q).1 hq), hu]

/-- **What goes on below a suggestion is the subtree of the value it names.** Every
suggestion is found; the suggestions that go on behind it and a point are, in order, the
plain suggestions for the value found, with the suggestion and the point in front; and
they stand together right behind it. -/
theorem matching_subtree (v : Value) (h : v.DistinctKeys) (anchored : Bool) (p : String)
    (hp : p ∈ ofValue anchored v) :
    ∃ u, evaluate (some v) p = .ok (some u) ∧
      matching (p ++ ".") (ofValue anchored v) = (ofValue false u).map (p ++ "." ++ ·) ∧
      ∃ before after, ofValue anchored v =
        before ++ p :: (ofValue false u).map (p ++ "." ++ ·) ++ after := by
  obtain ⟨u, hu, hblock⟩ := exists_block h hp
  refine ⟨u, hu, ?_⟩
  rw [ofValue_false u]
  refine ⟨hblock.matching_eq, ?_⟩
  obtain ⟨before, after, hsplit, -⟩ := hblock
  exact ⟨before, after, hsplit⟩

/-- A key that goes on with a space, and one that goes on behind a bracket, begin like the
suggestion but do not lie below it. -/
theorem matching_subtree_alike :
    let u := Value.mapping [("b c", .mapping [("d]", .null)]), ("e", .list [])]
    let v := Value.mapping [("a b", .mapping [("c", .null)]), ("a", u), ("a]", .null)]
    v.DistinctKeys ∧ "$.a" ∈ ofValue true v ∧ evaluate (some v) "$.a" = .ok (some u) ∧
      matching "$.a." (ofValue true v) = ["$.a.b c", "$.a.b c.d]", "$.a.e"] ∧
      ∃ before after, ofValue true v =
        before ++ "$.a" :: ["$.a.b c", "$.a.b c.d]", "$.a.e"] ++ after := by
  intro u v
  have hd : v.DistinctKeys := by simp [v, u]
  have hlisting : listing v = ["a b", "a b.c", "a", "a.b c", "a.b c.d]", "a.e", "a]"] := by decide
  have hbelow : listing u = ["b c", "b c.d]", "e"] := by decide
  have hp : "$.a" ∈ ofValue true v := by
    rw [ofValue_true, hlisting]
    decide
  have hu : evaluate (some v) "$.a" = .ok (some u) := by
    have hplain : Path.parse "a" = .ok ⟨[.key "a"]⟩ := Path.parse_of_isPlainKey (by decide)
    have hparse : Path.parse "$.a" = .ok ⟨[.root, .key "a"]⟩ :=
      Path.parse_anchored (by decide) hplain
    rw [evaluate_eq_resolve hparse]
    rfl
  obtain ⟨w, hw, hmatching, hsplit⟩ := matching_subtree v hd true "$.a" hp
  obtain rfl : u = w := by simpa [hu] using hw
  rw [ofValue_false, hbelow] at hmatching hsplit
  exact ⟨hd, hp, hu, hmatching, hsplit⟩

end DotQuery.Suggestions
