import DotQuery.Proofs.Path.Steps
import Mathlib.Logic.Relation

/-! Other texts for the same path.

A path is spelled by its pieces. A sign of the root says nothing wherever it stands, a key
and the index behind it may be one piece or two, and zeros in front of an index do not
count (`Alike`). Rewriting pieces in these ways leaves the steps that they spell as they
are (`Alike.spellSteps_iff`), and the steps are all that an evaluation depends on. -/
namespace DotQuery
open Text Json

namespace Path

/-! ### Rewriting -/

/-- What stands between the points of a text. The empty text has no pieces. -/
def piecesOf (text : String) : List (List Char) :=
  if text = "" then [] else pieces text

/-- The text with these pieces. -/
def joined (ps : List (List Char)) : String :=
  String.ofList (['.'].intercalate ps)

def bracketed (index : List Char) : List Char :=
  '[' :: (index ++ [']'])

/-- Pieces that can be put in the place of others. -/
inductive Alike : List (List Char) → List (List Char) → Prop where
  /-- A sign of the root may come or go. -/
  | sign : Alike [] [['$']]
  /-- A key may be parted from the index behind it. Before an index, the sign of the root
  is a key, but alone it would be none. -/
  | apart {k i : List Char} (ne_nil : k ≠ []) (ne_root : k ≠ ['$']) (no_bracket : '[' ∉ k) :
      Alike [k ++ bracketed i] [k, bracketed i]
  /-- A zero may stand in front of an index. -/
  | zero {k i : List Char} (no_bracket : '[' ∉ k) (ne_nil : i ≠ []) :
      Alike [k ++ bracketed i] [k ++ bracketed ('0' :: i)]

/-- The second text is the first with some of its pieces rewritten, at one place. -/
inductive Respelled (s : String) : String → Prop where
  | intro {before after a b : List (List Char)} (split : piecesOf s = before ++ a ++ after)
      (alike : Alike a b ∨ Alike b a) : Respelled s (joined (before ++ b ++ after))

/-! ### The steps that pieces spell -/

/-- Pieces spell the steps of the segments that they spell. -/
inductive SpellSteps : List (List Char) → List Step → Prop where
  | nil : SpellSteps [] []
  | cons {piece : List Char} {ps : List (List Char)} {segment : Segment} {steps : List Step}
      (first : Spells piece segment) (rest : SpellSteps ps steps) :
      SpellSteps (piece :: ps) (segment.steps ++ steps)

theorem spellSteps_iff {ps : List (List Char)} {steps : List Step} :
    SpellSteps ps steps ↔
      ∃ segments, List.Forall₂ Spells ps segments ∧ segments.flatMap Segment.steps = steps := by
  constructor
  · intro h
    induction h with
    | nil => exact ⟨[], .nil, rfl⟩
    | @cons _ _ segment _ first _ ih =>
      obtain ⟨segments, hs, rfl⟩ := ih
      exact ⟨segment :: segments, .cons first hs, List.flatMap_cons⟩
  · intro h
    obtain ⟨segments, hs, rfl⟩ := h
    induction hs with
    | nil => exact .nil
    | cons first _ ih => exact List.flatMap_cons ▸ .cons first ih

theorem spellSteps_cons_iff {piece : List Char} {ps : List (List Char)} {steps : List Step} :
    SpellSteps (piece :: ps) steps ↔
      ∃ segment rest, Spells piece segment ∧ SpellSteps ps rest ∧ steps = segment.steps ++ rest := by
  constructor
  · intro h
    cases h with
    | cons first rest => exact ⟨_, _, first, rest, rfl⟩
  · intro h
    obtain ⟨segment, rest, hs, hr, rfl⟩ := h
    exact .cons hs hr

theorem spellSteps_nil_iff {steps : List Step} : SpellSteps [] steps ↔ steps = [] := by
  constructor
  · intro h
    cases h
    rfl
  · intro h
    rw [h]
    exact .nil

theorem spellSteps_singleton_iff {piece : List Char} {steps : List Step} :
    SpellSteps [piece] steps ↔ ∃ segment, Spells piece segment ∧ steps = segment.steps := by
  simp [spellSteps_cons_iff, spellSteps_nil_iff]

theorem spellSteps_append_iff {a b : List (List Char)} {steps : List Step} :
    SpellSteps (a ++ b) steps ↔
      ∃ first rest, SpellSteps a first ∧ SpellSteps b rest ∧ steps = first ++ rest := by
  induction a generalizing steps with
  | nil => simp [spellSteps_nil_iff]
  | cons piece a ih =>
    simp only [List.cons_append, spellSteps_cons_iff, ih]
    constructor
    · intro h
      obtain ⟨segment, _, hs, ⟨first, rest, ha, hb, rfl⟩, rfl⟩ := h
      exact ⟨_, rest, ⟨segment, first, hs, ha, rfl⟩, hb, (List.append_assoc ..).symm⟩
    · intro h
      obtain ⟨_, rest, ⟨segment, first, hs, ha, rfl⟩, hb, rfl⟩ := h
      exact ⟨segment, _, hs, ⟨first, rest, ha, hb, rfl⟩, List.append_assoc ..⟩

theorem parse_eq_ok_iff_piecesOf {text : String} {p : Path} :
    parse text = .ok p ↔ List.Forall₂ Spells (piecesOf text) p.segments := by
  rw [parse_eq_ok_iff, piecesOf]
  by_cases h : text = "" <;> simp [h]

/-- Other pieces with the same steps may be put in the place of some. -/
theorem SpellSteps.replace {before a b after : List (List Char)} {steps : List Step}
    (h : SpellSteps (before ++ a ++ after) steps)
    (hab : ∀ steps, SpellSteps a steps → SpellSteps b steps) :
    SpellSteps (before ++ b ++ after) steps := by
  obtain ⟨_, last, hfront, hlast, rfl⟩ := spellSteps_append_iff.1 h
  obtain ⟨first, middle, hfirst, hmiddle, rfl⟩ := spellSteps_append_iff.1 hfront
  have hfront' := spellSteps_append_iff.2 ⟨first, middle, hfirst, hab middle hmiddle, rfl⟩
  exact spellSteps_append_iff.2 ⟨_, last, hfront', hlast, rfl⟩

theorem exists_parse_iff_spellSteps {text : String} {steps : List Step} :
    (∃ p, parse text = .ok p ∧ p.steps = steps) ↔ SpellSteps (piecesOf text) steps := by
  simp only [parse_eq_ok_iff_piecesOf, spellSteps_iff]
  constructor
  · intro h
    obtain ⟨p, hp, hs⟩ := h
    exact ⟨p.segments, hp, hs⟩
  · intro h
    obtain ⟨segments, hp, hs⟩ := h
    exact ⟨⟨segments⟩, hp, hs⟩

/-! ### What rewriting keeps -/

theorem spells_sign_iff {segment : Segment} : Spells ['$'] segment ↔ segment = .root := by
  rw [← plainSegment?_eq_some_iff (by decide)]
  exact Option.some_inj.trans eq_comm

theorem spells_key_iff_eq {k : List Char} (hne : k ≠ []) (hroot : k ≠ ['$']) (hb : '[' ∉ k)
    {segment : Segment} : Spells k segment ↔ segment = .key (String.ofList k) := by
  constructor
  · intro h
    cases h with
    | root => exact absurd rfl hroot
    | key => rfl
    | keyIndex => simp at hb
    | index => simp at hb
  · intro h
    rw [h]
    exact .key hne hroot hb

/-- A piece is cut at its first bracket in one way only. -/
theorem append_bracketed_inj {k k' i i' : List Char} (hk : '[' ∉ k) (hk' : '[' ∉ k')
    (h : k ++ bracketed i = k' ++ bracketed i') : k = k' ∧ i = i' := by
  have key_char : ∀ {l : List Char}, '[' ∉ l → ∀ c ∈ l, (c != '[') = true := by
    intro l hl c hc
    simpa using fun he : c = '[' => hl (he ▸ hc)
  have stops : ∀ i, Stops (· != '[') (bracketed i) := fun i => stops_cons rfl
  obtain ⟨rfl, hi⟩ := scan_unique h (key_char hk) (stops i) (key_char hk') (stops i')
  exact ⟨rfl, List.append_cancel_right (List.cons.inj hi).2⟩

theorem spellSteps_bracketed_iff {k i : List Char} (hk : '[' ∉ k) {steps : List Step} :
    SpellSteps [k ++ bracketed i] steps ↔
      ∃ n, Numeral i n ∧ n < 2 ^ 64 ∧ steps = (indexedSegment k n).steps := by
  rw [spellSteps_singleton_iff]
  constructor
  · intro h
    obtain ⟨segment, h, rfl⟩ := h
    obtain ⟨k', i', n, hk', hn, hlt, hpiece, rfl⟩ := h.exists_index (by simp [bracketed])
    obtain ⟨rfl, rfl⟩ := append_bracketed_inj hk hk' hpiece
    exact ⟨n, hn, hlt, rfl⟩
  · intro h
    obtain ⟨n, hn, hlt, rfl⟩ := h
    exact ⟨_, .indexed hk hn hlt, rfl⟩

theorem spellSteps_index_iff {i : List Char} {steps : List Step} :
    SpellSteps [bracketed i] steps ↔ ∃ n, Numeral i n ∧ n < 2 ^ 64 ∧ steps = [.index n] :=
  spellSteps_bracketed_iff (k := []) List.not_mem_nil

theorem steps_indexedSegment {k : List Char} (hne : k ≠ []) (n : Nat) :
    (indexedSegment k n).steps = [.key (String.ofList k), .index n] := by
  cases k with
  | nil => exact absurd rfl hne
  | cons => rfl

/-- Rewritten pieces spell the same steps. -/
theorem Alike.spellSteps_iff {a b : List (List Char)} (h : Alike a b) {steps : List Step} :
    SpellSteps a steps ↔ SpellSteps b steps := by
  cases h with
  | sign =>
    simp [spellSteps_nil_iff, spellSteps_singleton_iff, spells_sign_iff, Segment.steps]
  | apart hne hroot hb =>
    rw [spellSteps_bracketed_iff hb, spellSteps_cons_iff]
    simp only [spells_key_iff_eq hne hroot hb, spellSteps_index_iff, steps_indexedSegment hne]
    constructor
    · intro h
      obtain ⟨n, hn, hlt, rfl⟩ := h
      exact ⟨_, _, rfl, ⟨n, hn, hlt, rfl⟩, rfl⟩
    · intro h
      obtain ⟨_, _, rfl, ⟨n, hn, hlt, rfl⟩, rfl⟩ := h
      exact ⟨n, hn, hlt, rfl⟩
  | zero hb hne =>
    simp only [spellSteps_bracketed_iff hb, numeral_zero_cons_iff hne]

theorem Alike.no_point_iff {a b : List (List Char)} (h : Alike a b) :
    (∀ piece ∈ a, '.' ∉ piece) ↔ ∀ piece ∈ b, '.' ∉ piece := by
  cases h <;> simp [bracketed]

/-! ### Rewriting texts -/

theorem no_point_of_mem_piecesOf (text : String) : ∀ piece ∈ piecesOf text, '.' ∉ piece := by
  rw [piecesOf]
  split
  · simp
  · exact no_point_of_mem_splitOn text.toList

theorem SpellSteps.ne_nil {ps : List (List Char)} {steps : List Step} (h : SpellSteps ps steps) :
    ∀ piece ∈ ps, piece ≠ [] := by
  induction h with
  | nil => simp
  | cons first _ ih => exact List.forall_mem_cons.2 ⟨first.ne_nil, ih⟩

/-- A text is cut into the pieces that it was made of. -/
theorem piecesOf_joined {ps : List (List Char)} {steps : List Step} (h : SpellSteps ps steps)
    (hp : ∀ piece ∈ ps, '.' ∉ piece) : piecesOf (joined ps) = ps := by
  cases ps with
  | nil => rfl
  | cons piece ps =>
    have hsplit : pieces (joined (piece :: ps)) = piece :: ps := by
      rw [pieces, joined, String.toList_ofList]
      exact List.splitOn_intercalate '.' hp (List.cons_ne_nil piece ps)
    rw [piecesOf, if_neg, hsplit]
    -- the empty text is that of a single empty piece, which spells nothing
    intro hempty
    rw [hempty] at hsplit
    exact h.ne_nil [] (hsplit ▸ List.mem_singleton_self []) rfl

/-- A rewritten text spells the same steps. -/
theorem Respelled.spellSteps {s t : String} (h : Respelled s t) {steps : List Step}
    (hs : SpellSteps (piecesOf s) steps) : SpellSteps (piecesOf t) steps := by
  obtain @⟨before, after, a, b, hsplit, halike⟩ := h
  have hspelled : SpellSteps (before ++ b ++ after) steps := by
    rw [hsplit] at hs
    exact hs.replace fun _ => halike.elim (fun h => h.spellSteps_iff.1) fun h => h.spellSteps_iff.2
  -- The new pieces are free of points and not empty, so the new text is cut into them again.
  have hpoints := no_point_of_mem_piecesOf s
  rw [hsplit, List.forall_mem_append, List.forall_mem_append] at hpoints
  obtain ⟨⟨hbefore, ha⟩, hafter⟩ := hpoints
  have hb : ∀ piece ∈ b, '.' ∉ piece :=
    halike.elim (fun h => h.no_point_iff.1 ha) fun h => h.no_point_iff.2 ha
  have hnew : ∀ piece ∈ before ++ b ++ after, '.' ∉ piece :=
    List.forall_mem_append.2 ⟨List.forall_mem_append.2 ⟨hbefore, hb⟩, hafter⟩
  rwa [piecesOf_joined hspelled hnew]

theorem spellSteps_of_respelled {s t : String} (h : Relation.ReflTransGen Respelled s t)
    {steps : List Step} (hs : SpellSteps (piecesOf s) steps) : SpellSteps (piecesOf t) steps := by
  induction h with
  | refl => exact hs
  | tail _ h ih => exact h.spellSteps ih

end Path

/-- **All spellings of a path evaluate alike.** However the pieces of a path are rewritten,
the text stays a path, and for every root it is evaluated to what it was: the same value,
the same absence or the same error. -/
theorem evaluate_respelled {s t : String} {p : Path} (hp : Path.parse s = .ok p)
    (h : Relation.ReflTransGen Path.Respelled s t) :
    (∃ q, Path.parse t = .ok q) ∧ ∀ root, evaluate root t = evaluate root s := by
  have hs : Path.SpellSteps (Path.piecesOf s) p.steps :=
    Path.exists_parse_iff_spellSteps.1 ⟨p, hp, rfl⟩
  obtain ⟨q, hq, hsteps⟩ := Path.exists_parse_iff_spellSteps.2 (Path.spellSteps_of_respelled h hs)
  exact ⟨⟨q, hq⟩, evaluate_congr_steps hq hp hsteps⟩

/-- A sign of the root goes from the front to the end, an index loses a zero and becomes a
piece of its own: the item is found as before, and what is no mapping is blamed alike. -/
theorem evaluate_respelled_item :
    let v := Value.mapping [("é", .list [.null, .boolean true])]
    Path.parse "$.é[01]" = .ok ⟨[.root, .keyIndex "é" 1]⟩ ∧
      Relation.ReflTransGen Path.Respelled "$.é[01]" "é.[1].$" ∧
      evaluate (some v) "é.[1].$" = .ok (some (.boolean true)) ∧
      evaluate (some .null) "é.[1].$" = .error (.notMapping "é" .null) ∧
      evaluate none "é.[1].$" = .error .noDocument := by
  intro v
  have hp : Path.parse "$.é[01]" = .ok ⟨[.root, .keyIndex "é" 1]⟩ := by
    refine (Path.parse_eq_ok_iff_readSegments (by decide)).2 ?_
    rw [Path.readSegments_point rfl, Path.readSegments_last rfl]
    rfl
  have unsigned : Path.Respelled "$.é[01]" "é[01]" :=
    @Path.Respelled.intro _ [] ["é[01]".toList] [['$']] [] rfl (.inr .sign)
  have shorter : Path.Respelled "é[01]" "é[1]" :=
    @Path.Respelled.intro _ [] [] ["é[01]".toList] ["é[1]".toList] rfl
      (.inr (.zero (k := ['é']) (i := ['1']) (by decide) (by decide)))
  have apart : Path.Respelled "é[1]" "é.[1]" :=
    @Path.Respelled.intro _ [] [] ["é[1]".toList] [['é'], "[1]".toList] rfl
      (.inl (.apart (k := ['é']) (i := ['1']) (by decide) (by decide) (by decide)))
  have signed : Path.Respelled "é.[1]" "é.[1].$" :=
    @Path.Respelled.intro _ [['é'], "[1]".toList] [] [] [['$']] rfl (.inl .sign)
  have hrespelled : Relation.ReflTransGen Path.Respelled "$.é[01]" "é.[1].$" :=
    (((Relation.ReflTransGen.single unsigned).tail shorter).tail apart).tail signed
  obtain ⟨-, same⟩ := evaluate_respelled hp hrespelled
  refine ⟨hp, hrespelled, ?_, ?_, ?_⟩
  all_goals
    rw [same, evaluate_eq_resolve hp]
    rfl

end DotQuery
