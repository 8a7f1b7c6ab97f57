import DotQuery.Proofs.Path.Joining
import DotQuery.Proofs.Path.Printing

/-! Paths as single steps.

A segment goes no step down, one or two. A path is followed exactly as its steps are
followed, one at a time (`follow_steps`), so it finds a value where each step leads on
and the last one leads to that value (`Reaches`), and paths with the same steps name the
same (`evaluate_congr_steps`). The steps that some path has are those of which a text can
be made: an index is put behind the key before it (`segmentsOf`), which is what lets the
sign of the root be a key. -/
namespace DotQuery
open Json

namespace Path

/-- One step down: to a member of a mapping or to an item of a list. -/
inductive Step where
  | key (name : String)
  | index (i : Nat)
deriving DecidableEq, Repr

/-- The segment that takes this step and no other. -/
def Step.segment : Step → Segment
  | key name => .key name
  | index i => .index i

end Path

/-- The steps that a segment takes. -/
def Segment.steps : Segment → List Path.Step
  | .root => []
  | .key name => [.key name]
  | .keyIndex name i => [.key name, .index i]
  | .index i => [.index i]

namespace Path

def steps (p : Path) : List Step :=
  p.segments.flatMap Segment.steps

/-! ### Following steps -/

/-- Where a step leads from a value. -/
inductive Leads : Value → Step → Value → Prop where
  | key {members : List (String × Value)} {name : String} {u : Value}
      (member : member? name members = some u) : Leads (.mapping members) (.key name) u
  | index {items : List Value} {i : Nat} {u : Value}
      (item : items[i]? = some u) : Leads (.list items) (.index i) u

/-- Where steps lead from a value, one after the other. -/
inductive Reaches : Value → List Step → Value → Prop where
  | here (v : Value) : Reaches v [] v
  | down {v w u : Value} {step : Step} {steps : List Step} (first : Leads v step w)
      (rest : Reaches w steps u) : Reaches v (step :: steps) u

theorem reaches_nil_iff {v u : Value} : Reaches v [] u ↔ u = v := by
  constructor
  · intro h
    cases h
    rfl
  · intro h
    rw [h]
    exact .here v

theorem reaches_cons_iff {v u : Value} {step : Step} {steps : List Step} :
    Reaches v (step :: steps) u ↔ ∃ w, Leads v step w ∧ Reaches w steps u := by
  constructor
  · intro h
    cases h with
    | down first rest => exact ⟨_, first, rest⟩
  · intro h
    obtain ⟨w, first, rest⟩ := h
    exact .down first rest

theorem reaches_append_iff {v u : Value} {a b : List Step} :
    Reaches v (a ++ b) u ↔ ∃ w, Reaches v a w ∧ Reaches w b u := by
  induction a generalizing v with
  | nil => simp [reaches_nil_iff]
  | cons step a ih =>
    simp only [List.cons_append, reaches_cons_iff, ih]
    constructor
    · intro h
      obtain ⟨x, hx, w, ha, hb⟩ := h
      exact ⟨w, ⟨x, hx, ha⟩, hb⟩
    · intro h
      obtain ⟨w, ⟨x, hx, ha⟩, hb⟩ := h
      exact ⟨x, hx, w, ha, hb⟩

theorem step_key (members : List (String × Value)) (name : String) :
    (Step.key name).segment.step (.mapping members) = .ok (member? name members) := rfl

theorem step_index (items : List Value) (i : Nat) :
    (Step.index i).segment.step (.list items) =
      match items[i]? with
      | some item => .ok (some item)
      | none => .error (.outOfRange i items.length) := by
  show (stepIndex (.list items) i).map some = _
  rw [stepIndex]
  cases items[i]? <;> rfl

theorem step_segment_eq_some_iff {v w : Value} {step : Step} :
    step.segment.step v = .ok (some w) ↔ Leads v step w := by
  constructor
  · intro h
    cases step with
    | key name =>
      cases v with
      | mapping members => exact .key (Except.ok.inj h)
      | _ => cases h
    | index i =>
      cases v with
      | list items =>
        rw [step_index] at h
        split at h
        · rename_i item hi
          cases h
          exact .index hi
        · cases h
      | _ => cases h
  · intro h
    cases h with
    | key member => rw [step_key, member]
    | index item => rw [step_index, item]

theorem Leads.unique {v w w' : Value} {step : Step} (h : Leads v step w) (h' : Leads v step w') :
    w = w' := by
  have he := (step_segment_eq_some_iff.2 h).symm.trans (step_segment_eq_some_iff.2 h')
  simpa using he

/-- A segment leads where its steps do, and fails as they do. -/
theorem step_eq_follow_steps (v : Value) (segment : Segment) :
    segment.step v = follow v (segment.steps.map Step.segment) := by
  cases segment with
  | root => rfl
  | key name =>
    show stepKey v name = follow v [.key name]
    rw [follow, Segment.step]
    rcases stepKey v name with _ | _ | _ <;> rfl
  | keyIndex name i =>
    -- the one segment of two steps: where the key leads nowhere, the index is not looked at
    show _ = follow v [.key name, .index i]
    rw [follow, Segment.step, Segment.step]
    rcases stepKey v name with _ | _ | u
    · rfl
    · rfl
    · show (stepIndex u i).map some = follow u [.index i]
      rw [follow, Segment.step]
      cases stepIndex u i <;> rfl
  | index i =>
    show (stepIndex v i).map some = follow v [.index i]
    rw [follow, Segment.step]
    cases stepIndex v i <;> rfl

/-- A path is followed as its steps are. -/
theorem follow_steps (v : Value) (segments : List Segment) :
    follow v segments = follow v ((segments.flatMap Segment.steps).map Step.segment) := by
  induction segments generalizing v with
  | nil => rfl
  | cons segment segments ih =>
    rw [List.flatMap_cons, List.map_append, follow_append, ← step_eq_follow_steps, follow]
    rcases segment.step v with _ | _ | u
    · rfl
    · rfl
    · exact ih u

theorem follow_eq_some_iff_reaches {v u : Value} {steps : List Step} :
    follow v (steps.map Step.segment) = .ok (some u) ↔ Reaches v steps u := by
  induction steps generalizing v with
  | nil =>
    rw [reaches_nil_iff, eq_comm (a := u)]
    simp [follow]
  | cons step steps ih =>
    rw [reaches_cons_iff, List.map_cons, follow]
    simp only [← ih, ← step_segment_eq_some_iff]
    rcases step.segment.step v with _ | _ | w <;> simp

/-! ### Evaluating -/

theorem steps_eq_nil_iff (p : Path) : p.steps = [] ↔ p.segments.all (· == .root) = true := by
  rw [steps, List.flatMap_eq_nil_iff, List.all_eq_true]
  refine forall₂_congr fun segment _ => ?_
  cases segment <;> simp [Segment.steps]

theorem resolve_some (p : Path) (v : Value) :
    p.resolve (some v) = follow v (p.steps.map Step.segment) :=
  follow_steps v p.segments

/-- Without a document a path may not take a step. -/
theorem resolve_none (p : Path) :
    p.resolve none = if p.steps = [] then .ok none else .error .noDocument := by
  simp only [resolve, steps_eq_nil_iff]

/-- What a path names depends on its steps alone. -/
theorem resolve_congr_steps {p q : Path} (h : p.steps = q.steps) (root : Option Value) :
    p.resolve root = q.resolve root := by
  cases root with
  | none => rw [resolve_none, resolve_none, h]
  | some v => rw [resolve_some, resolve_some, h]

/-! ### The steps that paths have -/

/-- Whether a step can be written with the others after it. A key must be free of the
signs that end keys, and the sign of the root is a key only before an index. -/
def Step.IsWritable (after : List Step) : Step → Prop
  | key name =>
    name ≠ "" ∧ '.' ∉ name.toList ∧ '[' ∉ name.toList ∧
      (name = "$" → ∃ i, after.head? = some (.index i))
  | index i => i < 2 ^ 64

/-- The steps that a path can have. -/
def AreWritable : List Step → Prop
  | [] => True
  | step :: after => step.IsWritable after ∧ AreWritable after

/-- Segments that take the steps: an index stands behind the key before it. -/
def segmentsOf : List Step → List Segment
  | [] => []
  | .key name :: .index i :: rest => .keyIndex name i :: segmentsOf rest
  | .key name :: rest => .key name :: segmentsOf rest
  | .index i :: rest => .index i :: segmentsOf rest

theorem steps_segmentsOf (steps : List Step) : (segmentsOf steps).flatMap Segment.steps = steps := by
  fun_induction segmentsOf steps with
  | case1 => rfl
  | case2 name i rest ih => rw [List.flatMap_cons, ih]; rfl
  | case3 name rest _ ih => rw [List.flatMap_cons, ih]; rfl
  | case4 i rest ih => rw [List.flatMap_cons, ih]; rfl

theorem isWritable_segmentsOf {steps : List Step} (h : AreWritable steps) :
    ∀ segment ∈ segmentsOf steps, segment.IsWritable := by
  fun_induction segmentsOf steps with
  | case1 => simp
  | case2 name i rest ih =>
    obtain ⟨⟨hne, hpoint, hbracket, -⟩, hi, hrest⟩ := h
    exact List.forall_mem_cons.2 ⟨⟨hne, hpoint, hbracket, hi⟩, ih hrest⟩
  | case3 name rest hnext ih =>
    obtain ⟨⟨hne, hpoint, hbracket, hsign⟩, hrest⟩ := h
    refine List.forall_mem_cons.2 ⟨isPlainKey_iff.2 ⟨hne, ?_, hpoint, hbracket⟩, ih hrest⟩
    -- the sign of the root would have an index behind it, and be written with that
    intro hname
    obtain ⟨i, hi⟩ := hsign hname
    obtain ⟨others, rfl⟩ := List.head?_eq_some_iff.1 hi
    exact hnext i others rfl
  | case4 i rest ih => exact List.forall_mem_cons.2 ⟨h.1, ih h.2⟩

theorem areWritable_steps {segments : List Segment}
    (h : ∀ segment ∈ segments, segment.IsWritable) :
    AreWritable (segments.flatMap Segment.steps) := by
  induction segments with
  | nil => trivial
  | cons segment segments ih =>
    obtain ⟨hs, hrest⟩ := List.forall_mem_cons.1 h
    have after := ih hrest
    cases segment with
    | root => exact after
    | key name =>
      obtain ⟨hne, hroot, hpoint, hbracket⟩ := isPlainKey_iff.1 hs
      exact ⟨⟨hne, hpoint, hbracket, fun hname => absurd hname hroot⟩, after⟩
    | keyIndex name i =>
      obtain ⟨hne, hpoint, hbracket, hi⟩ := hs
      exact ⟨⟨hne, hpoint, hbracket, fun _ => ⟨i, rfl⟩⟩, hi, after⟩
    | index i => exact ⟨hs, after⟩

theorem exists_steps_iff {steps : List Step} :
    (∃ text p, parse text = .ok p ∧ p.steps = steps) ↔ AreWritable steps := by
  constructor
  · intro h
    obtain ⟨text, p, hp, rfl⟩ := h
    exact areWritable_steps (isWritable_of_parse hp)
  · intro h
    exact ⟨_, _, parse_textOf (isWritable_segmentsOf h), steps_segmentsOf steps⟩

end Path

theorem evaluate_congr_steps {s t : String} {p q : Path} (hp : Path.parse s = .ok p)
    (hq : Path.parse t = .ok q) (h : p.steps = q.steps) (root : Option Value) :
    evaluate root s = evaluate root t := by
  rw [evaluate_eq_resolve hp, evaluate_eq_resolve hq, Path.resolve_congr_steps h]

theorem evaluate_eq_some_iff_reaches {text : String} {p : Path} (hp : Path.parse text = .ok p)
    {v u : Value} : evaluate (some v) text = .ok (some u) ↔ Path.Reaches v p.steps u := by
  rw [evaluate_eq_resolve hp, Path.resolve_some, Path.follow_eq_some_iff_reaches]

/-- **Which places queries can reach.** Steps are those of a path exactly if each of them
can be written with the ones after it. A path finds a value exactly if its steps, each
taken from where the one before it led, end at that value. -/
theorem evaluate_reach :
    (∀ steps : List Path.Step,
      (∃ text p, Path.parse text = .ok p ∧ p.steps = steps) ↔ Path.AreWritable steps) ∧
    ∀ text p, Path.parse text = .ok p → ∀ v u,
      evaluate (some v) text = .ok (some u) ↔ Path.Reaches v p.steps u :=
  ⟨fun _ => Path.exists_steps_iff, fun _ _ hp _ _ => evaluate_eq_some_iff_reaches hp⟩

/-- Under the sign of the root as a key there is an item to be found; the value under
that key itself has no path. -/
theorem evaluate_reach_sign :
    let v := Value.mapping [("$", .list [.null, .mapping [("a]", .boolean true)]])]
    let p : Path := ⟨[.root, .keyIndex "$" 1, .key "a]"]⟩
    Path.parse "$.$[1].a]" = .ok p ∧ p.steps = [.key "$", .index 1, .key "a]"] ∧
      Path.AreWritable p.steps ∧ Path.Reaches v p.steps (.boolean true) ∧
      evaluate (some v) "$.$[1].a]" = .ok (some (.boolean true)) ∧
      Path.Reaches v [.key "$"] (.list [.null, .mapping [("a]", .boolean true)]]) ∧
      ¬ ∃ text q, Path.parse text = .ok q ∧ q.steps = [.key "$"] := by
  intro v p
  obtain ⟨written, reached⟩ := evaluate_reach
  have writable : ∀ segment ∈ p.segments, segment.IsWritable := by decide
  have hp : Path.parse "$.$[1].a]" = .ok p := Path.parse_textOf writable
  have hv : Path.Reaches v p.steps (.boolean true) :=
    .down (.key rfl) (.down (.index rfl) (.down (.key rfl) (.here _)))
  refine ⟨hp, rfl, (written _).1 ⟨_, p, hp, rfl⟩, hv, (reached _ p hp v _).2 hv,
    .down (.key rfl) (.here _), ?_⟩
  rw [written]
  intro h
  obtain ⟨i, hi⟩ := h.1.2.2.2 rfl
  cases hi

end DotQuery
