import DotQuery.Proofs.Json.Everywhere
import DotQuery.Proofs.Path.Steps

/-! What an evaluation comes to.

A text that is no path is an error of its own, whatever is asked about. The steps of a path
are taken from a document as far as they lead (`Furthest`). Where all of them lead on, the
last value is found. Otherwise the first step that leads nowhere and the value from which
it was to be taken decide what is said (`Blocked`), whatever the steps after it are. -/
namespace DotQuery
open Json

namespace Path

/-- What is said of a step that leads nowhere from a value. Only a missing key is no
error. -/
inductive Blocked : Value → Step → Except QueryError (Option Value) → Prop where
  | missing {members : List (String × Value)} {name : String}
      (missing : name ∉ members.map Prod.fst) : Blocked (.mapping members) (.key name) (.ok none)
  | notMapping {v : Value} {name : String} (other : v.kind ≠ .mapping) :
      Blocked v (.key name) (.error (.notMapping name v.kind))
  | outOfRange {items : List Value} {i : Nat} (beyond : items.length ≤ i) :
      Blocked (.list items) (.index i) (.error (.outOfRange i items.length))
  | notList {v : Value} {i : Nat} (other : v.kind ≠ .list) :
      Blocked v (.index i) (.error (.notList i v.kind))

/-- The first `m` steps lead from `v` to `u`, and no greater number of them leads
anywhere. -/
structure Furthest (v : Value) (steps : List Step) (m : Nat) (u : Value) : Prop where
  le_length : m ≤ steps.length
  reaches : Reaches v (steps.take m) u
  greatest : ∀ n ≤ steps.length, ∀ w, Reaches v (steps.take n) w → n ≤ m

/-! ### One step -/

/-- A step that is blocked is one that leads to no value. -/
theorem blocked_iff {v : Value} {step : Step} {r : Except QueryError (Option Value)} :
    Blocked v step r ↔ step.segment.step v = r ∧ ∀ u, r ≠ .ok (some u) := by
  constructor
  · intro h
    refine ⟨?_, by cases h <;> simp⟩
    cases h with
    | missing h => rw [step_key, member?_eq_none_iff.2 h]
    | notMapping h =>
      cases v with
      | mapping => exact absurd rfl h
      | _ => rfl
    | outOfRange h => rw [step_index, List.getElem?_eq_none h]
    | notList h =>
      cases v with
      | list => exact absurd rfl h
      | _ => rfl
  · -- by the kind of the value: where the step has room, only its end can be missing
    intro h
    obtain ⟨rfl, h⟩ := h
    cases step with
    | key name =>
      cases v with
      | mapping members =>
        rw [step_key] at h ⊢
        cases hm : member? name members with
        | none => exact .missing (member?_eq_none_iff.1 hm)
        | some u => exact absurd (congrArg Except.ok hm) (h u)
      | _ => exact .notMapping (by simp [Value.kind])
    | index i =>
      cases v with
      | list items =>
        rw [step_index] at h ⊢
        cases hi : items[i]? with
        | none => exact .outOfRange (List.getElem?_eq_none_iff.1 hi)
        | some u => exact absurd (by rw [hi]) (h u)
      | _ => exact .notList (by simp [Value.kind])

theorem Blocked.unique {v : Value} {step : Step} {r r' : Except QueryError (Option Value)}
    (h : Blocked v step r) (h' : Blocked v step r') : r = r' :=
  (blocked_iff.1 h).1.symm.trans (blocked_iff.1 h').1

/-- A step that leads nowhere is blocked. -/
theorem exists_blocked {v : Value} {step : Step} (h : ∀ w, ¬ Leads v step w) :
    ∃ r, Blocked v step r :=
  ⟨_, blocked_iff.2 ⟨rfl, fun u hu => h u (step_segment_eq_some_iff.1 hu)⟩⟩

/-- Nothing behind a blocked step is looked at. -/
theorem Blocked.follow_eq {v : Value} {step : Step} {r : Except QueryError (Option Value)}
    (h : Blocked v step r) (segments : List Segment) :
    follow v (step.segment :: segments) = r := by
  obtain ⟨rfl, hr⟩ := blocked_iff.1 h
  rw [follow]
  rcases hstep : step.segment.step v with _ | _ | u
  · rfl
  · rfl
  · exact absurd hstep (hr u)

/-! ### As far as steps lead -/

/-- Where the first step leads on, the others are taken from there. -/
theorem Furthest.down {v w u : Value} {step : Step} {steps : List Step} {m : Nat}
    (first : Leads v step w) (h : Furthest w steps m u) : Furthest v (step :: steps) (m + 1) u := by
  refine ⟨Nat.succ_le_succ h.le_length, .down first h.reaches, fun n hn x hx => ?_⟩
  cases n with
  | zero => exact Nat.zero_le _
  | succ n =>
    obtain ⟨w', first', hx⟩ := reaches_cons_iff.1 hx
    obtain rfl := first.unique first'
    exact Nat.succ_le_succ (h.greatest n (Nat.le_of_succ_le_succ hn) x hx)

theorem furthest_zero {v : Value} {step : Step} (steps : List Step) (h : ∀ w, ¬ Leads v step w) :
    Furthest v (step :: steps) 0 v := by
  refine ⟨Nat.zero_le _, .here v, fun n _ x hx => ?_⟩
  cases n with
  | zero => exact Nat.le_refl 0
  | succ n =>
    obtain ⟨w, first, -⟩ := reaches_cons_iff.1 hx
    exact absurd first (h w)

theorem exists_furthest (v : Value) (steps : List Step) : ∃ m u, Furthest v steps m u := by
  induction steps generalizing v with
  | nil => exact ⟨0, v, Nat.le_refl 0, .here v, fun n hn _ _ => hn⟩
  | cons step steps ih =>
    by_cases h : ∃ w, Leads v step w
    · obtain ⟨w, first⟩ := h
      obtain ⟨m, u, hm⟩ := ih w
      exact ⟨m + 1, u, hm.down first⟩
    · exact ⟨0, v, furthest_zero steps (not_exists.1 h)⟩

section
variable {v u : Value} {steps : List Step} {m : Nat} (h : Furthest v steps m u)
include h

/-- One step more leads nowhere. -/
theorem Furthest.not_leads {step : Step} (hstep : steps[m]? = some step) (w : Value) :
    ¬ Leads u step w := by
  intro hw
  have hlt : m < steps.length := (List.getElem?_eq_some_iff.1 hstep).1
  have hnext : Reaches v (steps.take (m + 1)) w := by
    rw [List.take_add_one, hstep]
    exact reaches_append_iff.2 ⟨u, h.reaches, .down hw (.here w)⟩
  exact Nat.not_succ_le_self m (h.greatest (m + 1) hlt w hnext)

/-- Steps are followed from where they lead the furthest. -/
theorem Furthest.follow_eq :
    follow v (steps.map Step.segment) = follow u ((steps.drop m).map Step.segment) := by
  rw [← List.take_append_drop m steps, List.map_append, follow_append,
    follow_eq_some_iff_reaches.2 h.reaches]
  simp

theorem Furthest.follow_of_all (hm : m = steps.length) :
    follow v (steps.map Step.segment) = .ok (some u) := by
  rw [h.follow_eq, hm, List.drop_length]
  rfl

/-- The step that is not taken decides what is said. -/
theorem Furthest.follow_blocked {step : Step} (hstep : steps[m]? = some step) :
    Blocked u step (follow v (steps.map Step.segment)) := by
  obtain ⟨r, hr⟩ := exists_blocked (h.not_leads hstep)
  obtain ⟨hlt, hget⟩ := List.getElem?_eq_some_iff.1 hstep
  rw [h.follow_eq, List.drop_eq_getElem_cons hlt, hget, List.map_cons, hr.follow_eq]
  exact hr

theorem Furthest.cases :
    (m = steps.length ∧ follow v (steps.map Step.segment) = .ok (some u)) ∨
      ∃ step, steps[m]? = some step ∧ Blocked u step (follow v (steps.map Step.segment)) := by
  rcases Nat.lt_or_eq_of_le h.le_length with hlt | hm
  · have hstep := List.getElem?_eq_getElem hlt
    exact .inr ⟨_, hstep, h.follow_blocked hstep⟩
  · exact .inl ⟨hm, h.follow_of_all hm⟩

theorem Furthest.eq_length_iff :
    m = steps.length ↔ follow v (steps.map Step.segment) = .ok (some u) := by
  refine ⟨h.follow_of_all, fun hfound => ?_⟩
  rcases h.cases with ⟨hm, -⟩ | ⟨step, -, hblocked⟩
  · exact hm
  · exact absurd hfound ((blocked_iff.1 hblocked).2 u)

end

/-- A path is never blamed for its text. -/
theorem resolve_ne_malformed (p : Path) (root : Option Value) (e : SyntaxError) :
    p.resolve root ≠ .error (.malformed e) := by
  intro he
  cases root with
  | none =>
    rw [resolve_none] at he
    split at he <;> cases he
  | some v =>
    obtain ⟨m, u, h⟩ := exists_furthest v p.steps
    rw [resolve_some] at he
    rcases h.cases with ⟨-, hfound⟩ | ⟨step, -, hblocked⟩
    · rw [he] at hfound
      cases hfound
    · rw [he] at hblocked
      cases hblocked

end Path

theorem evaluate_eq_malformed_iff {root : Option Value} {text : String} {e : SyntaxError} :
    evaluate root text = .error (.malformed e) ↔ Path.parse text = .error e := by
  cases hp : Path.parse text with
  | error e' => simp [evaluate, hp]
  | ok p =>
    rw [evaluate_eq_resolve hp]
    exact iff_of_false (p.resolve_ne_malformed root e) (by simp)

/-- **What is said of a path is exact.** A text that is no path is that error whatever
the root is, and no other text is such an error. The steps of a path lead some way down
every document. They all do exactly if the value where they end is found; if not, what is
said is what the next step and the value before it call for, and nothing else. Without a
document only a path without steps is no error. -/
theorem evaluate_exact (text : String) :
    (∀ root e, evaluate root text = .error (.malformed e) ↔ Path.parse text = .error e) ∧
    ∀ p, Path.parse text = .ok p →
      (∀ v, ∃ m u, Path.Furthest v p.steps m u) ∧
      (∀ v m u, Path.Furthest v p.steps m u →
        (m = p.steps.length ↔ evaluate (some v) text = .ok (some u)) ∧
        ∀ step, p.steps[m]? = some step →
          ∀ r, evaluate (some v) text = r ↔ Path.Blocked u step r) ∧
      evaluate none text = if p.steps = [] then .ok none else .error .noDocument := by
  refine ⟨fun root e => evaluate_eq_malformed_iff, fun p hp => ?_⟩
  refine ⟨fun v => Path.exists_furthest v p.steps, fun v m u h => ?_, ?_⟩
  · rw [evaluate_eq_resolve hp, Path.resolve_some]
    refine ⟨h.eq_length_iff, fun step hstep r => ?_⟩
    have hblocked := h.follow_blocked hstep
    constructor
    · intro hr
      exact hr ▸ hblocked
    · exact hblocked.unique
  · rw [evaluate_eq_resolve hp, Path.resolve_none]

/-- A path that goes on behind a found null, and one that ends there. -/
theorem evaluate_exact_null :
    let v := Value.mapping [("a", .list [.mapping [("b", .null)]])]
    let p : Path := ⟨[.root, .keyIndex "a" 0, .key "b", .index 3, .key "x"]⟩
    let q : Path := ⟨[.keyIndex "a" 0, .key "b"]⟩
    Path.parse "$.a[0].b.[3].x" = .ok p ∧ Path.Furthest v p.steps 3 .null ∧
      p.steps[3]? = some (.index 3) ∧
      evaluate (some v) "$.a[0].b.[3].x" = .error (.notList 3 .null) ∧
      evaluate none "$.a[0].b.[3].x" = .error .noDocument ∧
      Path.parse "a[0].b" = .ok q ∧ evaluate (some v) "a[0].b" = .ok (some .null) ∧
      ∀ root, evaluate root "[x]" = .error (.malformed ⟨1, .invalidIndex "x"⟩) := by
  intro v p q
  have writable : ∀ segment ∈ p.segments ++ q.segments, segment.IsWritable := by decide
  obtain ⟨hps, hqs⟩ := List.forall_mem_append.1 writable
  have hp : Path.parse "$.a[0].b.[3].x" = .ok p := Path.parse_textOf hps
  have hq : Path.parse "a[0].b" = .ok q := Path.parse_textOf hqs
  have he : Path.parse "[x]" = .error ⟨1, .invalidIndex "x"⟩ :=
    (Path.parse_eq_error_iff (by decide)).2 ⟨_, Path.readSegments_error rfl, rfl⟩
  have hblocked : Path.Blocked .null (.index 3) (.error (.notList 3 .null)) :=
    .notList (by decide)
  have hnull : ∀ w, ¬ Path.Leads .null (.index 3) w := nofun
  have hfar : Path.Furthest v p.steps 3 .null :=
    .down (.key rfl) (.down (.index rfl) (.down (.key rfl) (Path.furthest_zero _ hnull)))
  have hall : Path.Furthest v q.steps 3 .null :=
    ⟨Nat.le_refl 3, .down (.key rfl) (.down (.index rfl) (.down (.key rfl) (.here _))),
      fun _ hn _ _ => hn⟩
  obtain ⟨-, said, rootless⟩ := (evaluate_exact "$.a[0].b.[3].x").2 p hp
  refine ⟨hp, hfar, rfl, ((said v 3 .null hfar).2 _ rfl _).2 hblocked, rootless, hq, ?_, ?_⟩
  · exact (((evaluate_exact "a[0].b").2 q hq).2.1 v 3 .null hall).1.1 rfl
  · exact fun root => ((evaluate_exact "[x]").1 root _).2 he

end DotQuery
