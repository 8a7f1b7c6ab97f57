import DotQuery.Json.Reader
import DotQuery.Proofs.Json.Everywhere

/-! Every value that was read is well-formed.

The invariant of the reader is that the value before it and what its frames hold so far
are well-formed. One step keeps it (`step_wellFormed`), so a run ends in a well-formed
value. The first step alone says how a text that parses starts
(`exists_start_of_parse`). -/
namespace DotQuery.Json
open Text

/-! ### Building values -/

namespace Value

theorem wellFormed_scalar {v : Value} (hparts : v.parts = []) (hkept : v.IsKept) :
    v.WellFormed := by
  refine .intro hkept fun u hu => ?_
  rw [hparts] at hu
  cases hu

theorem wellFormed_list_iff {items : List Value} :
    (list items).WellFormed ↔ ∀ u ∈ items, u.WellFormed := by
  refine ⟨fun h u hu => Everywhere.part h hu, fun h => .intro ⟨List.nodup_nil, ?_⟩ h⟩
  intro n hn
  cases hn

theorem wellFormed_mapping_iff {members : List (String × Value)} :
    (mapping members).WellFormed ↔
      (members.map Prod.fst).Nodup ∧ ∀ m ∈ members, m.2.WellFormed := by
  constructor
  · intro h
    exact ⟨(Everywhere.here h).distinct, fun m hm => Everywhere.part h (List.mem_map_of_mem hm)⟩
  · intro h
    obtain ⟨hkeys, h⟩ := h
    refine .intro ⟨hkeys, ?_⟩ fun u hu => ?_
    · intro n hn
      cases hn
    · obtain ⟨m, hm, rfl⟩ := List.mem_map.1 hu
      exact h m hm

end Value

theorem mem_of_mem_insertMember {key : String} {v : Value} {members : List (String × Value)}
    {m : String × Value} (h : m ∈ insertMember key v members) : m = (key, v) ∨ m ∈ members := by
  induction members with
  | nil => exact .inl (List.mem_singleton.1 h)
  | cons a members ih =>
    obtain ⟨k, u⟩ := a
    rw [insertMember] at h
    split at h
    · rename_i hk
      rcases List.mem_cons.1 h with rfl | h
      · exact .inl (by rw [hk])
      · exact .inr (List.mem_cons_of_mem _ h)
    · rcases List.mem_cons.1 h with rfl | h
      · exact .inr List.mem_cons_self
      · exact (ih h).imp_right (List.mem_cons_of_mem _)

/-- A key stays where it is, and a new one goes behind all others. -/
theorem keys_insertMember (key : String) (v : Value) (members : List (String × Value)) :
    (insertMember key v members).map Prod.fst =
      if key ∈ members.map Prod.fst then members.map Prod.fst
      else members.map Prod.fst ++ [key] := by
  induction members with
  | nil => rfl
  | cons a members ih =>
    obtain ⟨k, u⟩ := a
    rw [insertMember]
    by_cases hk : k = key
    · simp [hk]
    · rw [if_neg hk, List.map_cons, ih]
      have hne : ¬ key = k := fun h => hk h.symm
      simp only [List.map_cons, List.mem_cons, hne, false_or]
      split <;> rfl

theorem wellFormed_insertMember {key : String} {v : Value} {members : List (String × Value)}
    (hmembers : (Value.mapping members).WellFormed) (hv : v.WellFormed) :
    (Value.mapping (insertMember key v members)).WellFormed := by
  rw [Value.wellFormed_mapping_iff] at hmembers ⊢
  refine ⟨?_, fun m hm => ?_⟩
  · rw [keys_insertMember]
    split
    · exact hmembers.1
    · rename_i hnew
      exact List.nodup_append.2 ⟨hmembers.1, by simp, by
        rintro a ha b hb rfl
        exact hnew (List.mem_singleton.1 hb ▸ ha)⟩
  · rcases mem_of_mem_insertMember hm with rfl | hm
    · exact hv
    · exact hmembers.2 m hm

/-! ### Values without parts -/

theorem exactInteger?_isKept {negative : Bool} {n : Nat} {i : Int}
    (h : exactInteger? negative n = some i) : (Number.integer i).IsKept := by
  show leastInteger ≤ i ∧ i ≤ greatestInteger
  unfold exactInteger? at h
  unfold leastInteger greatestInteger at *
  split at h <;> split at h <;> cases h <;> omega

theorem floatNumber_isKept {negative : Bool} {digits : Nat} {exponent : Int} {s rest : List Char}
    {n : Number} (h : floatNumber negative digits exponent s = .ok (n, rest)) : n.IsKept := by
  unfold floatNumber at h
  split at h
  · cases h
    trivial
  · cases h

theorem readEnd_isKept {negative : Bool} {whole fraction s rest : List Char} {n : Number}
    (h : readEnd negative whole fraction s = .ok (n, rest)) : n.IsKept := by
  unfold readEnd at h
  split at h
  · split at h
    · cases h
    · exact floatNumber_isKept h
  · split at h
    · rename_i hexact
      cases h
      exact exactInteger?_isKept hexact
    · exact floatNumber_isKept h

theorem readUnsigned_isKept {negative : Bool} {s rest : List Char} {n : Number}
    (h : readUnsigned negative s = .ok (n, rest)) : n.IsKept := by
  unfold readUnsigned at h
  split at h
  · cases h
  · split at h
    · cases h
    · exact readEnd_isKept h

theorem readNumber_isKept {s rest : List Char} {n : Number} (h : readNumber s = .ok (n, rest)) :
    n.IsKept := by
  unfold readNumber at h
  split at h <;> exact readUnsigned_isKept h

theorem readScalar_wellFormed {s rest : List Char} {v : Value}
    (h : readScalar s = .ok (v, rest)) : v.WellFormed := by
  have hplain : ∀ v : Value, v.parts = [] → v.keys = [] → (∀ n, v ≠ .number n) →
      v.WellFormed := by
    intro v hparts hkeys hnumber
    refine Value.wellFormed_scalar hparts ⟨?_, fun n hn => absurd hn (hnumber n)⟩
    rw [hkeys]
    exact List.nodup_nil
  unfold readScalar at h
  split at h
  · cases h
  iterate 4
    · obtain ⟨_, _, he⟩ := map_eq_ok h
      cases he
      exact hplain _ rfl rfl (fun _ hn => nomatch hn)
  · split at h
    · obtain ⟨⟨n, _⟩, hn, he⟩ := map_eq_ok h
      cases he
      refine Value.wellFormed_scalar rfl ⟨List.nodup_nil, fun m hm => ?_⟩
      cases hm
      exact readNumber_isKept hn
    · cases h

/-! ### Steps -/

/-- What a frame holds so far. -/
def Frame.held : Frame → Value
  | list items => .list items.reverse
  | mapping members _ => .mapping members

/-- The invariant of the reader. -/
structure State.WellFormed (s : State) : Prop where
  task : ∀ v, s.task = .after v → v.WellFormed
  frames : ∀ f ∈ s.frames, f.held.WellFormed

section
variable {frames : List Frame} {s rest : List Char} {t : State}

theorem wellFormed_after {v : Value} (hv : v.WellFormed)
    (hframes : ∀ f ∈ frames, f.held.WellFormed) : State.WellFormed ⟨.after v, frames, rest⟩ := by
  refine ⟨fun u hu => ?_, hframes⟩
  cases hu
  exact hv

theorem wellFormed_value {f : Frame} (hf : f.held.WellFormed)
    (hframes : ∀ f ∈ frames, f.held.WellFormed) :
    State.WellFormed ⟨.value, f :: frames, rest⟩ :=
  ⟨fun _ hu => (nomatch hu), List.forall_mem_cons.2 ⟨hf, hframes⟩⟩

theorem wellFormed_nil : (Value.list []).WellFormed :=
  Value.wellFormed_list_iff.2 (fun _ hu => nomatch hu)

theorem wellFormed_empty : (Value.mapping []).WellFormed :=
  Value.wellFormed_mapping_iff.2 ⟨List.nodup_nil, fun _ hu => nomatch hu⟩

variable (hframes : ∀ f ∈ frames, f.held.WellFormed)
include hframes

theorem stepMember_wellFormed {members : List (String × Value)}
    (h : stepMember members frames s = .ok t) (hmembers : (Value.mapping members).WellFormed) :
    t.WellFormed := by
  unfold stepMember at h
  split at h
  · cases h
  · split at h
    · cases h
    · cases h
      exact wellFormed_value hmembers hframes

theorem stepValue_wellFormed (h : stepValue frames s = .ok t) : t.WellFormed := by
  unfold stepValue at h
  split at h
  · split at h
    · cases h
    · cases h
      exact wellFormed_after wellFormed_nil hframes
    · cases h
      exact wellFormed_value wellFormed_nil hframes
  · split at h
    · cases h
    · cases h
      exact wellFormed_after wellFormed_empty hframes
    · exact stepMember_wellFormed hframes h wellFormed_empty
  · split at h
    · cases h
    · rename_i hv
      cases h
      exact wellFormed_after (readScalar_wellFormed hv) hframes

theorem stepItem_wellFormed {items : List Value} (h : stepItem items frames s = .ok t)
    (hitems : (Value.list items.reverse).WellFormed) : t.WellFormed := by
  unfold stepItem at h
  split at h
  · cases h
  · cases h
    exact wellFormed_after hitems hframes
  · split at h
    · cases h
    · cases h
    · cases h
      exact wellFormed_value hitems hframes
  · cases h

theorem stepMemberEnd_wellFormed {members : List (String × Value)}
    (h : stepMemberEnd members frames s = .ok t) (hmembers : (Value.mapping members).WellFormed) :
    t.WellFormed := by
  unfold stepMemberEnd at h
  split at h
  · cases h
  · cases h
    exact wellFormed_after hmembers hframes
  · split at h
    · cases h
    · cases h
    · exact stepMember_wellFormed hframes h hmembers
  · cases h

end

/-- A step keeps the invariant, and a value that stands alone is well-formed. -/
theorem step_wellFormed {s : State} {r : State ⊕ Value} (h : step s = .ok r) (hs : s.WellFormed) :
    match r with
    | .inl t => t.WellFormed
    | .inr v => v.WellFormed := by
  obtain ⟨task, frames, text⟩ := s
  obtain ⟨htask, hframes⟩ := hs
  cases task with
  | value =>
    obtain ⟨t, ht, rfl⟩ := map_eq_ok h
    exact stepValue_wellFormed hframes ht
  | after v =>
    have hv := htask v rfl
    match frames with
    | [] =>
      cases h
      exact hv
    | .list items :: frames =>
      obtain ⟨hitems, hframes⟩ := List.forall_mem_cons.1 hframes
      obtain ⟨t, ht, rfl⟩ := map_eq_ok h
      refine stepItem_wellFormed hframes ht (Value.wellFormed_list_iff.2 fun u hu => ?_)
      rcases List.mem_cons.1 (List.mem_reverse.1 hu) with rfl | hu
      · exact hv
      · exact Value.wellFormed_list_iff.1 hitems u (List.mem_reverse.2 hu)
    | .mapping members key :: frames =>
      obtain ⟨hmembers, hframes⟩ := List.forall_mem_cons.1 hframes
      obtain ⟨t, ht, rfl⟩ := map_eq_ok h
      exact stepMemberEnd_wellFormed hframes ht (wellFormed_insertMember hmembers hv)

/-! ### Runs -/

theorem run_eq (s : State) :
    run s =
      match step s with
      | .error f => .error f
      | .ok (.inl t) => run t
      | .ok (.inr v) => .ok (v, s.rest) := by
  rw [run]
  split <;> simp_all

theorem run_wellFormed {s : State} {v : Value} {rest : List Char} (h : run s = .ok (v, rest))
    (hs : s.WellFormed) : v.WellFormed := by
  induction s using run.induct with
  | case1 s f hstep =>
    rw [run_eq, hstep] at h
    cases h
  | case2 s t hstep ih =>
    rw [run_eq, hstep] at h
    exact ih h (step_wellFormed hstep hs)
  | case3 s u hstep =>
    rw [run_eq, hstep] at h
    cases h
    exact step_wellFormed hstep hs

theorem readText_eq_ok {s : List Char} {v : Value} (h : readText s = .ok v) :
    ∃ rest, readValue s = .ok (v, rest) ∧ skipSpace rest = [] := by
  unfold readText at h
  split at h
  · cases h
  · rename_i hv
    split at h
    · rename_i hrest
      cases h
      exact ⟨_, hv, hrest⟩
    · cases h

theorem parse_eq_ok {text : String} {v : Value} (h : parse text = .ok v) :
    readText text.toList = .ok v := by
  unfold parse at h
  cases hread : readText text.toList with
  | error f =>
    rw [hread] at h
    cases h
  | ok u =>
    rw [hread] at h
    cases h
    rfl

/-- **Every value that was read is well-formed.** -/
theorem parse_wellFormed {text : String} {v : Value} (h : parse text = .ok v) : v.WellFormed := by
  obtain ⟨rest, hrun, -⟩ := readText_eq_ok (parse_eq_ok h)
  exact run_wellFormed hrun ⟨fun _ hu => (nomatch hu), fun _ hf => (nomatch hf)⟩

/-! ### How a text starts -/

/-- Whether a value can start with the character. -/
def startsValue (c : Char) : Bool :=
  c ∈ ['[', '{', 'n', 't', 'f', '"', '-'] || c.isDigit

theorem exists_of_readNumber {s : List Char} {r : Number × List Char} (h : readNumber s = .ok r) :
    ∃ c t, s = c :: t ∧ (c == '-' || c.isDigit) = true := by
  unfold readNumber at h
  split at h
  · exact ⟨_, _, rfl, rfl⟩
  · unfold readUnsigned readWhole at h
    split at h
    · cases h
    · rename_i hw
      split at hw
      · cases hw
      · exact ⟨_, _, rfl, rfl⟩
      · split at hw
        · rename_i hc
          exact ⟨_, _, rfl, by rw [hc, Bool.or_true]⟩
        · cases hw

theorem readScalar_number {s rest : List Char} {n : Number} (h : readNumber s = .ok (n, rest)) :
    readScalar s = .ok (.number n, rest) := by
  obtain ⟨c, t, rfl, hc⟩ := exists_of_readNumber h
  unfold readScalar
  split
  · contradiction
  -- No number starts with a letter or a quote.
  iterate 4
    · rename_i he
      cases he
      exact absurd hc (by decide)
  · rename_i he
    cases he
    rw [if_pos hc, h]
    rfl

theorem exists_start_of_readScalar {s : List Char} {r : Value × List Char}
    (h : readScalar s = .ok r) : ∃ c rest, s = c :: rest ∧ startsValue c = true := by
  unfold readScalar at h
  split at h
  · cases h
  -- The three letters and the quote.
  iterate 4
    · exact ⟨_, _, rfl, by decide⟩
  · split at h
    · rename_i c rest _ _ _ _ hc
      refine ⟨c, rest, rfl, ?_⟩
      rcases Bool.or_eq_true_iff.1 hc with hc | hc
      · rw [eq_of_beq hc]
        decide
      · rw [startsValue, hc, Bool.or_true]
    · cases h

theorem exists_start_of_stepValue {frames : List Frame} {s : List Char} {t : State}
    (h : stepValue frames s = .ok t) : ∃ c rest, skipSpace s = c :: rest ∧ startsValue c = true := by
  unfold stepValue at h
  split at h
  · rename_i he
    exact ⟨_, _, he, by decide⟩
  · rename_i he
    exact ⟨_, _, he, by decide⟩
  · split at h
    · cases h
    · rename_i hv
      exact exists_start_of_readScalar hv

theorem exists_start_of_run {frames : List Frame} {s : List Char} {r : Value × List Char}
    (h : run ⟨.value, frames, s⟩ = .ok r) : ∃ c rest, skipSpace s = c :: rest ∧ startsValue c = true := by
  rw [run_eq] at h
  cases hstep : stepValue frames s with
  | error f => simp [step, hstep, Except.map] at h
  | ok t => exact exists_start_of_stepValue hstep

/-- A text that parses starts as a value does, behind space. -/
theorem exists_start_of_parse {text : String} {v : Value} (h : parse text = .ok v) :
    ∃ c rest, skipSpace text.toList = c :: rest ∧ startsValue c = true := by
  obtain ⟨rest, hrun, -⟩ := readText_eq_ok (parse_eq_ok h)
  exact exists_start_of_run hrun

end DotQuery.Json
