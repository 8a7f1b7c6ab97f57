import DotQuery.Proofs.Json.ScalarLocality
import DotQuery.Proofs.Json.Steps

/-! What a run of the reader takes of a text.

A value is read off a front of the text that ends with a character that ends a value. What
lies below the frames of the reader does not matter there, nor what stands behind that
front, as long as no number is continued. A step has this property (`step_leads`), so a run
has it (`run_takes`).

Every text that parses is therefore a body with space around it, and the same body parses
alike in any other space (`exists_body_of_parse`). -/
namespace DotQuery.Json
open Text

/-! ### States in other surroundings -/

/-- The text may stand in place of the rest of the state. Where a value comes next, it
starts alike. -/
def State.Accepts (t : State) (other : List Char) : Prop :=
  match t.task with
  | .value => other.head? = t.rest.head?
  | .after _ => Replaces other t.rest

/-- The state above more frames, and with another rest. -/
def State.over (t : State) (more : List Frame) (other : List Char) : State :=
  ⟨t.task, t.frames ++ more, other⟩

/-- The step takes a front of the text, which ends as a value does if the step completes
one, and leads to the state in all surroundings. -/
def Leads (step : List Frame → List Char → Except Fault State) (frames : List Frame)
    (s : List Char) (t : State) : Prop :=
  ∃ front, front ≠ [] ∧ s = front ++ t.rest ∧ (∀ v, t.task = .after v → EndsIn endsValue front) ∧
    ∀ more other, t.Accepts other →
      step (frames ++ more) (front ++ other) = .ok (t.over more other)

section
variable {step : List Frame → List Char → Except Fault State} {frames : List Frame} {t : State}

/-- What a step does that skips space is decided behind that space. -/
theorem leads_of_stops
    (hspace : ∀ {w : List Char} {frames s}, (∀ c ∈ w, isSpace c = true) →
      step frames (w ++ s) = step frames s)
    (hstops : ∀ s, Stops isSpace s → step frames s = .ok t → Leads step frames s t)
    {s : List Char} (h : step frames s = .ok t) : Leads step frames s t := by
  obtain ⟨w, s, rfl, hw, hs⟩ := exists_scan isSpace s
  rw [hspace hw] at h
  obtain ⟨front, hne, rfl, hlast, hstep⟩ := hstops s hs h
  refine ⟨w ++ front, List.append_ne_nil_of_right_ne_nil w hne, (List.append_assoc _ _ _).symm,
    fun v hv => (hlast v hv).behind hne w, fun more other hother => ?_⟩
  rw [List.append_assoc, hspace hw]
  exact hstep more other hother

/-- Such a step completes a value with a bracket. -/
theorem leads_close (front : List Char) {rest : List Char} {v : Value} {c : Char}
    (hc : endsValue c = true)
    (h : ∀ frames rest, step frames (front ++ c :: rest) = .ok ⟨.after v, frames, rest⟩) :
    Leads step frames (front ++ c :: rest) ⟨.after v, frames, rest⟩ := by
  refine ⟨front ++ [c], by simp, by simp, fun _ _ => (endsIn_singleton hc).behind (by simp) front,
    fun more other _ => ?_⟩
  rw [List.append_assoc, List.singleton_append]
  exact h _ other

/-- Or it opens a list, or goes on in it, up to its next item. -/
theorem leads_item (front : List Char) {rest : List Char} {f : Frame} (hne : front ≠ [])
    (hrest : Opens rest)
    (h : ∀ frames rest, Opens rest →
      step frames (front ++ rest) = .ok ⟨.value, f :: frames, rest⟩) :
    Leads step frames (front ++ rest) ⟨.value, f :: frames, rest⟩ := by
  refine ⟨front, hne, rfl, fun v hv => (nomatch hv), fun more other hother => ?_⟩
  obtain ⟨c, t, rfl, hc⟩ := hrest
  obtain ⟨o, rfl⟩ := List.head?_eq_some_iff.1 hother
  exact h _ _ ⟨c, o, rfl, hc⟩

end

/-! ### Members -/

theorem readKey_eq_ok {s rest : List Char} {key : String} (h : readKey s = .ok (key, rest)) :
    ∃ front, s = '"' :: (front ++ rest) ∧ ∀ other, readKey ('"' :: (front ++ other)) = .ok (key, other) := by
  unfold readKey at h
  split at h
  · obtain ⟨front, rfl, -, -, hread⟩ := readChars_eq_ok h
    exact ⟨front, rfl, hread⟩
  · cases h

theorem readColon_eq_ok {s rest : List Char} (h : readColon s = .ok rest) :
    ∃ w, s = w ++ ':' :: rest ∧ ∀ other, readColon (w ++ ':' :: other) = .ok other := by
  obtain ⟨w, s, rfl, hw, hs⟩ := exists_scan isSpace s
  unfold readColon at h
  rw [skipSpace_append_stops hw hs] at h
  split at h
  · cases h
  · cases h
    refine ⟨w, rfl, fun other => ?_⟩
    have hspace := skipSpace_append_stops (s := ':' :: other) hw (stops_cons (by decide))
    simp only [readColon, hspace]
  · cases h

theorem stepMember_leads {members : List (String × Value)} {frames : List Frame} {s : List Char}
    {t : State} (h : stepMember members frames s = .ok t) : Leads (stepMember members) frames s t := by
  unfold stepMember at h
  split at h
  · cases h
  · rename_i key rest hkey
    split at h
    · cases h
    · rename_i rest hcolon
      cases h
      obtain ⟨front, rfl, hkeys⟩ := readKey_eq_ok hkey
      obtain ⟨w, rfl, hcolons⟩ := readColon_eq_ok hcolon
      refine ⟨'"' :: (front ++ (w ++ [':'])), List.cons_ne_nil _ _, by simp, fun v hv => (nomatch hv),
        fun more other _ => ?_⟩
      have htext : '"' :: (front ++ (w ++ [':'])) ++ other = '"' :: (front ++ (w ++ ':' :: other)) := by
        simp
      rw [htext, stepMember, hkeys]
      dsimp only
      rw [hcolons]
      rfl

/-- A step that goes on with a member leads where that does. -/
theorem leads_member {step : List Frame → List Char → Except Fault State}
    {members : List (String × Value)} {frames : List Frame} (front : List Char) {s : List Char}
    {t : State} (h : stepMember members frames s = .ok t)
    (hstep : ∀ frames s, step frames (front ++ '"' :: s) = stepMember members frames ('"' :: s)) :
    Leads step frames (front ++ s) t := by
  obtain ⟨key, hne, rfl, hlast, hkey⟩ := stepMember_leads h
  obtain ⟨u, rfl⟩ : ∃ u, key = '"' :: u := by
    obtain ⟨c, u, rfl⟩ := List.exists_cons_of_ne_nil hne
    unfold stepMember at h
    split at h
    · cases h
    · rename_i hread
      obtain ⟨_, hs, -⟩ := readKey_eq_ok hread
      obtain ⟨rfl, -⟩ := List.cons.inj hs
      exact ⟨u, rfl⟩
  refine ⟨front ++ '"' :: u, by simp, (List.append_assoc _ _ _).symm, fun v hv =>
    (hlast v hv).behind hne front, fun more other hother => ?_⟩
  rw [List.append_assoc, List.cons_append, hstep]
  exact hkey more other hother

/-! ### Steps -/

/-- What stops the space behind a bracket or a comma opens an item, if it is not the end of
the list. -/
theorem opens_of_stops {s : List Char} (hs : Stops isSpace s) (hne : s ≠ [])
    (hend : ∀ t, s ≠ ']' :: t) : Opens s := by
  obtain ⟨c, t, rfl⟩ := List.exists_cons_of_ne_nil hne
  exact ⟨c, t, rfl, hs c rfl, fun hc => hend t (by rw [hc])⟩

section
variable {frames : List Frame} {s : List Char} {t : State}

theorem stepValue_leads (h : stepValue frames s = .ok t) : Leads stepValue frames s t := by
  refine leads_of_stops (fun hw => stepValue_space hw) (fun s hs h => ?_) h
  unfold stepValue at h
  rw [skipSpace_stops hs] at h
  split at h
  · rename_i rest
    obtain ⟨w, rest, rfl, hw, hrest⟩ := exists_scan isSpace rest
    rw [skipSpace_append_stops hw hrest] at h
    split at h
    · cases h
    · cases h
      exact leads_close ('[' :: w) (by decide) fun _ _ => stepValue_emptyList hw
    · rename_i hne hend
      cases h
      exact leads_item ('[' :: w) (List.cons_ne_nil _ _)
        (opens_of_stops hrest hne hend) fun _ _ => stepValue_openList hw
  · rename_i rest
    obtain ⟨w, rest, rfl, hw, hrest⟩ := exists_scan isSpace rest
    rw [skipSpace_append_stops hw hrest] at h
    split at h
    · cases h
    · cases h
      exact leads_close ('{' :: w) (by decide) fun _ _ => stepValue_emptyMapping hw
    · exact leads_member ('{' :: w) h fun _ _ => stepValue_openMapping hw
  · split at h
    · cases h
    · rename_i v rest hv
      cases h
      obtain ⟨front, rfl, hlast, hfront⟩ := isLocal_readScalar _ _ _ hv
      have hne : front ≠ [] := fun hnil => by
        subst hnil
        exact Nat.lt_irrefl _ (readScalar_length_lt hv)
      refine ⟨front, hne, rfl, fun _ _ => hlast, fun more other hother => ?_⟩
      refine stepValue_scalar ?_ (hfront other hother)
      obtain ⟨c, u, rfl⟩ := List.exists_cons_of_ne_nil hne
      exact stops_cons (hs c rfl)

theorem stepItem_leads {items : List Value} (h : stepItem items frames s = .ok t) :
    Leads (stepItem items) frames s t := by
  refine leads_of_stops (fun hw => stepItem_space hw) (fun s hs h => ?_) h
  unfold stepItem at h
  rw [skipSpace_stops hs] at h
  split at h
  · cases h
  · cases h
    exact leads_close [] (by decide) fun _ _ => stepItem_close (w := []) (by simp)
  · rename_i rest
    obtain ⟨w, rest, rfl, hw, hrest⟩ := exists_scan isSpace rest
    rw [skipSpace_append_stops hw hrest] at h
    split at h
    · cases h
    · cases h
    · rename_i hne hend
      cases h
      exact leads_item (',' :: w) (List.cons_ne_nil _ _)
        (opens_of_stops hrest hne hend) fun _ _ => stepItem_comma hw
  · cases h

theorem stepMemberEnd_leads {members : List (String × Value)}
    (h : stepMemberEnd members frames s = .ok t) : Leads (stepMemberEnd members) frames s t := by
  refine leads_of_stops (fun hw => stepMemberEnd_space hw) (fun s hs h => ?_) h
  unfold stepMemberEnd at h
  rw [skipSpace_stops hs] at h
  split at h
  · cases h
  · cases h
    exact leads_close [] (by decide) fun _ _ => stepMemberEnd_close (w := []) (by simp)
  · rename_i rest
    obtain ⟨w, rest, rfl, hw, hrest⟩ := exists_scan isSpace rest
    rw [skipSpace_append_stops hw hrest] at h
    split at h
    · cases h
    · cases h
    · exact leads_member (',' :: w) h fun _ _ => stepMemberEnd_comma hw
  · cases h

end

/-- Every step is of one of these kinds, in the frames that its task leaves. -/
theorem step_leads {s t : State} (h : step s = .ok (.inl t)) :
    ∃ kind frames, Leads kind frames s.rest t ∧
      ∀ more text, step (s.over more text) = (kind (frames ++ more) text).map .inl := by
  obtain ⟨task, frames, text⟩ := s
  cases task with
  | value =>
    obtain ⟨t, ht, he⟩ := map_eq_ok h
    cases he
    exact ⟨_, _, stepValue_leads ht, fun _ _ => rfl⟩
  | after v =>
    match frames with
    | [] => cases h
    | .list items :: frames =>
      obtain ⟨t, ht, he⟩ := map_eq_ok h
      cases he
      exact ⟨_, _, stepItem_leads ht, fun _ _ => rfl⟩
    | .mapping members key :: frames =>
      obtain ⟨t, ht, he⟩ := map_eq_ok h
      cases he
      exact ⟨_, _, stepMemberEnd_leads ht, fun _ _ => rfl⟩

/-- The run is over when a value stands alone. -/
theorem step_eq_inr {s : State} {v : Value} (h : step s = .ok (.inr v)) :
    s = ⟨.after v, [], s.rest⟩ := by
  obtain ⟨task, frames, text⟩ := s
  cases task with
  | value =>
    obtain ⟨_, _, he⟩ := map_eq_ok h
    cases he
  | after u =>
    cases frames with
    | nil =>
      cases h
      rfl
    | cons f frames =>
      cases f with
      | list items =>
        obtain ⟨_, _, he⟩ := map_eq_ok h
        cases he
      | mapping members key =>
        obtain ⟨_, _, he⟩ := map_eq_ok h
        cases he

/-! ### Runs -/

/-- **A run takes a front of the text**, whatever lies below its frames and whatever that
continues no number stands behind that front. -/
theorem run_takes {s : State} {v : Value} {rest : List Char} (h : run s = .ok (v, rest)) :
    ∃ front, s.rest = front ++ rest ∧ EndsIn endsValue front ∧ (s.task = .value → front ≠ []) ∧
      ∀ more other, Replaces other rest →
        run (s.over more (front ++ other)) = run ⟨.after v, more, other⟩ := by
  induction s using run.induct with
  | case1 s f hstep =>
    rw [run_eq, hstep] at h
    cases h
  | case2 s t hstep ih =>
    rw [run_eq, hstep] at h
    obtain ⟨behind, ht, hbehind, hvalue, hrun⟩ := ih h
    obtain ⟨kind, frames, ⟨front, hne, hs, hlast, hlead⟩, hkind⟩ := step_leads hstep
    refine ⟨front ++ behind, by rw [hs, ht, List.append_assoc], ?_,
      fun _ => List.append_ne_nil_of_left_ne_nil hne behind, fun more other hother => ?_⟩
    · cases htask : t.task with
      | value => exact hbehind.behind (hvalue htask) front
      | after u => exact (hlast u htask).append hbehind
    · have haccepts : t.Accepts (behind ++ other) := by
        unfold State.Accepts
        split
        · rename_i htask
          rw [ht]
          obtain ⟨c, u, rfl⟩ := List.exists_cons_of_ne_nil (hvalue htask)
          rfl
        · rw [ht]
          exact hother.append behind
      have hfirst : step (s.over more (front ++ (behind ++ other))) =
          .ok (.inl (t.over more (behind ++ other))) := by
        rw [hkind, hlead more _ haccepts]
        rfl
      rw [List.append_assoc, run_of_step hfirst]
      exact hrun more other hother
  | case3 s u hstep =>
    rw [run_eq, hstep] at h
    cases h
    have hs := step_eq_inr hstep
    obtain ⟨task, frames, text⟩ := s
    cases hs
    exact ⟨[], rfl, endsIn_nil, fun htask => (by cases htask), fun more other _ => rfl⟩

/-! ### Whole texts -/

/-- The text is that of the value, without space around it. -/
structure Reads (body : List Char) (v : Value) : Prop where
  start : ∃ c ∈ body.head?, startsValue c = true
  last : EndsIn endsValue body
  run : ∀ frames rest, Stops continuesNumber rest →
    run ⟨.value, frames, body ++ rest⟩ = run ⟨.after v, frames, rest⟩

theorem stops_continuesNumber_of_isSpace {s : List Char} (h : ∀ c ∈ s, isSpace c = true) :
    Stops continuesNumber s := by
  intro c hc
  have hspace := h c (List.mem_of_head? hc)
  simp only [isSpace, Bool.or_eq_true, beq_iff_eq] at hspace
  rcases hspace with ((rfl | rfl) | rfl) | rfl <;> rfl

/-- A space continues no number, whatever stands behind it. -/
theorem stops_continuesNumber_append {w s : List Char} (hw : ∀ c ∈ w, isSpace c = true)
    (hne : w ≠ []) : Stops continuesNumber (w ++ s) := by
  obtain ⟨c, w, rfl⟩ := List.exists_cons_of_ne_nil hne
  exact stops_cons (stops_continuesNumber_of_isSpace hw c rfl)

section
variable {a b body : List Char} {v : Value} (ha : ∀ c ∈ a, isSpace c = true)
  (hb : ∀ c ∈ b, isSpace c = true)
include ha hb

/-- Space around the text of a value does not matter. -/
theorem Reads.parse (h : Reads body v) : parse (String.ofList (a ++ (body ++ b))) = .ok v := by
  have hrun : readValue (a ++ (body ++ b)) = .ok (v, b) := by
    rw [readValue, run_value_space ha, h.run [] b (stops_continuesNumber_of_isSpace hb), run_alone]
  have hend : skipSpace b = [] := List.dropWhile_eq_nil_iff.2 hb
  rw [Json.parse, String.toList_ofList, readText, hrun]
  dsimp only
  rw [hend]
  rfl

end

/-- **Every text that parses is the text of its value with space around it.** -/
theorem exists_body_of_parse {text : String} {v : Value} (h : parse text = .ok v) :
    ∃ a body b, text.toList = a ++ (body ++ b) ∧ (∀ c ∈ a, isSpace c = true) ∧
      (∀ c ∈ b, isSpace c = true) ∧ Reads body v := by
  obtain ⟨rest, hread, hrest⟩ := readText_eq_ok (parse_eq_ok h)
  obtain ⟨w, s, hs, hw, hstops⟩ := exists_scan isSpace text.toList
  rw [readValue, hs, run_value_space hw] at hread
  obtain ⟨c, t, hc, hstart⟩ := exists_start_of_run hread
  rw [skipSpace_stops hstops] at hc
  obtain ⟨body, rfl, hlast, hne, hrun⟩ := run_takes hread
  refine ⟨w, body, rest, hs, hw, List.dropWhile_eq_nil_iff.1 hrest, ?_, hlast,
    fun frames other hother => hrun frames other (.inr hother)⟩
  obtain ⟨d, u, rfl⟩ := List.exists_cons_of_ne_nil (hne rfl)
  cases hc
  exact ⟨c, rfl, hstart⟩

end DotQuery.Json
