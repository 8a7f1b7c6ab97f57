import DotQuery.Proofs.Json.Locality

/-! Members as they are written.

The texts of a key and of a value may have space around them and may spell the same string
or number in many ways. What matters is that each is a text of its own: a text that parses
as a string is read as a key as well (`exists_key_of_parse`), so a key, a colon and a value
are read as a member in any mapping (`readsMember`). -/
namespace DotQuery.Json
open Text

/-! ### What a run comes to -/

/-- What a frame becomes once it is closed. -/
def Frame.kind : Frame → Kind
  | list _ => .list
  | mapping _ _ => .mapping

/-- The kinds of the value that was read last and of all that is open, innermost first. -/
def State.kinds (s : State) : List Kind :=
  match s.task with
  | .value => s.frames.map Frame.kind
  | .after v => v.kind :: s.frames.map Frame.kind

section
variable {frames : List Frame} {s : List Char} {t : State}

theorem stepMember_kinds {members : List (String × Value)}
    (h : stepMember members frames s = .ok t) : t.kinds = .mapping :: frames.map Frame.kind := by
  unfold stepMember at h
  split at h
  · cases h
  · split at h
    · cases h
    · cases h
      rfl

/-- A value that is read or opened comes on top. -/
theorem stepValue_kinds (h : stepValue frames s = .ok t) :
    ∃ kind, t.kinds = kind :: frames.map Frame.kind := by
  unfold stepValue at h
  split at h
  · split at h
    · cases h
    · cases h
      exact ⟨_, rfl⟩
    · cases h
      exact ⟨_, rfl⟩
  · split at h
    · cases h
    · cases h
      exact ⟨_, rfl⟩
    · exact ⟨_, stepMember_kinds h⟩
  · split at h
    · cases h
    · cases h
      exact ⟨_, rfl⟩

theorem stepItem_kinds {items : List Value} (h : stepItem items frames s = .ok t) :
    t.kinds = .list :: frames.map Frame.kind := by
  unfold stepItem at h
  split at h
  · cases h
  · cases h
    rfl
  · split at h
    · cases h
    · cases h
    · cases h
      rfl
  · cases h

theorem stepMemberEnd_kinds {members : List (String × Value)}
    (h : stepMemberEnd members frames s = .ok t) :
    t.kinds = .mapping :: frames.map Frame.kind := by
  unfold stepMemberEnd at h
  split at h
  · cases h
  · cases h
    rfl
  · split at h
    · cases h
    · cases h
    · exact stepMember_kinds h
  · cases h

end

/-- A step puts a kind on top or takes one off. -/
theorem step_kinds {s t : State} (h : step s = .ok (.inl t)) :
    ∃ kind, t.kinds = kind :: s.kinds ∨ (s.kinds = kind :: t.kinds ∧ t.kinds ≠ []) := by
  obtain ⟨task, frames, text⟩ := s
  cases task with
  | value =>
    obtain ⟨t, ht, he⟩ := map_eq_ok h
    cases he
    obtain ⟨kind, hkind⟩ := stepValue_kinds ht
    exact ⟨kind, .inl hkind⟩
  | after v =>
    match frames with
    | [] => cases h
    | .list items :: frames =>
      obtain ⟨t, ht, he⟩ := map_eq_ok h
      cases he
      have hkinds := stepItem_kinds ht
      exact ⟨v.kind, .inr ⟨by rw [hkinds]; rfl, by simp [hkinds]⟩⟩
    | .mapping members key :: frames =>
      obtain ⟨t, ht, he⟩ := map_eq_ok h
      cases he
      have hkinds := stepMemberEnd_kinds ht
      exact ⟨v.kind, .inr ⟨by rw [hkinds]; rfl, by simp [hkinds]⟩⟩

/-- A run comes to a value of the kind at the bottom. -/
theorem run_kind {s : State} {v : Value} {rest : List Char} (h : run s = .ok (v, rest))
    (hs : s.kinds ≠ []) : s.kinds.getLast? = some v.kind := by
  induction s using run.induct with
  | case1 s f hstep =>
    rw [run_eq, hstep] at h
    cases h
  | case2 s t hstep ih =>
    rw [run_eq, hstep] at h
    obtain ⟨kind, hkinds | ⟨hkinds, hne⟩⟩ := step_kinds hstep
    · have hlast := ih h (by simp [hkinds])
      rwa [hkinds, List.getLast?_cons_of_ne_nil hs] at hlast
    · rw [hkinds, List.getLast?_cons_of_ne_nil hne]
      exact ih h hne
  | case3 s u hstep =>
    rw [run_eq, hstep] at h
    cases h
    rw [step_eq_inr hstep]
    rfl

/-! ### Keys -/

theorem readScalar_string {s rest : List Char} {t : String}
    (h : readScalar s = .ok (.string t, rest)) :
    ∃ u, s = '"' :: u ∧ readString u = .ok (t, rest) := by
  unfold readScalar at h
  split at h
  · cases h
  -- Three letters start no string.
  iterate 3
    · obtain ⟨_, _, he⟩ := map_eq_ok h
      cases he
  · obtain ⟨⟨_, _⟩, hread, he⟩ := map_eq_ok h
    cases he
    exact ⟨_, rfl, hread⟩
  · split at h
    · obtain ⟨⟨_, _⟩, _, he⟩ := map_eq_ok h
      cases he
    · cases h

/-- Where a string is read, nothing was opened. -/
theorem readScalar_of_run {s rest : List Char} {t : String}
    (h : run ⟨.value, [], s⟩ = .ok (.string t, rest)) :
    readScalar (skipSpace s) = .ok (.string t, rest) := by
  rw [run_eq] at h
  cases hstep : stepValue [] s with
  | error f => simp [step, hstep, Except.map] at h
  | ok next =>
    replace h : run next = .ok (.string t, rest) := by simpa [step, hstep, Except.map] using h
    have hlast := run_kind h (by
      obtain ⟨_, hkinds⟩ := stepValue_kinds hstep
      simp [hkinds])
    unfold stepValue at hstep
    split at hstep
    · split at hstep
      · cases hstep
      · cases hstep
        cases hlast
      · cases hstep
        cases hlast
    · split at hstep
      · cases hstep
      · cases hstep
        cases hlast
      · rw [stepMember_kinds hstep] at hlast
        cases hlast
    · split at hstep
      · cases hstep
      · rename_i hread
        cases hstep
        rw [run_alone] at h
        cases h
        exact hread

/-- A text that parses as a string is a key with space around it. -/
theorem exists_key_of_parse {text key : String} (h : parse text = .ok (.string key)) :
    ∃ a u b, text.toList = a ++ '"' :: (u ++ b) ∧ (∀ c ∈ a, isSpace c = true) ∧
      (∀ c ∈ b, isSpace c = true) ∧ ∀ rest, readKey ('"' :: (u ++ rest)) = .ok (key, rest) := by
  obtain ⟨b, hread, hb⟩ := readText_eq_ok (parse_eq_ok h)
  obtain ⟨a, s, hs, ha, hstops⟩ := exists_scan isSpace text.toList
  rw [readValue, hs, run_value_space ha] at hread
  have hscalar := readScalar_of_run hread
  rw [skipSpace_stops hstops] at hscalar
  obtain ⟨t, rfl, hstring⟩ := readScalar_string hscalar
  obtain ⟨u, rfl, -, -, hkey⟩ := readChars_eq_ok hstring
  exact ⟨a, u, b, hs, ha, List.dropWhile_eq_nil_iff.1 hb, hkey⟩

/-! ### Members -/

/-- The text is read as the member in any mapping. -/
def ReadsMember (text : List Char) (key : String) (v : Value) : Prop :=
  ∃ w t, text = w ++ '"' :: t ∧ (∀ c ∈ w, isSpace c = true) ∧
    ∀ members frames rest, Stops continuesNumber rest →
      ∃ next, stepMember members frames ('"' :: (t ++ rest)) = .ok next ∧
        run next = run ⟨.after v, .mapping members key :: frames, rest⟩

section
variable {members : List (String × Value)} {key : String} {frames : List Frame}
  {v : Value} {text rest : List Char}

theorem run_member_space {w : List Char} (hw : ∀ c ∈ w, isSpace c = true) :
    run ⟨.after v, .mapping members key :: frames, w ++ rest⟩ =
      run ⟨.after v, .mapping members key :: frames, rest⟩ := by
  rw [run_eq, run_eq ⟨.after v, .mapping members key :: frames, rest⟩]
  simp only [step, stepMemberEnd_space hw]
  cases stepMemberEnd (insertMember key v members) frames rest <;> rfl

/-- The texts of a key and of a value, with a colon between them, are read as a member. -/
theorem readsMember {keyText valueText : String} (hkey : parse keyText = .ok (.string key))
    (hvalue : parse valueText = .ok v) :
    ReadsMember (keyText.toList ++ ':' :: valueText.toList) key v := by
  obtain ⟨w, u, x, hk, hw, hx, hread⟩ := exists_key_of_parse hkey
  obtain ⟨y, body, z, hv, hy, hz, hbody⟩ := exists_body_of_parse hvalue
  refine ⟨w, u ++ (x ++ ':' :: (y ++ (body ++ z))), by simp [hk, hv], hw,
    fun members frames rest hrest => ?_⟩
  have hskip : skipSpace (x ++ ':' :: (y ++ (body ++ (z ++ rest)))) =
      ':' :: (y ++ (body ++ (z ++ rest))) :=
    skipSpace_append_stops hx (stops_cons (by decide))
  have htext : u ++ (x ++ ':' :: (y ++ (body ++ z))) ++ rest =
      u ++ (x ++ ':' :: (y ++ (body ++ (z ++ rest)))) := by
    simp
  have hbehind : Stops continuesNumber (z ++ rest) := by
    by_cases hnil : z = []
    · rw [hnil]
      exact hrest
    · exact stops_continuesNumber_append hz hnil
  refine ⟨⟨.value, .mapping members key :: frames, y ++ (body ++ (z ++ rest))⟩, ?_, ?_⟩
  · rw [htext, stepMember, hread]
    simp only [readColon, hskip]
  · rw [run_value_space hy, hbody.run _ _ hbehind, run_member_space hz]

/-- The first member of a mapping. -/
theorem run_first_member (h : ReadsMember text key v) (hrest : Stops continuesNumber rest) :
    run ⟨.value, frames, '{' :: (text ++ rest)⟩ =
      run ⟨.after v, .mapping [] key :: frames, rest⟩ := by
  obtain ⟨w, t, rfl, hw, hmember⟩ := h
  obtain ⟨next, hstep, hrun⟩ := hmember [] frames rest hrest
  rw [List.append_assoc, List.cons_append, ← hrun]
  exact run_value ((stepValue_openMapping hw).trans hstep)

/-- The member behind another one. -/
theorem run_further_member {next : String} {u : Value} (h : ReadsMember text next u)
    (hrest : Stops continuesNumber rest) :
    run ⟨.after v, .mapping members key :: frames, ',' :: (text ++ rest)⟩ =
      run ⟨.after u, .mapping (insertMember key v members) next :: frames, rest⟩ := by
  obtain ⟨w, t, rfl, hw, hmember⟩ := h
  obtain ⟨next, hstep, hrun⟩ := hmember (insertMember key v members) frames rest hrest
  rw [List.append_assoc, List.cons_append, ← hrun]
  exact run_memberEnd ((stepMemberEnd_comma hw).trans hstep)

end
end DotQuery.Json
