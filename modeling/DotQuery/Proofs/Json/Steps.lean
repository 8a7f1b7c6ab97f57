import DotQuery.Proofs.Json.Reading
import DotQuery.Proofs.Text.Scan

/-! The steps of the reader, one equation for each kind of step.

A step skips space and then reads a value without parts, or a bracket or a comma with the
space behind it. Each equation gives the state that the step leads to, for any space. -/
namespace DotQuery.Json
open Text

/-! ### Runs of the reader -/

theorem run_of_step {s t : State} (h : step s = .ok (.inl t)) : run s = run t := by
  rw [run_eq, h]

theorem run_alone (v : Value) (rest : List Char) : run ⟨.after v, [], rest⟩ = .ok (v, rest) := by
  rw [run_eq]
  rfl

section
variable {frames : List Frame} {s : List Char} {t : State}

theorem run_value (h : stepValue frames s = .ok t) : run ⟨.value, frames, s⟩ = run t := by
  apply run_of_step
  simp only [step, h]
  rfl

theorem run_item {items : List Value} {v : Value} (h : stepItem (v :: items) frames s = .ok t) :
    run ⟨.after v, .list items :: frames, s⟩ = run t := by
  apply run_of_step
  simp only [step, h]
  rfl

theorem run_memberEnd {members : List (String × Value)} {key : String} {v : Value}
    (h : stepMemberEnd (insertMember key v members) frames s = .ok t) :
    run ⟨.after v, .mapping members key :: frames, s⟩ = run t := by
  apply run_of_step
  simp only [step, h]
  rfl

end

/-! ### Space -/

theorem skipSpace_stops {s : List Char} (h : Stops isSpace s) : skipSpace s = s :=
  dropWhile_append_stops (a := []) (by simp) h

theorem skipSpace_append {w s : List Char} (hw : ∀ c ∈ w, isSpace c = true) :
    skipSpace (w ++ s) = skipSpace s :=
  List.dropWhile_append_of_pos hw

theorem skipSpace_append_stops {w s : List Char} (hw : ∀ c ∈ w, isSpace c = true)
    (hs : Stops isSpace s) : skipSpace (w ++ s) = s :=
  dropWhile_append_stops hw hs

/-- The text starts as a value does, not with space and not with the end of a list. -/
def Opens (s : List Char) : Prop :=
  ∃ c t, s = c :: t ∧ isSpace c = false ∧ c ≠ ']'

theorem Opens.stops {s : List Char} (h : Opens s) : Stops isSpace s := by
  obtain ⟨c, t, rfl, hc, -⟩ := h
  exact stops_cons hc

theorem Opens.append {s : List Char} (h : Opens s) (rest : List Char) : Opens (s ++ rest) := by
  obtain ⟨c, t, rfl, hc⟩ := h
  exact ⟨c, t ++ rest, rfl, hc⟩

/-! ### Values without parts -/

theorem stepValue_scalar {frames : List Frame} {s rest : List Char} {v : Value}
    (hs : Stops isSpace s) (h : readScalar s = .ok (v, rest)) :
    stepValue frames s = .ok ⟨.after v, frames, rest⟩ := by
  unfold stepValue
  rw [skipSpace_stops hs]
  split
  · cases h
  · cases h
  · rw [h]

/-! ### Brackets and commas -/

section
variable {w : List Char} (hw : ∀ c ∈ w, isSpace c = true) {frames : List Frame} {s : List Char}
include hw

/-- A value may be read behind space as well. -/
theorem stepValue_space : stepValue frames (w ++ s) = stepValue frames s := by
  unfold stepValue
  rw [skipSpace_append hw]

theorem run_value_space : run ⟨.value, frames, w ++ s⟩ = run ⟨.value, frames, s⟩ := by
  rw [run_eq, run_eq ⟨.value, frames, s⟩]
  simp only [step, stepValue_space hw]
  cases stepValue frames s <;> rfl

theorem stepValue_emptyList :
    stepValue frames ('[' :: (w ++ ']' :: s)) = .ok ⟨.after (.list []), frames, s⟩ := by
  have hskip : skipSpace ('[' :: (w ++ ']' :: s)) = '[' :: (w ++ ']' :: s) := rfl
  have hspace := skipSpace_append_stops (s := ']' :: s) hw (stops_cons (by decide))
  simp only [stepValue, hskip, hspace]

theorem stepValue_openList (h : Opens s) :
    stepValue frames ('[' :: (w ++ s)) = .ok ⟨.value, .list [] :: frames, s⟩ := by
  have hskip : skipSpace ('[' :: (w ++ s)) = '[' :: (w ++ s) := rfl
  simp only [stepValue, hskip, skipSpace_append_stops hw h.stops]
  obtain ⟨c, t, rfl, -, hc⟩ := h
  split
  · contradiction
  · rename_i he
    cases he
    exact absurd rfl hc
  · rfl

theorem stepValue_emptyMapping :
    stepValue frames ('{' :: (w ++ '}' :: s)) = .ok ⟨.after (.mapping []), frames, s⟩ := by
  have hskip : skipSpace ('{' :: (w ++ '}' :: s)) = '{' :: (w ++ '}' :: s) := rfl
  have hspace := skipSpace_append_stops (s := '}' :: s) hw (stops_cons (by decide))
  simp only [stepValue, hskip, hspace]

theorem stepValue_openMapping :
    stepValue frames ('{' :: (w ++ '"' :: s)) = stepMember [] frames ('"' :: s) := by
  have hskip : skipSpace ('{' :: (w ++ '"' :: s)) = '{' :: (w ++ '"' :: s) := rfl
  have hspace := skipSpace_append_stops (s := '"' :: s) hw (stops_cons (by decide))
  simp only [stepValue, hskip, hspace]
  rfl

section
variable {items : List Value}

theorem stepItem_space : stepItem items frames (w ++ s) = stepItem items frames s := by
  unfold stepItem
  rw [skipSpace_append hw]

theorem stepItem_close :
    stepItem items frames (w ++ ']' :: s) = .ok ⟨.after (.list items.reverse), frames, s⟩ := by
  have hspace := skipSpace_append_stops (s := ']' :: s) hw (stops_cons (by decide))
  simp only [stepItem, hspace]

theorem stepItem_comma (h : Opens s) :
    stepItem items frames (',' :: (w ++ s)) = .ok ⟨.value, .list items :: frames, s⟩ := by
  have hskip : skipSpace (',' :: (w ++ s)) = ',' :: (w ++ s) := rfl
  simp only [stepItem, hskip, skipSpace_append_stops hw h.stops]
  obtain ⟨c, t, rfl, -, hc⟩ := h
  split
  · contradiction
  · rename_i he
    cases he
    exact absurd rfl hc
  · rfl

end

section
variable {members : List (String × Value)}

theorem stepMemberEnd_space :
    stepMemberEnd members frames (w ++ s) = stepMemberEnd members frames s := by
  unfold stepMemberEnd
  rw [skipSpace_append hw]

theorem stepMemberEnd_close :
    stepMemberEnd members frames (w ++ '}' :: s) = .ok ⟨.after (.mapping members), frames, s⟩ := by
  have hspace := skipSpace_append_stops (s := '}' :: s) hw (stops_cons (by decide))
  simp only [stepMemberEnd, hspace]

theorem stepMemberEnd_comma :
    stepMemberEnd members frames (',' :: (w ++ '"' :: s)) = stepMember members frames ('"' :: s) := by
  have hskip : skipSpace (',' :: (w ++ '"' :: s)) = ',' :: (w ++ '"' :: s) := rfl
  have hspace := skipSpace_append_stops (s := '"' :: s) hw (stops_cons (by decide))
  simp only [stepMemberEnd, hskip, hspace]
  rfl

end
end
end DotQuery.Json
