import DotQuery.Proofs.Document.RoundTrip
import DotQuery.Session

/-! What is shown of an evaluation says which one it was.

A found value is shown as its indented text, an absence and an error as texts of their
own. The text of a value parses, and gives that value back, as every value below a
document is one that a document can be (`wellFormed_of_evaluate`). Neither of the other
texts parses, for no value starts as they do (`parse_ne_ok`). So nothing that a document
holds can be taken for an absence or an error (`render_unambiguous`). -/
namespace DotQuery
open Json

/-! ### What a path leads to -/

section
variable {p : Value → Prop} {v u : Value} (h : v.Everywhere p)
include h

theorem everywhere_stepKey {key : String} (hu : stepKey v key = .ok (some u)) :
    u.Everywhere p := by
  cases v with
  | mapping members =>
    have hm : member? key members = some u := Except.ok.inj hu
    exact h.part (List.mem_map_of_mem (mem_of_member?_eq_some hm))
  | _ => cases hu

theorem everywhere_stepIndex {index : Nat} (hu : stepIndex v index = .ok u) :
    u.Everywhere p := by
  cases v with
  | list items =>
    rw [stepIndex] at hu
    split at hu
    · rename_i item hi
      cases hu
      exact h.part (List.mem_of_getElem? hi)
    · cases hu
  | _ => cases hu

theorem everywhere_step {segment : Segment} (hu : segment.step v = .ok (some u)) :
    u.Everywhere p := by
  cases segment with
  | root =>
    cases hu
    exact h
  | key name => exact everywhere_stepKey h hu
  | keyIndex name i =>
    rw [Segment.step] at hu
    split at hu
    · cases hu
    · cases hu
    · rename_i w hw
      obtain ⟨_, hi, he⟩ := map_eq_ok hu
      cases he
      exact everywhere_stepIndex (everywhere_stepKey h hw) hi
  | index i =>
    obtain ⟨_, hi, he⟩ := map_eq_ok hu
    cases he
    exact everywhere_stepIndex h hi

end

/-- What holds everywhere in a document holds everywhere in what a path leads to. -/
theorem everywhere_follow {p : Value → Prop} {v u : Value} (h : v.Everywhere p)
    {segments : List Segment} (hu : Path.follow v segments = .ok (some u)) : u.Everywhere p := by
  induction segments generalizing v with
  | nil =>
    cases hu
    exact h
  | cons segment segments ih =>
    rw [Path.follow] at hu
    split at hu
    · cases hu
    · cases hu
    · rename_i w hw
      exact ih (everywhere_step h hw) hu

/-- What queries are put to: the value of a text, or none. -/
def IsRoot (root : Option Value) : Prop :=
  ∀ v, root = some v → ∃ text, Document.parse text = .ok v

/-- The values that a text can have are those that can be shown and read back. -/
theorem isRoot_some_iff {v : Value} : IsRoot (some v) ↔ v.WellFormed := by
  refine ⟨fun h => ?_, fun h w hw => ?_⟩
  · obtain ⟨text, htext⟩ := h v rfl
    exact Document.wellFormed_of_parse htext
  · obtain rfl := Option.some.inj hw
    exact ⟨v.pretty, Document.parse_pretty h⟩

theorem wellFormed_of_evaluate {root : Option Value} (hroot : IsRoot root) {query : String}
    {u : Value} (hu : evaluate root query = .ok (some u)) : u.WellFormed := by
  rw [evaluate] at hu
  split at hu
  · cases hu
  · cases root with
    | none =>
      rw [Path.resolve] at hu
      split at hu <;> cases hu
    | some v => exact everywhere_follow (isRoot_some_iff.1 hroot) hu

/-! ### Texts that are no document -/

/-- A text whose first character is no space and starts no value does not parse. -/
theorem Document.parse_ne_ok {text : String} {c : Char} {rest : List Char}
    (htext : text.toList = c :: rest) (hspace : isSpace c = false) (hc : startsValue c = false)
    (v : Value) : parse text ≠ .ok v := by
  intro h
  obtain ⟨d, _, hskip, hd⟩ := exists_start_of_parse (parse_eq_ok_iff.1 h)
  rw [htext, skipSpace_stops (Text.stops_cons hspace)] at hskip
  obtain ⟨rfl, -⟩ := List.cons.inj hskip
  rw [hc] at hd
  cases hd

theorem parse_absenceText (v : Value) : Document.parse absenceText ≠ .ok v :=
  Document.parse_ne_ok rfl (by decide) (by decide) v

theorem parse_failure {text : String} (h : failureMark.toList <+: text.toList) (v : Value) :
    Document.parse text ≠ .ok v := by
  obtain ⟨rest, hrest⟩ := h
  exact Document.parse_ne_ok hrest.symm (by decide) (by decide) v

/-! ### What is shown -/

section
variable {found : Except QueryError (Option Value)}

theorem outcome_found_iff : (render found).2 = .found ↔ ∃ v, found = .ok (some v) := by
  rcases found with e | _ | v <;> simp [render]

theorem outcome_absent_iff : (render found).2 = .absent ↔ found = .ok none := by
  rcases found with e | _ | v <;> simp [render]

theorem outcome_failed_iff : (render found).2 = .failed ↔ ∃ e, found = .error e := by
  rcases found with e | _ | v <;> simp [render]

theorem absenceText_not_failure : ¬ failureMark.toList <+: absenceText.toList := by
  decide

variable (h : ∀ u, found = .ok (some u) → u.WellFormed)
include h

/-- Only a found value is shown as a document, and it is the value of that document. -/
theorem parse_render_iff {v : Value} :
    Document.parse (render found).1 = .ok v ↔ found = .ok (some v) := by
  rcases found with e | _ | u
  · refine ⟨fun hv => absurd hv (parse_failure ?_ v), nofun⟩
    exact ⟨e.message.toList, String.toList_append.symm⟩
  · exact ⟨fun hv => absurd hv (parse_absenceText v), nofun⟩
  · have hback : Document.parse (render (.ok (some u))).1 = .ok u :=
      Document.parse_pretty (h u rfl)
    rw [hback]
    simp

theorem render_eq_absenceText_iff : (render found).1 = absenceText ↔ found = .ok none := by
  rcases found with e | _ | u
  · refine ⟨fun he => absurd ?_ absenceText_not_failure, nofun⟩
    rw [← he]
    exact ⟨e.message.toList, String.toList_append.symm⟩
  · exact ⟨fun _ => rfl, fun _ => rfl⟩
  · refine ⟨fun he => absurd ((parse_render_iff h).2 rfl) ?_, nofun⟩
    rw [he]
    exact parse_absenceText u

theorem failureMark_isPrefix_iff :
    failureMark.toList <+: (render found).1.toList ↔ ∃ e, found = .error e := by
  rcases found with e | _ | u
  · exact ⟨fun _ => ⟨e, rfl⟩, fun _ => ⟨e.message.toList, String.toList_append.symm⟩⟩
  · exact ⟨fun he => absurd he absenceText_not_failure, nofun⟩
  · refine ⟨fun he => absurd ((parse_render_iff h).2 rfl) ?_, nofun⟩
    exact parse_failure he u

end

/-- Evaluations that are shown by the same text ended alike, and found the same value if
they found one. -/
theorem render_congr {found other : Except QueryError (Option Value)}
    (h : ∀ u, found = .ok (some u) → u.WellFormed) (h' : ∀ u, other = .ok (some u) → u.WellFormed)
    (he : (render other).1 = (render found).1) :
    (render other).2 = (render found).2 ∧ ∀ v, found = .ok (some v) → other = .ok (some v) := by
  have value : ∀ v, found = .ok (some v) → other = .ok (some v) := by
    intro v hv
    rw [← parse_render_iff h', he]
    exact (parse_render_iff h).2 hv
  refine ⟨?_, value⟩
  rcases found with e | _ | v
  · have hfailed : ∃ e, other = .error e := by
      rw [← failureMark_isPrefix_iff h', he]
      exact (failureMark_isPrefix_iff h).2 ⟨e, rfl⟩
    exact outcome_failed_iff.2 hfailed
  · have habsent : other = .ok none := by
      rw [← render_eq_absenceText_iff h', he]
      exact (render_eq_absenceText_iff h).2 rfl
    rw [habsent]
  · rw [value v rfl]

/-- **What is shown says how an evaluation ended.** A value was found exactly if the text
is a document, and then the value is that document; nothing was there exactly if the text
is `undefined`; the query failed exactly if the text starts with `Error: `. The same text
is never shown for another outcome or another value, whatever was asked of whatever
document. -/
theorem render_unambiguous {root : Option Value} (hroot : IsRoot root) (query : String) :
    let shown := render (evaluate root query)
    (shown.2 = .found ↔ ∃ v, Document.parse shown.1 = .ok v) ∧
      (∀ v, Document.parse shown.1 = .ok v → evaluate root query = .ok (some v)) ∧
      (shown.2 = .absent ↔ shown.1 = "undefined") ∧
      (shown.2 = .failed ↔ "Error: ".toList <+: shown.1.toList) ∧
      ∀ root' query', IsRoot root' → (render (evaluate root' query')).1 = shown.1 →
        (render (evaluate root' query')).2 = shown.2 ∧
          ∀ v, evaluate root query = .ok (some v) → evaluate root' query' = .ok (some v) := by
  have h : ∀ u, evaluate root query = .ok (some u) → u.WellFormed := fun _ hu =>
    wellFormed_of_evaluate hroot hu
  refine ⟨?_, fun v hv => (parse_render_iff h).1 hv, ?_, ?_, fun root' query' hroot' he => ?_⟩
  · simp only [outcome_found_iff, parse_render_iff h]
  · exact outcome_absent_iff.trans (render_eq_absenceText_iff h).symm
  · exact outcome_failed_iff.trans (failureMark_isPrefix_iff h).symm
  · exact render_congr h (fun _ hu => wellFormed_of_evaluate hroot' hu) he

/-- A string that reads like an absence, and one that reads like an error, are shown as
values. -/
theorem render_unambiguous_strings :
    let root := some (Value.mapping [("a", .string "undefined"), ("b", .string "Error: x")])
    IsRoot root ∧
      evaluate root "a" = .ok (some (.string "undefined")) ∧
      evaluate root "b" = .ok (some (.string "Error: x")) ∧
      (render (evaluate root "a")).1 ≠ "undefined" ∧
      ¬ "Error: ".toList <+: (render (evaluate root "b")).1.toList := by
  intro root
  have hroot : IsRoot root := by
    intro v hv
    obtain rfl := Option.some.inj hv
    exact ⟨"\x7b\"a\": \"undefined\", \"b\": \"Error: x\"\x7d", by with_unfolding_all rfl⟩
  have ha : evaluate root "a" = .ok (some (.string "undefined")) := by
    with_unfolding_all rfl
  have hb : evaluate root "b" = .ok (some (.string "Error: x")) := by
    with_unfolding_all rfl
  obtain ⟨-, -, habsent, -⟩ := render_unambiguous hroot "a"
  obtain ⟨-, -, -, hfailed, -⟩ := render_unambiguous hroot "b"
  refine ⟨hroot, ha, hb, fun h => ?_, fun h => ?_⟩
  · rw [ha] at habsent h
    cases habsent.2 h
  · rw [hb] at hfailed h
    cases hfailed.2 h

end DotQuery
