import DotQuery.Proofs.Document.History
import DotQuery.Proofs.Document.RoundTrip

/-! Giving a document the text that it shows.

A document shows the indented text of its value, or the latest text as it was typed if
that did not parse. One call brings every document there, whatever it held before
(`settled_setText`), and from there its own text changes nothing: it is read as the
value again, or refused again with the same error (`setText_text`). -/
namespace DotQuery.Document
open Json

/-- The shown text stands for what the document holds: it is the text of the value, or it
does not parse and the error that is kept is its own. -/
inductive Settled (d : Document) : Prop where
  | valid (v : Value) (noError : d.error = none) (value : d.value = some v)
      (suggestions : d.suggestions = Suggestions.ofValue d.anchored v)
      (text : d.text = v.pretty) (back : parse v.pretty = .ok v)
  | invalid (e : DocumentError) (error : d.error = some e) (refused : parse d.text = .error e)

/-- One call is enough, from any document. -/
theorem settled_setText (d : Document) (text : String) : (d.setText text).2.Settled := by
  unfold setText
  cases h : parse text with
  | ok v => exact .valid v rfl rfl rfl rfl (parse_pretty (wellFormed_of_parse h))
  | error e => exact .invalid e rfl h

theorem settled_after (anchored : Bool) (earlier : List String) (latest : String) :
    ((empty anchored).after (earlier ++ [latest])).Settled := by
  rw [after_append]
  exact settled_setText _ latest

section
variable {d : Document}

theorem setText_of_valid {v : Value} (hvalue : d.value = some v) (hnone : d.error = none)
    (hsuggestions : d.suggestions = Suggestions.ofValue d.anchored v) (htext : d.text = v.pretty)
    (hback : parse v.pretty = .ok v) : d.setText d.text = (.ok v, d) := by
  have hparse : parse d.text = .ok v := by rw [htext, hback]
  simp only [setText, hparse]
  rw [← hvalue, ← hnone, ← hsuggestions, ← htext]

theorem setText_of_invalid {e : DocumentError} (he : d.error = some e)
    (hrefused : parse d.text = .error e) : d.setText d.text = (.error e, d) := by
  simp only [setText, hrefused]
  rw [← he]

end

/-- **The shown text is a fixed point.** After one call or more, giving a document its own
text again leaves it exactly as it was, and answers with its value if it is valid and
with its error if it is not. -/
theorem setText_text (anchored : Bool) (earlier : List String) (latest : String) :
    ∃ d result, (empty anchored).after (earlier ++ [latest]) = d ∧
      d.setText d.text = (result, d) ∧
      (d.isValid = true → ∃ v, d.value = some v ∧ result = .ok v) ∧
      (d.isValid = false → ∃ e, d.error = some e ∧ result = .error e) := by
  cases settled_after anchored earlier latest with
  | valid v noError value suggestions text back =>
    refine ⟨_, .ok v, rfl, setText_of_valid value noError suggestions text back,
      fun _ => ⟨v, value, rfl⟩, fun h => ?_⟩
    rw [isValid, noError] at h
    cases h
  | invalid e error refused =>
    refine ⟨_, .error e, rfl, setText_of_invalid error refused, fun h => ?_,
      fun _ => ⟨e, error, rfl⟩⟩
    rw [isValid, error] at h
    cases h

/-- A document that took no text is not there yet: its empty text does not parse. -/
example : (empty false).isValid = true ∧
    ((empty false).setText (empty false).text).2.isValid = false := by
  cbv

end DotQuery.Document
