import DotQuery.Proofs.Document.RoundTrip
import DotQuery.Proofs.Json.Locality

/-! A text is one value.

The text of a value is read alike whatever stands behind it, as long as no number is
continued there (`Reads`). So space around a text that parses leaves its value as it is, and
anything else behind such a space is met once the value has been read, and refused
(`Reads.parse_trailing`). What it would have been by itself does not matter: another value
is refused there like half of one (`one_value`). -/
namespace DotQuery

namespace Json
open Text

/-- Whether nothing stands in the text but space between parts. -/
def allSpace (s : String) : Bool :=
  s.toList.all isSpace

theorem allSpace_iff {s : String} : allSpace s = true ↔ ∀ c ∈ s.toList, isSpace c = true :=
  List.all_eq_true

theorem skipSpace_eq_nil_iff {s : String} : skipSpace s.toList = [] ↔ allSpace s = true :=
  List.dropWhile_eq_nil_iff.trans allSpace_iff.symm

/-- Behind a value nothing but space is taken. -/
theorem Reads.parse_trailing {a body rest : List Char} {v : Value} (h : Reads body v)
    (ha : ∀ c ∈ a, isSpace c = true) (hrest : Stops continuesNumber rest)
    (hmore : skipSpace rest ≠ []) :
    Json.parse (String.ofList (a ++ (body ++ rest))) =
      .error (.ofFault (a ++ (body ++ rest)) (.atNext .trailingCharacters (skipSpace rest))) := by
  have hrun : readValue (a ++ (body ++ rest)) = .ok (v, rest) := by
    rw [readValue, run_value_space ha, h.run [] rest hrest, run_alone]
  obtain ⟨c, more, hskip⟩ := List.exists_cons_of_ne_nil hmore
  rw [Json.parse, String.toList_ofList, readText, hrun]
  dsimp only
  rw [hskip]
  rfl

end Json

namespace Document
open Json Text

theorem parse_eq_error {text : String} {e : ReadError} (h : Json.parse text = .error e) :
    parse text = .error (.ofReadError e) := by
  rw [parse, h]
  rfl

/-- A refused text is kept as it is, and nothing else but the error changes. -/
theorem setText_refused {whole : String} {e : DocumentError} (h : parse whole = .error e)
    (d : Document) :
    ∃ d', d.setText whole = (.error e, d') ∧ d'.value = d.value ∧
      d'.suggestions = d.suggestions ∧ d'.text = whole ∧ d'.error = some e := by
  refine ⟨{ d with text := whole, error := some e }, ?_, rfl, rfl, rfl, rfl⟩
  rw [setText, h]

/-- **A text is one value, with space around it at most.** Space before and behind a text
that parses leaves its value as it is. Anything else behind it, set off by space, makes it a
text that does not parse, whatever that is; a document that is given it keeps its value and
its suggestions and shows it as it was typed. -/
theorem one_value (text : String) (v : Value) (h : parse text = .ok v) :
    (∀ before behind : String, allSpace before = true → allSpace behind = true →
      parse (before ++ text ++ behind) = .ok v) ∧
    ∀ space more : String, space ≠ "" → allSpace space = true → allSpace more = false →
      ∃ e, parse (text ++ space ++ more) = .error e ∧
        ∀ d : Document, ∃ d', d.setText (text ++ space ++ more) = (.error e, d') ∧
          d'.value = d.value ∧ d'.suggestions = d.suggestions ∧
          d'.text = text ++ space ++ more ∧ d'.error = some e := by
  obtain ⟨a, body, b, htext, ha, hb, hbody⟩ := exists_body_of_parse (parse_eq_ok_iff.1 h)
  constructor
  · intro before behind hbefore hbehind
    have hwhole : before ++ text ++ behind =
        String.ofList ((before.toList ++ a) ++ (body ++ (b ++ behind.toList))) := by
      rw [← String.toList_inj, String.toList_ofList]
      simp [htext]
    rw [parse_eq_ok_iff, hwhole]
    exact hbody.parse (List.forall_mem_append.2 ⟨allSpace_iff.1 hbefore, ha⟩)
      (List.forall_mem_append.2 ⟨hb, allSpace_iff.1 hbehind⟩)
  · intro space more hne hspace hmore
    have hwhole : text ++ space ++ more =
        String.ofList (a ++ (body ++ ((b ++ space.toList) ++ more.toList))) := by
      rw [← String.toList_inj, String.toList_ofList]
      simp [htext]
    have hgap : ∀ c ∈ b ++ space.toList, isSpace c = true :=
      List.forall_mem_append.2 ⟨hb, allSpace_iff.1 hspace⟩
    have hgapne : b ++ space.toList ≠ [] :=
      List.append_ne_nil_of_right_ne_nil b fun hnil => hne (String.toList_eq_nil_iff.1 hnil)
    have hleft : skipSpace ((b ++ space.toList) ++ more.toList) ≠ [] := by
      rw [skipSpace_append hgap, Ne, skipSpace_eq_nil_iff, hmore]
      exact Bool.false_ne_true
    have hrefused := hbody.parse_trailing ha (stops_continuesNumber_append hgap hgapne) hleft
    rw [← hwhole] at hrefused
    have herror := parse_eq_error hrefused
    exact ⟨_, herror, setText_refused herror⟩

/-- Behind a number and a space, what would be its exponent is refused, and an older document
stays. -/
theorem one_value_number :
    let v := Value.number (.integer 1)
    let d := ((empty true).setText "\x7b\"k\": 0\x7d").2
    parse "1" = .ok v ∧ parse "\t1\r\n" = .ok v ∧
      ∃ e d', parse "1\ne5" = .error e ∧ d.setText "1\ne5" = (.error e, d') ∧
        d'.value = d.value ∧ d'.suggestions = ["$.k"] ∧ d'.text = "1\ne5" := by
  intro v d
  have hparse : parse "1" = .ok v := by with_unfolding_all rfl
  obtain ⟨around, behind⟩ := one_value "1" v hparse
  obtain ⟨e, he, kept⟩ := behind "\n" "e5" (by decide) (by decide) (by decide)
  obtain ⟨d', hset, hvalue, hsuggestions, htext, -⟩ := kept d
  have hlisted : ((empty true).setText "\x7b\"k\": 0\x7d").2.suggestions = ["$.k"] := by
    decide +kernel
  exact ⟨hparse, around "\t" "\r\n" (by decide) (by decide), e, d', he, hset, hvalue,
    hsuggestions.trans hlisted, htext⟩

end Document
end DotQuery
