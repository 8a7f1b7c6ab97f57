import DotQuery.Proofs.Console.Commands
import DotQuery.Proofs.Console.Operations
import DotQuery.Proofs.Document.RoundTrip
import DotQuery.Proofs.Json.Locality

/-! All ways of loading a document agree.

A call takes a text as it is, and so does the command that loads a file. The command with
the text on its line takes off the blanks around it. This cuts nothing from a value, which
neither starts nor ends with a blank (`Reads.trimmed`), and what is left has the same value,
which space around it does not change (`parse_doc`). Nothing else of the session matters to
a text that parses, and only its text and its error to one that does not (`load_agree`). -/
namespace DotQuery

namespace Document
open Json

/-- The document of a text with the value. -/
def loaded (anchored : Bool) (v : Value) : Document where
  text := v.pretty
  value := some v
  error := none
  suggestions := Suggestions.ofValue anchored v
  anchored := anchored

/-- The document behind a text that does not parse. -/
def refused (d : Document) (text : String) (e : DocumentError) : Document :=
  { d with text := text, error := some e }

@[simp] theorem refused_value (d : Document) (text : String) (e : DocumentError) :
    (d.refused text e).value = d.value := rfl

theorem setText_of_ok (d : Document) {text : String} {v : Value} (h : parse text = .ok v) :
    d.setText text = (.ok v, loaded d.anchored v) := by
  rw [setText, h]
  rfl

theorem setText_of_error (d : Document) {text : String} {e : DocumentError}
    (h : parse text = .error e) : d.setText text = (.error e, d.refused text e) := by
  rw [setText, h]
  rfl

end Document

namespace Session

theorem setText_of_ok (s : Session) {text : String} {v : Json.Value}
    (h : Document.parse text = .ok v) :
    s.setText text = (.ok v, { s with document := Document.loaded s.document.anchored v }) := by
  rw [setText, Document.setText_of_ok _ h]

theorem setText_of_error (s : Session) {text : String} {e : DocumentError}
    (h : Document.parse text = .error e) :
    s.setText text = (.error e, { s with document := s.document.refused text e }) := by
  rw [setText, Document.setText_of_error _ h]

end Session

/-! ### Trimming leaves values whole -/

namespace Json
open Text

theorem isBlank_of_isSpace {c : Char} (h : isSpace c = true) : isBlank c = true := by
  simp only [isSpace, Bool.or_eq_true, beq_iff_eq] at h
  rcases h with ((rfl | rfl) | rfl) | rfl <;> decide

theorem isBlank_eq_false_of_isDigit {c : Char} (h : c.isDigit = true) : isBlank c = false := by
  simp only [Char.isDigit, Bool.and_eq_true, decide_eq_true_eq] at h
  have hleast : 48 ≤ c.toNat := h.1
  have hgreatest : c.toNat ≤ 57 := h.2
  simp [isBlank, inRanges, blankRanges]
  omega

theorem isBlank_eq_false_of_startsValue {c : Char} (h : startsValue c = true) :
    isBlank c = false := by
  have hmarks : (['[', '{', 'n', 't', 'f', '"', '-'].all fun c => !isBlank c) = true := by decide
  rcases Bool.or_eq_true_iff.1 h with h | h
  · simpa using List.all_eq_true.1 hmarks c (of_decide_eq_true h)
  · exact isBlank_eq_false_of_isDigit h

theorem isBlank_eq_false_of_endsValue {c : Char} (h : endsValue c = true) : isBlank c = false := by
  have hmarks : ([']', '}', '"', 'l', 'e'].all fun c => !isBlank c) = true := by decide
  rcases Bool.or_eq_true_iff.1 h with h | h
  · simpa using List.all_eq_true.1 hmarks c (of_decide_eq_true h)
  · exact isBlank_eq_false_of_isDigit h

/-- The text of a value has no blanks at its ends. -/
theorem Reads.trimmed {body : List Char} {v : Value} (h : Reads body v) : Trimmed body := by
  obtain ⟨⟨c, hc, hstart⟩, hlast, -⟩ := h
  refine ⟨fun hnil => ?_, fun d hd => ?_, fun d hd => isBlank_eq_false_of_endsValue (hlast d hd)⟩
  · rw [hnil] at hc
    cases hc
  · cases hc.symm.trans hd
    exact isBlank_eq_false_of_startsValue hstart

end Json

namespace Command
open Text

/-- The text that a line gives the document is trimmed. -/
theorem parse_doc {text : String} {a body b : List Char} (htext : text.toList = a ++ (body ++ b))
    (ha : ∀ c ∈ a, isBlank c = true) (hbody : Trimmed body) (hb : ∀ c ∈ b, isBlank c = true) :
    parse (":doc " ++ text) = .ok (.setDocument (String.ofList body)) := by
  have hline : ":doc " ++ text = ":" ++ ("doc" ++ (" " ++ text)) := by
    rw [← String.append_assoc, ← String.append_assoc]
    rfl
  have htext : (" " ++ text).toList = (' ' :: a) ++ (body ++ b) := by
    rw [String.toList_append, htext]
    rfl
  rw [hline]
  exact parse_argument (by decide) htext (List.cons_ne_nil _ _)
    (List.forall_mem_cons.2 ⟨by decide, ha⟩) hbody hb rfl

theorem parse_load {file : String} (hne : file ≠ "") (hfile : ∀ c ∈ file.toList, isBlank c = false) :
    parse (":load " ++ file) = .ok (.load file) := by
  have hline : ":load " ++ file = ":" ++ ("load" ++ (" " ++ file)) := by
    rw [← String.append_assoc, ← String.append_assoc]
    rfl
  have htext : (" " ++ file).toList = [' '] ++ (file.toList ++ []) := by
    rw [String.toList_append, List.append_nil]
    rfl
  have htrimmed : Trimmed file.toList :=
    ⟨fun hnil => hne (String.toList_eq_nil_iff.1 hnil), fun c hc => hfile c (List.mem_of_head? hc),
      fun c hc => hfile c (List.mem_of_getLast? hc)⟩
  rw [hline]
  exact parse_argument (by decide) htext (List.cons_ne_nil _ _)
    (List.forall_mem_singleton.2 (by decide)) htrimmed (by simp)
    (by rw [String.ofList_toList]; rfl)

end Command

/-! ### Loading -/

namespace Console
open Text

/-- **All ways of loading a document agree**, in every session. A text that parses leaves
the document of its value, whether it is given by a call, on a line, in a file or as the
initial text, and a line tells how many suggestions there are then. A text that does not
parse, without blanks at its ends, is kept with what is wrong with it, and the value and the
suggestions are the older ones. -/
theorem load_agree (files : Files) (s : Session) {text file : String}
    (hfile : files.readText file = .ok text) (hne : file ≠ "")
    (hblank : ∀ c ∈ file.toList, isBlank c = false) :
    (∀ v, Document.parse text = .ok v →
      let d := Document.loaded s.document.anchored v
      let reply := Reply.proceed
        (printed ("document loaded (" ++ toString d.suggestions.length ++ " paths)"))
        { s with document := d }
      s.setText text = (.ok v, { s with document := d }) ∧
        handleLine files s (":doc " ++ text) = reply ∧
        handleLine files s (":load " ++ file) = reply ∧
        (Session.start ⟨some text, s.document.anchored⟩).document = d) ∧
    ∀ e, Document.parse text = .error e → Trimmed text.toList →
      let d := s.document.refused text e
      let reply := Reply.proceed (printed e.message) { s with document := d }
      s.setText text = (.error e, { s with document := d }) ∧
        handleLine files s (":doc " ++ text) = reply ∧
        handleLine files s (":load " ++ file) = reply := by
  have hload : handleLine files s (":load " ++ file) = setDocument s text := by
    rw [handleLine, Command.parse_load hne hblank]
    simp only [execute, hfile]
  constructor
  · intro v hv d reply
    obtain ⟨a, body, b, htext, ha, hb, hbody⟩ :=
      Json.exists_body_of_parse (Document.parse_eq_ok_iff.1 hv)
    have hbodyText : Document.parse (String.ofList body) = .ok v := by
      have := hbody.parse (a := []) (b := []) (by simp) (by simp)
      rw [List.nil_append, List.append_nil] at this
      exact Document.parse_eq_ok_iff.2 this
    have hreply : ∀ text, Document.parse text = .ok v → setDocument s text = reply := by
      intro text h
      rw [setDocument_eq, Session.setText_of_ok s h]
      rfl
    refine ⟨Session.setText_of_ok s hv, ?_, hload.trans (hreply text hv), ?_⟩
    · rw [handleLine, Command.parse_doc htext (fun c hc => Json.isBlank_of_isSpace (ha c hc))
        hbody.trimmed fun c hc => Json.isBlank_of_isSpace (hb c hc)]
      exact hreply _ hbodyText
    · show ((Document.empty _).setText text).2 = d
      rw [Document.setText_of_ok _ hv]
      rfl
  · intro e he htrimmed d reply
    have hreply : setDocument s text = reply := by
      rw [setDocument_eq, Session.setText_of_error s he]
      rfl
    refine ⟨Session.setText_of_error s he, ?_, hload.trans hreply⟩
    have htext : text.toList = [] ++ (text.toList ++ []) := by simp
    rw [handleLine, Command.parse_doc htext (by simp) htrimmed (by simp), String.ofList_toList]
    exact hreply

/-- A mapping between a space and a newline, and a list that is not closed. -/
theorem load_agree_spaced :
    let text := " \x7b\"k\": 7\x7d\n"
    let files := Files.ofDirectory [("a", encode text), ("b", encode "[7")]
    let s := Session.start ⟨some "0", true⟩
    files.readText "a" = .ok text ∧ files.readText "b" = .ok "[7" ∧
      handleLine files s (":doc " ++ text) = handleLine files s ":load a" ∧
      (handleLine files s ":load a").output = "document loaded (1 paths)\n" ∧
      handleLine files s ":doc [7" = handleLine files s ":load b" ∧
      (handleLine files s ":load b").session.document.value = s.document.value := by
  intro text files s
  have ha : files.readText "a" = .ok text := by decide +kernel
  have hb : files.readText "b" = .ok "[7" := by decide +kernel
  have hparse : Document.parse " \x7b\"k\": 7\x7d\n" =
      .ok (.mapping [("k", .number (.integer 7))]) := by
    with_unfolding_all rfl
  have hrefused : Document.parse "[7" = .error ⟨1, 2, "EOF while parsing a list"⟩ := by
    with_unfolding_all rfl
  have htrimmed : Trimmed "[7".toList :=
    ⟨by decide, stops_cons (by decide), by rintro c ⟨⟩; decide⟩
  obtain ⟨-, hdoc, hload, -⟩ :=
    (load_agree files s ha (by decide) (List.forall_mem_singleton.2 (by decide))).1 _ hparse
  obtain ⟨-, hdocRefused, hloadRefused⟩ :=
    (load_agree files s hb (by decide) (List.forall_mem_singleton.2 (by decide))).2 _ hrefused
      htrimmed
  have hanchored : s.document.anchored = true := by decide +kernel
  have hcount : (Suggestions.ofValue true (.mapping [("k", .number (.integer 7))])).length = 1 := by
    decide +kernel
  refine ⟨ha, hb, hdoc.trans hload.symm, ?_, hdocRefused.trans hloadRefused.symm, ?_⟩
  · refine (congrArg Reply.output hload).trans ?_
    show printed ("document loaded (" ++
      toString (List.length (Suggestions.ofValue s.document.anchored _)) ++ " paths)") = _
    rw [hanchored, hcount]
    rfl
  · exact (congrArg (Document.value ∘ Session.document ∘ Reply.session) hloadRefused).trans
      (Document.refused_value _ _ _)

end Console
end DotQuery
