import DotQuery.Proofs.Console.Commands
import DotQuery.Proofs.Console.Operations
import Mathlib.Data.List.Forall2

/-! Lines that fail or only look do not disturb the others.

Such lines are of two kinds. An idle one leaves the session as it is; a refused one, a
text that is no JSON, leaves all of it but the text and the error of the document. No
line but the one that shows the document looks at these two (`handleLine_agree`), so
the run without such lines goes on beside the run with them, in sessions that agree in
the rest. `turns_pick` is this for any selection of them: the lines that stay are
answered as before, and the session after them is the same. -/
namespace DotQuery.Console
open Json

/-! ### Runs of lines -/

/-- A line and what the console answers to it: whether it reads on, and what it prints. -/
structure Turn where
  line : String
  flow : Flow
  output : String
deriving DecidableEq

def turn (files : Files) (s : Session) (line : String) : Turn :=
  ⟨line, (handleLine files s line).flow, (handleLine files s line).output⟩

/-- The turns of the lines, one by one. Lines may be given behind one that stops the
console. -/
def turns (files : Files) (s : Session) : List String → List Turn
  | [] => []
  | line :: lines => turn files s line :: turns files (handleLine files s line).session lines

/-- The session after the lines. -/
def afterLines (files : Files) (s : Session) : List String → Session
  | [] => s
  | line :: lines => afterLines files (handleLine files s line).session lines

/-- The entries of a list whose places are chosen. -/
def pick {α : Type} (chosen : Nat → Bool) : List α → List α
  | [] => []
  | x :: xs =>
    if chosen 0 then x :: pick (fun i => chosen (i + 1)) xs else pick (fun i => chosen (i + 1)) xs

section
variable {α : Type} {chosen : Nat → Bool} (x : α) (xs : List α)

theorem pick_cons_of_chosen (h : chosen 0 = true) :
    pick chosen (x :: xs) = x :: pick (fun i => chosen (i + 1)) xs := by
  rw [pick, if_pos h]

theorem pick_cons_of_not_chosen (h : chosen 0 = false) :
    pick chosen (x :: xs) = pick (fun i => chosen (i + 1)) xs := by
  rw [pick, if_neg (by rw [h]; exact Bool.false_ne_true)]

end

/-- Two runs, one of all lines and one of the lines that stay, keep beside each other if
equal lines keep sessions in a relation and lines that may go do not leave it. -/
theorem unwinding {files : Files} {R : Session → Session → Prop} {Q : Turn → Turn → Prop}
    {mayGo : String → Prop}
    (step : ∀ s t line, R s t → Q (turn files s line) (turn files t line) ∧
      R (handleLine files s line).session (handleLine files t line).session)
    (skip : ∀ s t line, R s t → mayGo line → R (handleLine files s line).session t)
    (lines : List String) (stays : Nat → Bool)
    (h : ∀ line ∈ pick (fun i => !stays i) lines, mayGo line) {s t : Session} (hst : R s t) :
    List.Forall₂ Q (pick stays (turns files s lines)) (turns files t (pick stays lines)) ∧
      R (afterLines files s lines) (afterLines files t (pick stays lines)) := by
  induction lines generalizing stays s t with
  | nil => exact ⟨.nil, hst⟩
  | cons line lines ih =>
    cases hstays : stays 0 with
    | true =>
      rw [pick_cons_of_not_chosen _ _ (by rw [hstays]; rfl)] at h
      obtain ⟨hturn, hnext⟩ := step s t line hst
      obtain ⟨hturns, hafter⟩ := ih (fun i => stays (i + 1)) h hnext
      rw [turns, pick_cons_of_chosen _ _ hstays, pick_cons_of_chosen _ _ hstays]
      exact ⟨.cons hturn hturns, hafter⟩
    | false =>
      rw [pick_cons_of_chosen _ _ (by rw [hstays]; rfl), List.forall_mem_cons] at h
      obtain ⟨hgo, h⟩ := h
      rw [turns, pick_cons_of_not_chosen _ _ hstays, pick_cons_of_not_chosen _ _ hstays]
      exact ih (fun i => stays (i + 1)) h (skip s t line hst hgo)

/-! ### Sessions that agree -/

/-- The sessions differ at most in the text and the error of their documents. -/
structure Agree (s t : Session) : Prop where
  options : s.options = t.options
  log : s.log = t.log
  value : s.document.value = t.document.value
  suggestions : s.document.suggestions = t.document.suggestions
  anchored : s.document.anchored = t.document.anchored

theorem Agree.refl (s : Session) : Agree s s :=
  ⟨rfl, rfl, rfl, rfl, rfl⟩

section
variable {s t : Session} (h : Agree s t)
include h

theorem Agree.setText (text : String) :
    (s.setText text).1 = (t.setText text).1 ∧ Agree (s.setText text).2 (t.setText text).2 := by
  unfold Session.setText Document.setText
  cases Document.parse text with
  | ok v => exact ⟨rfl, ⟨h.options, h.log, rfl, by simp only [h.anchored], h.anchored⟩⟩
  | error e => exact ⟨rfl, ⟨h.options, h.log, h.value, h.suggestions, h.anchored⟩⟩

theorem Agree.submit (query : String) :
    (s.submit query).1 = (t.submit query).1 ∧ Agree (s.submit query).2 (t.submit query).2 := by
  simp only [Session.submit_eq, h.value, h.log]
  exact ⟨trivial, ⟨h.options, rfl, h.value, h.suggestions, h.anchored⟩⟩

theorem Agree.reset : s.reset = t.reset := by
  rw [Session.reset, Session.reset, h.options]

end

/-- The replies read on alike and print the same, and leave sessions that agree. -/
structure Alike (a b : Reply) : Prop where
  flow : a.flow = b.flow
  output : a.output = b.output
  session : Agree a.session b.session

section
variable {s t : Session} (h : Agree s t)
include h

theorem setDocument_alike (text : String) : Alike (setDocument s text) (setDocument t text) := by
  obtain ⟨hresult, hnext⟩ := h.setText text
  rw [setDocument_eq, setDocument_eq, hresult, hnext.suggestions]
  exact ⟨rfl, rfl, hnext⟩

theorem runQuery_alike (query : String) : Alike (runQuery s query) (runQuery t query) := by
  obtain ⟨hentry, hnext⟩ := h.submit query
  rw [runQuery_eq, runQuery_eq, hentry]
  exact ⟨rfl, rfl, hnext⟩

theorem execute_alike (files : Files) {c : Command} (hc : c ≠ .showDocument) :
    Alike (execute files s c) (execute files t c) := by
  cases c with
  | query text => exact runQuery_alike h text
  | setDocument text => exact setDocument_alike h text
  | load file =>
    rw [execute, execute]
    cases files.readText file with
    | ok text => exact setDocument_alike h text
    | error fault => exact ⟨rfl, rfl, h⟩
  | showDocument => exact absurd rfl hc
  | suggest start =>
    refine ⟨rfl, ?_, h⟩
    show suggestionText s _ = suggestionText t _
    rw [suggestionText, h.suggestions, suggestionText]
  | history =>
    refine ⟨rfl, ?_, h⟩
    show historyText s.log = historyText t.log
    rw [h.log]
  | reset => exact ⟨rfl, rfl, by rw [execute, execute, h.reset]; exact Agree.refl _⟩
  | nothing => exact ⟨rfl, rfl, h⟩
  | help => exact ⟨rfl, rfl, h⟩
  | quit => exact ⟨rfl, rfl, h⟩

/-- No line but the one that shows the document looks at what may differ. -/
theorem handleLine_agree (files : Files) (line : String) :
    (handleLine files s line).flow = (handleLine files t line).flow ∧
      (Command.parse line ≠ .ok .showDocument →
        (handleLine files s line).output = (handleLine files t line).output) ∧
      Agree (handleLine files s line).session (handleLine files t line).session := by
  unfold handleLine
  cases Command.parse line with
  | error e => exact ⟨rfl, fun _ => rfl, h⟩
  | ok c =>
    by_cases hc : c = .showDocument
    · subst hc
      exact ⟨rfl, fun hshow => absurd rfl hshow, h⟩
    · have halike := execute_alike h files hc
      exact ⟨halike.flow, fun _ => halike.output, halike.session⟩

end

/-! ### Lines that may go -/

/-- The line asks nothing of the session: it is blank, is no command, only looks, or names
a file that gives no text. -/
inductive Idle (files : Files) (line : String) : Prop where
  | blank (h : Text.allBlank line = true)
  | unknown (e : ConsoleError) (h : Command.parse line = .error e)
  | showDocument (h : Command.parse line = .ok .showDocument)
  | suggest (start : Option String) (h : Command.parse line = .ok (.suggest start))
  | history (h : Command.parse line = .ok .history)
  | help (h : Command.parse line = .ok .help)
  | unreadable (file : String) (fault : FileFault) (h : Command.parse line = .ok (.load file))
      (hfile : files.readText file = .error fault)

/-- The line sets a text, its own or that of a file, that is no JSON. -/
inductive Refused (files : Files) (line : String) : Prop where
  | typed (text : String) (e : DocumentError) (h : Command.parse line = .ok (.setDocument text))
      (hparse : Document.parse text = .error e)
  | loaded (file text : String) (e : DocumentError) (h : Command.parse line = .ok (.load file))
      (hfile : files.readText file = .ok text) (hparse : Document.parse text = .error e)

theorem operationsOfLine_eq {files : Files} {line : String} {c : Command}
    (h : Command.parse line = .ok c) : operationsOfLine files line = operationsOf files c := by
  rw [operationsOfLine, h]

theorem Idle.operationsOfLine_eq_nil {files : Files} {line : String} (h : Idle files line) :
    operationsOfLine files line = [] := by
  cases h with
  | blank h => exact operationsOfLine_eq (Command.parse_blank h)
  | unknown e h => rw [operationsOfLine, h]
  | showDocument h => exact operationsOfLine_eq h
  | suggest start h => exact operationsOfLine_eq h
  | history h => exact operationsOfLine_eq h
  | help h => exact operationsOfLine_eq h
  | unreadable file fault h hfile => rw [operationsOfLine_eq h, operationsOf, hfile]

theorem Refused.exists_operationsOfLine_eq {files : Files} {line : String}
    (h : Refused files line) :
    ∃ text e, operationsOfLine files line = [.setText text] ∧ Document.parse text = .error e := by
  cases h with
  | typed text e h hparse => exact ⟨text, e, operationsOfLine_eq h, hparse⟩
  | loaded file text e h hfile hparse =>
    exact ⟨text, e, by rw [operationsOfLine_eq h, operationsOf, hfile], hparse⟩

theorem handleLine_session_of_idle {files : Files} {line : String} (h : Idle files line)
    (s : Session) : (handleLine files s line).session = s := by
  rw [handleLine_session, h.operationsOfLine_eq_nil]
  rfl

/-- A text that does not parse changes nothing but the text and the error. -/
theorem agree_of_refused {files : Files} {line : String} (h : Refused files line) {s t : Session}
    (hst : Agree s t) : Agree (handleLine files s line).session t := by
  obtain ⟨text, e, hops, hparse⟩ := h.exists_operationsOfLine_eq
  rw [handleLine_session, hops]
  show Agree (s.setText text).2 t
  rw [Session.setText, Document.setText, hparse]
  exact ⟨hst.options, hst.log, hst.value, hst.suggestions, hst.anchored⟩

/-! ### Without the lines that may go -/

/-- The same line is answered alike, and by the same text unless it shows the document. -/
structure Turn.SameButShown (a b : Turn) : Prop where
  line : a.line = b.line
  flow : a.flow = b.flow
  output : Command.parse a.line ≠ .ok .showDocument → a.output = b.output

theorem turn_sameButShown {s t : Session} (h : Agree s t) (files : Files) (line : String) :
    (turn files s line).SameButShown (turn files t line) :=
  ⟨rfl, (handleLine_agree h files line).1, (handleLine_agree h files line).2.1⟩

section
variable (files : Files) (s : Session) (lines : List String) (stays : Nat → Bool)

theorem turns_pick_agree
    (h : ∀ line ∈ pick (fun i => !stays i) lines, Idle files line ∨ Refused files line) :
    List.Forall₂ Turn.SameButShown (pick stays (turns files s lines))
        (turns files s (pick stays lines)) ∧
      Agree (afterLines files s lines) (afterLines files s (pick stays lines)) := by
  refine unwinding (fun s t line hst => ?_) (fun s t line hst hgo => ?_) lines stays h (.refl s)
  · exact ⟨turn_sameButShown hst files line, (handleLine_agree hst files line).2.2⟩
  · rcases hgo with hidle | hrefused
    · rw [handleLine_session_of_idle hidle]
      exact hst
    · exact agree_of_refused hrefused hst

theorem turns_pick_of_idle (h : ∀ line ∈ pick (fun i => !stays i) lines, Idle files line) :
    pick stays (turns files s lines) = turns files s (pick stays lines) ∧
      afterLines files s lines = afterLines files s (pick stays lines) := by
  have step : ∀ s t line, s = t → turn files s line = turn files t line ∧
      (handleLine files s line).session = (handleLine files t line).session := by
    intro s t line hst
    subst hst
    exact ⟨rfl, rfl⟩
  have skip : ∀ s t line, s = t → Idle files line → (handleLine files s line).session = t := by
    intro s t line hst hidle
    rw [handleLine_session_of_idle hidle, hst]
  obtain ⟨hturns, hafter⟩ := unwinding step skip lines stays h (Eq.refl s)
  rw [List.forall₂_eq_eq_eq] at hturns
  exact ⟨hturns, hafter⟩

end

/-- **Lines that fail or only look do not disturb the others.** Whatever lines of these
kinds are taken out, every line that stays, but for one that shows the document, is
answered as before, and the log, the value and the suggestions are the same in the end.
If no text that is refused is among them, all that stays is answered as before, and the
session is the same as a whole. -/
theorem turns_pick (files : Files) (s : Session) (lines : List String) (stays : Nat → Bool)
    (h : ∀ line ∈ pick (fun i => !stays i) lines, Idle files line ∨ Refused files line) :
    let whole := afterLines files s lines
    let rest := afterLines files s (pick stays lines)
    List.Forall₂ Turn.SameButShown (pick stays (turns files s lines))
        (turns files s (pick stays lines)) ∧
      whole.log = rest.log ∧ whole.document.value = rest.document.value ∧
      whole.document.suggestions = rest.document.suggestions ∧
      ((∀ line ∈ pick (fun i => !stays i) lines, ¬ Refused files line) →
        pick stays (turns files s lines) = turns files s (pick stays lines) ∧ whole = rest) := by
  intro whole rest
  obtain ⟨hturns, hagree⟩ := turns_pick_agree files s lines stays h
  refine ⟨hturns, hagree.log, hagree.value, hagree.suggestions, fun hnone => ?_⟩
  have hidle : ∀ line ∈ pick (fun i => !stays i) lines, Idle files line := fun line hline =>
    (h line hline).resolve_right (hnone line hline)
  exact turns_pick_of_idle files s lines stays hidle

/-- A file that is no text and a text that is no JSON may go from before and between two
queries. -/
theorem turns_pick_failing :
    let files := Files.ofDirectory [("raw", [0xff])]
    let s := Session.start {}
    let lines := [":load raw", "example", ":doc \x7b", "example", ":show"]
    let stays : Nat → Bool := fun i => i == 1 || i == 3 || i == 4
    let stay := ["example", "example", ":show"]
    (∀ line ∈ pick (fun i => !stays i) lines, Idle files line ∨ Refused files line) ∧
      List.Forall₂ Turn.SameButShown (pick stays (turns files s lines)) (turns files s stay) ∧
      (afterLines files s lines).log = (afterLines files s stay).log ∧
      (afterLines files s lines).document.value = (afterLines files s stay).document.value := by
  intro files s lines stays stay
  have hgo : ∀ line ∈ pick (fun i => !stays i) lines, Idle files line ∨ Refused files line := by
    have hload : Idle files ":load raw" :=
      .unreadable "raw" .notText (by decide +kernel) (by decide +kernel)
    have hdoc : Refused files ":doc \x7b" :=
      .typed "\x7b" ⟨1, 1, "EOF while parsing an object"⟩ (by decide +kernel)
        (by with_unfolding_all rfl)
    intro line hline
    rcases List.mem_pair.1 hline with rfl | rfl
    · exact .inl hload
    · exact .inr hdoc
  obtain ⟨hturns, hlog, hvalue, -⟩ := turns_pick files s lines stays hgo
  exact ⟨hgo, hturns, hlog, hvalue⟩

end DotQuery.Console
