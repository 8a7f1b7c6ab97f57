import DotQuery.Console
import DotQuery.Proofs.Session.Runs

/-! What a console asks of its session.

A command asks for at most one operation (`operationsOf`), and does nothing else to the
session (`execute_session`). So lines and whole runs are runs of operations, and every
session that a console comes to hold is one that operations lead to
(`Reachable.exists_after`). -/
namespace DotQuery.Console
open Session (Operation)

/-- What a command asks of the session. -/
def operationsOf (files : Files) : Command → List Operation
  | .query text => [.submit text]
  | .setDocument text => [.setText text]
  | .load file =>
    match files.readText file with
    | .ok text => [.setText text]
    | .error _ => []
  | .reset => [.reset]
  | _ => []

/-- What a line asks of the session; nothing if it is no command. -/
def operationsOfLine (files : Files) (line : String) : List Operation :=
  match Command.parse line with
  | .ok c => operationsOf files c
  | .error _ => []

/-- What the console prints of an edit that leaves so many suggestions. -/
def editedText (result : Except DocumentError Json.Value) (count : Nat) : String :=
  match result with
  | .ok _ => printed ("document loaded (" ++ toString count ++ " paths)")
  | .error e => printed e.message

/-- What the console prints of a query. -/
def loggedText : Option Entry → String
  | some e => printed e.display
  | none => ""

theorem setDocument_eq (s : Session) (text : String) :
    setDocument s text =
      .proceed
        (editedText (s.setText text).1 (s.setText text).2.document.suggestions.length)
        (s.setText text).2 := by
  unfold setDocument
  split <;> rename_i h <;> rw [h] <;> rfl

theorem runQuery_eq (s : Session) (query : String) :
    runQuery s query = .proceed (loggedText (s.submit query).1) (s.submit query).2 := by
  unfold runQuery
  split <;> rename_i h <;> rw [h] <;> rfl

theorem setDocument_session (s : Session) (text : String) :
    (setDocument s text).session = (s.setText text).2 := by
  rw [setDocument_eq]
  rfl

theorem runQuery_session (s : Session) (query : String) :
    (runQuery s query).session = (s.submit query).2 := by
  rw [runQuery_eq]
  rfl

/-- A command does to the session what it asks for. -/
theorem execute_session (files : Files) (s : Session) (c : Command) :
    (execute files s c).session = s.after (operationsOf files c) := by
  cases c with
  | query text => exact runQuery_session s text
  | setDocument text => exact setDocument_session s text
  | load file =>
    rw [execute, operationsOf]
    cases files.readText file with
    | ok text => exact setDocument_session s text
    | error fault => rfl
  | _ => rfl

theorem handleLine_session (files : Files) (s : Session) (line : String) :
    (handleLine files s line).session = s.after (operationsOfLine files line) := by
  unfold handleLine operationsOfLine
  cases Command.parse line with
  | ok c => exact execute_session files s c
  | error e => rfl

/-- A run goes on behind a line that does not end it. -/
theorem runLines_proceed {files : Files} {s : Session} {line : List UInt8} {text : String}
    (htext : Text.decode? line = some text) (hflow : (handleLine files s text).flow = .proceed)
    (output : String) (lines : List (List UInt8)) :
    runLines files output s (line :: lines) =
      runLines files (output ++ (handleLine files s text).output) (handleLine files s text).session
        lines := by
  simp only [runLines, htext, hflow]

/-- A run does to the session what its lines ask for, up to the one that ends it. -/
theorem exists_runLines_session (files : Files) (output : String) (s : Session)
    (lines : List (List UInt8)) :
    ∃ ops, (runLines files output s lines).session = s.after ops := by
  induction lines generalizing output s with
  | nil => exact ⟨[], rfl⟩
  | cons line lines ih =>
    unfold runLines
    split
    · exact ⟨[], rfl⟩
    · rename_i text _
      dsimp only
      split
      · exact ⟨_, handleLine_session files s text⟩
      · obtain ⟨ops, h⟩ := ih (output ++ (handleLine files s text).output)
          (handleLine files s text).session
        refine ⟨operationsOfLine files text ++ ops, ?_⟩
        rw [h, handleLine_session, Session.after_append]

/-- The sessions that a console can come to hold: those it can be given, and what lines,
commands and whole runs make of them, with any files. -/
inductive Reachable : Session → Prop where
  | given (o : Options) (ops : List Operation) : Reachable ((Session.start o).after ops)
  | line {s : Session} (files : Files) (line : String) :
      Reachable s → Reachable (handleLine files s line).session
  | command {s : Session} (files : Files) (c : Command) :
      Reachable s → Reachable (execute files s c).session
  | input {s : Session} (files : Files) (input : List UInt8) :
      Reachable s → Reachable (run files s input).session

theorem reachable_start (o : Options) : Reachable (Session.start o) :=
  Reachable.given o []

theorem Reachable.exists_after {s : Session} (h : Reachable s) :
    ∃ o ops, s = (Session.start o).after ops := by
  induction h with
  | given o ops => exact ⟨o, ops, rfl⟩
  | line files line _ ih =>
    obtain ⟨o, ops, rfl⟩ := ih
    refine ⟨o, ops ++ operationsOfLine files line, ?_⟩
    rw [handleLine_session, Session.after_append]
  | command files c _ ih =>
    obtain ⟨o, ops, rfl⟩ := ih
    refine ⟨o, ops ++ operationsOf files c, ?_⟩
    rw [execute_session, Session.after_append]
  | input files input _ ih =>
    obtain ⟨o, ops, rfl⟩ := ih
    obtain ⟨more, h⟩ := exists_runLines_session files "" ((Session.start o).after ops)
      (Text.splitLines input)
    refine ⟨o, ops ++ more, ?_⟩
    rw [run, h, Session.after_append]

end DotQuery.Console
