import DotQuery.Proofs.Console.Interference
import DotQuery.Proofs.Console.Spelling

/-! The history is what the queries printed.

A query prints its entry and logs it, a reset clears the log, and no other line touches
it (`loggedOutputs_handleLine`). So the log holds what the queries since the last reset
printed, whatever lines came between them (`loggedOutputs_afterLines`), and the history
prints the same once more, with an empty line between two answers
(`handleLine_history`). -/
namespace DotQuery.Console

/-! ### Queries since the last reset -/

/-- Whether the line was a reset. -/
def Turn.resets (t : Turn) : Bool :=
  match Command.parse t.line with
  | .ok .reset => true
  | _ => false

/-- What the line printed, if it was a query. -/
def Turn.queryOutput? (t : Turn) : Option String :=
  match Command.parse t.line with
  | .ok (.query _) => some t.output
  | _ => none

/-- What the queries behind the last reset printed, all if there is none. -/
def queryOutputs (turns : List Turn) : List String :=
  (turns.rtakeWhile fun t => !t.resets).filterMap Turn.queryOutput?

theorem queryOutputs_append_one (turns : List Turn) (t : Turn) :
    queryOutputs (turns ++ [t]) =
      if t.resets then [] else queryOutputs turns ++ t.queryOutput?.toList := by
  unfold queryOutputs
  rw [List.rtakeWhile_concat]
  cases t.resets with
  | true => rfl
  | false =>
    cases h : t.queryOutput? <;> simp [h]

section
variable (files : Files) (s : Session)

theorem afterLines_append (a b : List String) :
    afterLines files s (a ++ b) = afterLines files (afterLines files s a) b := by
  induction a generalizing s with
  | nil => rfl
  | cons line a ih => exact ih _

theorem turns_append (a b : List String) :
    turns files s (a ++ b) = turns files s a ++ turns files (afterLines files s a) b := by
  induction a generalizing s with
  | nil => rfl
  | cons line a ih => simp only [List.cons_append, turns, afterLines, ih]

/-- The lines do to the session what they ask for, one after the other. -/
theorem afterLines_eq (lines : List String) :
    afterLines files s lines = s.after (lines.flatMap (operationsOfLine files)) := by
  induction lines generalizing s with
  | nil => rfl
  | cons line lines ih =>
    rw [List.flatMap_cons, Session.after_append, afterLines, ih, handleLine_session]

/-! ### The log -/

/-- The entries of the log as queries print them. -/
def loggedOutputs (s : Session) : List String :=
  (s.log.entries.map Entry.display).map printed

theorem loggedOutputs_submit {query : String} (h : Text.allBlank query = false) :
    loggedOutputs (s.submit query).2 = loggedOutputs s ++ [loggedText (s.submit query).1] := by
  have hentry : Session.entryOf? s.document.value query =
      some (Session.entryOf s.document.value query) := by
    rw [Session.entryOf?, h, if_neg Bool.false_ne_true]
  rw [Session.submit_eq, hentry]
  simp [loggedOutputs, loggedText]

theorem log_setDocument (text : String) : (setDocument s text).session.log = s.log := by
  rw [setDocument_session]
  rfl

/-- Only queries and resets touch the log. -/
theorem log_execute {c : Command} (hquery : ∀ text, c ≠ .query text) (hreset : c ≠ .reset) :
    (execute files s c).session.log = s.log := by
  cases c with
  | query text => exact absurd rfl (hquery text)
  | reset => exact absurd rfl hreset
  | setDocument text => exact log_setDocument s text
  | load file =>
    rw [execute]
    cases files.readText file with
    | ok text => exact log_setDocument s text
    | error fault => rfl
  | _ => rfl

/-- A line adds what it prints to the log if it is a query, and clears the log if it is a
reset. -/
theorem loggedOutputs_handleLine (line : String) :
    loggedOutputs (handleLine files s line).session =
      if (turn files s line).resets then []
      else loggedOutputs s ++ (turn files s line).queryOutput?.toList := by
  unfold turn Turn.resets Turn.queryOutput?
  dsimp only
  cases hparse : Command.parse line with
  | error e =>
    rw [handleLine, hparse]
    exact (List.append_nil _).symm
  | ok c =>
    have hreply : handleLine files s line = execute files s c := by rw [handleLine, hparse]
    rw [hreply]
    cases c with
    | query text =>
      rw [execute, runQuery_eq]
      have hblank : Text.allBlank text = false := (Command.isWritable_of_parse hparse).1
      exact loggedOutputs_submit s hblank
    | reset => rfl
    | _ =>
      rw [loggedOutputs, log_execute files s (by simp) (by simp)]
      exact (List.append_nil _).symm

end

/-! ### What the history prints -/

/-- After any lines the log holds what the queries since the last reset printed. -/
theorem loggedOutputs_afterLines (files : Files) (o : Options) (lines : List String) :
    loggedOutputs (afterLines files (Session.start o) lines) =
      queryOutputs (turns files (Session.start o) lines) := by
  -- on the last line, as the last reset is looked for from the end
  induction lines using List.reverseRecOn with
  | nil => rfl
  | append_singleton lines line ih =>
    rw [afterLines_append, turns_append, turns, turns, queryOutputs_append_one, ← ih]
    exact loggedOutputs_handleLine files _ line

/-- Texts with an empty line between two are printed as one line after the other is, with
a newline more between two. -/
theorem printed_intercalate {texts : List String} (h : texts ≠ []) :
    printed (String.intercalate "\n\n" texts) = String.intercalate "\n" (texts.map printed) := by
  induction texts with
  | nil => exact absurd rfl h
  | cons text texts ih =>
    cases texts with
    | nil => simp
    | cons next texts =>
      have hnext := ih (List.cons_ne_nil next texts)
      rw [List.map_cons, List.map_cons, String.intercalate_cons_cons, String.intercalate_cons_cons,
        ← List.map_cons, ← hnext]
      simp only [printed, String.append_assoc]
      rfl

theorem historyText_eq (s : Session) :
    historyText s.log =
      if loggedOutputs s = [] then printed emptyHistoryText
      else String.intercalate "\n" (loggedOutputs s) := by
  unfold historyText loggedOutputs QueryLog.isEmpty QueryLog.transcript
  cases hentries : s.log.entries with
  | nil => rfl
  | cons e entries =>
    have hne : (e :: entries).map Entry.display ≠ [] := by simp
    rw [if_neg (by simp), ← printed_intercalate hne]
    rfl

/-- **The history replays what was printed.** After any lines, whatever else came between
them, the history prints just what the queries since the last reset printed, in order and
with one newline more between two. If there were none it says so. It leaves the session
as it is, and the console reads on. -/
theorem handleLine_history (files : Files) (o : Options) (lines : List String) (line : String)
    (h : Command.parse line = .ok .history) :
    let s := afterLines files (Session.start o) lines
    let outputs := queryOutputs (turns files (Session.start o) lines)
    handleLine files s line =
      .proceed
        (if outputs = [] then "No queries executed yet.\n" else String.intercalate "\n" outputs)
        s := by
  intro s outputs
  have hlogged : loggedOutputs s = outputs := loggedOutputs_afterLines files o lines
  rw [handleLine, h]
  show Reply.proceed (historyText s.log) s = _
  rw [historyText_eq, hlogged]
  rfl

/-- Behind a reset stand a query that names nothing and one that shows three lines, and
between them an edit and an unknown command. -/
theorem handleLine_history_mixed :
    let files := Files.ofDirectory []
    let lines := ["z", ":reset", "x", ":doc [7]", ":y", "$"]
    let s := afterLines files (Session.start {}) lines
    Command.parse ":history" = .ok .history ∧
      handleLine files s ":history" = .proceed "> x\nundefined\n\n> $\n[\n  7\n]\n" s := by
  intro files lines s
  have hparse : Command.parse ":history" = .ok .history := by decide +kernel
  have hops : lines.flatMap (operationsOfLine files) =
      [.submit "z", .reset, .submit "x", .setText "[7]", .submit "$"] := by
    decide +kernel
  have houtputs : queryOutputs (turns files (Session.start {}) lines) =
      ["> x\nundefined\n", "> $\n[\n  7\n]\n"] := by
    rw [← loggedOutputs_afterLines, afterLines_eq, hops]
    decide +kernel
  have htext : String.intercalate "\n" ["> x\nundefined\n", "> $\n[\n  7\n]\n"] =
      "> x\nundefined\n\n> $\n[\n  7\n]\n" := by
    decide +kernel
  refine ⟨hparse, ?_⟩
  rw [handleLine_history files {} lines ":history" hparse, houtputs,
    if_neg (List.cons_ne_nil _ _), htext]

end DotQuery.Console
