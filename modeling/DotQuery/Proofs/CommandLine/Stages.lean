import DotQuery.CommandLine
import DotQuery.Proofs.Console.Stopping

/-! The program as it goes from stage to stage.

The loop of the program (`goOn`) takes one byte of its input after the other, and carries a
line out when its newline comes, or the end of the input behind it. Before that it reads
only the files that the line asks for. `Stage.advances` is that loop over an input that is
all there.

Neither makes a difference to what the program comes to: the part of a line that was read
is put in front of the rest of the input (`report_inside`), a newline makes it the first
line of a run (`report_newline`), and no other file is looked at (`advance_only`). So the
program comes to what its run over the whole input and all files comes to
(`opening_advances`). -/
namespace DotQuery

namespace Files

/-- The files with the given names; all others are absent. -/
def only (files : Files) (names : List String) : Files :=
  ofTable (names.map fun name => (name, files name))

theorem only_eq (files : Files) {names : List String} {name : String} (h : name ∈ names) :
    files.only names name = files name := by
  induction names with
  | nil => cases h
  | cons n names ih =>
    by_cases hn : name = n
    · simp [only, ofTable, hn]
    · have hrest : files.only (n :: names) name = files.only names name := by
        simp [only, ofTable, List.lookup_cons, beq_false_of_ne hn]
      rw [hrest, ih (List.mem_of_ne_of_mem hn h)]

theorem readText_congr {files other : Files} {name : String} (h : files name = other name) :
    files.readText name = other.readText name := by
  rw [readText, readText, h]

end Files

namespace Text

/-- Bytes without a newline are one line. -/
theorem splitLines_open {line : List UInt8} (h : newlineByte ∉ line) (hne : line ≠ []) :
    splitLines line = [line] := by
  rw [splitLines, dif_neg hne]
  rcases splitLine_cases line with ⟨-, hsplit⟩ | ⟨body, rest, -, hline, -⟩
  · rw [hsplit, splitLines_nil]
  · exact absurd (by simp [hline]) h

end Text

namespace CommandLine
open Text Console

/-! ### Only the files that are asked for -/

section
variable {files other : Files}

/-- A line asks for the file that its command loads. -/
theorem mem_fileNamesOf {line : List UInt8} {text name : String} (htext : decode? line = some text)
    (hparse : Command.parse text = .ok (.load name)) : name ∈ fileNamesOf line := by
  simp [fileNamesOf, htext, hparse]

theorem execute_congr (s : Session) {c : Command}
    (h : ∀ name, c = .load name → files name = other name) :
    execute files s c = execute other s c := by
  cases c with
  | load name => rw [execute, execute, Files.readText_congr (h name rfl)]
  | _ => rfl

theorem handleLine_congr (s : Session) {text : String}
    (h : ∀ name, Command.parse text = .ok (.load name) → files name = other name) :
    handleLine files s text = handleLine other s text := by
  unfold handleLine
  cases hparse : Command.parse text with
  | ok c => exact execute_congr s fun name hc => h name (by rw [hparse, hc])
  | error e => rfl

theorem ofLine_congr (s : Session) {text : String}
    (h : ∀ name, Command.parse text = .ok (.load name) → files name = other name) :
    Event.ofLine files s text = Event.ofLine other s text := by
  unfold Event.ofLine
  cases hparse : Command.parse text with
  | error e => rfl
  | ok c =>
    cases c with
    | load name =>
      dsimp only
      rw [Files.readText_congr (h name hparse)]
    | _ => rfl

theorem carryOut_congr (verbosity : Nat) (s : Session) {line : List UInt8}
    (h : ∀ name ∈ fileNamesOf line, files name = other name) :
    carryOut files verbosity s line = carryOut other verbosity s line := by
  unfold carryOut
  cases htext : decode? line with
  | none => rfl
  | some text =>
    have hload : ∀ name, Command.parse text = .ok (.load name) → files name = other name :=
      fun name hparse => h name (mem_fileNamesOf htext hparse)
    dsimp only
    rw [handleLine_congr s hload, ofLine_congr s hload]

/-- **A byte, or the end of the input, is taken by the files that it asks for.** -/
theorem advance_congr {stage : Stage} {byte : Option UInt8}
    (h : ∀ name ∈ stage.fileNames byte, files name = other name) :
    stage.advance files byte = stage.advance other byte := by
  cases stage with
  | ended status => rfl
  | reading verbosity s line =>
    cases byte with
    | some b =>
      by_cases hb : b = newlineByte
      · simp only [Stage.fileNames, if_pos hb] at h
        simp only [Stage.advance, if_pos hb, carryOut_congr verbosity s h]
      · simp only [Stage.advance, if_neg hb]
    | none =>
      cases line with
      | nil => rfl
      | cons b line => simp only [Stage.advance, carryOut_congr verbosity s h]

theorem readConfig_congr {a : Arguments} (h : ∀ name ∈ a.config, files name = other name) :
    readConfig files a = readConfig other a := by
  unfold readConfig
  cases hconfig : a.config with
  | none => rfl
  | some name =>
    dsimp only
    rw [optionsOfFile, optionsOfFile, Files.readText_congr (h name hconfig)]

theorem addArguments_congr {a : Arguments} (h : ∀ name ∈ a.document, files name = other name) :
    addArguments files a = addArguments other a := by
  funext o
  unfold addArguments
  cases hdocument : a.document with
  | none => rfl
  | some name =>
    dsimp only
    rw [Files.readText_congr (h name hdocument)]

/-- **The program begins by the files that its arguments name.** -/
theorem opening_congr {a : Arguments} (h : ∀ name ∈ a.fileNames, files name = other name) :
    opening files a = opening other a := by
  have hconfig : readConfig files a = readConfig other a :=
    readConfig_congr fun name hn => h name (List.mem_append_left _ (by simpa using hn))
  have hdocument : addArguments files a = addArguments other a :=
    addArguments_congr fun name hn => h name (List.mem_append_right _ (by simpa using hn))
  rw [opening, opening, start, start, optionsOf, optionsOf, hconfig, hdocument]

end

/-! ### A line at a time -/

/-- The end of a run that leaves this behind. -/
def Report.ended (r : Report) : Progress :=
  ⟨r.messages, r.output, .ended r.status⟩

theorem Event.shown_append (verbosity : Nat) (a b : List Event) :
    Event.shown verbosity (a ++ b) = Event.shown verbosity a ++ Event.shown verbosity b := by
  simp [Event.shown]

@[simp] theorem report_ended (files : Files) (input : List UInt8) (status : Nat) :
    (Stage.ended status).report files input = ⟨status, "", []⟩ := rfl

section
variable (files : Files) (verbosity : Nat) (s : Session)

/-- A console carries out the first line of what it has before it, and then stands before the
other lines. -/
theorem report_line {line input first rest : List UInt8}
    (h : splitLines (line.reverse ++ input) = first :: splitLines rest) :
    (Stage.reading verbosity s line).report files input =
      (carryOut files verbosity s first).report files rest := by
  rw [Stage.report, Console.run, Event.ofRun, h, carryOut]
  cases htext : decode? first with
  | none => simp [runLines, handledLines, htext, Progress.report, Stage.report, Event.shown]
  | some text =>
    cases hflow : (handleLine files s text).flow with
    | stop => simp [runLines, handledLines, htext, hflow, Progress.report, Stage.report]
    | proceed =>
      rw [runLines_proceed htext hflow, runLines_output]
      simp only [handledLines, htext, hflow, List.flatMap_cons, Event.shown_append, Progress.report,
        Stage.report, Console.run, Event.ofRun, List.reverse_nil, List.nil_append,
        String.empty_append]
      cases (runLines files "" (handleLine files s text).session (splitLines rest)).result with
      | ok _ => rfl
      | error e => simp

theorem report_inside (line input : List UInt8) (b : UInt8) :
    (Stage.reading verbosity s line).report files (b :: input) =
      (Stage.reading verbosity s (b :: line)).report files input := by
  simp [Stage.report]

theorem report_newline {line : List UInt8} (h : newlineByte ∉ line) (input : List UInt8) :
    (Stage.reading verbosity s line).report files (newlineByte :: input) =
      (carryOut files verbosity s (newlineByte :: line).reverse).report files input := by
  have hline : newlineByte ∉ line.reverse := mt List.mem_reverse.1 h
  refine report_line files verbosity s ?_
  rw [splitLines_line hline, List.reverse_cons]

/-- A console with nothing before it ends well. -/
@[simp] theorem report_nothing : (Stage.reading verbosity s []).report files [] = ⟨0, "", []⟩ := by
  simp [Stage.report, Console.run, Event.ofRun, splitLines_nil, runLines, handledLines,
    Event.shown]

/-- Behind a whole line, nothing of the next one has been read. -/
theorem carryOut_stage (line : List UInt8) :
    (∃ status, (carryOut files verbosity s line).stage = .ended status) ∨
      ∃ t, (carryOut files verbosity s line).stage = .reading verbosity t [] := by
  unfold carryOut
  cases decode? line with
  | none => exact .inl ⟨1, rfl⟩
  | some text =>
    dsimp only
    cases (handleLine files s text).flow with
    | stop => exact .inl ⟨0, rfl⟩
    | proceed => exact .inr ⟨_, rfl⟩

theorem carryOut_close (line : List UInt8) :
    let p := carryOut files verbosity s line
    { p with stage := p.stage.close } = (p.report files []).ended := by
  intro p
  rcases carryOut_stage files verbosity s line with ⟨status, hstage⟩ | ⟨t, hstage⟩ <;>
    simp [Progress.report, Report.ended, p, hstage, Stage.close]

end

/-! ### The loop -/

/-- A progress and then another one, from the stage that the first led to. -/
def Progress.andThen (p q : Progress) : Progress :=
  ⟨p.messages ++ q.messages, p.output ++ q.output, q.stage⟩

/-- Goes on with the bytes of the input one by one and then with its end, reading each time
the files that are asked for. -/
def Stage.advances (files : Files) (stage : Stage) : List UInt8 → Progress
  | [] => stage.advance (files.only (stage.fileNames none)) none
  | b :: input =>
    let p := stage.advance (files.only (stage.fileNames (some b))) (some b)
    p.andThen (p.stage.advances files input)

/-- The part of a line that was read has no newline. -/
def Stage.IsOpen : Stage → Prop
  | ended _ => True
  | reading _ _ line => newlineByte ∉ line

theorem advance_only (files : Files) (stage : Stage) (byte : Option UInt8) :
    stage.advance (files.only (stage.fileNames byte)) byte = stage.advance files byte :=
  advance_congr fun _ hname => files.only_eq hname

theorem opening_only (files : Files) (a : Arguments) :
    opening (files.only a.fileNames) a = opening files a :=
  opening_congr fun _ hname => files.only_eq hname

theorem advances_cons (files : Files) (stage : Stage) (b : UInt8) (input : List UInt8) :
    stage.advances files (b :: input) =
      (stage.advance files (some b)).andThen
        ((stage.advance files (some b)).stage.advances files input) := by
  rw [Stage.advances, advance_only]

theorem carryOut_isOpen (files : Files) (verbosity : Nat) (s : Session) (line : List UInt8) :
    (carryOut files verbosity s line).stage.IsOpen := by
  rcases carryOut_stage files verbosity s line with ⟨status, hstage⟩ | ⟨t, hstage⟩
  · rw [hstage]
    trivial
  · rw [hstage]
    exact List.not_mem_nil

theorem opening_isOpen (files : Files) (a : Arguments) : (opening files a).stage.IsOpen := by
  unfold opening
  rcases start files a with ⟨messages, _ | s⟩
  · trivial
  · dsimp only
    split
    · trivial
    · exact List.not_mem_nil

theorem advance_isOpen (files : Files) {stage : Stage} (h : stage.IsOpen) (b : UInt8) :
    (stage.advance files (some b)).stage.IsOpen := by
  cases stage with
  | ended status => trivial
  | reading verbosity s line =>
    by_cases hb : b = newlineByte
    · rw [Stage.advance, if_pos hb]
      exact carryOut_isOpen files verbosity s _
    · rw [Stage.advance, if_neg hb]
      exact fun hmem => (List.mem_cons.1 hmem).elim (fun he => hb he.symm) h

/-- A byte takes its part of what a stage comes to. -/
theorem report_cons (files : Files) {stage : Stage} (h : stage.IsOpen) (b : UInt8)
    (input : List UInt8) :
    stage.report files (b :: input) = (stage.advance files (some b)).report files input := by
  cases stage with
  | ended status => rfl
  | reading verbosity s line =>
    by_cases hb : b = newlineByte
    · rw [Stage.advance, if_pos hb, hb]
      exact report_newline files verbosity s h input
    · rw [Stage.advance, if_neg hb, report_inside]
      simp [Progress.report, Progress.silent]

theorem advance_end (files : Files) {stage : Stage} (h : stage.IsOpen) :
    stage.advance files none = (stage.report files []).ended := by
  cases stage with
  | ended status => rfl
  | reading verbosity s line =>
    cases line with
    | nil =>
      rw [report_nothing]
      rfl
    | cons b line =>
      have hline : newlineByte ∉ (b :: line).reverse := mt List.mem_reverse.1 h
      have hlines : splitLines ((b :: line).reverse ++ []) =
          (b :: line).reverse :: splitLines [] := by
        rw [List.append_nil, splitLines_nil, splitLines_open hline (by simp)]
      rw [report_line files verbosity s hlines]
      exact carryOut_close files verbosity s (b :: line).reverse

theorem advances_eq_report (files : Files) {stage : Stage} (h : stage.IsOpen)
    (input : List UInt8) : stage.advances files input = (stage.report files input).ended := by
  induction input generalizing stage with
  | nil => rw [Stage.advances, advance_only, advance_end files h]
  | cons b input ih =>
    rw [advances_cons, ih (advance_isOpen files h b), report_cons files h]
    rfl

/-- **Going on byte by byte comes to the run over the whole input.** -/
theorem opening_advances (files : Files) (input : List UInt8) (a : Arguments) :
    let p := opening (files.only a.fileNames) a
    p.andThen (p.stage.advances files input) = (runArguments files input a).ended := by
  rw [opening_only]
  intro p
  rw [advances_eq_report files (opening_isOpen files a)]
  rfl

end CommandLine
end DotQuery
