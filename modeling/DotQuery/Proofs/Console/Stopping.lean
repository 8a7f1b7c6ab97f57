import DotQuery.Proofs.Console.Operations
import DotQuery.Proofs.Text.Lines

/-! Where a run over an input stops.

A line is no text, or a text that quits, or one behind which a run reads on; the session
it comes to makes no difference to that (`flow_eq_stop_iff`). So a run over lines that
read on is taken up by the next lines where it ended (`runLines_append`), and behind a
line that quits or is no text nothing is looked at (`runLines_quit`,
`runLines_notText`). Bytes that end in a newline are whole lines, so the same holds of
inputs one behind the other (`run_append`). -/
namespace DotQuery.Console
open Text

/-! ### Lines that stop a run -/

/-- The bytes of the line, with the newline that ends it, are a text. -/
def IsText (line : List UInt8) : Prop :=
  ∃ text, decode? line = some text

/-- The line is a text that quits. -/
def Quits (line : List UInt8) : Prop :=
  ∃ text, decode? line = some text ∧ Command.parse text = .ok .quit

/-- The line is a text that does not quit. -/
def ReadsOn (line : List UInt8) : Prop :=
  ∃ text, decode? line = some text ∧ Command.parse text ≠ .ok .quit

theorem execute_flow_eq_stop_iff (files : Files) (s : Session) (c : Command) :
    (execute files s c).flow = .stop ↔ c = .quit := by
  cases c with
  | query text => rw [execute, runQuery_eq]; simp [Reply.proceed]
  | setDocument text => rw [execute, setDocument_eq]; simp [Reply.proceed]
  | load file =>
    rw [execute]
    cases files.readText file with
    | ok text => simp [setDocument_eq, Reply.proceed]
    | error fault => simp [Reply.proceed]
  | quit => exact ⟨fun _ => rfl, fun _ => rfl⟩
  | _ => simp [execute, Reply.proceed]

/-- Only the line decides whether the console reads on. -/
theorem flow_eq_stop_iff (files : Files) (s : Session) (line : String) :
    (handleLine files s line).flow = .stop ↔ Command.parse line = .ok .quit := by
  unfold handleLine
  cases Command.parse line with
  | ok c => rw [execute_flow_eq_stop_iff, Except.ok.injEq]
  | error e => exact ⟨nofun, nofun⟩

theorem flow_eq_proceed {files : Files} {s : Session} {line : String}
    (h : Command.parse line ≠ .ok .quit) : (handleLine files s line).flow = .proceed := by
  cases hflow : (handleLine files s line).flow with
  | proceed => rfl
  | stop => exact absurd ((flow_eq_stop_iff files s line).1 hflow) h

/-! ### Runs over lines -/

/-- What a run prints stands behind what was printed before it. -/
theorem runLines_output (files : Files) (output : String) (s : Session)
    (lines : List (List UInt8)) :
    runLines files output s lines =
      { runLines files "" s lines with
        output := output ++ (runLines files "" s lines).output } := by
  induction lines generalizing output s with
  | nil => simp [runLines]
  | cons line lines ih =>
    cases htext : decode? line with
    | none => simp [runLines, htext]
    | some text =>
      cases hflow : (handleLine files s text).flow with
      | stop => simp [runLines, htext, hflow]
      | proceed =>
        rw [runLines_proceed htext hflow, runLines_proceed htext hflow, ih (output ++ _),
          ih ("" ++ _)]
        simp [String.append_assoc]

section
variable (files : Files) (output : String) (s : Session)

/-- Lines that read on hand the run over to the lines behind them. -/
theorem runLines_append {a : List (List UInt8)} (h : ∀ line ∈ a, ReadsOn line)
    (b : List (List UInt8)) :
    (runLines files output s a).result = .ok () ∧
      runLines files output s (a ++ b) =
        runLines files (runLines files output s a).output (runLines files output s a).session b := by
  induction a generalizing output s with
  | nil => exact ⟨rfl, rfl⟩
  | cons line a ih =>
    rw [List.forall_mem_cons] at h
    obtain ⟨⟨text, htext, hreads⟩, h⟩ := h
    rw [List.cons_append, runLines_proceed htext (flow_eq_proceed hreads),
      runLines_proceed htext (flow_eq_proceed hreads)]
    exact ih _ _ h

/-- A line that quits ends a run well. The lines behind it are not looked at. -/
theorem runLines_quit {before : List (List UInt8)} {line : List UInt8}
    (h : ∀ l ∈ before, IsText l) (hquit : Quits line) (after : List (List UInt8)) :
    (runLines files output s (before ++ line :: after)).result = .ok () ∧
      runLines files output s (before ++ line :: after) =
        runLines files output s (before ++ [line]) := by
  induction before generalizing output s with
  | nil =>
    obtain ⟨text, htext, hparse⟩ := hquit
    have hflow := (flow_eq_stop_iff files s text).2 hparse
    simp [runLines, htext, hflow]
  | cons l before ih =>
    rw [List.forall_mem_cons] at h
    obtain ⟨⟨text, htext⟩, h⟩ := h
    rw [List.cons_append, List.cons_append]
    cases hflow : (handleLine files s text).flow with
    | stop => simp [runLines, htext, hflow]
    | proceed =>
      rw [runLines_proceed htext hflow, runLines_proceed htext hflow]
      exact ih _ _ h

/-- A line that is no text ends a run with an error, and does nothing else to it. -/
theorem runLines_notText {before : List (List UInt8)} {line : List UInt8}
    (h : ∀ l ∈ before, ¬ Quits l) (hline : decode? line = none) (after : List (List UInt8)) :
    runLines files output s (before ++ line :: after) =
      { runLines files output s before with result := .error (.input .notText) } := by
  induction before generalizing output s with
  | nil => simp [runLines, hline]
  | cons l before ih =>
    rw [List.forall_mem_cons] at h
    rw [List.cons_append]
    cases htext : decode? l with
    | none => simp [runLines, htext]
    | some text =>
      have hflow : (handleLine files s text).flow = .proceed :=
        flow_eq_proceed fun hparse => h.1 ⟨text, htext, hparse⟩
      rw [runLines_proceed htext hflow, runLines_proceed htext hflow]
      exact ih _ _ h.2

/-- A run ends with an error only where it comes to a line that is no text. -/
theorem runLines_error_iff (lines : List (List UInt8)) :
    (∃ e, (runLines files output s lines).result = .error e) ↔
      ∃ before line after, lines = before ++ line :: after ∧ decode? line = none ∧
        ∀ l ∈ before, ¬ Quits l := by
  constructor
  · rintro ⟨e, he⟩
    induction lines generalizing output s with
    | nil => cases he
    | cons line lines ih =>
      cases htext : decode? line with
      | none => exact ⟨[], line, lines, rfl, htext, by simp⟩
      | some text =>
        cases hflow : (handleLine files s text).flow with
        | stop => simp [runLines, htext, hflow] at he
        | proceed =>
          rw [runLines_proceed htext hflow] at he
          obtain ⟨before, l, after, rfl, hline, hquit⟩ := ih _ _ he
          refine ⟨line :: before, l, after, rfl, hline, List.forall_mem_cons.2 ⟨?_, hquit⟩⟩
          rintro ⟨t, ht, hparse⟩
          cases htext.symm.trans ht
          rw [(flow_eq_stop_iff files s text).2 hparse] at hflow
          cases hflow
  · rintro ⟨before, line, after, rfl, hline, hquit⟩
    rw [runLines_notText files output s hquit hline]
    exact ⟨_, rfl⟩

end

/-! ### Runs over inputs -/

section
variable (files : Files) (s : Session) {a : List UInt8}
  (ha : ∀ c ∈ a.getLast?, c = newlineByte)
include ha

theorem run_append_of_readsOn (h : ∀ line ∈ splitLines a, ReadsOn line) (b : List UInt8) :
    (run files s a).result = .ok () ∧
      run files s (a ++ b) =
        { run files (run files s a).session b with
          output := (run files s a).output ++ (run files (run files s a).session b).output } := by
  obtain ⟨hresult, happend⟩ := runLines_append files "" s h (splitLines b)
  refine ⟨hresult, ?_⟩
  rw [run, splitLines_append ha, happend, runLines_output]
  rfl

theorem run_append_of_quits {before after : List (List UInt8)} {line : List UInt8}
    (hlines : splitLines a = before ++ line :: after) (hquit : Quits line)
    (htexts : ∀ l ∈ before, IsText l) :
    (run files s a).result = .ok () ∧
      ∀ rest, run files s ((before ++ [line]).flatten ++ rest) = run files s a := by
  have hstop (more : List (List UInt8)) := runLines_quit files "" s htexts hquit more
  have hwhole : ∀ l ∈ before ++ [line], IsLine l := by
    intro l hl
    refine isLine_of_mem_splitLines ha l ?_
    rw [hlines, List.append_cons]
    exact List.mem_append_left _ hl
  have hrun : run files s a = runLines files "" s (before ++ [line]) := by
    rw [run, hlines, (hstop after).2]
  refine ⟨?_, fun rest => ?_⟩
  · rw [hrun]
    exact (hstop []).1
  · rw [hrun, run, splitLines_flatten_append hwhole, List.append_assoc, List.singleton_append,
      (hstop _).2]

end

theorem run_of_notText (files : Files) (s : Session) {input : List UInt8}
    {before after : List (List UInt8)} {line : List UInt8}
    (hlines : splitLines input = before ++ line :: after) (hline : decode? line = none)
    (hquit : ∀ l ∈ before, ¬ Quits l) :
    run files s input =
      { run files s before.flatten with result := .error (.input .notText) } := by
  have hwhole := isLine_of_splitLines hlines (List.cons_ne_nil line after)
  rw [run, hlines, runLines_notText files "" s hquit hline, run, splitLines_flatten hwhole]

/-- **Runs compose over their inputs, and stop where they should.** Let the first input
end in a newline. If all its lines are texts and none quits, its run ends well and the
run over both inputs is its run followed by that of the second in the session it left.
If one quits and all before it are texts, the run ends well with that line, whatever
bytes come behind it. And in any input, a line that is no text ends the run with an
error, unless one before it quits; what was printed and the session are those of the
lines before. -/
theorem run_append (files : Files) (s : Session) (a b : List UInt8)
    (ha : a.getLast? = some newlineByte) :
    let first := run files s a
    let second := run files first.session b
    ((∀ line ∈ splitLines a, ReadsOn line) →
        first.result = .ok () ∧
          run files s (a ++ b) =
            ⟨second.result, first.output ++ second.output, second.session⟩) ∧
      (∀ before line after, splitLines a = before ++ line :: after → Quits line →
        (∀ l ∈ before, IsText l) →
        first.result = .ok () ∧ run files s (a ++ b) = first ∧
          ∀ rest, run files s ((before ++ [line]).flatten ++ rest) = first) ∧
      ∀ input before line after, splitLines input = before ++ line :: after →
        decode? line = none → (∀ l ∈ before, ¬ Quits l) →
        run files s input =
          { run files s before.flatten with result := .error (.input .notText) } := by
  intro first second
  have hends : ∀ c ∈ a.getLast?, c = newlineByte := by
    intro c hc
    rw [ha] at hc
    exact (Option.some.inj hc).symm
  refine ⟨fun h => run_append_of_readsOn files s hends h b,
    fun before line after hlines hquit htexts => ?_,
    fun _ _ _ _ hlines hline hquit => run_of_notText files s hlines hline hquit⟩
  obtain ⟨hresult, hrest⟩ := run_append_of_quits files s hends hlines hquit htexts
  have ha : a = (before ++ [line]).flatten ++ after.flatten := by
    rw [← List.flatten_append, List.append_assoc, List.singleton_append, ← hlines]
    exact (flatten_splitLines a).symm
  refine ⟨hresult, ?_, hrest⟩
  conv => lhs; rw [ha, List.append_assoc]
  exact hrest _

/-- Behind a line that quits and ends in a carriage return and a newline stand bytes that
are no text. -/
theorem run_append_quit :
    let files := Files.ofDirectory []
    let s := Session.start {}
    let a := encode "example\n:quit\r\nexample\n"
    a.getLast? = some newlineByte ∧ Quits (encode ":quit\r\n") ∧
      (run files s a).result = .ok () ∧ run files s (a ++ [0xff]) = run files s a ∧
      run files s (encode "example\n" ++ encode ":quit\r\n" ++ [0xff, newlineByte]) = run files s a := by
  intro files s a
  have hquit : Quits (encode ":quit\r\n") := ⟨_, decode?_encode _, by decide +kernel⟩
  have htext : IsText (encode "example\n") := ⟨_, decode?_encode _⟩
  have hnewline : ∀ t ∈ ["example", ":quit\r", "example"], '\n' ∉ t.toList := by decide
  have hlines : splitLines a = [encode "example\n", encode ":quit\r\n", encode "example\n"] :=
    splitLines_encode hnewline
  have ha : a.getLast? = some newlineByte := by decide
  obtain ⟨-, hstop, -⟩ := run_append files s a [0xff] ha
  obtain ⟨hresult, hsame, hrest⟩ := hstop [encode "example\n"] _ _ hlines hquit
    (List.forall_mem_singleton.2 htext)
  exact ⟨ha, hquit, hresult, hsame, hrest _⟩

end DotQuery.Console
