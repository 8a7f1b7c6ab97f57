import DotQuery.CommandLine
import DotQuery.Proofs.Console.Stopping
import DotQuery.Proofs.Session.Rendering
import DotQuery.Proofs.CommandLine.Batch

/-! The exit status of a run.

What can fail is told from the arguments and the files alone (`Fails`): the options file,
the document file, the initial text or a query of a batch, and the input of a console.
Loading either ends the run or starts a session with the initial text (`start_cases`), and
then the batch or the console decides (`run_status`). -/
namespace DotQuery.CommandLine
open Text Console

/-! ### What can fail -/

section
variable (files : Files) (input : List UInt8) (a : Arguments)

/-- A file is named that cannot be read as a text, or its text is not of the kind. -/
def FileFails (accepted : String → Prop) (name? : Option String) : Prop :=
  ∃ name, name? = some name ∧
    ((∃ f, files.readText name = .error f) ∨
      ∃ text, files.readText name = .ok text ∧ ¬ accepted text)

/-- The options file cannot be read or holds no options. -/
def ConfigFails : Prop :=
  FileFails files (fun text => ∃ o, Options.parse text = .ok o) a.config

/-- The document file cannot be read or holds no document. -/
def DocumentFails : Prop :=
  FileFails files (fun text => ∃ v, Document.parse text = .ok v) a.document

/-- The options that the arguments start from. -/
def configOptions? : Option Options :=
  match a.config with
  | some name => do
    let text ← (files.readText name).toOption
    (Options.parse text).toOption
  | none => some {}

/-- The text that a session starts with: that of the document file, or else the one that
the options give, which may be none. -/
def initialText? : Option String :=
  match a.document with
  | some name => (files.readText name).toOption
  | none => do
    let o ← configOptions? files a
    o.initialDocument

/-- The value that queries of a batch are evaluated in. -/
def initialValue? : Option Json.Value := do
  let text ← initialText? files a
  (Document.parse text).toOption

/-- The ways in which a run fails. -/
inductive Fails : Prop where
  | config : ConfigFails files a → Fails
  | document : DocumentFails files a → Fails
  | initial (text : String) (e : DocumentError) :
      a.isBatch = true → initialText? files a = some text → Document.parse text = .error e → Fails
  | query (query : String) (e : QueryError) :
      a.isBatch = true → query ∈ a.queries → allBlank query = false →
      evaluate (initialValue? files a) query = .error e → Fails
  | input (before : List (List UInt8)) (line : List UInt8) (after : List (List UInt8)) :
      a.isBatch = false → splitLines input = before ++ line :: after → decode? line = none →
      (∀ l ∈ before, ¬ Quits l) → Fails

end

/-! ### Starting -/

section
variable {files : Files} {a : Arguments}

theorem fileFails_none {accepted : String → Prop} : ¬ FileFails files accepted none := by
  rintro ⟨name, hname, -⟩
  cases hname

theorem fileFails_of_error {accepted : String → Prop} {name : String} {f : FileFault}
    (h : files.readText name = .error f) : FileFails files accepted (some name) :=
  ⟨name, rfl, .inl ⟨f, h⟩⟩

theorem fileFails_iff_of_ok {accepted : String → Prop} {name text : String}
    (h : files.readText name = .ok text) :
    FileFails files accepted (some name) ↔ ¬ accepted text := by
  constructor
  · rintro ⟨_, ⟨⟩, ⟨f, hf⟩ | ⟨t, ht, hrefused⟩⟩
    · rw [h] at hf
      cases hf
    · rw [h] at ht
      cases ht
      exact hrefused
  · intro hrefused
    exact ⟨name, rfl, .inr ⟨text, h, hrefused⟩⟩

theorem readConfig_cases :
    (ConfigFails files a ∧ ∃ e, readConfig files a = .error e) ∨
      ¬ ConfigFails files a ∧ ∃ o, readConfig files a = .ok o ∧ configOptions? files a = some o := by
  unfold ConfigFails readConfig configOptions?
  cases a.config with
  | none => exact .inr ⟨fileFails_none, {}, rfl, rfl⟩
  | some name =>
    cases hread : files.readText name with
    | error f =>
      refine .inl ⟨fileFails_of_error hread, .unreadable name f, ?_⟩
      simp only [optionsOfFile, hread]
    | ok text =>
      simp only [fileFails_iff_of_ok hread, optionsOfFile, hread]
      cases hparse : Options.parse text with
      | error e => exact .inl ⟨fun ⟨o, ho⟩ => (nomatch ho), .options e, rfl⟩
      | ok o => exact .inr ⟨fun h => h ⟨o, rfl⟩, o, rfl, by simp [Except.toOption, hparse]⟩

/-! ### Sessions that start -/

theorem start_value (o : Options) :
    (Session.start o).document.value =
      o.initialDocument.bind fun text => (Document.parse text).toOption := by
  unfold Session.start Session.initialDocument
  cases o.initialDocument with
  | none => rfl
  | some text =>
    unfold Document.setText
    cases hparse : Document.parse text <;> simp [Except.toOption, hparse, Document.empty]

theorem start_error (o : Options) :
    (Session.start o).document.error =
      o.initialDocument.bind fun text =>
        match Document.parse text with
        | .ok _ => none
        | .error e => some e := by
  unfold Session.start Session.initialDocument
  cases o.initialDocument with
  | none => rfl
  | some text =>
    unfold Document.setText
    cases hparse : Document.parse text <;> simp [hparse]

theorem addArguments_cases {o : Options} (ho : configOptions? files a = some o) :
    (DocumentFails files a ∧ ∃ e, addArguments files a o = .error e) ∨
      ∃ p, addArguments files a o = .ok p ∧ p.initialDocument = initialText? files a ∧
        (DocumentFails files a ↔
          a.document.isSome = true ∧ (Session.start p).document.error ≠ none) := by
  unfold DocumentFails addArguments initialText?
  cases a.document with
  | none =>
    refine .inr ⟨_, rfl, ?_, iff_of_false fileFails_none fun h => nomatch h.1⟩
    simp [ho]
  | some name =>
    cases hread : files.readText name with
    | error f => exact .inl ⟨fileFails_of_error hread, .unreadable name f, by simp only [hread]⟩
    | ok text =>
      simp only [hread]
      refine .inr ⟨_, rfl, rfl, ?_⟩
      rw [fileFails_iff_of_ok hread, start_error]
      cases hparse : Document.parse text <;> simp [hparse]

/-- **A run starts with a session unless a file fails.** -/
theorem start_cases (files : Files) (a : Arguments) :
    ((ConfigFails files a ∨ DocumentFails files a) ∧
        ∃ messages e, start files a = (messages, .error e)) ∨
      ¬ ConfigFails files a ∧ ¬ DocumentFails files a ∧
        ∃ messages o, start files a = (messages, .ok (Session.start o)) ∧
          o.initialDocument = initialText? files a := by
  rcases @readConfig_cases files a with ⟨hfails, e, hread⟩ | ⟨hconfig, o, hread, ho⟩
  · have hoptions : optionsOf files a = .error e := by rw [optionsOf, hread]; rfl
    exact .inl ⟨.inl hfails, [], e, by rw [start, hoptions]⟩
  rcases addArguments_cases ho with ⟨hfails, e, hadd⟩ | ⟨p, hadd, hinitial, hdocument⟩
  · have hoptions : optionsOf files a = .error e := by rw [optionsOf, hread]; exact hadd
    exact .inl ⟨.inr hfails, [], e, by rw [start, hoptions]⟩
  have hoptions : optionsOf files a = .ok p := by rw [optionsOf, hread]; exact hadd
  rw [start, hoptions]
  dsimp only
  cases herror : (Session.start p).document.error with
  | none =>
    exact .inr ⟨hconfig, fun h => (hdocument.1 h).2 herror, _, p, rfl, hinitial⟩
  | some e =>
    have hne : (Session.start p).document.error ≠ none := by simp [herror]
    cases hgiven : a.document.isSome with
    | true => exact .inl ⟨.inr (hdocument.2 ⟨hgiven, hne⟩), _, _, rfl⟩
    | false =>
      refine .inr ⟨hconfig, fun h => ?_, _, p, rfl, hinitial⟩
      rw [hgiven] at hdocument
      exact Bool.false_ne_true (hdocument.1 h).1

end

/-! ### Whole runs -/

/-- A query logs a failure if it is not blank and its evaluation fails. -/
theorem exists_failed_iff (value : Option Json.Value) (queries : List String) :
    (∃ e ∈ entriesFor value queries, e.outcome = .failed) ↔
      ∃ query ∈ queries, allBlank query = false ∧ ∃ e, evaluate value query = .error e := by
  simp only [entriesFor, List.mem_filterMap]
  constructor
  · rintro ⟨entry, ⟨query, hquery, hentry⟩, hfailed⟩
    unfold Session.entryOf? at hentry
    split at hentry
    · cases hentry
    · rename_i hblank
      cases hentry
      exact ⟨query, hquery, Bool.eq_false_iff.2 hblank, outcome_failed_iff.1 hfailed⟩
  · rintro ⟨query, hquery, hblank, hfailed⟩
    refine ⟨Session.entryOf value query, ⟨query, hquery, ?_⟩, outcome_failed_iff.2 hfailed⟩
    rw [Session.entryOf?, hblank, if_neg Bool.false_ne_true]

section
variable (files : Files) (input : List UInt8) {a : Arguments} {o : Options}
  (ho : o.initialDocument = initialText? files a)
include ho

/-- A batch fails by its initial text or by one of its queries. -/
theorem runBatch_failed_iff_fails (hbatch : a.isBatch = true) (hconfig : ¬ ConfigFails files a)
    (hdocument : ¬ DocumentFails files a) :
    (runBatch (Session.start o) a.queries a.suggest).failed = true ↔ Fails files input a := by
  have hvalue : (Session.start o).document.value = initialValue? files a := by
    rw [start_value, ho]
    rfl
  rw [runBatch_failed_iff, exists_failed_iff, hvalue, start_error, ho]
  constructor
  · rintro (hinitial | ⟨query, hquery, hblank, e, he⟩)
    · cases htext : initialText? files a with
      | none => simp [htext] at hinitial
      | some text =>
        cases hparse : Document.parse text with
        | ok v => simp [htext, hparse] at hinitial
        | error e => exact .initial text e hbatch htext hparse
    · exact .query query e hbatch hquery hblank he
  · rintro (h | h | ⟨text, e, -, htext, hparse⟩ | ⟨query, e, -, hquery, hblank, he⟩ | ⟨_, _, _, h, -⟩)
    · exact absurd h hconfig
    · exact absurd h hdocument
    · exact .inl (by simp [htext, hparse])
    · exact .inr ⟨query, hquery, hblank, e, he⟩
    · rw [hbatch] at h
      cases h

end

/-- A console fails by its input. -/
theorem run_error_iff_fails (files : Files) (input : List UInt8) {a : Arguments} (s : Session)
    (hbatch : a.isBatch = false) (hconfig : ¬ ConfigFails files a)
    (hdocument : ¬ DocumentFails files a) :
    (∃ e, (Console.run files s input).result = .error e) ↔ Fails files input a := by
  rw [Console.run, runLines_error_iff]
  constructor
  · rintro ⟨before, line, after, hlines, hline, hquit⟩
    exact .input before line after hbatch hlines hline hquit
  · rintro (h | h | ⟨_, _, h, -⟩ | ⟨_, _, h, -⟩ | ⟨before, line, after, -, hlines, hline, hquit⟩)
    · exact absurd h hconfig
    · exact absurd h hdocument
    · rw [hbatch] at h
      cases h
    · rw [hbatch] at h
      cases h
    · exact ⟨before, line, after, hlines, hline, hquit⟩

section
variable {files : Files} {a : Arguments} {messages : List String} (input : List UInt8)

theorem runArguments_of_error {e : ConsoleError} (hstart : start files a = (messages, .error e)) :
    (runArguments files input a).status = 1 ∧ (runArguments files input a).output = "" := by
  rw [runArguments, opening, hstart]
  exact ⟨rfl, rfl⟩

variable {s : Session} (hstart : start files a = (messages, .ok s))
include hstart

theorem runArguments_of_batch (hbatch : a.isBatch = true) :
    (runArguments files input a).status =
      if (runBatch s a.queries a.suggest).failed then 1 else 0 := by
  rw [runArguments, opening, hstart]
  dsimp only
  rw [if_pos hbatch]
  rfl

theorem runArguments_of_console (hbatch : a.isBatch = false) :
    (runArguments files input a).status =
      ((Stage.reading a.verbosity s []).report files input).status := by
  rw [runArguments, opening, hstart]
  dsimp only
  rw [hbatch, if_neg Bool.false_ne_true]
  rfl

end

/-- The status of a console tells how its run ended. -/
theorem report_status_cases (files : Files) (input : List UInt8) (verbosity : Nat) (s : Session) :
    let r := (Stage.reading verbosity s []).report files input
    (r.status = 1 ∧ ∃ e, (Console.run files s input).result = .error e) ∨
      r.status = 0 ∧ ¬ ∃ e, (Console.run files s input).result = .error e := by
  rw [Stage.report, List.reverse_nil, List.nil_append]
  cases (Console.run files s input).result with
  | ok _ => exact .inr ⟨rfl, fun ⟨_, h⟩ => (nomatch h)⟩
  | error e => exact .inl ⟨rfl, e, rfl⟩

/-- The status tells whether something failed. -/
theorem status_cases (files : Files) (input : List UInt8) (a : Arguments) :
    ((runArguments files input a).status = 1 ∧ Fails files input a) ∨
      (runArguments files input a).status = 0 ∧ ¬ Fails files input a := by
  rcases start_cases files a with ⟨hfails, messages, e, hstart⟩ |
    ⟨hconfig, hdocument, messages, o, hstart, ho⟩
  · exact .inl ⟨(runArguments_of_error input hstart).1, hfails.elim .config .document⟩
  cases hbatch : a.isBatch with
  | true =>
    rw [runArguments_of_batch input hstart hbatch,
      ← runBatch_failed_iff_fails files input ho hbatch hconfig hdocument]
    cases (runBatch (Session.start o) a.queries a.suggest).failed with
    | true => exact .inl ⟨rfl, rfl⟩
    | false => exact .inr ⟨rfl, Bool.false_ne_true⟩
  | false =>
    rw [runArguments_of_console input hstart hbatch,
      ← run_error_iff_fails files input (Session.start o) hbatch hconfig hdocument]
    exact report_status_cases files input a.verbosity (Session.start o)

theorem status_congr {files : Files} {input : List UInt8} {a b : Arguments}
    (h : Fails files input a ↔ Fails files input b) :
    (runArguments files input a).status = (runArguments files input b).status := by
  rcases status_cases files input a with ⟨ha, hfails⟩ | ⟨ha, hfails⟩ <;>
    rcases status_cases files input b with ⟨hb, hother⟩ | ⟨hb, hother⟩
  · rw [ha, hb]
  · exact absurd (h.1 hfails) hother
  · exact absurd (h.2 hother) hfails
  · rw [ha, hb]

theorem output_eq_empty (files : Files) (input : List UInt8) {a : Arguments}
    (h : ConfigFails files a ∨ DocumentFails files a) :
    (runArguments files input a).output = "" := by
  rcases start_cases files a with ⟨-, messages, e, hstart⟩ | ⟨hconfig, hdocument, -⟩
  · exact (runArguments_of_error input hstart).2
  · exact absurd h (not_or.2 ⟨hconfig, hdocument⟩)

/-- A batch fails as well with other queries, if they include those that are not blank. -/
theorem Fails.of_queries {files : Files} {input : List UInt8} {a : Arguments}
    (h : Fails files input a) (hbatch : a.isBatch = true) {other : List String}
    (hother : { a with queries := other }.isBatch = true)
    (hqueries : ∀ query ∈ a.queries, allBlank query = false → query ∈ other) :
    Fails files input { a with queries := other } := by
  cases h with
  | config h => exact .config h
  | document h => exact .document h
  | initial text e _ htext he => exact .initial text e hother htext he
  | query query e _ hquery hblank he =>
    exact .query query e hother (hqueries query hquery hblank) hblank he
  | input _ _ _ hconsole =>
    rw [hbatch] at hconsole
    cases hconsole

/-- Arguments that ask for a batch still do so with more queries. -/
theorem isBatch_of_queries {a : Arguments} (h : a.isBatch = true) {other : List String}
    (hqueries : ∀ query ∈ a.queries, query ∈ other) : { a with queries := other }.isBatch = true := by
  rcases Bool.or_eq_true_iff.1 h with h | h
  · have hne : a.queries ≠ [] := by simpa using h
    obtain ⟨query, hquery⟩ := List.exists_mem_of_ne_nil _ hne
    have hother : other ≠ [] := List.ne_nil_of_mem (hqueries query hquery)
    simp [Arguments.isBatch, hother]
  · simp [Arguments.isBatch, h]

/-- **The exit status of a run.** It is one if something fails, and zero otherwise: the
options file or the document file, in which case nothing is printed, the initial text or a
query of a batch, or the input of a console, by a line that is no text before any that
quits. The order of the queries of a batch does not matter, and neither do blank ones. -/
theorem run_status (files : Files) (input : List UInt8) {arguments : List String} {a : Arguments}
    (h : Arguments.parse arguments = some a) :
    let r := run files input arguments
    (r.status = 1 ↔ Fails files input a) ∧ (r.status = 0 ↔ ¬ Fails files input a) ∧
      (ConfigFails files a ∨ DocumentFails files a → r.output = "") ∧
      (a.isBatch = true → ∀ others other blanks,
        Arguments.parse others = some { a with queries := other } →
        (∀ query ∈ blanks, allBlank query = true) → other.Perm (a.queries ++ blanks) →
        (run files input others).status = r.status) := by
  intro r
  have hrun : r = runArguments files input a := by
    show run files input arguments = _
    rw [run, h]
  rw [hrun]
  refine ⟨?_, ?_, output_eq_empty files input, fun hbatch others other blanks hothers hblank hperm => ?_⟩
  · rcases status_cases files input a with ⟨hstatus, hfails⟩ | ⟨hstatus, hfails⟩ <;>
      simp [hstatus, hfails]
  · rcases status_cases files input a with ⟨hstatus, hfails⟩ | ⟨hstatus, hfails⟩ <;>
      simp [hstatus, hfails]
  · have hmore : ∀ query ∈ a.queries, query ∈ other := fun query hquery =>
      hperm.mem_iff.2 (List.mem_append_left _ hquery)
    have hother := isBatch_of_queries hbatch hmore
    rw [run, hothers]
    refine status_congr ⟨fun hfails => ?_, fun hfails => ?_⟩
    · have hback : Fails files input { { a with queries := other } with queries := a.queries } := by
        refine hfails.of_queries hother hbatch fun query hquery hnot => ?_
        rcases List.mem_append.1 (hperm.mem_iff.1 hquery) with hquery | hquery
        · exact hquery
        · rw [hblank query hquery] at hnot
          cases hnot
      exact hback
    · exact hfails.of_queries hbatch hother fun query hquery _ => hmore query hquery

/-- A query for an item of a number, once with a blank query in front of it, and a document
file that is no text. -/
theorem run_status_mixed :
    let files := Files.ofDirectory [("n", encode "7"), ("raw", [0xff])]
    let a : Arguments := { document := some "n", queries := ["[0]"], suggest := some "" }
    Arguments.parse ["-q", "[0]", "--suggest", "n"] = some a ∧ Fails files [] a ∧
      (run files [] ["-q", "[0]", "--suggest", "n"]).status = 1 ∧
      (run files [] ["-q", " ", "--suggest", "-q", "[0]", "n"]).status = 1 ∧
      (run files [] ["raw", "-q", "[0]"]).status = 1 ∧
      (run files [] ["raw", "-q", "[0]"]).output = "" := by
  intro files a
  have hparse : Arguments.parse ["-q", "[0]", "--suggest", "n"] = some a := by decide +kernel
  have hblank : Arguments.parse ["-q", " ", "--suggest", "-q", "[0]", "n"] =
      some { a with queries := [" ", "[0]"] } := by decide +kernel
  have hraw : Arguments.parse ["raw", "-q", "[0]"] =
      some { document := some "raw", queries := ["[0]"] } := by decide +kernel
  have hquery : evaluate (initialValue? files a) "[0]" = .error (.notList 0 .number) := by
    with_unfolding_all rfl
  have hfails : Fails files [] a :=
    .query "[0]" _ rfl (List.mem_singleton_self _) (by decide) hquery
  have hunread : DocumentFails files { document := some "raw", queries := ["[0]"] } :=
    ⟨"raw", rfl, .inl ⟨.notText, by decide +kernel⟩⟩
  obtain ⟨hstatus, -, -, hsame⟩ := run_status files [] hparse
  obtain ⟨hrawStatus, -, houtput, -⟩ := run_status files [] hraw
  refine ⟨hparse, hfails, hstatus.2 hfails, ?_, hrawStatus.2 (.document hunread),
    houtput (.inr hunread)⟩
  refine (hsame rfl _ _ [" "] hblank ?_ (.swap _ _ _)).trans (hstatus.2 hfails)
  exact List.forall_mem_singleton.2 (by decide)

end DotQuery.CommandLine
