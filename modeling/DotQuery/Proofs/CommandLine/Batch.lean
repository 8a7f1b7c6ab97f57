import DotQuery.CommandLine
import DotQuery.Proofs.Console.Commands
import DotQuery.Proofs.Console.Operations
import DotQuery.Proofs.Text.Lines

/-! A batch does what a console does over the same lines.

A batch hands its queries to the session; a console finds them in the lines of its
input. A query that can be a line is handed on as it is (`handleLine_query`), and a text
to start suggestions with reaches them behind its command (`handleLine_suggest`), so
both print the same and leave the same session (`run_eq_runBatch`). A batch has failed
if the document is invalid or an entry that it logged has failed, in whatever order the
queries came. -/
namespace DotQuery.CommandLine
open Text Console

/-! ### What can be a line -/

/-- The query fits on a line and is no command. A carriage return at its end would be
taken for the end of the line. -/
structure IsQueryLine (query : String) : Prop where
  newline : '\n' ∉ query.toList
  last : query.toList.getLast? ≠ some '\r'
  colon : query.toList.head? ≠ some ':'

/-- The text fits on a line behind a command, and has no blanks at its ends. -/
structure IsArgument (text : String) : Prop where
  newline : '\n' ∉ text.toList
  head : ∀ c ∈ text.toList.head?, isBlank c = false
  last : ∀ c ∈ text.toList.getLast?, isBlank c = false

/-- The lines that ask a console for what a batch does. -/
def linesOf (queries : List String) (suggest : Option String) : List String :=
  queries ++ (suggest.map (":suggest " ++ ·)).toList

theorem IsQueryLine.parse_printed {query : String} (h : IsQueryLine query) :
    Command.parse (printed query) =
      .ok (if allBlank query then .nothing else .query query) := by
  have hend : ∀ c ∈ query.toList.getLast?, Command.isLineEnd c = false := by
    intro c hc
    have hr : c ≠ '\r' := fun he => h.last (he ▸ hc)
    have hn : c ≠ '\n' := fun he => h.newline (he ▸ List.mem_of_getLast? hc)
    exact Command.isLineEnd_eq_false hr hn
  rw [printed, Command.parse_append_lineEnds _ (by decide), Command.parse_query hend h.colon]

/-- A query is handed to the session as it is. A blank one is dropped by the console
already. -/
theorem handleLine_query (files : Files) (s : Session) {query : String} (h : IsQueryLine query) :
    handleLine files s (printed query) = runQuery s query := by
  rw [handleLine, h.parse_printed]
  cases hblank : allBlank query with
  | true =>
    rw [runQuery_eq, Session.submit_blank hblank]
    rfl
  | false => rfl

theorem handleLine_suggest (files : Files) (s : Session) {start : String} (h : IsArgument start) :
    handleLine files s (printed (":suggest " ++ start)) = .proceed (suggestionText s start) s := by
  rw [handleLine, printed, Command.parse_append_lineEnds _ (by decide),
    Command.parse_suggest h.head h.last]
  by_cases hempty : start = ""
  · rw [if_pos hempty, hempty]
    rfl
  · rw [if_neg hempty]
    rfl

theorem newline_notMem_linesOf {queries : List String} {suggest : Option String}
    (hqueries : ∀ query ∈ queries, IsQueryLine query)
    (hsuggest : ∀ start ∈ suggest, IsArgument start) :
    ∀ line ∈ linesOf queries suggest, '\n' ∉ line.toList := by
  intro line hline
  rcases List.mem_append.1 hline with hline | hline
  · exact (hqueries line hline).newline
  · obtain ⟨start, hstart, rfl⟩ := Option.map_eq_some_iff.1 (Option.mem_toList.1 hline)
    rw [String.toList_append, List.mem_append, not_or]
    exact ⟨by decide, (hsuggest start hstart).newline⟩

/-! ### What a batch leaves -/

theorem Batch.submit_eq (b : Batch) (query : String) :
    b.submit query =
      ⟨b.output ++ loggedText (b.session.submit query).1,
        b.failed || (b.session.submit query).1.any (·.outcome == .failed),
        (b.session.submit query).2⟩ := by
  unfold Batch.submit
  split <;> rename_i h <;> rw [h] <;> simp [loggedText]

/-- The entries of the queries that are not blank, for a document with the given value. -/
def entriesFor (value : Option Json.Value) (queries : List String) : List Entry :=
  queries.filterMap (Session.entryOf? value)

/-- Queries leave the document as it is, and put their entries at the end of the log. -/
theorem foldl_submit_session (b : Batch) (queries : List String) :
    (queries.foldl Batch.submit b).session =
      { b.session with
        log := ⟨b.session.log.entries ++ entriesFor b.session.document.value queries⟩ } := by
  induction queries generalizing b with
  | nil => simp [entriesFor]
  | cons query queries ih =>
    rw [List.foldl_cons, ih, Batch.submit_eq, Session.submit_eq]
    cases h : Session.entryOf? b.session.document.value query <;> simp [entriesFor, h]

/-- A batch has failed if it had before or one of its entries has. -/
theorem foldl_submit_failed (b : Batch) (queries : List String) :
    (queries.foldl Batch.submit b).failed =
      (b.failed || (entriesFor b.session.document.value queries).any (·.outcome == .failed)) := by
  induction queries generalizing b with
  | nil => simp [entriesFor]
  | cons query queries ih =>
    rw [List.foldl_cons, ih, Batch.submit_eq, Session.submit_eq]
    cases h : Session.entryOf? b.session.document.value query <;>
      simp [entriesFor, h, Bool.or_assoc]

section
variable (s : Session) (queries : List String) (suggest : Option String)

theorem runBatch_session :
    (runBatch s queries suggest).session =
      { s with log := ⟨s.log.entries ++ entriesFor s.document.value queries⟩ } := by
  unfold runBatch
  cases suggest <;> exact foldl_submit_session _ queries

theorem runBatch_failed :
    (runBatch s queries suggest).failed =
      (s.document.error.isSome ||
        (entriesFor s.document.value queries).any (·.outcome == .failed)) := by
  unfold runBatch
  cases suggest <;> exact foldl_submit_failed _ queries

theorem runBatch_failed_iff :
    (runBatch s queries suggest).failed = true ↔
      s.document.error ≠ none ∨ ∃ e ∈ entriesFor s.document.value queries, e.outcome = .failed := by
  rw [runBatch_failed, Bool.or_eq_true, List.any_eq_true, Option.isSome_iff_ne_none]
  simp only [beq_iff_eq]

/-- The order of the queries makes no difference to whether a batch fails. -/
theorem runBatch_failed_perm {other : List String} (h : other.Perm queries) :
    (runBatch s other suggest).failed = (runBatch s queries suggest).failed := by
  have hentries : (entriesFor s.document.value other).Perm (entriesFor s.document.value queries) :=
    h.filterMap _
  rw [runBatch_failed, runBatch_failed, hentries.any_eq]

end

/-! ### A console over the same lines -/

theorem runLines_queries (files : Files) {queries : List String}
    (h : ∀ query ∈ queries, IsQueryLine query) (b : Batch) (lines : List (List UInt8)) :
    runLines files b.output b.session (queries.map (fun query => encode (printed query)) ++ lines) =
      runLines files (queries.foldl Batch.submit b).output (queries.foldl Batch.submit b).session
        lines := by
  induction queries generalizing b with
  | nil => rfl
  | cons query queries ih =>
    rw [List.forall_mem_cons] at h
    have hreply := handleLine_query files b.session h.1
    have hflow : (handleLine files b.session (printed query)).flow = .proceed := by
      rw [hreply, runQuery_eq]
      rfl
    rw [List.map_cons, List.cons_append, runLines_proceed (decode?_encode _) hflow, hreply,
      runQuery_eq, List.foldl_cons, ← ih h.2, Batch.submit_eq]
    rfl

theorem run_linesOf (files : Files) (s : Session) {queries : List String} {suggest : Option String}
    (hqueries : ∀ query ∈ queries, IsQueryLine query)
    (hsuggest : ∀ start ∈ suggest, IsArgument start) :
    Console.run files s (encode (printedLines (linesOf queries suggest))) =
      ⟨.ok (), (runBatch s queries suggest).output, (runBatch s queries suggest).session⟩ := by
  have hlines : splitLines (encode (printedLines (linesOf queries suggest))) =
      (linesOf queries suggest).map fun line => encode (printed line) :=
    splitLines_encode (newline_notMem_linesOf hqueries hsuggest)
  have hrun := runLines_queries files hqueries ⟨"", s.document.error.isSome, s⟩
  rw [Console.run, hlines, linesOf, List.map_append, hrun]
  cases suggest with
  | none => rfl
  | some start =>
    have hreply := handleLine_suggest files
      (queries.foldl Batch.submit ⟨"", s.document.error.isSome, s⟩).session (hsuggest start rfl)
    rw [Option.map_some, Option.toList_some, List.map_singleton,
      runLines_proceed (decode?_encode _) (by rw [hreply]; rfl), hreply]
    rfl

/-- **A batch does what a console does over the same lines.** For queries that can be
lines, and a text to start suggestions with that can stand behind its command, the
console prints what the batch prints and ends well, with the same session. The queries
leave the document as it is and are logged at the end of the log, and the batch has
failed exactly if the document is invalid or one of the entries logged has failed; their
order does not matter to that. -/
theorem run_eq_runBatch (files : Files) (s : Session) (queries : List String)
    (suggest : Option String) (hqueries : ∀ query ∈ queries, IsQueryLine query)
    (hsuggest : ∀ start ∈ suggest, IsArgument start) :
    let b := runBatch s queries suggest
    Console.run files s (encode (printedLines (linesOf queries suggest))) =
        ⟨.ok (), b.output, b.session⟩ ∧
      b.session.document = s.document ∧
      (∃ appended, b.session.log.entries = s.log.entries ++ appended ∧
        (b.failed = true ↔
          s.document.error ≠ none ∨ ∃ e ∈ appended, e.outcome = .failed)) ∧
      ∀ other : List String, other.Perm queries → (runBatch s other suggest).failed = b.failed := by
  intro b
  have hsession : b.session =
      { s with log := ⟨s.log.entries ++ entriesFor s.document.value queries⟩ } :=
    runBatch_session s queries suggest
  refine ⟨run_linesOf files s hqueries hsuggest, by rw [hsession],
    ⟨entriesFor s.document.value queries, by rw [hsession], runBatch_failed_iff s queries suggest⟩,
    fun other hother => runBatch_failed_perm s queries suggest hother⟩

/-- A blank query, one with a carriage return inside and one that fails, and a text to
start suggestions with that has a blank inside. -/
theorem run_eq_runBatch_mixed :
    let files := Files.ofDirectory []
    let s := Session.start {}
    let queries := ["example", " ", "a\rb", "example.x"]
    let b := runBatch s queries (some "ex am")
    (∀ query ∈ queries, IsQueryLine query) ∧ IsArgument "ex am" ∧
      Console.run files s (encode "example\n \na\rb\nexample.x\n:suggest ex am\n") =
        ⟨.ok (), b.output, b.session⟩ ∧
      b.session.document = s.document := by
  intro files s queries b
  have hqueries : ∀ query ∈ queries, IsQueryLine query := by
    simp only [queries, List.forall_mem_cons]
    exact ⟨⟨by decide, by decide, by decide⟩, ⟨by decide, by decide, by decide⟩,
      ⟨by decide, by decide, by decide⟩, ⟨by decide, by decide, by decide⟩, by simp⟩
  have hsuggest : IsArgument "ex am" :=
    ⟨by decide, by rintro c ⟨⟩; decide, by rintro c ⟨⟩; decide⟩
  obtain ⟨hrun, hdocument, -⟩ := run_eq_runBatch files s queries (some "ex am") hqueries
    (fun start hstart => Option.some.inj hstart ▸ hsuggest)
  exact ⟨hqueries, hsuggest, hrun, hdocument⟩

end DotQuery.CommandLine
