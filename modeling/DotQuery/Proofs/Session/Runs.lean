import DotQuery.Proofs.Document.History
import DotQuery.Session
import Mathlib.Data.List.DropRight

/-! What a run of operations leaves in a session.

A session goes through edits that parse and edits that do not, queries, and resets, in
any order. The operations since the last reset say everything about it (`ofRecent`): the
document has taken the initial text and the texts among them, and the log holds the
queries among them, each with what it named in the document of its own moment. One
operation keeps this (`perform_ofRecent`), so it holds after every run
(`after_start`). -/
namespace DotQuery.Session
open Text Json

/-! ### Operations -/

/-- What can be asked of a session. -/
inductive Operation where
  | setText (text : String)
  | submit (query : String)
  | evaluate (query : String)
  | reset
deriving DecidableEq

/-- What an operation answers. -/
inductive Answer where
  | edited (result : Except DocumentError Value)
  | logged (entry : Option Entry)
  | evaluated (result : Except QueryError (Option Value))
  | cleared

def perform (s : Session) : Operation → Answer × Session
  | .setText text => (.edited (s.setText text).1, (s.setText text).2)
  | .submit query => (.logged (s.submit query).1, (s.submit query).2)
  | .evaluate query => (.evaluated (s.evaluate query), s)
  | .reset => (.cleared, s.reset)

/-- The session after the operations, one by one. -/
def after (s : Session) : List Operation → Session
  | [] => s
  | op :: ops => after (s.perform op).2 ops

/-- What the operations answer, each in the session that the ones before it leave. -/
def answers (s : Session) : List Operation → List Answer
  | [] => []
  | op :: ops => (s.perform op).1 :: answers (s.perform op).2 ops

theorem after_append (s : Session) (a b : List Operation) :
    s.after (a ++ b) = (s.after a).after b := by
  induction a generalizing s with
  | nil => rfl
  | cons op a ih => exact ih _

theorem answers_append (s : Session) (a b : List Operation) :
    s.answers (a ++ b) = s.answers a ++ (s.after a).answers b := by
  induction a generalizing s with
  | nil => rfl
  | cons op a ih => simp only [List.cons_append, answers, after, ih]

/-! ### What a session is made of -/

/-- The operations behind the last reset, all if there is none. -/
def sinceReset (ops : List Operation) : List Operation :=
  ops.rtakeWhile (· ≠ .reset)

/-- The text that an operation gives the document. -/
def Operation.text? : Operation → Option String
  | setText text => some text
  | _ => none

/-- The texts that a document took since it was empty: the initial one, if there is one,
and those of the operations. -/
def textsOf (o : Options) (recent : List Operation) : List String :=
  o.initialDocument.toList ++ recent.filterMap Operation.text?

/-- The value of the document after the operations since a reset. -/
def valueOf (o : Options) (recent : List Operation) : Option Value :=
  Document.lastValue? (textsOf o recent)

/-- What the log shows of a query to a document with the given value. -/
def entryOf (value : Option Value) (query : String) : Entry :=
  ⟨query, (render (DotQuery.evaluate value query)).1, (render (DotQuery.evaluate value query)).2⟩

/-- The entry that a query gets, none if it is blank. -/
def entryOf? (value : Option Value) (query : String) : Option Entry :=
  if allBlank query then none else some (entryOf value query)

/-- The entry that an operation leaves in the log. -/
def Operation.logs? (value : Option Value) : Operation → Option Entry
  | submit query => entryOf? value query
  | _ => none

/-- One entry for each query that is not blank, in order, each for the value that the
document has after the operations before it. -/
def entriesOf (o : Options) (recent : List Operation) : List Entry :=
  recent.zipIdx.filterMap fun x => x.1.logs? (valueOf o (recent.take x.2))

/-- The session that the operations since a reset leave. -/
def ofRecent (o : Options) (recent : List Operation) : Session where
  options := o
  document := (Document.empty o.anchored).after (textsOf o recent)
  log := ⟨entriesOf o recent⟩

theorem sinceReset_append_one (ops : List Operation) (op : Operation) :
    sinceReset (ops ++ [op]) = if op = .reset then [] else sinceReset ops ++ [op] := by
  unfold sinceReset
  rw [List.rtakeWhile_concat]
  by_cases h : op = .reset <;> simp [h]

theorem textsOf_append_one (o : Options) (recent : List Operation) (op : Operation) :
    textsOf o (recent ++ [op]) = textsOf o recent ++ op.text?.toList := by
  rw [textsOf, List.filterMap_append, ← List.append_assoc]
  cases op <;> rfl

/-- A later operation changes no entry. -/
theorem entriesOf_append_one (o : Options) (recent : List Operation) (op : Operation) :
    entriesOf o (recent ++ [op]) =
      entriesOf o recent ++ (op.logs? (valueOf o recent)).toList := by
  -- an entry looks only at the operations before its own, which stand in both lists
  have earlier : ∀ x ∈ recent.zipIdx,
      x.1.logs? (valueOf o ((recent ++ [op]).take x.2)) =
        x.1.logs? (valueOf o (recent.take x.2)) := by
    intro x hx
    have hlt : x.2 < recent.length := by simpa using List.snd_lt_of_mem_zipIdx hx
    rw [List.take_append_of_le_length (Nat.le_of_lt hlt)]
  rw [entriesOf, List.zipIdx_append, List.filterMap_append, List.filterMap_congr earlier]
  congr 1
  cases h : op.logs? (valueOf o recent) <;> simp [h]

/-! ### One operation -/

theorem value_ofRecent (o : Options) (recent : List Operation) :
    (ofRecent o recent).document.value = valueOf o recent :=
  (Document.reflects_after o.anchored (textsOf o recent)).value_eq

theorem start_eq (o : Options) : start o = ofRecent o [] := by
  unfold start ofRecent
  congr 1
  unfold initialDocument textsOf
  cases o.initialDocument <;> rfl

/-- An operation gives the document its text and the log its entry. -/
theorem ofRecent_append_one (o : Options) (recent : List Operation) (op : Operation) :
    ofRecent o (recent ++ [op]) =
      { ofRecent o recent with
        document := (ofRecent o recent).document.after op.text?.toList
        log := ⟨(ofRecent o recent).log.entries ++
          (op.logs? (ofRecent o recent).document.value).toList⟩ } := by
  rw [value_ofRecent]
  simp only [ofRecent, textsOf_append_one, Document.after_append, entriesOf_append_one]

/-- A query answers with its entry and puts it at the end of the log. -/
theorem submit_eq (s : Session) (query : String) :
    s.submit query =
      (entryOf? s.document.value query,
        { s with log := ⟨s.log.entries ++ (entryOf? s.document.value query).toList⟩ }) := by
  unfold submit entryOf?
  split
  · simp
  · rfl

theorem submit_blank {s : Session} {query : String} (h : allBlank query = true) :
    s.submit query = (none, s) := by
  simp [submit, h]

/-- An operation joins the operations since the last reset, and a reset clears them. -/
theorem perform_ofRecent (o : Options) (recent : List Operation) (op : Operation) :
    ((ofRecent o recent).perform op).2 =
      ofRecent o (if op = .reset then [] else recent ++ [op]) := by
  cases op with
  | setText text =>
    rw [if_neg nofun, ofRecent_append_one]
    simp [perform, Session.setText, Operation.text?, Operation.logs?, Document.after]
  | submit query =>
    rw [if_neg nofun, ofRecent_append_one]
    simp [perform, submit_eq, Operation.text?, Operation.logs?, Document.after]
  | evaluate query =>
    rw [if_neg nofun, ofRecent_append_one]
    simp [perform, Operation.text?, Operation.logs?, Document.after]
  | reset => exact start_eq o

/-- **The session after every run**, told by the operations since the last reset. -/
theorem after_start (o : Options) (ops : List Operation) :
    (start o).after ops = ofRecent o (sinceReset ops) := by
  -- on the last operation, as `sinceReset` looks for a reset from the end
  induction ops using List.reverseRecOn with
  | nil => exact start_eq o
  | append_singleton ops op ih =>
    rw [after_append, ih, sinceReset_append_one]
    exact perform_ofRecent o (sinceReset ops) op

theorem options_after (o : Options) (ops : List Operation) : ((start o).after ops).options = o := by
  rw [after_start]
  rfl

/-- A reset leaves nothing of the run before it. -/
theorem reset_after (o : Options) (ops : List Operation) : ((start o).after ops).reset = start o := by
  rw [reset, options_after]

/-- **The log since the last reset, and the document that each entry was written
against.** There is one entry for each query that is not blank, in order; it shows what
the query named in the document of its moment, whose value is that of the last text that
parsed among the initial one and those taken since. A query answers with its entry,
which is then the last of the log. Behind a reset a session is a new one, and answers as
a new one does. -/
theorem log_since_reset (o : Options) (ops : List Operation) :
    ((start o).after ops).log.entries = entriesOf o (sinceReset ops) ∧
      ((start o).after ops).document.value = valueOf o (sinceReset ops) ∧
      (∀ query, ∃ e s, ((start o).after ops).submit query = (e, s) ∧
        e = (if allBlank query then none
          else some (entryOf ((start o).after ops).document.value query)) ∧
        s.log.entries = ((start o).after ops).log.entries ++ e.toList) ∧
      ∀ later, (start o).after (ops ++ .reset :: later) = (start o).after later ∧
        (start o).answers (ops ++ .reset :: later) =
          (start o).answers ops ++ .cleared :: (start o).answers later := by
  refine ⟨?_, ?_, fun query => ⟨_, _, submit_eq _ query, rfl, rfl⟩, fun later => ⟨?_, ?_⟩⟩
  · rw [after_start]
    rfl
  · rw [after_start, value_ofRecent]
  · rw [after_append, after, perform, reset_after]
  · rw [answers_append, answers, perform, reset_after]

end DotQuery.Session
