import DotQuery.Document
import DotQuery.Options.Basic
import DotQuery.Path.Evaluation
import DotQuery.QueryLog
import DotQuery.Text.Blank

/-! A session: a document, and the log of the queries that were run on it.

Every entry shows what its query named in the document of its own moment. A reset
brings back the state in which the session began. -/
namespace DotQuery
open Text Json

/-- What the results of failed queries start with. -/
def failureMark : String := "Error: "

/-- What a query that names nothing shows. -/
def absenceText : String := "undefined"

/-- What the log shows of an evaluation. -/
def render (found : Except QueryError (Option Value)) : String × Outcome :=
  match found with
  | .ok (some v) => (v.pretty, .found)
  | .ok none => (absenceText, .absent)
  | .error e => (failureMark ++ e.message, .failed)

structure Session where
  options : Options
  document : Document
  log : QueryLog

namespace Session

/-- The document that the options ask for. An initial text that does not parse
leaves it without a value. -/
def initialDocument (o : Options) : Document :=
  match o.initialDocument with
  | some text => ((Document.empty o.anchored).setText text).2
  | none => Document.empty o.anchored

def start (o : Options) : Session :=
  ⟨o, initialDocument o, .empty⟩

def setText (s : Session) (text : String) : Except DocumentError Value × Session :=
  let (result, document) := s.document.setText text
  (result, { s with document := document })

/-- What a query names in the current document. -/
def evaluate (s : Session) (query : String) : Except QueryError (Option Value) :=
  DotQuery.evaluate s.document.value query

/-- The entry of a query that is run now. -/
def entry (s : Session) (query : String) : Entry :=
  let (result, outcome) := render (s.evaluate query)
  ⟨query, result, outcome⟩

/-- Runs a query and logs it. A blank query is passed over. -/
def submit (s : Session) (query : String) : Option Entry × Session :=
  if allBlank query then (none, s)
  else (some (s.entry query), { s with log := s.log.append (s.entry query) })

/-- Clears the log and brings back the initial document. -/
def reset (s : Session) : Session :=
  start s.options

end Session
end DotQuery
