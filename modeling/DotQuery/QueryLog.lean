/-! The queries that were run, oldest first, each with what it showed. -/
namespace DotQuery

/-- How a query ended. -/
inductive Outcome where
  | found
  | absent
  | failed
deriving DecidableEq, Repr

structure Entry where
  query : String
  result : String
  outcome : Outcome
deriving DecidableEq, Repr

namespace Entry

/-- The query behind its sign, and the result below it. -/
def display (e : Entry) : String :=
  "> " ++ e.query ++ "\n" ++ e.result

end Entry

structure QueryLog where
  entries : List Entry := []
deriving DecidableEq, Repr

namespace QueryLog

def empty : QueryLog := {}

def append (log : QueryLog) (e : Entry) : QueryLog :=
  ⟨log.entries ++ [e]⟩

def length (log : QueryLog) : Nat :=
  log.entries.length

def isEmpty (log : QueryLog) : Bool :=
  log.entries.isEmpty

def last? (log : QueryLog) : Option Entry :=
  log.entries.getLast?

/-- All entries as they are displayed, with an empty line between two. -/
def transcript (log : QueryLog) : String :=
  String.intercalate "\n\n" (log.entries.map Entry.display)

@[simp] theorem entries_empty : empty.entries = [] := rfl

@[simp] theorem entries_append (log : QueryLog) (e : Entry) :
    (log.append e).entries = log.entries ++ [e] := rfl

end QueryLog
end DotQuery
