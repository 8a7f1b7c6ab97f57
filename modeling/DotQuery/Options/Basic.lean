import DotQuery.Json.Fault

/-! The options of a session, and what can be wrong with a text that should hold
them. -/
namespace DotQuery
open Text Json

structure Options where
  /-- The text that a session starts with, if it starts with one. -/
  initialDocument : Option String := some "\x7b\n  \"example\": \"data\"\n\x7d"
  /-- Whether suggestions begin with the sign of the root. -/
  anchored : Bool := false
deriving DecidableEq, Repr

namespace Options

/-- The options by their names. -/
inductive Field where
  | initialDocument
  | anchored
deriving DecidableEq, Repr

namespace Field

def name : Field → String
  | initialDocument => "initial_document"
  | anchored => "anchor_suggestions"

def ofName? (s : String) : Option Field :=
  if s = initialDocument.name then some .initialDocument
  else if s = anchored.name then some .anchored
  else none

end Field

inductive Cause where
  | json (c : Json.Cause)
  | wrongType (found : String) (expected : String)
  | unknownField (name : String)
  | duplicateField (field : Field)
deriving DecidableEq, Repr

namespace Cause

def message : Cause → String
  | json c => c.message
  | wrongType found expected => "invalid type: " ++ found ++ ", expected " ++ expected
  | unknownField name =>
    "unknown field `" ++ name ++ "`, expected `" ++ Field.initialDocument.name ++ "` or `" ++
      Field.anchored.name ++ "`"
  | duplicateField field => "duplicate field `" ++ field.name ++ "`"

end Cause

/-- What is wrong with a text of options, and the place in it where that was met. -/
structure ReadError where
  cause : Cause
  place : Place
deriving DecidableEq, Repr

namespace ReadError

def message (e : ReadError) : String :=
  e.cause.message ++ e.place.suffix

end ReadError

end Options
end DotQuery
