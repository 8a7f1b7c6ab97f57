import DotQuery.Json.Value
import DotQuery.Path.Reader

/-! What a path names in a document.

A key that a mapping does not have makes the path name nothing, which is no error.
A step that the value before it has no room for is one: a key of something that is
no mapping, an index into something that is no list, or an index behind the end. -/
namespace DotQuery
open Json

inductive QueryError where
  | malformed (e : SyntaxError)
  | notMapping (key : String) (found : Kind)
  | notList (index : Nat) (found : Kind)
  | outOfRange (index : Nat) (length : Nat)
  | noDocument
deriving DecidableEq, Repr

namespace QueryError

def message : QueryError → String
  | malformed e => e.message
  | notMapping key found => "cannot read key `" ++ key ++ "` of " ++ found.name
  | notList index found =>
    "cannot index " ++ found.name ++ " with [" ++ toString index ++ "]"
  | outOfRange index length =>
    "index " ++ toString index ++ " out of range for list of length " ++ toString length
  | noDocument => "no document loaded"

/-- Whether the text of the path is at fault. -/
def isSyntax : QueryError → Bool
  | malformed _ => true
  | _ => false

/-- Whether the path is well formed but does not fit the document. -/
def isTypeMismatch (e : QueryError) : Bool :=
  !e.isSyntax

end QueryError

/-- The member of a mapping, if it has one of that name. -/
def stepKey (v : Value) (key : String) : Except QueryError (Option Value) :=
  match v with
  | .mapping members => .ok (member? key members)
  | v => .error (.notMapping key v.kind)

def stepIndex (v : Value) (index : Nat) : Except QueryError Value :=
  match v with
  | .list items =>
    match items[index]? with
    | some item => .ok item
    | none => .error (.outOfRange index items.length)
  | v => .error (.notList index v.kind)

namespace Segment

/-- The value that a segment leads to, none if a key is missing. -/
def step (v : Value) : Segment → Except QueryError (Option Value)
  | .root => .ok (some v)
  | .key name => stepKey v name
  | .keyIndex name i =>
    match stepKey v name with
    | .error e => .error e
    | .ok none => .ok none
    | .ok (some u) => (stepIndex u i).map some
  | .index i => (stepIndex v i).map some

end Segment

namespace Path

/-- Follows segments from a value, up to the first that leads nowhere. -/
def follow (v : Value) : List Segment → Except QueryError (Option Value)
  | [] => .ok (some v)
  | segment :: segments =>
    match segment.step v with
    | .error e => .error e
    | .ok none => .ok none
    | .ok (some u) => follow u segments

/-- Without a document a path names nothing, and only the root may be asked for. -/
def resolve (p : Path) (root : Option Value) : Except QueryError (Option Value) :=
  match root with
  | some v => follow v p.segments
  | none => if p.segments.all (· == .root) then .ok none else .error .noDocument

end Path

/-- What the text of a path names in a document. -/
def evaluate (root : Option Value) (text : String) : Except QueryError (Option Value) :=
  match Path.parse text with
  | .error e => .error (.malformed e)
  | .ok path => path.resolve root

end DotQuery
