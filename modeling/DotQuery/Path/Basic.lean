/-! Paths: how a query names a place in a document.

A path is a list of segments, each of which goes one or two steps down. -/
namespace DotQuery

inductive Segment where
  /-- Stays where it is. -/
  | root
  /-- The member of a mapping. -/
  | key (name : String)
  /-- An item of the list under a key. -/
  | keyIndex (name : String) (index : Nat)
  /-- An item of a list. -/
  | index (index : Nat)
deriving DecidableEq, Repr

structure Path where
  segments : List Segment
deriving DecidableEq, Repr

namespace Path

/-- A character that a key in a path may hold. -/
def isKeyChar (c : Char) : Bool :=
  c != '.' && c != '['

/-- Whether a key stands for itself as a segment: it is not empty, not the sign of
the root, and holds no character that ends a key. -/
def isPlainKey (key : String) : Bool :=
  key != "" && key != "$" && key.toList.all isKeyChar

end Path
end DotQuery
