import DotQuery.Json.Printer
import DotQuery.Json.Reader
import DotQuery.Suggestions

/-! The current document.

A text that parses becomes the document: its value, the indented text of it, and
its suggestions. A text that does not parse is kept as it was typed, with what is
wrong with it; the value and the suggestions stay those of the last text that
parsed. -/
namespace DotQuery
open Text Json

/-- What is wrong with the text of a document, and where. -/
structure DocumentError where
  line : Nat
  column : Nat
  cause : String
deriving DecidableEq, Repr

namespace DocumentError

def message (e : DocumentError) : String :=
  "invalid JSON at line " ++ toString e.line ++ ", column " ++ toString e.column ++ ": " ++ e.cause

/-- What begins the place in a description that ends in one. -/
def placeMark : String := " at line "

/-- A description without the place it ends in. -/
def causeOf (description : String) : String :=
  match beforeLast? placeMark.toList description.toList with
  | some cause => String.ofList cause
  | none => description

/-- The place is told before the cause, so it is taken off the description. -/
def ofDescription (description : String) (place : Place) : DocumentError :=
  ⟨place.line, place.column, causeOf description⟩

def ofReadError (e : ReadError) : DocumentError :=
  ofDescription e.message e.place

end DocumentError

structure Document where
  text : String := ""
  value : Option Value := none
  error : Option DocumentError := none
  suggestions : List String := []
  anchored : Bool := false

namespace Document

/-- No text yet. -/
def empty (anchored : Bool) : Document :=
  { anchored := anchored }

/-- The value of a text. -/
def parse (text : String) : Except DocumentError Value :=
  (Json.parse text).mapError DocumentError.ofReadError

/-- Takes a new text, and tells its value or what is wrong with it. -/
def setText (d : Document) (text : String) : Except DocumentError Value × Document :=
  match parse text with
  | .ok v =>
    (.ok v,
      { d with
        text := v.pretty, value := some v, error := none,
        suggestions := Suggestions.ofValue d.anchored v })
  | .error e => (.error e, { d with text := text, error := some e })

def isValid (d : Document) : Bool :=
  d.error.isNone

end Document
end DotQuery
