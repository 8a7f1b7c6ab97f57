import DotQuery.Text.Place

/-! What can be wrong with a text that should be JSON, and where. -/
namespace DotQuery.Json
open Text

inductive Cause where
  | endInList
  | endInMapping
  | endInString
  | endInValue
  | expectedColon
  | expectedItemEnd
  | expectedMemberEnd
  | expectedIdent
  | expectedValue
  | invalidEscape
  | invalidNumber
  | numberOutOfRange
  | controlCharacter
  | keyNotString
  | loneSurrogate
  | trailingComma
  | trailingCharacters
  | unfinishedSurrogate
deriving DecidableEq, Repr

namespace Cause

def message : Cause → String
  | endInList => "EOF while parsing a list"
  | endInMapping => "EOF while parsing an object"
  | endInString => "EOF while parsing a string"
  | endInValue => "EOF while parsing a value"
  | expectedColon => "expected `:`"
  | expectedItemEnd => "expected `,` or `]`"
  | expectedMemberEnd => "expected `,` or `\x7d`"
  | expectedIdent => "expected ident"
  | expectedValue => "expected value"
  | invalidEscape => "invalid escape"
  | invalidNumber => "invalid number"
  | numberOutOfRange => "number out of range"
  | controlCharacter => "control character (\\u0000-\\u001F) found while parsing a string"
  | keyNotString => "key must be a string"
  | loneSurrogate => "lone leading surrogate in hex escape"
  | trailingComma => "trailing comma"
  | trailingCharacters => "trailing characters"
  | unfinishedSurrogate => "unexpected end of hex escape"

end Cause

/-- A cause and the number of bytes that were left unread when it was met. -/
structure Fault where
  cause : Cause
  unread : Nat
deriving DecidableEq, Repr

namespace Fault

/-- A fault that ends where the unread text begins. -/
def before (cause : Cause) (rest : List Char) : Fault :=
  ⟨cause, byteLength rest⟩

/-- A fault that ends `bytes` bytes into the unread text, or at its end. -/
def within (bytes : Nat) (cause : Cause) (rest : List Char) : Fault :=
  ⟨cause, byteLength rest - bytes⟩

/-- A fault shown by the next byte of the unread text. -/
def atNext (cause : Cause) (rest : List Char) : Fault :=
  within 1 cause rest

end Fault

/-- What is wrong with a text, and the place in it where that was met. -/
structure ReadError where
  cause : Cause
  place : Place
deriving DecidableEq, Repr

namespace ReadError

def ofFault (text : List Char) (f : Fault) : ReadError :=
  ⟨f.cause, placeBefore text f.unread⟩

def message (e : ReadError) : String :=
  e.cause.message ++ e.place.suffix

end ReadError
end DotQuery.Json
