import DotQuery.Path.Basic
import DotQuery.Text.Digits
import DotQuery.Text.Place

/-! Reading a path from its text.

Segments are separated by points; the empty text is the path without segments. A
segment is the sign of the root, a key, or an index in brackets with or without a
key before it. There is no space between the parts: a space belongs to its key. -/
namespace DotQuery
open Text

inductive SyntaxCause where
  | emptySegment
  | expected (c : Char)
  | invalidIndex (text : String)
  | unexpectedAfterIndex (c : Char)
deriving DecidableEq, Repr

namespace SyntaxCause

def message : SyntaxCause → String
  | emptySegment => "empty segment"
  | expected c => "expected '" ++ c.toString ++ "'"
  | invalidIndex text => "invalid index `" ++ text ++ "`"
  | unexpectedAfterIndex c => "unexpected `" ++ c.toString ++ "` after index"

end SyntaxCause

/-- A cause and the byte of the text at which it was met. -/
structure SyntaxError where
  position : Nat
  cause : SyntaxCause
deriving DecidableEq, Repr

namespace SyntaxError

def message (e : SyntaxError) : String :=
  "syntax error at position " ++ toString e.position ++ ": " ++ e.cause.message

end SyntaxError

namespace Path

/-- A cause and the text that was left unread when it was met. -/
structure Fault where
  cause : SyntaxCause
  unread : List Char
deriving DecidableEq, Repr

def Fault.error (text : List Char) (f : Fault) : SyntaxError :=
  ⟨byteLength text - byteLength f.unread, f.cause⟩

/-- How many list positions an index can name. -/
def indexBound : Nat := Nat.pow 2 64

/-- The index that the text between brackets names: digits alone, at least one. -/
def indexOfText? (text : List Char) : Option Nat :=
  if text.isEmpty || !text.all Char.isDigit then none
  else if digitsValue text < indexBound then some (digitsValue text) else none

/-- The segment that a text without brackets is, if it is not empty. -/
def plainSegment? (key : List Char) : Option Segment :=
  match key with
  | [] => none
  | ['$'] => some .root
  | _ => some (.key (String.ofList key))

def indexedSegment (key : List Char) (index : Nat) : Segment :=
  match key with
  | [] => .index index
  | _ => .keyIndex (String.ofList key) index

/-- Reads an index behind its opening bracket, up to a point or the end of the text. -/
def readIndex (key s : List Char) : Except Fault (Segment × List Char) :=
  let text := s.takeWhile (· != ']')
  match s.dropWhile (· != ']') with
  | [] => .error ⟨.expected ']', []⟩
  | _ :: rest =>
    match indexOfText? text with
    | none => .error ⟨.invalidIndex (String.ofList text), s⟩
    | some index =>
      match rest with
      | [] => .ok (indexedSegment key index, [])
      | '.' :: rest => .ok (indexedSegment key index, '.' :: rest)
      | c :: rest => .error ⟨.unexpectedAfterIndex c, c :: rest⟩

def readSegment (s : List Char) : Except Fault (Segment × List Char) :=
  let key := s.takeWhile isKeyChar
  match s.dropWhile isKeyChar with
  | '[' :: rest => readIndex key rest
  | rest =>
    match plainSegment? key with
    | none => .error ⟨.emptySegment, s⟩
    | some segment => .ok (segment, rest)

theorem dropWhile_length_le (p : Char → Bool) (s : List Char) :
    (s.dropWhile p).length ≤ s.length :=
  (List.dropWhile_sublist p).length_le

theorem readIndex_length_le {key s rest : List Char} {segment : Segment}
    (h : readIndex key s = .ok (segment, rest)) : rest.length ≤ s.length := by
  have hs := dropWhile_length_le (· != ']') s
  unfold readIndex at h
  dsimp only at h
  split at h
  · cases h
  · rename_i he
    rw [he] at hs
    simp only [List.length_cons] at hs
    split at h
    · cases h
    · split at h
      · cases h
        exact Nat.zero_le _
      · cases h
        exact Nat.le_of_succ_le hs
      · cases h

theorem readSegment_length_le {s rest : List Char} {segment : Segment}
    (h : readSegment s = .ok (segment, rest)) : rest.length ≤ s.length := by
  have hs := dropWhile_length_le isKeyChar s
  unfold readSegment at h
  dsimp only at h
  split at h
  · rename_i he
    rw [he] at hs
    exact Nat.le_trans (readIndex_length_le h) (Nat.le_of_succ_le hs)
  · split at h
    · cases h
    · cases h
      exact hs

/-- Reads segments to the end of the text, each but the last before a point. -/
def readSegments (s : List Char) : Except Fault (List Segment) :=
  match _read : readSegment s with
  | .error f => .error f
  | .ok (segment, []) => .ok [segment]
  | .ok (segment, '.' :: rest) =>
    match readSegments rest with
    | .error f => .error f
    | .ok segments => .ok (segment :: segments)
  | .ok (_, rest) => .error ⟨.expected '.', rest⟩
termination_by s.length
decreasing_by exact Nat.lt_of_succ_le (readSegment_length_le _read)

def readText (s : List Char) : Except Fault Path :=
  if s.isEmpty then .ok ⟨[]⟩ else (readSegments s).map Path.mk

def parse (text : String) : Except SyntaxError Path :=
  (readText text.toList).mapError (Fault.error text.toList)

end Path
end DotQuery
