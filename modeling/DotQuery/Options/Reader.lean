import DotQuery.Json.Printer
import DotQuery.Json.Reader
import DotQuery.Options.Basic
import DotQuery.Text.Quoted

/-! Reading options from JSON text.

The text is a mapping of the options by name, each at most once, or a list of them
in order. An option that is not given keeps its default. The reader goes through
the text as it checks the types, so of two faults it tells the first. -/
namespace DotQuery.Options
open Text Json

/-- A cause and the number of bytes that were left unread when it was met. -/
structure Fault where
  cause : Cause
  unread : Nat
deriving DecidableEq, Repr

namespace Fault

def ofJson (f : Json.Fault) : Fault :=
  ⟨.json f.cause, f.unread⟩

def before (cause : Cause) (rest : List Char) : Fault :=
  ⟨cause, byteLength rest⟩

end Fault

/-- The names and values that were read so far. -/
structure Fields where
  initialDocument : Option (Option String) := none
  anchored : Option Bool := none
deriving DecidableEq, Repr

namespace Fields

/-- The options with defaults for what was not read. -/
def options (f : Fields) : Options :=
  let defaults : Options := {}
  ⟨f.initialDocument.getD defaults.initialDocument, f.anchored.getD defaults.anchored⟩

def has (f : Fields) : Field → Bool
  | .initialDocument => f.initialDocument.isSome
  | .anchored => f.anchored.isSome

end Fields

/-! ### The value of an option -/

/-- What a message says was found in place of another type. -/
def description : Value → String
  | .null => "null"
  | .boolean b => "boolean `" ++ toString b ++ "`"
  | .number (.integer n) => "integer `" ++ String.ofList (integerText n) ++ "`"
  | .number (.float x) => "floating point `" ++ String.ofList x.layout ++ "`"
  | .string s => "string " ++ quoted s
  | .list _ => "sequence"
  | .mapping _ => "map"

/-- The fault of a value that is not of the expected type. A list or a mapping is
told from its bracket, all else from the whole value. -/
def wrongType (expected : String) (s : List Char) : Fault :=
  match s with
  | '[' :: _ => .before (.wrongType (description (.list [])) expected) s
  | '{' :: _ => .before (.wrongType (description (.mapping [])) expected) s
  | _ =>
    match readScalar s with
    | .error f => .ofJson f
    | .ok (v, rest) => .before (.wrongType (description v) expected) rest

/-- Turns a fault of JSON text into one of options text. -/
def lift {α : Type} (x : Except Json.Fault α) : Except Fault α :=
  x.mapError .ofJson

def readInitialDocument (s : List Char) : Except Fault (Option String × List Char) :=
  match skipSpace s with
  | 'n' :: rest => (lift (readLetters ['u', 'l', 'l'] rest)).map fun rest => (none, rest)
  | '"' :: rest => (lift (readString rest)).map fun (t, rest) => (some t, rest)
  | rest => .error (wrongType "a string" rest)

def readAnchored (s : List Char) : Except Fault (Bool × List Char) :=
  match skipSpace s with
  | 't' :: rest => (lift (readLetters ['r', 'u', 'e'] rest)).map fun rest => (true, rest)
  | 'f' :: rest => (lift (readLetters ['a', 'l', 's', 'e'] rest)).map fun rest => (false, rest)
  | rest => .error (wrongType "a boolean" rest)

/-- Reads the value of an option into the fields. -/
def readField (f : Fields) (field : Field) (s : List Char) : Except Fault (Fields × List Char) :=
  match field with
  | .initialDocument =>
    (readInitialDocument s).map fun (t, rest) => ({ f with initialDocument := some t }, rest)
  | .anchored => (readAnchored s).map fun (b, rest) => ({ f with anchored := some b }, rest)

/-! ### The form of a list -/

/-- Goes to the next item of a list and tells whether there is one. -/
def nextItem (first : Bool) (s : List Char) : Except Fault (Bool × List Char) :=
  match skipSpace s with
  | [] => .error (.before (.json .endInList) [])
  | ']' :: rest => .ok (false, ']' :: rest)
  | rest =>
    if first then .ok (true, rest)
    else
      match rest with
      | ',' :: rest =>
        match skipSpace rest with
        | [] => .error (.before (.json .endInValue) [])
        | ']' :: rest => .error (.ofJson (.atNext .trailingComma (']' :: rest)))
        | rest => .ok (true, rest)
      | rest => .error (.ofJson (.atNext .expectedItemEnd rest))

/-- Reads the end of a list that may have no more items. -/
def readListEnd (s : List Char) : Except Fault (List Char) :=
  match skipSpace s with
  | [] => .error (.before (.json .endInList) [])
  | ']' :: rest => .ok rest
  | ',' :: rest =>
    match skipSpace rest with
    | ']' :: rest => .error (.ofJson (.atNext .trailingComma (']' :: rest)))
    | rest => .error (.ofJson (.atNext .trailingCharacters rest))
  | rest => .error (.ofJson (.atNext .trailingCharacters rest))

/-- Reads the given options in their order, as far as the list goes. -/
def readItems (f : Fields) (first : Bool) : List Field → List Char → Except Fault (Fields × List Char)
  | [], s => (readListEnd s).map fun rest => (f, rest)
  | field :: fields, s =>
    match nextItem first s with
    | .error e => .error e
    | .ok (false, rest) => (readListEnd rest).map fun rest => (f, rest)
    | .ok (true, rest) =>
      match readField f field rest with
      | .error e => .error e
      | .ok (f, rest) => readItems f false fields rest

/-! ### The form of a mapping -/

/-- The text behind a mapping that is left at a key: space and the bracket that
closes it, if that comes next. -/
def leaveMapping (s : List Char) : List Char :=
  match skipSpace s with
  | '}' :: rest => rest
  | rest => rest

/-- The option that a key names, if it was not read before. -/
def fieldOfKey (f : Fields) (key : String) (rest : List Char) : Except Fault Field :=
  match Field.ofName? key with
  | none => .error (.before (.unknownField key) (leaveMapping rest))
  | some field =>
    if f.has field then .error (.before (.duplicateField field) (leaveMapping rest))
    else .ok field

/-- Reads a key, its colon and its value. -/
def readMember (f : Fields) (s : List Char) : Except Fault (Fields × List Char) :=
  match lift (readKey s) with
  | .error e => .error e
  | .ok (key, rest) =>
    match fieldOfKey f key rest with
    | .error e => .error e
    | .ok field =>
      match lift (readColon rest) with
      | .error e => .error e
      | .ok rest => readField f field rest

/-! ### Every member leaves less text -/

theorem lift_eq_ok {α : Type} {x : Except Json.Fault α} {a : α} (h : lift x = .ok a) :
    x = .ok a := by
  cases x with
  | error e => cases h
  | ok b =>
    cases h
    rfl

theorem readInitialDocument_length_lt {s rest : List Char} {t : Option String}
    (h : readInitialDocument s = .ok (t, rest)) : rest.length < s.length := by
  have hs := skipSpace_length_le s
  unfold readInitialDocument at h
  split at h
  · rename_i he
    obtain ⟨_, hr, ht⟩ := map_eq_ok h
    cases ht
    rw [he] at hs
    exact Nat.lt_of_le_of_lt (readLetters_length_le (lift_eq_ok hr)) hs
  · rename_i he
    obtain ⟨⟨_, _⟩, hr, ht⟩ := map_eq_ok h
    cases ht
    rw [he] at hs
    exact Nat.lt_trans (readString_length_lt (lift_eq_ok hr)) hs
  · cases h

theorem readAnchored_length_lt {s rest : List Char} {b : Bool}
    (h : readAnchored s = .ok (b, rest)) : rest.length < s.length := by
  have hs := skipSpace_length_le s
  unfold readAnchored at h
  split at h
  · rename_i he
    obtain ⟨_, hr, ht⟩ := map_eq_ok h
    cases ht
    rw [he] at hs
    exact Nat.lt_of_le_of_lt (readLetters_length_le (lift_eq_ok hr)) hs
  · rename_i he
    obtain ⟨_, hr, ht⟩ := map_eq_ok h
    cases ht
    rw [he] at hs
    exact Nat.lt_of_le_of_lt (readLetters_length_le (lift_eq_ok hr)) hs
  · cases h

theorem readField_length_lt {f g : Fields} {field : Field} {s rest : List Char}
    (h : readField f field s = .ok (g, rest)) : rest.length < s.length := by
  unfold readField at h
  split at h
  · obtain ⟨⟨_, _⟩, hr, ht⟩ := map_eq_ok h
    cases ht
    exact readInitialDocument_length_lt hr
  · obtain ⟨⟨_, _⟩, hr, ht⟩ := map_eq_ok h
    cases ht
    exact readAnchored_length_lt hr

theorem readMember_length_lt {f g : Fields} {s rest : List Char}
    (h : readMember f s = .ok (g, rest)) : rest.length < s.length := by
  unfold readMember at h
  split at h
  · cases h
  · rename_i hk
    have := readKey_length_lt (lift_eq_ok hk)
    split at h
    · cases h
    · split at h
      · cases h
      · rename_i hc
        have := readColon_length_lt (lift_eq_ok hc)
        have := readField_length_lt h
        omega

/-- Tells whether another member follows the one that was read, and the text of it,
or else the text behind the mapping. -/
def nextMember (s : List Char) : Except Fault (Bool × List Char) :=
  match skipSpace s with
  | [] => .error (.before (.json .endInMapping) [])
  | '}' :: rest => .ok (false, rest)
  | ',' :: rest =>
    match skipSpace rest with
    | [] => .error (.before (.json .endInValue) [])
    | '}' :: rest => .error (.ofJson (.atNext .trailingComma ('}' :: rest)))
    | rest => .ok (true, rest)
  | rest => .error (.ofJson (.atNext .expectedMemberEnd rest))

theorem nextMember_length_lt {s rest : List Char} {more : Bool}
    (h : nextMember s = .ok (more, rest)) : rest.length < s.length := by
  have hs := skipSpace_length_le s
  unfold nextMember at h
  split at h
  · cases h
  · rename_i he
    cases h
    rw [he] at hs
    exact hs
  · rename_i rest' he
    have hr := skipSpace_length_le rest'
    rw [he] at hs
    split at h
    · cases h
    · cases h
    · cases h
      simp only [List.length_cons] at hs
      omega
  · cases h

/-- Reads members to the end of the mapping. -/
def readMembers (f : Fields) (s : List Char) : Except Fault (Fields × List Char) :=
  match _member : readMember f s with
  | .error e => .error e
  | .ok (g, rest) =>
    match _next : nextMember rest with
    | .error e => .error e
    | .ok (false, rest) => .ok (g, rest)
    | .ok (true, rest) => readMembers g rest
termination_by s.length
decreasing_by
  have := readMember_length_lt _member
  have := nextMember_length_lt _next
  omega

/-! ### Whole texts -/

/-- Reads options from the front of a text. -/
def readFields (s : List Char) : Except Fault (Fields × List Char) :=
  match skipSpace s with
  | '[' :: rest => readItems {} true [.initialDocument, .anchored] rest
  | '{' :: rest =>
    match skipSpace rest with
    | [] => .error (.before (.json .endInMapping) [])
    | '}' :: rest => .ok ({}, rest)
    | rest => readMembers {} rest
  | rest => .error (wrongType "struct ConsoleOptions" rest)

/-- Reads a text that holds options, with space around them at most. -/
def readText (s : List Char) : Except Fault Options :=
  match readFields s with
  | .error e => .error e
  | .ok (f, rest) =>
    match skipSpace rest with
    | [] => .ok f.options
    | rest => .error (.ofJson (.atNext .trailingCharacters rest))

def parse (text : String) : Except ReadError Options :=
  (readText text.toList).mapError fun f => ⟨f.cause, placeBefore text.toList f.unread⟩

end DotQuery.Options
