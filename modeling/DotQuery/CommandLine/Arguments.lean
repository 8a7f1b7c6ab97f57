/-! The arguments of the command line.

An argument that starts with a hyphen and does not end there is an option, or
several short ones; an argument of two hyphens makes everything after it plain. A
plain argument names the document, of which there can be one. Options that take a
value find it in the same argument or take the next one, which must not be an
option itself. Whatever does not fit makes the arguments unusable as a whole. -/
namespace DotQuery.CommandLine

structure Arguments where
  document : Option String := none
  queries : List String := []
  suggest : Option String := none
  anchored : Bool := false
  config : Option String := none
  verbosity : Nat := 0
deriving DecidableEq, Repr

namespace Arguments

/-- An option that must have a value. -/
inductive Valued where
  | query
  | config
deriving DecidableEq, Repr

/-- Whether an argument is read as an option. -/
def isOption (argument : List Char) : Bool :=
  match argument with
  | '-' :: _ :: _ => true
  | _ => false

/-- A plain argument names the document. -/
def addPlain (a : Arguments) (argument : String) : Option Arguments :=
  if a.document.isSome || argument.isEmpty then none
  else some { a with document := some argument }

def addValue (a : Arguments) (option : Valued) (value : String) : Option Arguments :=
  match option with
  | .query => some { a with queries := a.queries ++ [value] }
  | .config =>
    if a.config.isSome || value.isEmpty then none else some { a with config := some value }

def addAnchor (a : Arguments) : Option Arguments :=
  if a.anchored then none else some { a with anchored := true }

def addSuggest (a : Arguments) (start : String) : Option Arguments :=
  if a.suggest.isSome then none else some { a with suggest := some start }

def addVerbose (a : Arguments) : Arguments :=
  { a with verbosity := a.verbosity + 1 }

/-- The arguments so far, and the option that still waits for its value. -/
abbrev Pending := Arguments × Option Valued

/-- Adds an option with a long name. -/
def addLong (a : Arguments) (name : String) (value : Option String) : Option Pending :=
  match name, value with
  | "query", none => some (a, some .query)
  | "query", some v => (a.addValue .query v).map (·, none)
  | "config", none => some (a, some .config)
  | "config", some v => (a.addValue .config v).map (·, none)
  | "suggest", v => (a.addSuggest (v.getD "")).map (·, none)
  | "anchor", none => a.addAnchor.map (·, none)
  | "verbose", none => some (a.addVerbose, none)
  | _, _ => none

/-- The value in the argument of a short option, with or without an equals sign. -/
def attachedValue (s : List Char) : String :=
  match s with
  | '=' :: value => String.ofList value
  | value => String.ofList value

/-- Adds short options that share an argument. -/
def addShort (a : Arguments) : List Char → Option Pending
  | [] => some (a, none)
  | 'v' :: rest => a.addVerbose.addShort rest
  | ['q'] => some (a, some .query)
  | 'q' :: rest => (a.addValue .query (attachedValue rest)).map (·, none)
  | _ => none

/-- The name of a long option, and its value if an equals sign follows. -/
def splitLong (s : List Char) : String × Option String :=
  match s.dropWhile (· != '=') with
  | [] => (String.ofList s, none)
  | _ :: value => (String.ofList (s.takeWhile (· != '=')), some (String.ofList value))

/-- Adds an argument that does not have to be a value. -/
def addArgument (a : Arguments) (argument : String) : Option Pending :=
  match argument.toList with
  | '-' :: '-' :: rest => a.addLong (splitLong rest).1 (splitLong rest).2
  | '-' :: c :: rest => a.addShort (c :: rest)
  | _ => (a.addPlain argument).map (·, none)

def addPlains (a : Arguments) (arguments : List String) : Option Arguments :=
  arguments.foldlM addPlain a

/-- Adds all arguments. -/
def addAll : Pending → List String → Option Arguments
  | (a, none), [] => some a
  | (_, some _), [] => none
  | (a, some option), value :: rest =>
    if isOption value.toList then none
    else (a.addValue option value).bind fun a => addAll (a, none) rest
  | (a, none), argument :: rest =>
    if argument = "--" then a.addPlains rest
    else (a.addArgument argument).bind fun p => addAll p rest

/-- The arguments, if they are usable. -/
def parse (arguments : List String) : Option Arguments :=
  addAll ({}, none) arguments

end Arguments
end DotQuery.CommandLine
