import DotQuery.Console
import DotQuery.Text.Quoted

/-! What a session reports while it works, from warnings to traces.

The events of an operation are told from the state before it, so the operations
themselves know nothing of them. -/
namespace DotQuery.CommandLine
open Text Json

inductive Level where
  | warning
  | information
  | debugging
  | trace
deriving DecidableEq, Repr

namespace Level

def name : Level → String
  | warning => "WARN"
  | information => "INFO"
  | debugging => "DEBUG"
  | trace => "TRACE"

/-- How often the option for more messages must be given for a level to be shown. -/
def verbosity : Level → Nat
  | warning => 0
  | information => 1
  | debugging => 2
  | trace => 3

end Level

structure Event where
  level : Level
  text : String
deriving DecidableEq, Repr

namespace Event

def line (e : Event) : String :=
  e.level.name ++ " " ++ e.text

/-- The lines of the events that a verbosity shows. -/
def shown (verbosity : Nat) (events : List Event) : List String :=
  (events.filter fun e => decide (e.level.verbosity ≤ verbosity)).map line

/-! ### The events of each operation -/

/-- Listing the suggestions of a mapping tells their number. -/
def ofSuggestions (v : Value) (suggestions : List String) : List Event :=
  match v with
  | .mapping _ => [⟨.trace, "indexed suggestions count=" ++ toString suggestions.length⟩]
  | _ => []

def ofSetText (d : Document) (text : String) : List Event :=
  let bytes := "parsing document bytes=" ++ toString text.utf8ByteSize
  ⟨.debugging, bytes⟩ ::
    match d.setText text with
    | (.ok v, d) =>
      ofSuggestions v d.suggestions ++
        [⟨.information, "document committed suggestions=" ++ toString d.suggestions.length⟩]
    | (.error e, _) =>
      [⟨.warning, "document did not parse; keeping previous value error=" ++ e.message⟩]

/-- Loading the initial document, at the start and at a reset. -/
def ofInitialDocument (o : Options) : List Event :=
  match o.initialDocument with
  | none => []
  | some text =>
    ofSetText (Document.empty o.anchored) text ++
      match Document.parse text with
      | .ok _ => []
      | .error e => [⟨.warning, "initial document is not valid JSON error=" ++ e.message⟩]

/-- Evaluating a query, which tells nothing of one whose path does not parse. -/
def ofEvaluate (root : Option Value) (query : String) : List Event :=
  match Path.parse query with
  | .error _ => []
  | .ok path =>
    let found :=
      match path.resolve root with
      | .ok (some _) => true
      | _ => false
    [⟨.debugging,
      "evaluated path path=" ++ quoted query ++ " found=" ++ toString found⟩]

def ofSubmit (s : Session) (query : String) : List Event :=
  if allBlank query then [⟨.debugging, "ignoring blank query"⟩]
  else ofEvaluate s.document.value query

/-- Carrying out a console line. -/
def ofLine (files : Files) (s : Session) (line : String) : List Event :=
  match Command.parse line with
  | .ok (.query text) => ofSubmit s text
  | .ok (.setDocument text) => ofSetText s.document text
  | .ok (.load file) =>
    match files.readText file with
    | .ok text => ofSetText s.document text
    | .error _ => []
  | .ok .reset => ofInitialDocument s.options
  | _ => []

/-- Carrying out the lines of an input. -/
def ofRun (files : Files) (s : Session) (input : List UInt8) : List Event :=
  (Console.handledLines files s (splitLines input)).flatMap fun (s, line) => ofLine files s line

end Event
end DotQuery.CommandLine
