import DotQuery.CommandLine.Arguments
import DotQuery.CommandLine.Events
import DotQuery.Options.Reader

/-! The program behind the command line.

The options come from a file if one is given, and a document file takes the place
of the initial document. With queries or a request for suggestions the program
answers them and ends; otherwise it is a console over its input. -/
namespace DotQuery.CommandLine
open Text Json

/-- The options in a file. -/
def optionsOfFile (files : Files) (name : String) : Except ConsoleError Options :=
  match files.readText name with
  | .error fault => .error (.unreadable name fault)
  | .ok text => (Options.parse text).mapError .options

/-- The options that the arguments start from: those of a file, if one is given. -/
def readConfig (files : Files) (a : Arguments) : Except ConsoleError Options :=
  match a.config with
  | some name => optionsOfFile files name
  | none => .ok {}

/-- The options with what the arguments say themselves. -/
def addArguments (files : Files) (a : Arguments) (o : Options) : Except ConsoleError Options :=
  let anchored : Options := { o with anchored := o.anchored || a.anchored }
  match a.document with
  | none => .ok anchored
  | some name =>
    match files.readText name with
    | .error fault => .error (.unreadable name fault)
    | .ok text => .ok { anchored with initialDocument := some text }

/-- The options that the arguments ask for. -/
def optionsOf (files : Files) (a : Arguments) : Except ConsoleError Options :=
  (readConfig files a).bind (addArguments files a)

/-- How a message of the program itself begins. -/
def complaint (e : ConsoleError) : String :=
  "jpc: " ++ e.message

/-- The session that the arguments ask for, and the messages about it. A document
file that does not parse is an error, another initial document only a complaint. -/
def start (files : Files) (a : Arguments) : List String × Except ConsoleError Session :=
  match optionsOf files a with
  | .error e => ([], .error e)
  | .ok options =>
    let session := Session.start options
    let events := Event.shown a.verbosity (Event.ofInitialDocument options)
    match session.document.error with
    | none => (events, .ok session)
    | some e =>
      if a.document.isSome then (events, .error (.document e))
      else (events ++ [complaint (.document e)], .ok session)

/-! ### Queries from the arguments -/

/-- What a batch printed, whether anything in it failed, and the session after it. -/
structure Batch where
  output : String
  failed : Bool
  session : Session

/-- Runs one more query. -/
def Batch.submit (b : Batch) (query : String) : Batch :=
  match b.session.submit query with
  | (some e, s) => ⟨b.output ++ Console.printed e.display, b.failed || e.outcome == .failed, s⟩
  | (none, s) => ⟨b.output, b.failed, s⟩

/-- Runs the queries and lists the suggestions that start with the given text, if one
is given. -/
def runBatch (s : Session) (queries : List String) (suggest : Option String) : Batch :=
  let b := queries.foldl Batch.submit ⟨"", s.document.error.isSome, s⟩
  match suggest with
  | none => b
  | some start => { b with output := b.output ++ Console.suggestionText b.session start }

/-- The events of a batch. Queries leave the document as it is. -/
def batchEvents (s : Session) (queries : List String) : List Event :=
  queries.flatMap (Event.ofSubmit s)

/-- Whether the arguments ask for anything but a console. -/
def Arguments.isBatch (a : Arguments) : Bool :=
  !a.queries.isEmpty || a.suggest.isSome

/-! ### Going on -/

/-- Where the program stands before it takes more of its input: it has ended with a status,
or it is a console that has read a part of a line, which is kept with its last byte in
front. -/
inductive Stage where
  | ended (status : Nat)
  | reading (verbosity : Nat) (s : Session) (line : List UInt8)

def Stage.isReading : Stage → Bool
  | ended _ => false
  | reading _ _ _ => true

/-- What the program says and prints on its way to a stage. -/
structure Progress where
  messages : List String
  output : String
  stage : Stage

def Progress.silent (stage : Stage) : Progress :=
  ⟨[], "", stage⟩

/-- What the program does before it takes any input. -/
def opening (files : Files) (a : Arguments) : Progress :=
  match start files a with
  | (messages, .error e) => ⟨messages ++ [complaint e], "", .ended 1⟩
  | (messages, .ok s) =>
    if a.isBatch then
      let b := runBatch s a.queries a.suggest
      ⟨messages ++ Event.shown a.verbosity (batchEvents s a.queries), b.output,
        .ended (if b.failed then 1 else 0)⟩
    else ⟨messages, "", .reading a.verbosity s []⟩

/-- Carries out a line of the console. -/
def carryOut (files : Files) (verbosity : Nat) (s : Session) (line : List UInt8) : Progress :=
  match decode? line with
  | none => ⟨[complaint (.input .notText)], "", .ended 1⟩
  | some text =>
    let reply := Console.handleLine files s text
    ⟨Event.shown verbosity (Event.ofLine files s text), reply.output,
      match reply.flow with
      | .stop => .ended 0
      | .proceed => .reading verbosity reply.session []⟩

/-- A console that has no more to read ends well. -/
def Stage.close : Stage → Stage
  | ended status => .ended status
  | reading _ _ _ => .ended 0

/-- Takes the next byte of the input, or its end. A line is carried out once it is whole. -/
def Stage.advance (files : Files) (stage : Stage) (byte : Option UInt8) : Progress :=
  match stage, byte with
  | ended status, _ => .silent (.ended status)
  | reading verbosity s line, some b =>
    if b = newlineByte then carryOut files verbosity s (b :: line).reverse
    else .silent (.reading verbosity s (b :: line))
  | reading _ _ [], none => .silent (.ended 0)
  | reading verbosity s line, none =>
    let p := carryOut files verbosity s line.reverse
    { p with stage := p.stage.close }

/-! ### Files that are read -/

/-- The files that are read at the beginning. -/
def Arguments.fileNames (a : Arguments) : List String :=
  a.config.toList ++ a.document.toList

/-- The files that a line of the console asks for. -/
def fileNamesOf (line : List UInt8) : List String :=
  match (decode? line).map Command.parse with
  | some (.ok (.load name)) => [name]
  | _ => []

/-- The files that the next byte of the input, or its end, asks for. -/
def Stage.fileNames (stage : Stage) (byte : Option UInt8) : List String :=
  match stage, byte with
  | ended _, _ => []
  | reading _ _ line, some b => if b = newlineByte then fileNamesOf (b :: line).reverse else []
  | reading _ _ line, none => fileNamesOf line.reverse

/-! ### Whole runs -/

/-- What a run leaves behind: its exit status, its output, and its messages. -/
structure Report where
  status : Nat
  output : String
  messages : List String
deriving DecidableEq, Repr

/-- What becomes of a stage with the rest of the input. -/
def Stage.report (files : Files) (input : List UInt8) : Stage → Report
  | ended status => ⟨status, "", []⟩
  | reading verbosity s line =>
    let r := Console.run files s (line.reverse ++ input)
    let messages := Event.shown verbosity (Event.ofRun files s (line.reverse ++ input))
    match r.result with
    | .ok () => ⟨0, r.output, messages⟩
    | .error e => ⟨1, r.output, messages ++ [complaint e]⟩

def Progress.report (files : Files) (input : List UInt8) (p : Progress) : Report :=
  let r := p.stage.report files input
  ⟨r.status, p.output ++ r.output, p.messages ++ r.messages⟩

/-- A run of the program over usable arguments. -/
def runArguments (files : Files) (input : List UInt8) (a : Arguments) : Report :=
  (opening files a).report files input

/-- The status of a run over unusable arguments. -/
def unusableStatus : Nat := 2

/-- A run of the program. -/
def run (files : Files) (input : List UInt8) (arguments : List String) : Report :=
  match Arguments.parse arguments with
  | none => ⟨unusableStatus, "", []⟩
  | some a => runArguments files input a

end DotQuery.CommandLine
