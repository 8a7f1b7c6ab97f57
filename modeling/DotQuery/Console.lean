import DotQuery.Console.Command
import DotQuery.Session

/-! The console: a session that is driven by lines.

A line that cannot be carried out is answered by a message and changes nothing but
the text and the error of the document. Only input that is not text ends a run with
an error. -/
namespace DotQuery
open Text

/-- Whether the console reads on. -/
inductive Flow where
  | proceed
  | stop
deriving DecidableEq, Repr

namespace Console

def helpText : String :=
  "<path>             evaluate a path, e.g. $.store.books[0].title\n" ++
  ":doc <json>        replace the document text\n" ++
  ":load <file>       read the document text from a file\n" ++
  ":show              print the document\n" ++
  ":suggest [prefix]  list completion candidates\n" ++
  ":history           print all queries so far\n" ++
  ":reset             clear history and restore the initial document\n" ++
  ":help              this text\n" ++
  ":quit              leave"

def emptyHistoryText : String := "No queries executed yet."

/-- What a line prints, whether the console reads on, and the session after it. -/
structure Reply where
  output : String
  flow : Flow
  session : Session

def Reply.proceed (output : String) (s : Session) : Reply :=
  ⟨output, .proceed, s⟩

def printed (text : String) : String :=
  text ++ "\n"

/-- Texts, each on a line of its own. -/
def printedLines (texts : List String) : String :=
  String.join (texts.map printed)

def setDocument (s : Session) (text : String) : Reply :=
  match s.setText text with
  | (.ok _, s) =>
    .proceed
      (printed ("document loaded (" ++ toString s.document.suggestions.length ++ " paths)")) s
  | (.error e, s) => .proceed (printed e.message) s

def runQuery (s : Session) (query : String) : Reply :=
  match s.submit query with
  | (some e, s) => .proceed (printed e.display) s
  | (none, s) => .proceed "" s

/-- The text of the document, and below it what is wrong with it. -/
def documentText (d : Document) : String :=
  printedLines (d.text :: (d.error.map DocumentError.message).toList)

def historyText (log : QueryLog) : String :=
  printed (if log.isEmpty then emptyHistoryText else log.transcript)

def suggestionText (s : Session) (start : String) : String :=
  printedLines (Suggestions.matching start s.document.suggestions)

def execute (files : Files) (s : Session) : Command → Reply
  | .nothing => .proceed "" s
  | .query text => runQuery s text
  | .setDocument text => setDocument s text
  | .load file =>
    match files.readText file with
    | .ok text => setDocument s text
    | .error fault => .proceed (printed (ConsoleError.unreadable file fault).message) s
  | .showDocument => .proceed (documentText s.document) s
  | .suggest start => .proceed (suggestionText s (start.getD "")) s
  | .history => .proceed (historyText s.log) s
  | .reset => .proceed (printed "session reset") s.reset
  | .help => .proceed (printed helpText) s
  | .quit => ⟨"", .stop, s⟩

/-- Carries out one line. -/
def handleLine (files : Files) (s : Session) (line : String) : Reply :=
  match Command.parse line with
  | .ok c => execute files s c
  | .error e => .proceed (printed e.message) s

/-- How a run ended, what it printed, and the session after it. -/
structure Result where
  result : Except ConsoleError Unit
  output : String
  session : Session

/-- Carries out lines of bytes until one that quits or is no text, printing behind
`output`. -/
def runLines (files : Files) (output : String) (s : Session) : List (List UInt8) → Result
  | [] => ⟨.ok (), output, s⟩
  | line :: lines =>
    match decode? line with
    | none => ⟨.error (.input .notText), output, s⟩
    | some text =>
      let reply := handleLine files s text
      match reply.flow with
      | .stop => ⟨.ok (), output ++ reply.output, reply.session⟩
      | .proceed => runLines files (output ++ reply.output) reply.session lines

/-- Carries out the lines of an input. -/
def run (files : Files) (s : Session) (input : List UInt8) : Result :=
  runLines files "" s (splitLines input)

/-- The lines that a run carries out, each with the session before it. -/
def handledLines (files : Files) (s : Session) : List (List UInt8) → List (Session × String)
  | [] => []
  | line :: lines =>
    match decode? line with
    | none => []
    | some text =>
      let reply := handleLine files s text
      match reply.flow with
      | .stop => [(s, text)]
      | .proceed => (s, text) :: handledLines files reply.session lines

end Console
end DotQuery
