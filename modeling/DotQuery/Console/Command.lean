import DotQuery.Console.Error
import DotQuery.Text.Blank

/-! Console lines: a line that starts with a colon is a command, every other line
that is not blank is a query. -/
namespace DotQuery
open Text

inductive Command where
  | query (text : String)
  | setDocument (text : String)
  | load (file : String)
  | showDocument
  | suggest (start : Option String)
  | history
  | reset
  | help
  | quit
  | nothing
deriving DecidableEq, Repr

namespace Command

/-- The command that a name and what follows it stand for. -/
def ofName? (name : String) (argument : Option String) : Option Command :=
  match name, argument with
  | "doc", some text => some (.setDocument text)
  | "load", some file => some (.load file)
  | "show", none => some .showDocument
  | "suggest", start => some (.suggest start)
  | "history", none => some .history
  | "reset", none => some .reset
  | "help", none => some .help
  | "quit", none => some .quit
  | "q", none => some .quit
  | _, _ => none

def isLineEnd (c : Char) : Bool :=
  c == '\r' || c == '\n'

/-- The text behind a command's name without the blanks around it, if any is left. -/
def argumentOf (s : List Char) : Option String :=
  match trim s with
  | [] => none
  | text => some (String.ofList text)

/-- The command in the text behind the colon. The name ends at the first blank. -/
def ofText (s : List Char) : Except ConsoleError Command :=
  let name := String.ofList (s.takeWhile fun c => !isBlank c)
  match ofName? name (argumentOf (s.dropWhile fun c => !isBlank c)) with
  | some c => .ok c
  | none => .error (.unknownCommand name)

/-- The command of a line. The characters that end the line are no part of it. -/
def parse (line : String) : Except ConsoleError Command :=
  match trimEndWhile isLineEnd line.toList with
  | ':' :: rest => ofText rest
  | text => .ok (if text.all isBlank then .nothing else .query (String.ofList text))

end Command
end DotQuery
