import DotQuery.Document
import DotQuery.Files
import DotQuery.Options.Basic

/-! What can go wrong around a session. -/
namespace DotQuery

inductive ConsoleError where
  | input (fault : FileFault)
  | unreadable (name : String) (fault : FileFault)
  | options (e : Options.ReadError)
  | unknownCommand (name : String)
  | document (e : DocumentError)
deriving DecidableEq, Repr

namespace ConsoleError

def message : ConsoleError → String
  | input fault => "I/O error: " ++ fault.message
  | unreadable name fault => "failed to read `" ++ name ++ "`: " ++ fault.message
  | options e => "invalid options: " ++ e.message
  | unknownCommand name => "unknown command `:" ++ name ++ "` (try :help)"
  | document e => e.message

end ConsoleError
end DotQuery
