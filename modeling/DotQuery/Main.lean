import DotQuery.CommandLine

/-! The program: arguments, files and standard streams around `CommandLine`.

All that it says and prints is what its stages say and print, and it goes from one to the
next as they tell. Of its own it only greets whoever types at a terminal, and says so when
the arguments are unusable. -/
namespace DotQuery.CommandLine
open Text

/-- The number of a system's refusal. Some come with their sign reversed. -/
def refusalNumber (code : UInt32) : Nat :=
  if code.toNat < Nat.pow 2 31 then code.toNat else Nat.pow 2 32 - code.toNat

def refusal (code : UInt32) (reason : String) : FileFault :=
  match refusalNumber code with
  | 2 => .notFound
  | 13 => .refused "Permission denied" 13
  | 20 => .notDirectory
  | 21 => .isDirectory
  | 36 => .nameTooLong
  | number => .refused reason number

/-- What the system says about a file that cannot be read. -/
def faultOf : IO.Error → FileFault
  | .noFileOrDirectory _ code reason => refusal code reason
  | .permissionDenied _ code reason => refusal code reason
  | .inappropriateType _ code reason => refusal code reason
  | .invalidArgument _ code reason => refusal code reason
  | .resourceExhausted _ code reason => refusal code reason
  | .otherError code reason => refusal code reason
  | e => .refused (toString e) 0

def readFile (name : String) : IO (Except FileFault (List UInt8)) := do
  if name.toList.contains '\x00' then return .error .unusableName
  match ← (IO.FS.readBinFile name).toBaseIO with
  | .ok bytes => return .ok bytes.data.toList
  | .error e => return .error (faultOf e)

/-- The files with the given names, all others being absent. -/
def readFiles (names : List String) : IO Files := do
  return .ofTable (← names.mapM fun name => return (name, ← readFile name))

def tell (p : Progress) : IO Unit := do
  p.messages.forM IO.eprintln
  unless p.output.isEmpty do
    IO.print p.output
    (← IO.getStdout).flush

/-- Goes on with one byte of the input after the other until the program has ended. -/
partial def goOn (input : IO.FS.Stream) (stage : Stage) : IO UInt32 := do
  match stage with
  | .ended status => return .ofNat status
  | .reading .. =>
    let byte := (← input.read 1).data[0]?
    let p := stage.advance (← readFiles (stage.fileNames byte)) byte
    tell p
    goOn input p.stage

end DotQuery.CommandLine

open DotQuery CommandLine in
def main (arguments : List String) : IO UInt32 := do
  let some a := Arguments.parse arguments
    | IO.eprintln "jpc: unusable arguments"
      return unusableStatus.toUInt32
  let p := opening (← readFiles a.fileNames) a
  tell p
  let input ← IO.getStdin
  if p.stage.isReading && (← input.isTty) then
    IO.println "jpc: type a path such as $.example, or :help"
  goOn input p.stage
