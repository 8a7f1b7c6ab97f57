import DotQuery.Text.Utf8

/-! Files as far as the console reads them: a name gives the bytes of the file, or
the reason why there are none. -/
namespace DotQuery
open Text

/-- Why a file or an input gives no text. -/
inductive FileFault where
  /-- The system refuses, for a reason that has a number. -/
  | refused (reason : String) (number : Nat)
  /-- The bytes are not UTF-8. -/
  | notText
  /-- The name holds a character that no file name can hold. -/
  | unusableName
deriving DecidableEq, Repr

namespace FileFault

def message : FileFault → String
  | refused reason number => reason ++ " (os error " ++ toString number ++ ")"
  | notText => "stream did not contain valid UTF-8"
  | unusableName => "file name contained an unexpected NUL byte"

def notFound : FileFault := refused "No such file or directory" 2

def isDirectory : FileFault := refused "Is a directory" 21

def notDirectory : FileFault := refused "Not a directory" 20

def nameTooLong : FileFault := refused "File name too long" 36

end FileFault

abbrev Files := String → Except FileFault (List UInt8)

namespace Files

/-- The text of a file. -/
def readText (files : Files) (name : String) : Except FileFault String :=
  match files name with
  | .error f => .error f
  | .ok bytes =>
    match decode? bytes with
    | some text => .ok text
    | none => .error .notText

/-- The files of a table, and no others. -/
def ofTable (table : List (String × Except FileFault (List UInt8))) : Files := fun name =>
  (table.lookup name).getD (.error .notFound)

/-! ### A directory in memory -/

/-- The files of a directory that holds nothing else. -/
abbrev Directory := List (String × List UInt8)

/-- How far the parts of a name have led. -/
inductive Reached where
  | directory
  | file (bytes : List UInt8)
  | outside

/-- How many bytes a part of a name may have, and how many a whole name. -/
def partLimit : Nat := 255

def nameLimit : Nat := 4095

/-- Where the next part of a name leads. Nothing is known outside the directory. -/
def Reached.next (d : Directory) (r : Reached) (part : String) : Except FileFault Reached :=
  match r with
  | .file _ => .error .notDirectory
  | r =>
    if part = "" ∨ part = "." then .ok r
    else if part = ".." then .ok .outside
    else if partLimit < part.utf8ByteSize then .error .nameTooLong
    else
      match r, d.lookup part with
      | .directory, some bytes => .ok (.file bytes)
      | _, _ => .error .notFound

/-- The parts of a name between its slashes. -/
def nameParts (name : List Char) : List (List Char) :=
  match name with
  | [] => [[]]
  | '/' :: rest => [] :: nameParts rest
  | c :: rest =>
    match nameParts rest with
    | [] => [[c]]
    | part :: parts => (c :: part) :: parts

/-- The files that names lead to from a directory. -/
def ofDirectory (d : Directory) : Files := fun name =>
  let origin : Reached := if name.toList.head? = some '/' then .outside else .directory
  if name.isEmpty then .error .notFound
  else if name.toList.contains '\x00' then .error .unusableName
  else if nameLimit < name.utf8ByteSize then .error .nameTooLong
  else
    match (nameParts name.toList).foldlM (fun r part => r.next d (String.ofList part)) origin with
    | .error f => .error f
    | .ok (.file bytes) => .ok bytes
    | .ok _ => .error .isDirectory

end Files
end DotQuery
