import DotQuery.Binary64.Layout
import DotQuery.Json.Value

/-! JSON text indented by two spaces.

An empty list or mapping is written on one line; otherwise each item or member has
a line of its own. A string escapes the quote, the backslash and the control
characters below the space, and nothing else. -/
namespace DotQuery.Json

/-- How a character is written in a string. -/
def escapedChar (c : Char) : List Char :=
  if c = '"' then ['\\', '"']
  else if c = '\\' then ['\\', '\\']
  else if c = '\x08' then ['\\', 'b']
  else if c = '\x0c' then ['\\', 'f']
  else if c = '\n' then ['\\', 'n']
  else if c = '\r' then ['\\', 'r']
  else if c = '\t' then ['\\', 't']
  else if c.toNat < 0x20 then
    ['\\', 'u', '0', '0', Nat.digitChar (c.toNat / 16), Nat.digitChar (c.toNat % 16)]
  else [c]

def stringText (s : String) : List Char :=
  '"' :: (s.toList.flatMap escapedChar ++ ['"'])

def integerText (n : Int) : List Char :=
  if n < 0 then '-' :: Nat.toDigits 10 n.natAbs else Nat.toDigits 10 n.natAbs

namespace Number

def text : Number → List Char
  | integer n => integerText n
  | float x => x.layout

end Number

/-- A new line and the spaces that the given depth begins it with. -/
def newLine (depth : Nat) : List Char :=
  '\n' :: List.replicate (2 * depth) ' '

/-- Adds characters to a text. -/
def addTo (out : String) (cs : List Char) : String :=
  cs.foldl String.push out

mutual

/-- Adds the text of a value to a text, on a line of the given depth. -/
def Value.printOnto (depth : Nat) : Value → String → String
  | .null, out => addTo out ['n', 'u', 'l', 'l']
  | .boolean true, out => addTo out ['t', 'r', 'u', 'e']
  | .boolean false, out => addTo out ['f', 'a', 'l', 's', 'e']
  | .number n, out => addTo out n.text
  | .string s, out => addTo out (stringText s)
  | .list [], out => addTo out ['[', ']']
  | .list (v :: items), out =>
    (addTo (printItems (depth + 1) items
      (v.printOnto (depth + 1) (addTo (out.push '[') (newLine (depth + 1)))))
      (newLine depth)).push ']'
  | .mapping [], out => addTo out ['{', '}']
  | .mapping ((k, v) :: members), out =>
    (addTo (printMembers (depth + 1) members
      (v.printOnto (depth + 1)
        (addTo (addTo (addTo (out.push '{') (newLine (depth + 1))) (stringText k)) [':', ' '])))
      (newLine depth)).push '}'

/-- Adds the items of a list behind the first one. -/
def printItems (depth : Nat) : List Value → String → String
  | [], out => out
  | v :: items, out =>
    printItems depth items (v.printOnto depth (addTo (out.push ',') (newLine depth)))

/-- Adds the members of a mapping behind the first one. -/
def printMembers (depth : Nat) : List (String × Value) → String → String
  | [], out => out
  | (k, v) :: members, out =>
    printMembers depth members
      (v.printOnto depth
        (addTo (addTo (addTo (out.push ',') (newLine depth)) (stringText k)) [':', ' ']))

end

/-- The indented text of a value. -/
def Value.pretty (v : Value) : String :=
  v.printOnto 0 ""

end DotQuery.Json
