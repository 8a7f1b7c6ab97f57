/-! Lengths and places in a text, both counted in UTF-8 bytes.

A reader keeps the part of the text it has not read. A position is then the
length of the whole text less the length of that part, and a place is the
position told as a line and a column. -/
namespace DotQuery.Text

/-- The number of UTF-8 bytes of the characters. -/
def byteLength (s : List Char) : Nat :=
  s.foldl (fun n c => n + c.utf8Size) 0

theorem foldl_utf8Size (s : List Char) (n : Nat) :
    s.foldl (fun n c => n + c.utf8Size) n = n + byteLength s := by
  induction s generalizing n with
  | nil => rfl
  | cons c s ih =>
    simp only [byteLength, List.foldl_cons]
    rw [ih, ih (0 + c.utf8Size)]
    omega

@[simp] theorem byteLength_nil : byteLength [] = 0 := rfl

@[simp] theorem byteLength_cons (c : Char) (s : List Char) :
    byteLength (c :: s) = c.utf8Size + byteLength s := by
  rw [byteLength, List.foldl_cons, foldl_utf8Size, Nat.zero_add]

@[simp] theorem byteLength_append (s t : List Char) :
    byteLength (s ++ t) = byteLength s + byteLength t := by
  induction s with
  | nil => simp
  | cons c s ih => simp [ih, Nat.add_assoc]

theorem byteLength_ofList (s : List Char) : byteLength s = (String.ofList s).utf8ByteSize := by
  induction s with
  | nil => rfl
  | cons c s ih =>
    have h : String.ofList (c :: s) = String.singleton c ++ String.ofList s := by
      rw [String.singleton_eq_ofList, ← String.ofList_append, List.singleton_append]
    rw [byteLength_cons, ih, h, String.utf8ByteSize_append, String.utf8ByteSize_singleton]

@[simp] theorem byteLength_toList (s : String) : byteLength s.toList = s.utf8ByteSize := by
  rw [byteLength_ofList, String.ofList_toList]

/-- A line, counted from one, and the number of bytes before the place on it. -/
structure Place where
  line : Nat
  column : Nat
deriving DecidableEq, Repr

namespace Place

def start : Place := ⟨1, 0⟩

/-- The place after a character that lies wholly before it. -/
def after (p : Place) (c : Char) : Place :=
  if c = '\n' then ⟨p.line + 1, 0⟩ else ⟨p.line, p.column + c.utf8Size⟩

/-- The place `offset` bytes further in the text. An offset inside a character
counts the bytes of it that lie before. -/
def advance (p : Place) : List Char → Nat → Place
  | [], _ => p
  | c :: s, offset =>
    if c.utf8Size ≤ offset then (p.after c).advance s (offset - c.utf8Size)
    else ⟨p.line, p.column + offset⟩

/-- How a description of what is wrong says where. -/
def suffix (p : Place) : String :=
  " at line " ++ toString p.line ++ " column " ++ toString p.column

end Place

/-- The place where `unread` bytes of the text are left. -/
def placeBefore (text : List Char) (unread : Nat) : Place :=
  Place.start.advance text (byteLength text - unread)

/-- The part of the text before the last occurrence of `marker`. -/
def beforeLast? (marker : List Char) : List Char → Option (List Char)
  | [] => if marker.isEmpty then some [] else none
  | c :: s =>
    match beforeLast? marker s with
    | some front => some (c :: front)
    | none => if marker.isPrefixOf (c :: s) then some [] else none

end DotQuery.Text
