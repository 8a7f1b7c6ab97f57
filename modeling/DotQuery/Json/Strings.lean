import DotQuery.Json.Fault

/-! Reading JSON strings.

An escape is read where its backslash stands, as a character and the number of
characters that write it. Characters outside the basic plane may be written as two
escapes, a leading and a trailing surrogate; a surrogate alone is no character. -/
namespace DotQuery.Json
open Text

def hexDigit? (c : Char) : Option Nat :=
  if '0' ≤ c ∧ c ≤ '9' then some (c.toNat - '0'.toNat)
  else if 'a' ≤ c ∧ c ≤ 'f' then some (c.toNat - 'a'.toNat + 10)
  else if 'A' ≤ c ∧ c ≤ 'F' then some (c.toNat - 'A'.toNat + 10)
  else none

def hexValue? (a b c d : Char) : Option Nat := do
  let a ← hexDigit? a
  let b ← hexDigit? b
  let c ← hexDigit? c
  let d ← hexDigit? d
  pure (a * 4096 + b * 256 + c * 16 + d)

/-- The number that the four hexadecimal digits of an escape write. -/
def readHex (s : List Char) : Except Fault Nat :=
  match s with
  | a :: b :: c :: d :: _ =>
    match hexValue? a b c d with
    | some n => .ok n
    | none => .error (.within 4 .invalidEscape s)
  | _ =>
    if byteLength s < 4 then .error (.before .endInString [])
    else .error (.within 4 .invalidEscape s)

def isLeadingSurrogate (n : Nat) : Bool :=
  decide (0xd800 ≤ n) && decide (n ≤ 0xdbff)

def isTrailingSurrogate (n : Nat) : Bool :=
  decide (0xdc00 ≤ n) && decide (n ≤ 0xdfff)

/-- The character of a surrogate pair. -/
def pairChar (leading trailing : Nat) : Char :=
  Char.ofNat (0x10000 + (leading - 0xd800) * 0x400 + (trailing - 0xdc00))

/-- The character of a surrogate pair whose second half the text starts with. -/
def readTrailing (leading : Nat) (s : List Char) : Except Fault Char :=
  match s with
  | [] => .error (.before .endInString [])
  | '\\' :: [] => .error (.before .endInString [])
  | '\\' :: 'u' :: rest =>
    match readHex rest with
    | .error f => .error f
    | .ok n =>
      if isTrailingSurrogate n then .ok (pairChar leading n)
      else .error (.before .loneSurrogate (rest.drop 4))
  | '\\' :: rest => .error (.atNext .unfinishedSurrogate rest)
  | _ => .error (.atNext .unfinishedSurrogate s)

/-- Reads the digits of an escape that writes a number: the character, and how many
characters the escape has behind its backslash. -/
def readNumbered (s : List Char) : Except Fault (Char × Nat) :=
  match readHex s with
  | .error f => .error f
  | .ok n =>
    if isTrailingSurrogate n then .error (.before .loneSurrogate (s.drop 4))
    else if isLeadingSurrogate n then
      match readTrailing n (s.drop 4) with
      | .error f => .error f
      | .ok c => .ok (c, 11)
    else .ok (Char.ofNat n, 5)

/-- Reads an escape behind its backslash: the character that it writes, and how many
characters it has there. -/
def readEscape (s : List Char) : Except Fault (Char × Nat) :=
  match s with
  | [] => .error (.before .endInString [])
  | '"' :: _ => .ok ('"', 1)
  | '\\' :: _ => .ok ('\\', 1)
  | '/' :: _ => .ok ('/', 1)
  | 'b' :: _ => .ok ('\x08', 1)
  | 'f' :: _ => .ok ('\x0c', 1)
  | 'n' :: _ => .ok ('\n', 1)
  | 'r' :: _ => .ok ('\r', 1)
  | 't' :: _ => .ok ('\t', 1)
  | 'u' :: rest => readNumbered rest
  | _ => .error (.atNext .invalidEscape s)

/-- Reads the rest of a string. The characters so far are `done`, last one first, and
the next `passed` characters belong to an escape among them. -/
def readChars (done : List Char) (passed : Nat) : List Char → Except Fault (String × List Char)
  | [] => .error (.before .endInString [])
  | c :: rest =>
    match passed with
    | n + 1 => readChars done n rest
    | 0 =>
      if c = '"' then .ok (String.ofList done.reverse, rest)
      else if c = '\\' then
        match readEscape rest with
        | .error f => .error f
        | .ok (e, n) => readChars (e :: done) n rest
      else if c.toNat < 0x20 then .error (.before .controlCharacter rest)
      else readChars (c :: done) 0 rest

/-- Reads a string behind its opening quote. -/
def readString (s : List Char) : Except Fault (String × List Char) :=
  readChars [] 0 s

theorem readChars_length_lt {done s rest : List Char} {passed : Nat} {t : String}
    (h : readChars done passed s = .ok (t, rest)) : rest.length < s.length := by
  induction s generalizing done passed with
  | nil => cases h
  | cons c s ih =>
    have hl : s.length < (c :: s).length := by simp
    cases passed with
    | succ n => exact Nat.lt_trans (ih h) hl
    | zero =>
      simp only [readChars] at h
      split at h
      · cases h
        exact hl
      · split at h
        · split at h
          · cases h
          · exact Nat.lt_trans (ih h) hl
        · split at h
          · cases h
          · exact Nat.lt_trans (ih h) hl

theorem readString_length_lt {s rest : List Char} {t : String}
    (h : readString s = .ok (t, rest)) : rest.length < s.length :=
  readChars_length_lt h

end DotQuery.Json
