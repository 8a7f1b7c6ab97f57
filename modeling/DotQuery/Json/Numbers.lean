import DotQuery.Json.Fault
import DotQuery.Json.Value
import DotQuery.Text.Blank
import DotQuery.Text.Digits

/-! Reading JSON numbers.

Digits with neither a fraction nor an exponent are an integer if it is in range.
Every other number is the nearest float, and a number whose nearest float is not
finite is out of range. -/
namespace DotQuery.Json
open Text

/-- Reads the digits before the point. A zero stands alone. -/
def readWhole (s : List Char) : Except Fault (List Char × List Char) :=
  match s with
  | [] => .error (.before .endInValue [])
  | '0' :: rest =>
    match rest with
    | [] => .ok (['0'], rest)
    | c :: _ => if c.isDigit then .error (.atNext .invalidNumber rest) else .ok (['0'], rest)
  | c :: _ => if c.isDigit then .ok (spanDigits s) else .error (.atNext .invalidNumber s)

/-- Reads the digits behind the point, none where there is no point. -/
def readFraction (s : List Char) : Except Fault (List Char × List Char) :=
  match s with
  | '.' :: rest =>
    match spanDigits rest with
    | ([], []) => .error (.before .endInValue [])
    | ([], c :: rest) => .error (.atNext .invalidNumber (c :: rest))
    | (digits, rest) => .ok (digits, rest)
  | _ => .ok ([], s)

/-- The greatest exponent that is not out of range by itself. -/
def greatestExponent : Nat := 2147483647

/-- Reads the digits of an exponent that start with the value `n`. Where the exponent
is `limited`, no start of it may exceed the greatest one. -/
def readExponentDigits (limited : Bool) (n : Nat) : List Char → Except Fault (Nat × List Char)
  | [] => .ok (n, [])
  | c :: s =>
    if c.isDigit then
      let n := 10 * n + (c.toNat - '0'.toNat)
      if limited && decide (greatestExponent < n) then .error (.before .numberOutOfRange s)
      else readExponentDigits limited n s
    else .ok (n, c :: s)

/-- Reads an exponent behind its letter. Digits that are all zero give a zero with
any exponent, and a negative exponent gives a small number, so neither is limited. -/
def readExponent (allZero : Bool) (s : List Char) : Except Fault (Int × List Char) :=
  let (negative, rest) :=
    match s with
    | '-' :: rest => (true, rest)
    | '+' :: rest => (false, rest)
    | _ => (false, s)
  match rest with
  | [] => .error (.before .endInValue [])
  | c :: _ =>
    if c.isDigit then
      match readExponentDigits (!negative && !allZero) 0 rest with
      | .error f => .error f
      | .ok (n, rest) => .ok (if negative then -(n : Int) else n, rest)
    else .error (.atNext .invalidNumber rest)

/-- The number with the given sign and digits, if it is an integer that is kept
exactly. Minus zero is none. -/
def exactInteger? (negative : Bool) (n : Nat) : Option Int :=
  if negative then
    if n ≠ 0 ∧ leastInteger ≤ -(n : Int) then some (-(n : Int)) else none
  else if (n : Int) ≤ greatestInteger then some n else none

/-- The float with the given decimal value, read up to `rest`. -/
def floatNumber (negative : Bool) (digits : Nat) (exponent : Int) (rest : List Char) :
    Except Fault (Number × List Char) :=
  match Binary64.ofDecimal? negative digits exponent with
  | some x => .ok (.float x, rest)
  | none => .error (.before .numberOutOfRange rest)

/-- The text behind the letter that starts an exponent. -/
def exponentMark? : List Char → Option (List Char)
  | 'e' :: rest => some rest
  | 'E' :: rest => some rest
  | _ => none

/-- How many significant digits of a number are read one by one. -/
def digitLimit : Nat := 768

/-- The decimal that the digits before and behind the point write, as a whole number
and an exponent. Zeros at the end of the fraction do not matter. Digits beyond the
limit only make the decimal greater than the digits before them alone, by as little as
a single further digit can; this holds of zeros before the point, too. -/
def decimalOf (whole fraction : List Char) : Nat × Int :=
  let fraction := trimEndWhile (· == '0') fraction
  let digits := (whole ++ fraction).dropWhile (· == '0')
  if digits.length ≤ digitLimit then (digitsValue digits, -(fraction.length : Int))
  else
    (digitsValue (digits.take digitLimit ++ ['1']),
      (digits.length : Int) - (digitLimit + 1) - fraction.length)

/-- Reads what stands behind the digits of a number, an exponent or nothing. -/
def readEnd (negative : Bool) (whole fraction : List Char) (s : List Char) :
    Except Fault (Number × List Char) :=
  match exponentMark? s with
  | some rest =>
    match readExponent ((decimalOf whole fraction).1 == 0) rest with
    | .error f => .error f
    | .ok (exponent, rest) =>
      floatNumber negative (decimalOf whole fraction).1
        (exponent + (decimalOf whole fraction).2) rest
  | none =>
    match fraction, exactInteger? negative (digitsValue whole) with
    | [], some n => .ok (.integer n, s)
    | _, _ => floatNumber negative (decimalOf whole fraction).1 (decimalOf whole fraction).2 s

/-- Reads a number behind its sign. -/
def readUnsigned (negative : Bool) (s : List Char) : Except Fault (Number × List Char) :=
  match readWhole s with
  | .error f => .error f
  | .ok (whole, rest) =>
    match readFraction rest with
    | .error f => .error f
    | .ok (fraction, rest) => readEnd negative whole fraction rest

def readNumber (s : List Char) : Except Fault (Number × List Char) :=
  match s with
  | '-' :: rest => readUnsigned true rest
  | _ => readUnsigned false s

theorem readWhole_length_lt {s digits rest : List Char} (h : readWhole s = .ok (digits, rest)) :
    rest.length < s.length := by
  unfold readWhole at h
  split at h
  · cases h
  · split at h
    · cases h
      simp
    · split at h
      · cases h
      · cases h
        simp
  · split at h
    · rename_i c s _ hc
      cases h
      have := spanDigits_length_le s
      simp only [spanDigits, List.dropWhile_cons, hc, if_true, List.length_cons] at this ⊢
      omega
    · cases h

theorem readFraction_length_le {s digits rest : List Char}
    (h : readFraction s = .ok (digits, rest)) : rest.length ≤ s.length := by
  unfold readFraction at h
  split at h
  · rename_i s
    have hs := spanDigits_length_le s
    split at h
    · cases h
    · cases h
    · rename_i he
      cases h
      rw [he] at hs
      exact Nat.le_succ_of_le hs
  · cases h
    exact Nat.le_refl _

theorem readExponentDigits_length_le {limited : Bool} {n m : Nat} {s rest : List Char}
    (h : readExponentDigits limited n s = .ok (m, rest)) : rest.length ≤ s.length := by
  induction s generalizing n with
  | nil =>
    cases h
    exact Nat.le_refl _
  | cons c s ih =>
    simp only [readExponentDigits] at h
    split at h
    · split at h
      · cases h
      · exact Nat.le_succ_of_le (ih h)
    · cases h
      exact Nat.le_refl _

theorem readExponent_length_le {allZero : Bool} {e : Int} {s rest : List Char}
    (h : readExponent allZero s = .ok (e, rest)) : rest.length ≤ s.length := by
  have key : ∀ {sign : Bool} {t : List Char}, t.length ≤ s.length →
      (match t with
        | [] => .error (.before .endInValue [])
        | c :: _ =>
          if c.isDigit then
            match readExponentDigits (!sign && !allZero) 0 t with
            | .error f => .error f
            | .ok (n, rest) => .ok (if sign then -(n : Int) else n, rest)
          else .error (.atNext .invalidNumber t) : Except Fault (Int × List Char)) = .ok (e, rest) →
      rest.length ≤ s.length := by
    intro sign t ht h
    split at h
    · cases h
    · split at h
      · split at h
        · cases h
        · rename_i hx
          cases h
          exact Nat.le_trans (readExponentDigits_length_le hx) ht
      · cases h
  unfold readExponent at h
  split at h
  rename_i hm
  split at hm
  all_goals
    cases hm
    exact key (by simp) h

theorem floatNumber_rest {negative : Bool} {digits : Nat} {exponent : Int} {s rest : List Char}
    {n : Number} (h : floatNumber negative digits exponent s = .ok (n, rest)) : rest = s := by
  unfold floatNumber at h
  split at h
  · cases h
    rfl
  · cases h

theorem exponentMark?_length_lt {s rest : List Char} (h : exponentMark? s = some rest) :
    rest.length < s.length := by
  unfold exponentMark? at h
  split at h
  · cases h
    simp
  · cases h
    simp
  · cases h

theorem readEnd_length_le {negative : Bool} {whole fraction s rest : List Char} {n : Number}
    (h : readEnd negative whole fraction s = .ok (n, rest)) : rest.length ≤ s.length := by
  unfold readEnd at h
  split at h
  · rename_i hm
    have := exponentMark?_length_lt hm
    split at h
    · cases h
    · rename_i he
      have := readExponent_length_le he
      rw [floatNumber_rest h]
      omega
  · split at h
    · cases h
      exact Nat.le_refl _
    · exact Nat.le_of_eq (congrArg List.length (floatNumber_rest h))

theorem readUnsigned_length_lt {negative : Bool} {s rest : List Char} {n : Number}
    (h : readUnsigned negative s = .ok (n, rest)) : rest.length < s.length := by
  unfold readUnsigned at h
  split at h
  · cases h
  · rename_i hw
    have := readWhole_length_lt hw
    split at h
    · cases h
    · rename_i hf
      have := readFraction_length_le hf
      have := readEnd_length_le h
      omega

theorem readNumber_length_lt {s rest : List Char} {n : Number}
    (h : readNumber s = .ok (n, rest)) : rest.length < s.length := by
  unfold readNumber at h
  split at h
  · have := readUnsigned_length_lt h
    simp only [List.length_cons]
    omega
  · exact readUnsigned_length_lt h

end DotQuery.Json
