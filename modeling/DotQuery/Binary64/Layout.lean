import DotQuery.Binary64.Shortest

/-! The text of a number: the shortest digits that read back, positional where the
decimal exponent lies between -5 and 15, with an exponent elsewhere.

The text always has a fraction or an exponent, so it cannot be taken for the text
of an integer. -/
namespace DotQuery.Binary64

/-- The decimal exponents that are written without an exponent. -/
def writesPositionally (exponent : Int) : Bool :=
  decide (-5 ≤ exponent) && decide (exponent ≤ 15)

/-- Digits with the point `exponent` places right of the end of the last one. -/
def positional (digits : List Char) (exponent : Int) : List Char :=
  match exponent with
  | .ofNat e => digits ++ List.replicate e '0' ++ ['.', '0']
  | .negSucc e =>
    if e + 1 < digits.length then
      digits.take (digits.length - (e + 1)) ++ '.' :: digits.drop (digits.length - (e + 1))
    else '0' :: '.' :: List.replicate (e + 1 - digits.length) '0' ++ digits

/-- One digit, the others behind a point, and the decimal exponent with its sign. -/
def scientific (digits : List Char) (exponent : Int) : List Char :=
  let mantissa :=
    match digits with
    | [] => []
    | [d] => [d]
    | d :: ds => d :: '.' :: ds
  let sign := if exponent < 0 then '-' else '+'
  mantissa ++ 'e' :: sign :: Nat.toDigits 10 exponent.natAbs

/-- The text of a decimal that is not zero. -/
def Decimal.layout (d : Decimal) : List Char :=
  let digits := Nat.toDigits 10 d.digits
  let leading := d.exponent + digits.length - 1
  if writesPositionally leading then positional digits d.exponent
  else scientific digits leading

def magnitudeLayout (rank : Nat) : List Char :=
  if rank = 0 then ['0', '.', '0'] else (shortest rank).layout

def layout (x : Binary64) : List Char :=
  if x.negative then '-' :: magnitudeLayout x.rank else magnitudeLayout x.rank

end DotQuery.Binary64
