/-! Finite binary floating-point numbers of 64 bits.

A number is a sign and the rank of its magnitude among all finite magnitudes,
counted from zero. The rank is also what the lower 63 bits of the usual encoding
hold. Every magnitude is a whole multiple of 2^-1074 (`units`), so rounding is
exact arithmetic on natural numbers. -/
namespace DotQuery

/-- How many finite magnitudes there are. -/
def magnitudeCount : Nat := 2047 * Nat.pow 2 52

structure Binary64 where
  negative : Bool
  rank : Fin magnitudeCount
deriving DecidableEq

namespace Binary64

def zero (negative : Bool) : Binary64 :=
  ⟨negative, 0, by decide⟩

/-- The whole part of a magnitude in units of its last place. -/
def significand (rank : Nat) : Nat :=
  if rank < Nat.pow 2 52 then rank else Nat.pow 2 52 + rank % Nat.pow 2 52

/-- How often the unit of the last place doubles 2^-1074. -/
def scale (rank : Nat) : Nat :=
  rank / Nat.pow 2 52 - 1

/-- How many units of 2^-1074 make one. -/
def unitsInOne : Nat := Nat.pow 2 1074

/-- The magnitude as a multiple of 2^-1074. -/
def units (rank : Nat) : Nat :=
  significand rank * Nat.pow 2 (scale rank)

/-- The whole number nearest to `n / d`, an even one if two are as near. -/
def roundHalfEven (n d : Nat) : Nat :=
  let q := n / d
  let r := n % d
  if 2 * r < d then q else if d < 2 * r then q + 1 else q + q % 2

/-- The rank nearest to `n / d` units, an even one if two are as near. It is not
bounded: a rank that no finite magnitude has stands for an overflow. -/
def nearestRank (n d : Nat) : Nat :=
  let s := (n / d).log2 - 52
  s * Nat.pow 2 52 + roundHalfEven n (d * Nat.pow 2 s)

/-- The rank nearest to `digits * 10 ^ exponent`. -/
def nearestRankOfDecimal (digits : Nat) (exponent : Int) : Nat :=
  match exponent with
  | .ofNat e => nearestRank (digits * Nat.pow 10 e * unitsInOne) 1
  | .negSucc e => nearestRank (digits * unitsInOne) (Nat.pow 10 (e + 1))

/-- The number nearest to `digits * 10 ^ exponent`, if that is finite. Far beyond
either end of the range the answer is known without the power of ten. -/
def ofDecimal? (negative : Bool) (digits : Nat) (exponent : Int) : Option Binary64 :=
  if digits = 0 ∨ exponent < -(400 + digits.log2 : Int) then some (zero negative)
  else if 310 < exponent then none
  else
    let rank := nearestRankOfDecimal digits exponent
    if h : rank < magnitudeCount then some ⟨negative, rank, h⟩ else none

end Binary64
end DotQuery
