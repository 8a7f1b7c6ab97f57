import DotQuery.Binary64.Basic

/-! The shortest decimal that reads back as a number.

The decimals with a given exponent form a grid. From a coarse grid downwards, the
two neighbours of the magnitude on the grid are read back; the first grid on which
one of them gives the number again has the fewest digits. Of two such neighbours the
nearer one is taken, and the even one where neither is nearer. -/
namespace DotQuery.Binary64

/-- The number `digits * 10 ^ exponent`. -/
structure Decimal where
  digits : Nat
  exponent : Int
deriving DecidableEq, Repr

namespace Decimal

/-- Whether the decimal is read as the magnitude of this rank. -/
def reads (d : Decimal) (rank : Nat) : Bool :=
  match ofDecimal? false d.digits d.exponent with
  | some x => x.rank.val == rank
  | none => false

end Decimal

/-- A magnitude in units of `10 ^ exponent`, as a fraction. -/
def gridFraction (rank : Nat) (exponent : Int) : Nat × Nat :=
  match exponent with
  | .ofNat e => (units rank, unitsInOne * Nat.pow 10 e)
  | .negSucc e => (units rank * Nat.pow 10 (e + 1), unitsInOne)

/-- The neighbour of the magnitude on the grid that is read back as it, the nearer
one if both are, and the even one if both are as near. -/
def onGrid? (rank : Nat) (exponent : Int) : Option Decimal :=
  let (n, d) := gridFraction rank exponent
  let below : Decimal := ⟨n / d, exponent⟩
  let above : Decimal := ⟨n / d + 1, exponent⟩
  match below.reads rank, above.reads rank with
  | true, true => some ⟨roundHalfEven n d, exponent⟩
  | true, false => some below
  | false, true => some above
  | false, false => none

/-- All digits of the magnitude. -/
def exactDecimal (rank : Nat) : Decimal :=
  ⟨units rank * Nat.pow 5 1074, -1074⟩

/-- The first decimal that is read back, on `grids` grids from the given exponent
downwards. -/
def firstOnGrids (rank : Nat) : Nat → Int → Decimal
  | 0, _ => exactDecimal rank
  | grids + 1, exponent =>
    match onGrid? rank exponent with
    | some d => d
    | none => firstOnGrids rank grids (exponent - 1)

/-- A power of ten above the magnitude, and at most two powers above. -/
def exponentAbove (rank : Nat) : Int :=
  (((units rank).log2 : Int) - 1073) * 30103 / 100000 + 1

/-- Seventeen digits always suffice, so twenty grids reach far enough. -/
def shortest (rank : Nat) : Decimal :=
  firstOnGrids rank 20 (exponentAbove rank)

end DotQuery.Binary64
