import DotQuery.Text.Digits
import Mathlib.Data.List.Induction
import Mathlib.Data.Nat.Digits.Defs

/-! Decimal numerals.

`digitsValue` reads digits from the first to the last; the positional reading of a
numeral is the library's `Nat.ofDigits`, from the last digit to the first. -/
namespace DotQuery.Text

/-- The number that one digit stands for. -/
def digitOf (c : Char) : Nat :=
  c.toNat - '0'.toNat

/-- One or more digits that write the number `n`; zeros may come first. -/
structure Numeral (digits : List Char) (n : Nat) : Prop where
  ne_nil : digits ≠ []
  isDigit : ∀ c ∈ digits, c.isDigit = true
  value : Nat.ofDigits 10 (digits.reverse.map digitOf) = n

theorem digitsValue_eq_ofDigits (digits : List Char) :
    digitsValue digits = Nat.ofDigits 10 (digits.reverse.map digitOf) := by
  induction digits using List.reverseRecOn with
  | nil => rfl
  | append_singleton digits c ih =>
    rw [digitsValue_append_one, ih, List.reverse_append, List.reverse_singleton,
      List.singleton_append, List.map_cons, Nat.ofDigits_cons]
    show _ + digitOf c = digitOf c + _
    omega

theorem numeral_iff {digits : List Char} {n : Nat} :
    Numeral digits n ↔ digits ≠ [] ∧ (∀ c ∈ digits, c.isDigit = true) ∧ digitsValue digits = n := by
  rw [digitsValue_eq_ofDigits]
  exact ⟨fun h => ⟨h.ne_nil, h.isDigit, h.value⟩, fun h => ⟨h.1, h.2.1, h.2.2⟩⟩

/-! ### Digits side by side -/

theorem digitsValue_append (a b : List Char) :
    digitsValue (a ++ b) = digitsValue a * 10 ^ b.length + digitsValue b := by
  show Nat.ofDigitChars 10 (a ++ b) 0 = _
  rw [Nat.ofDigitChars_append, Nat.ofDigitChars_eq_ofDigitChars_zero, Nat.mul_comm]
  rfl

theorem digitsValue_zeros (n : Nat) : digitsValue (List.replicate n '0') = 0 :=
  Nat.ofDigitChars_replicate_zero

theorem digitsValue_zeros_append (n : Nat) (digits : List Char) :
    digitsValue (List.replicate n '0' ++ digits) = digitsValue digits := by
  rw [digitsValue_append, digitsValue_zeros, Nat.zero_mul, Nat.zero_add]

theorem numeral_zero_cons_iff {i : List Char} (hne : i ≠ []) {n : Nat} :
    Numeral ('0' :: i) n ↔ Numeral i n := by
  have hvalue : digitsValue ('0' :: i) = digitsValue i := digitsValue_zeros_append 1 i
  have hzero : ('0').isDigit = true := by decide
  simp [numeral_iff, hvalue, hne, hzero]

theorem digitsValue_append_zeros (n : Nat) (digits : List Char) :
    digitsValue (digits ++ List.replicate n '0') = digitsValue digits * 10 ^ n := by
  rw [digitsValue_append, digitsValue_zeros, List.length_replicate, Nat.add_zero]

/-! ### The digits of a number -/

theorem digitsValue_toDigits (n : Nat) : digitsValue (Nat.toDigits 10 n) = n :=
  Nat.ofDigitChars_ten_toDigits

theorem isDigit_toDigits (n : Nat) : ∀ c ∈ Nat.toDigits 10 n, c.isDigit = true :=
  fun _ hc => Nat.isDigit_of_mem_toDigits (by decide) (by decide) hc

/-- A number other than zero is not written with a zero in front. -/
theorem exists_toDigits_eq_cons {n : Nat} (h : n ≠ 0) :
    ∃ c s, Nat.toDigits 10 n = c :: s ∧ c ≠ '0' := by
  induction n using Nat.base_induction 10 (by decide) with
  | single n hn =>
    have hfirst : ∀ m < 10, m ≠ 0 → Nat.digitChar m ≠ '0' := by decide
    exact ⟨n.digitChar, [], Nat.toDigits_of_lt_base hn, hfirst n hn h⟩
  | digit n d hd hn ih =>
    obtain ⟨c, s, hs, hc⟩ := ih (Nat.ne_of_gt hn)
    refine ⟨c, s ++ Nat.toDigits 10 d, ?_, hc⟩
    rw [← Nat.toDigits_append_toDigits (by decide) hn hd, hs, List.cons_append]

end DotQuery.Text
