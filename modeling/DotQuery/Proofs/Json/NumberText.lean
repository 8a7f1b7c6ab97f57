import DotQuery.Json.Numbers
import DotQuery.Proofs.Binary64.ReadBack
import DotQuery.Proofs.Text.Numeral
import DotQuery.Proofs.Text.Scan

/-! Reading the text of a number.

Every number is written as a whole part, a fraction that may be missing and an
exponent that may be missing. Such a text is read in two steps: its parts are found
(`readUnsigned_parts`), and the decimal that they write is taken (`ofDecimal?_decimalOf`).
A fraction or an exponent makes the number a float. -/
namespace DotQuery.Json
open Text Binary64

/-! ### The parts of a number -/

/-- The digits that may stand before the point: a zero stands alone. -/
structure IsWhole (digits : List Char) : Prop where
  ne_nil : digits ≠ []
  isDigit : ∀ c ∈ digits, c.isDigit = true
  zero_alone : digits.head? = some '0' → digits = ['0']

/-- The text of a fraction, with its point. -/
def fractionText (fraction : List Char) : List Char :=
  if fraction = [] then [] else '.' :: fraction

/-- The characters that a number in front of them would be read on with. -/
def continuesNumber (c : Char) : Bool :=
  c.isDigit || c == '.' || c == 'e' || c == 'E'

theorem stops_isDigit {s : List Char} (h : Stops continuesNumber s) : Stops Char.isDigit s := by
  intro c hc
  have := h c hc
  simp only [continuesNumber, Bool.or_eq_false_iff] at this
  exact this.1.1.1

theorem spanDigits_append_stops {digits rest : List Char} (hd : ∀ c ∈ digits, c.isDigit = true)
    (hrest : Stops Char.isDigit rest) : spanDigits (digits ++ rest) = (digits, rest) := by
  rw [spanDigits, takeWhile_append_stops hd hrest, dropWhile_append_stops hd hrest]

theorem IsWhole.exists_cons {digits : List Char} (h : IsWhole digits) :
    ∃ c s, digits = c :: s ∧ c.isDigit = true ∧ c ≠ '-' := by
  obtain ⟨hne, hdigit, -⟩ := h
  cases digits with
  | nil => exact absurd rfl hne
  | cons c s =>
    have hc := hdigit c List.mem_cons_self
    refine ⟨c, s, rfl, hc, ?_⟩
    intro he
    subst he
    exact absurd hc (by decide)

theorem isDigit_zeros (k : Nat) : ∀ c ∈ List.replicate k '0', c.isDigit = true := by
  intro c hc
  rw [List.eq_of_mem_replicate hc]
  rfl

theorem isWhole_zero : IsWhole ['0'] :=
  ⟨List.cons_ne_nil _ _, isDigit_zeros 1, fun _ => rfl⟩

/-- Digits that do not start with a zero may stand before the point. -/
theorem isWhole_of_ne_zero {c : Char} {s : List Char} (hd : ∀ a ∈ c :: s, a.isDigit = true)
    (hc : c ≠ '0') : IsWhole (c :: s) := by
  refine ⟨List.cons_ne_nil c s, hd, fun h => ?_⟩
  cases h
  exact absurd rfl hc

theorem isWhole_toDigits (n : Nat) : IsWhole (Nat.toDigits 10 n) := by
  by_cases h : n = 0
  · rw [h]
    exact isWhole_zero
  · obtain ⟨c, s, hs, hc⟩ := exists_toDigits_eq_cons h
    have hd := isDigit_toDigits n
    rw [hs] at hd ⊢
    exact isWhole_of_ne_zero hd hc

theorem readWhole_append {whole rest : List Char} (hw : IsWhole whole)
    (hrest : Stops Char.isDigit rest) : readWhole (whole ++ rest) = .ok (whole, rest) := by
  obtain ⟨c, s, rfl, hc, -⟩ := hw.exists_cons
  by_cases hzero : c = '0'
  · subst hzero
    obtain rfl : s = [] := by simpa using hw.zero_alone rfl
    cases rest with
    | nil => rfl
    | cons d rest => simp [readWhole, hrest d rfl]
  · rw [List.cons_append, readWhole]
    · rw [← List.cons_append, spanDigits_append_stops hw.isDigit hrest]
      simp [hc]
    · exact hzero

theorem readFraction_append {fraction rest : List Char}
    (hf : ∀ c ∈ fraction, c.isDigit = true) (hrest : Stops Char.isDigit rest)
    (hpoint : rest.head? ≠ some '.') :
    readFraction (fractionText fraction ++ rest) = .ok (fraction, rest) := by
  cases fraction with
  | nil =>
    show readFraction rest = .ok ([], rest)
    unfold readFraction
    split
    · exact absurd rfl hpoint
    · rfl
  | cons c s =>
    show readFraction ('.' :: (c :: s ++ rest)) = .ok (c :: s, rest)
    rw [readFraction, spanDigits_append_stops hf hrest]

/-- The parts of a number are found in its text. -/
theorem readUnsigned_parts {whole fraction rest : List Char} (negative : Bool)
    (hw : IsWhole whole) (hf : ∀ c ∈ fraction, c.isDigit = true)
    (hrest : Stops Char.isDigit rest) (hpoint : rest.head? ≠ some '.') :
    readUnsigned negative (whole ++ (fractionText fraction ++ rest)) =
      readEnd negative whole fraction rest := by
  have hstops : Stops Char.isDigit (fractionText fraction ++ rest) := by
    unfold fractionText
    split
    · exact hrest
    · exact stops_cons (by decide)
  rw [readUnsigned, readWhole_append hw hstops]
  dsimp only
  rw [readFraction_append hf hrest hpoint]

/-! ### Exponents -/

/-- Digits that stay within the bound are read as the number that they write. -/
theorem readExponentDigits_append {digits rest : List Char} (limited : Bool) (start : Nat)
    (hd : ∀ c ∈ digits, c.isDigit = true) (hrest : Stops Char.isDigit rest)
    (hbound : Nat.ofDigitChars 10 digits start ≤ greatestExponent) :
    readExponentDigits limited start (digits ++ rest) =
      .ok (Nat.ofDigitChars 10 digits start, rest) := by
  induction digits generalizing start with
  | nil =>
    cases rest with
    | nil => rfl
    | cons c rest => simp [readExponentDigits, hrest c rfl]
  | cons c digits ih =>
    have hc := hd c List.mem_cons_self
    have hds : ∀ a ∈ digits, a.isDigit = true := fun a ha => hd a (List.mem_cons_of_mem c ha)
    have hstart : 10 * start + (c.toNat - '0'.toNat) ≤ greatestExponent := by
      refine Nat.le_trans ?_ hbound
      rw [Nat.ofDigitChars_cons, Nat.ofDigitChars_eq_ofDigitChars_zero]
      exact Nat.le_add_right_of_le (Nat.le_mul_of_pos_left _ (Nat.pow_pos (by decide)))
    have hwithin : (limited && decide (greatestExponent < 10 * start + (c.toNat - '0'.toNat))) =
        false := by
      rw [decide_eq_false (by omega), Bool.and_false]
    rw [List.cons_append, readExponentDigits, if_pos hc]
    dsimp only
    rw [hwithin, Nat.ofDigitChars_cons]
    exact ih _ hds hbound

/-- The text of an exponent, with its sign. -/
def exponentText (exponent : Int) : List Char :=
  (if exponent < 0 then '-' else '+') :: Nat.toDigits 10 exponent.natAbs

theorem readExponent_text {allZero : Bool} {exponent : Int} {rest : List Char}
    (hbound : exponent.natAbs ≤ greatestExponent) (hrest : Stops Char.isDigit rest) :
    readExponent allZero (exponentText exponent ++ rest) = .ok (exponent, rest) := by
  obtain ⟨c, s, hs, hc, -⟩ := (isWhole_toDigits exponent.natAbs).exists_cons
  have hread : ∀ limited, readExponentDigits limited 0 (c :: (s ++ rest)) =
      .ok (exponent.natAbs, rest) := by
    intro limited
    have hvalue : Nat.ofDigitChars 10 (Nat.toDigits 10 exponent.natAbs) 0 = exponent.natAbs :=
      digitsValue_toDigits _
    have := readExponentDigits_append limited 0 (isDigit_toDigits exponent.natAbs) hrest
      (by rwa [hvalue])
    rwa [hvalue, hs, List.cons_append] at this
  unfold exponentText
  rw [hs]
  by_cases hneg : exponent < 0
  · rw [if_pos hneg]
    simp only [List.cons_append, readExponent, hc, hread, if_true]
    congr 2
    omega
  · rw [if_neg hneg]
    simp only [List.cons_append, readExponent, hc, hread, if_true, Bool.false_eq_true, if_false]
    congr 2
    omega

/-! ### The decimal of a number -/

/-- Digits are other digits and the zeros behind them. -/
theorem exists_trimEnd_zeros (digits : List Char) :
    ∃ k, digits = trimEndWhile (· == '0') digits ++ List.replicate k '0' := by
  refine ⟨(digits.reverse.takeWhile (· == '0')).length, ?_⟩
  have hzeros : List.replicate (digits.reverse.takeWhile (· == '0')).length '0' =
      digits.reverse.takeWhile (· == '0') := by
    refine (List.eq_replicate_of_mem fun c hc => ?_).symm
    simpa using List.mem_takeWhile_imp hc
  rw [← List.reverse_inj, List.reverse_append, List.reverse_replicate, trimEndWhile,
    List.reverse_reverse, hzeros, List.takeWhile_append_dropWhile]

theorem digitsValue_dropWhile_zeros (digits : List Char) :
    digitsValue (digits.dropWhile (· == '0')) = digitsValue digits := by
  induction digits with
  | nil => rfl
  | cons c s ih =>
    rw [List.dropWhile_cons]
    split
    · rename_i hc
      rw [ih, eq_of_beq hc]
      exact (digitsValue_zeros_append 1 s).symm
    · rfl

/-- While the digits are within the limit, the decimal that is read is worth the digits
with the point where the fraction begins. -/
theorem ofDecimal?_decimalOf {whole fraction : List Char} (negative : Bool) (exponent : Int)
    (hlimit : (whole ++ fraction).length ≤ digitLimit) :
    ofDecimal? negative (decimalOf whole fraction).1
        (exponent + (decimalOf whole fraction).2) =
      ofDecimal? negative (digitsValue (whole ++ fraction)) (exponent - fraction.length) := by
  obtain ⟨k, hk⟩ := exists_trimEnd_zeros fraction
  have hlength := congrArg List.length hk
  rw [List.length_append, List.length_replicate] at hlength
  have hshort : ((whole ++ trimEndWhile (· == '0') fraction).dropWhile (· == '0')).length ≤
      digitLimit := by
    refine Nat.le_trans (List.length_dropWhile_le _ _) (Nat.le_trans ?_ hlimit)
    simp only [List.length_append]
    omega
  have hvalue : digitsValue (whole ++ fraction) =
      digitsValue (whole ++ trimEndWhile (· == '0') fraction) * 10 ^ k := by
    conv_lhs => rw [hk, ← List.append_assoc, digitsValue_append_zeros]
  rw [hvalue, ofDecimal?_mul_ten_pow]
  simp only [decimalOf, if_pos hshort, digitsValue_dropWhile_zeros]
  congr 1
  omega

theorem floatNumber_eq {digits : Nat} {exponent : Int} {x : Binary64} (negative : Bool)
    (rest : List Char) (h : ofDecimal? false digits exponent = some x) :
    floatNumber negative digits exponent rest = .ok (.float ⟨negative, x.rank⟩, rest) := by
  rw [floatNumber, ofDecimal?_eq_some h]

theorem exponentMark?_eq_none {s : List Char} (h : Stops continuesNumber s) :
    exponentMark? s = none := by
  unfold exponentMark?
  split
  · exact absurd (h 'e' rfl) (by decide)
  · exact absurd (h 'E' rfl) (by decide)
  · rfl

theorem head?_ne_point {s : List Char} (h : Stops continuesNumber s) : s.head? ≠ some '.' :=
  fun hs => absurd (h '.' hs) (by decide)

/-- Parts of a number that write the decimal `d`. -/
structure Writes (d : Decimal) (whole fraction : List Char) (exponent : Int) : Prop where
  isWhole : IsWhole whole
  isDigit : ∀ c ∈ fraction, c.isDigit = true
  limit : (whole ++ fraction).length ≤ digitLimit
  value : ofDecimal? false (digitsValue (whole ++ fraction)) (exponent - fraction.length) =
    ofDecimal? false d.digits d.exponent

section
variable {d : Decimal} {whole fraction rest : List Char} {x : Binary64}

/-- A fraction makes a number a float. -/
theorem readUnsigned_plain (negative : Bool) (h : Writes d whole fraction 0) (hne : fraction ≠ [])
    (hx : ofDecimal? false d.digits d.exponent = some x) (hrest : Stops continuesNumber rest) :
    readUnsigned negative (whole ++ fractionText fraction ++ rest) =
      .ok (.float ⟨negative, x.rank⟩, rest) := by
  have hvalue : ofDecimal? false (decimalOf whole fraction).1 (decimalOf whole fraction).2 =
      some x := by
    have := ofDecimal?_decimalOf false 0 h.limit
    rwa [h.value, hx, Int.zero_add] at this
  rw [List.append_assoc, readUnsigned_parts negative h.isWhole h.isDigit (stops_isDigit hrest)
    (head?_ne_point hrest)]
  unfold readEnd
  rw [exponentMark?_eq_none hrest]
  dsimp only
  split
  · exact absurd rfl hne
  · exact floatNumber_eq negative rest hvalue

/-- An exponent makes a number a float. -/
theorem readUnsigned_scientific (negative : Bool) {exponent : Int}
    (h : Writes d whole fraction exponent) (hbound : exponent.natAbs ≤ greatestExponent)
    (hx : ofDecimal? false d.digits d.exponent = some x) (hrest : Stops continuesNumber rest) :
    readUnsigned negative (whole ++ fractionText fraction ++ 'e' :: exponentText exponent ++ rest) =
      .ok (.float ⟨negative, x.rank⟩, rest) := by
  have hvalue : ofDecimal? false (decimalOf whole fraction).1
      (exponent + (decimalOf whole fraction).2) = some x := by
    rw [ofDecimal?_decimalOf false exponent h.limit, h.value, hx]
  rw [List.append_assoc, List.append_assoc, List.cons_append,
    readUnsigned_parts negative h.isWhole h.isDigit (stops_cons (by decide)) (by simp)]
  unfold readEnd
  rw [exponentMark?]
  dsimp only
  rw [readExponent_text hbound (stops_isDigit hrest)]
  exact floatNumber_eq negative rest hvalue

end

end DotQuery.Json
