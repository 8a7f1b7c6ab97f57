import DotQuery.Json.Printer
import DotQuery.Proofs.Json.Everywhere
import DotQuery.Proofs.Json.NumberText

/-! The text of a number is read back as the number.

A float is laid out in one of four ways. Each consists of parts that write the shortest
decimal of the float (`exists_layout_parts`), so they are read as that decimal, and the
decimal is read back as the float. -/
namespace DotQuery.Json
open Text Binary64

/-! ### The layout of a decimal -/

/-- The digits of a number that is not zero. -/
structure Significant (digits : List Char) (n : Nat) : Prop where
  ne_nil : digits ≠ []
  isDigit : ∀ c ∈ digits, c.isDigit = true
  head?_ne : digits.head? ≠ some '0'
  value : digitsValue digits = n

theorem significant_toDigits {n : Nat} (h : n ≠ 0) : Significant (Nat.toDigits 10 n) n := by
  obtain ⟨c, s, hs, hc⟩ := exists_toDigits_eq_cons h
  refine ⟨Nat.toDigits_ne_nil, isDigit_toDigits n, ?_, digitsValue_toDigits n⟩
  rw [hs]
  simpa using hc

section
variable {digits : List Char} {n : Nat} (h : Significant digits n)
include h

/-- Zeros fill the digits up to the point, and a zero stands behind it. -/
theorem writes_zeros {e : Nat} (hlimit : digits.length + e < digitLimit) :
    Writes ⟨n, e⟩ (digits ++ List.replicate e '0') ['0'] 0 := by
  refine ⟨⟨?_, fun c hc => ?_, ?_⟩, isDigit_zeros 1, ?_, ?_⟩
  · exact List.append_ne_nil_of_left_ne_nil h.ne_nil _
  · rcases List.mem_append.1 hc with hc | hc
    · exact h.isDigit c hc
    · exact isDigit_zeros e c hc
  · obtain ⟨c, s, rfl⟩ := List.exists_cons_of_ne_nil h.ne_nil
    exact fun hzero => absurd hzero h.head?_ne
  · simp only [List.length_append, List.length_replicate, List.length_singleton]
    omega
  · have hfraction : ['0'] = List.replicate 1 '0' := rfl
    rw [hfraction, digitsValue_append_zeros, digitsValue_append_zeros, h.value,
      ofDecimal?_mul_ten_pow, ofDecimal?_mul_ten_pow]
    congr 1
    simp

/-- The point stands between the digits. -/
theorem writes_inside {e : Nat} (hinside : e + 1 < digits.length)
    (hlimit : digits.length ≤ digitLimit) :
    Writes ⟨n, .negSucc e⟩ (digits.take (digits.length - (e + 1)))
      (digits.drop (digits.length - (e + 1))) 0 := by
  have hpos : digits.length - (e + 1) ≠ 0 := by omega
  refine ⟨⟨?_, fun c hc => h.isDigit c (List.mem_of_mem_take hc), ?_⟩,
    fun c hc => h.isDigit c (List.mem_of_mem_drop hc), ?_, ?_⟩
  · rw [← List.length_pos_iff, List.length_take]
    omega
  · rw [List.head?_take, if_neg hpos]
    exact fun hzero => absurd hzero h.head?_ne
  · rw [List.take_append_drop]
    exact hlimit
  · rw [List.take_append_drop, h.value, List.length_drop]
    dsimp only
    congr 1
    omega

/-- Zeros stand between the point and the digits. -/
theorem writes_below {e : Nat} (hbelow : digits.length ≤ e + 1) (hlimit : e + 1 < digitLimit) :
    Writes ⟨n, .negSucc e⟩ ['0'] (List.replicate (e + 1 - digits.length) '0' ++ digits) 0 := by
  have hwhole : ['0'] = List.replicate 1 '0' := rfl
  refine ⟨isWhole_zero, ?_, ?_, ?_⟩
  · intro c hc
    rcases List.mem_append.1 hc with hc | hc
    · exact isDigit_zeros _ c hc
    · exact h.isDigit c hc
  · simp only [List.length_append, List.length_replicate, List.length_singleton]
    omega
  · rw [hwhole, digitsValue_zeros_append, digitsValue_zeros_append, h.value, List.length_append,
      List.length_replicate]
    dsimp only
    congr 1
    omega

/-- The point stands behind the first digit. -/
theorem writes_scientific {c : Char} {s : List Char} (hs : digits = c :: s) (exponent : Int)
    (hlimit : digits.length ≤ digitLimit) :
    Writes ⟨n, exponent⟩ [c] s (exponent + digits.length - 1) := by
  obtain ⟨-, hdigit, hhead, hvalue⟩ := h
  subst hs
  refine ⟨⟨List.cons_ne_nil c [], fun a ha => hdigit a ?_, fun hzero => absurd hzero hhead⟩,
    fun a ha => hdigit a (List.mem_cons_of_mem c ha), hlimit, ?_⟩
  · rw [List.mem_singleton.1 ha]
    exact List.mem_cons_self
  · rw [List.singleton_append, hvalue, List.length_cons]
    dsimp only
    congr 1
    omega

end

/-- Every layout of a decimal consists of parts that write it. -/
theorem exists_layout_parts {d : Decimal} (hne : d.digits ≠ 0) (hmodest : d.IsModest) :
    (∃ whole fraction, Writes d whole fraction 0 ∧ fraction ≠ [] ∧
      d.layout = whole ++ fractionText fraction) ∨
    (∃ whole fraction exponent, Writes d whole fraction exponent ∧
      exponent.natAbs ≤ greatestExponent ∧
      d.layout = whole ++ fractionText fraction ++ 'e' :: exponentText exponent) := by
  have h := significant_toDigits hne
  obtain ⟨hlength, hlower, hupper⟩ := hmodest
  obtain ⟨n, exponent⟩ := d
  dsimp only at *
  dsimp only [Decimal.layout]
  generalize Nat.toDigits 10 n = digits at *
  by_cases hpositional : writesPositionally (exponent + digits.length - 1) = true
  · left
    rw [if_pos hpositional]
    simp only [writesPositionally, Bool.and_eq_true, decide_eq_true_eq] at hpositional
    cases exponent with
    | ofNat e =>
      rw [Int.ofNat_eq_natCast] at hpositional
      refine ⟨_, _, writes_zeros h (e := e) ?_, by decide, ?_⟩
      · unfold digitLimit
        omega
      · rfl
    | negSucc e =>
      rw [positional]
      by_cases hinside : e + 1 < digits.length
      · have hfraction : digits.drop (digits.length - (e + 1)) ≠ [] := by
          rw [← List.length_pos_iff, List.length_drop]
          omega
        refine ⟨_, _, writes_inside h hinside ?_, hfraction, ?_⟩
        · unfold digitLimit
          omega
        · rw [if_pos hinside, fractionText, if_neg hfraction]
      · refine ⟨_, _, writes_below h (Nat.le_of_not_lt hinside) ?_, ?_, ?_⟩
        · unfold digitLimit
          omega
        · simp [h.ne_nil]
        · simp [hinside, fractionText, h.ne_nil]
  · right
    rw [if_neg hpositional]
    obtain ⟨c, s, hs⟩ := List.exists_cons_of_ne_nil h.ne_nil
    refine ⟨_, _, _, writes_scientific h hs exponent ?_, ?_, ?_⟩
    · unfold digitLimit
      omega
    · unfold greatestExponent
      omega
    · subst hs
      cases s with
      | nil => rfl
      | cons a s => rfl

/-! ### Numbers -/

theorem writes_zero : Writes ⟨0, 0⟩ ['0'] ['0'] 0 :=
  ⟨isWhole_zero, isDigit_zeros 1, by decide, rfl⟩

theorem exists_of_reads {d : Decimal} {rank : Nat} (h : d.reads rank = true) :
    ∃ x, ofDecimal? false d.digits d.exponent = some x ∧ x.rank.val = rank := by
  unfold Decimal.reads at h
  split at h
  · rename_i x hx
    exact ⟨x, hx, eq_of_beq h⟩
  · cases h

theorem digits_ne_zero {d : Decimal} {x : Binary64}
    (h : ofDecimal? false d.digits d.exponent = some x) (hx : x.rank.val ≠ 0) : d.digits ≠ 0 := by
  intro hzero
  rw [ofDecimal?, if_pos (.inl hzero)] at h
  cases h
  exact hx rfl

/-- The text of a magnitude is read back as it. -/
theorem readUnsigned_magnitudeLayout (negative : Bool) (rank : Fin magnitudeCount)
    {rest : List Char} (hrest : Stops continuesNumber rest) :
    readUnsigned negative (magnitudeLayout rank ++ rest) = .ok (.float ⟨negative, rank⟩, rest) := by
  unfold magnitudeLayout
  by_cases hzero : rank.val = 0
  · rw [if_pos hzero]
    obtain rfl : rank = (zero false).rank := Fin.ext hzero
    exact readUnsigned_plain negative writes_zero (by decide) rfl hrest
  · rw [if_neg hzero]
    obtain ⟨hreads, hmodest⟩ := shortest_reads rank.isLt
    obtain ⟨x, hx, hrank⟩ := exists_of_reads hreads
    obtain rfl : x.rank = rank := Fin.ext hrank
    rcases exists_layout_parts (digits_ne_zero hx hzero) hmodest with
      ⟨whole, fraction, hwrites, hne, hlayout⟩ | ⟨whole, fraction, exponent, hwrites, hbound, hlayout⟩
    · rw [hlayout]
      exact readUnsigned_plain negative hwrites hne hx hrest
    · rw [hlayout]
      exact readUnsigned_scientific negative hwrites hbound hx hrest

theorem readUnsigned_toDigits {negative : Bool} {n : Nat} {i : Int} {rest : List Char}
    (h : exactInteger? negative n = some i) (hrest : Stops continuesNumber rest) :
    readUnsigned negative (Nat.toDigits 10 n ++ rest) = .ok (.integer i, rest) := by
  have hparts : readUnsigned negative (Nat.toDigits 10 n ++ rest) =
      readEnd negative (Nat.toDigits 10 n) [] rest :=
    @readUnsigned_parts _ [] rest negative (isWhole_toDigits n) (by simp) (stops_isDigit hrest)
      (head?_ne_point hrest)
  rw [hparts]
  unfold readEnd
  rw [exponentMark?_eq_none hrest, digitsValue_toDigits, h]

/-- No sign stands before a number that is read without one. -/
theorem readNumber_of_unsigned {s : List Char} {r : Number × List Char}
    (h : readUnsigned false s = .ok r) : readNumber s = .ok r := by
  unfold readNumber
  split
  · cases h
  · exact h

/-- **The text of a number is read back as it**, up to a character that no number is read
on with. -/
theorem readNumber_text {n : Number} (hn : n.IsKept) {rest : List Char}
    (hrest : Stops continuesNumber rest) : readNumber (n.text ++ rest) = .ok (n, rest) := by
  cases n with
  | integer n =>
    obtain ⟨hleast, hgreatest⟩ := hn
    show readNumber (integerText n ++ rest) = .ok (.integer n, rest)
    unfold integerText
    by_cases hneg : n < 0
    · have hexact : exactInteger? true n.natAbs = some n := by
        have habs : -(n.natAbs : Int) = n := by omega
        rw [exactInteger?, habs, if_pos rfl, if_pos ⟨by omega, hleast⟩]
      rw [if_pos hneg]
      exact readUnsigned_toDigits hexact hrest
    · have hexact : exactInteger? false n.natAbs = some n := by
        have habs : (n.natAbs : Int) = n := by omega
        rw [exactInteger?, habs, if_neg (by decide), if_pos hgreatest]
      rw [if_neg hneg]
      exact readNumber_of_unsigned (readUnsigned_toDigits hexact hrest)
  | float x =>
    obtain ⟨negative, rank⟩ := x
    show readNumber (layout ⟨negative, rank⟩ ++ rest) = .ok (.float ⟨negative, rank⟩, rest)
    unfold layout
    cases negative with
    | false => exact readNumber_of_unsigned (readUnsigned_magnitudeLayout false rank hrest)
    | true => exact readUnsigned_magnitudeLayout true rank hrest

end DotQuery.Json
