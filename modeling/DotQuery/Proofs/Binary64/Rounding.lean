import DotQuery.Binary64.Basic
import Mathlib.Algebra.Group.Nat.Defs

/-! Reading decimals depends on their value alone.

The two bounds at which `ofDecimal?` does without the power of ten are those of a
decimal that rounds to zero and of one that rounds to no finite magnitude. So a
decimal may be written with more or fewer zeros at its end. -/
namespace DotQuery.Binary64

/-! ### Powers

The definitions name `Nat.pow`; the laws are about `^`. -/

theorem natPow_eq (b e : Nat) : Nat.pow b e = b ^ e := rfl

theorem magnitudeCount_eq : magnitudeCount = 2047 * 2 ^ 52 := by
  rw [magnitudeCount, natPow_eq]

/-- The exponent stands apart, so that no step evaluates the power. -/
theorem exists_unitsInOne_eq : ∃ u, u = 1074 ∧ unitsInOne = 2 ^ u := by
  obtain ⟨u, hu⟩ : ∃ u, u = 1074 := ⟨_, rfl⟩
  refine ⟨u, hu, ?_⟩
  delta unitsInOne
  rw [← hu]
  exact natPow_eq 2 u

theorem unitsInOne_pos : 0 < unitsInOne := by
  obtain ⟨u, -, hu⟩ := exists_unitsInOne_eq
  rw [hu]
  exact Nat.two_pow_pos u

theorem nearestRank_eq (n d : Nat) :
    nearestRank n d =
      ((n / d).log2 - 52) * 2 ^ 52 + roundHalfEven n (d * 2 ^ ((n / d).log2 - 52)) := by
  simp only [nearestRank, natPow_eq]

theorem nearestRankOfDecimal_ofNat (digits e : Nat) :
    nearestRankOfDecimal digits (.ofNat e) = nearestRank (digits * 10 ^ e * unitsInOne) 1 := by
  simp only [nearestRankOfDecimal, natPow_eq]

theorem nearestRankOfDecimal_negSucc (digits e : Nat) :
    nearestRankOfDecimal digits (.negSucc e) =
      nearestRank (digits * unitsInOne) (10 ^ (e + 1)) := by
  simp only [nearestRankOfDecimal, natPow_eq]

/-! ### The nearest rank of a fraction -/

theorem roundHalfEven_scale {c : Nat} (hc : 0 < c) (n d : Nat) :
    roundHalfEven (n * c) (d * c) = roundHalfEven n d := by
  have hlt : ∀ a b : Nat, 2 * (a * c) < b * c ↔ 2 * a < b := by
    intro a b
    rw [← Nat.mul_assoc]
    exact Nat.mul_lt_mul_right hc
  have hlt' : ∀ a b : Nat, b * c < 2 * (a * c) ↔ b < 2 * a := by
    intro a b
    rw [← Nat.mul_assoc]
    exact Nat.mul_lt_mul_right hc
  simp only [roundHalfEven, Nat.mul_div_mul_right n d hc, Nat.mul_mod_mul_right, hlt, hlt']

theorem nearestRank_scale {c : Nat} (hc : 0 < c) (n d : Nat) :
    nearestRank (n * c) (d * c) = nearestRank n d := by
  have hd : ∀ s : Nat, d * c * 2 ^ s = d * 2 ^ s * c := fun s => Nat.mul_right_comm d c _
  simp only [nearestRank_eq, Nat.mul_div_mul_right n d hc, hd, roundHalfEven_scale hc]

/-- Less than half a unit is nearest to zero. -/
theorem nearestRank_eq_zero {n d : Nat} (h : 2 * n < d) : nearestRank n d = 0 := by
  have hq : n / d = 0 := Nat.div_eq_of_lt (by omega)
  have hm : n % d = n := Nat.mod_eq_of_lt (by omega)
  simp [nearestRank, roundHalfEven, hq, hm, h]

/-- A fraction of at least `2 ^ 2099` units is beyond all finite magnitudes. -/
theorem magnitudeCount_le_nearestRank {n d : Nat} (h : 2099 ≤ (n / d).log2) :
    magnitudeCount ≤ nearestRank n d := by
  rw [magnitudeCount_eq, nearestRank_eq]
  calc 2047 * 2 ^ 52 ≤ ((n / d).log2 - 52) * 2 ^ 52 := Nat.mul_le_mul_right _ (by omega)
    _ ≤ _ := Nat.le_add_right _ _

/-! ### Decimals -/

theorem two_pow_le_ten_pow {a b : Nat} (h : 28 * a ≤ 93 * b) : 2 ^ a ≤ 10 ^ b := by
  rw [← Nat.pow_le_pow_iff_left (by decide : 28 ≠ 0)]
  calc (2 ^ a) ^ 28 = 2 ^ (28 * a) := by rw [← Nat.pow_mul, Nat.mul_comm]
    _ ≤ 2 ^ (93 * b) := Nat.pow_le_pow_right (by decide) h
    _ = (2 ^ 93) ^ b := Nat.pow_mul 2 93 b
    _ ≤ (10 ^ 28) ^ b := Nat.pow_le_pow_left (by decide) b
    _ = (10 ^ b) ^ 28 := by rw [← Nat.pow_mul, Nat.mul_comm, Nat.pow_mul]

theorem nearestRankOfDecimal_zero (exponent : Int) : nearestRankOfDecimal 0 exponent = 0 := by
  cases exponent with
  | ofNat e =>
    rw [nearestRankOfDecimal_ofNat, Nat.zero_mul, Nat.zero_mul]
    exact nearestRank_eq_zero (by decide)
  | negSucc e =>
    rw [nearestRankOfDecimal_negSucc, Nat.zero_mul]
    exact nearestRank_eq_zero (Nat.pow_pos (by decide))

theorem nearestRankOfDecimal_tiny {digits : Nat} {exponent : Int}
    (h : exponent < -(400 + digits.log2 : Int)) : nearestRankOfDecimal digits exponent = 0 := by
  cases exponent with
  | ofNat e =>
    rw [Int.ofNat_eq_natCast] at h
    omega
  | negSucc e =>
    have hd : digits < 2 ^ (digits.log2 + 1) := Nat.lt_log2_self
    obtain ⟨u, hu, hunit⟩ := exists_unitsInOne_eq
    rw [nearestRankOfDecimal_negSucc, hunit]
    apply nearestRank_eq_zero
    calc 2 * (digits * 2 ^ u) = digits * 2 ^ (u + 1) := by
          rw [Nat.pow_succ, ← Nat.mul_assoc digits, Nat.mul_comm]
      _ < 2 ^ (digits.log2 + 1) * 2 ^ (u + 1) :=
        Nat.mul_lt_mul_of_pos_right hd (Nat.two_pow_pos _)
      _ = 2 ^ (digits.log2 + 1 + (u + 1)) := (Nat.pow_add 2 _ _).symm
      _ ≤ 10 ^ (e + 1) := two_pow_le_ten_pow (by omega)

theorem magnitudeCount_le_nearestRankOfDecimal {digits : Nat} {exponent : Int} (hd : digits ≠ 0)
    (h : 310 < exponent) : magnitudeCount ≤ nearestRankOfDecimal digits exponent := by
  cases exponent with
  | ofNat e =>
    rw [Int.ofNat_eq_natCast] at h
    obtain ⟨u, hu, hunit⟩ := exists_unitsInOne_eq
    obtain ⟨k, hk⟩ : ∃ k, k = 1025 := ⟨_, rfl⟩
    rw [nearestRankOfDecimal_ofNat, hunit]
    have hlarge : 2 ^ (k + u) ≤ digits * 10 ^ e * 2 ^ u := by
      calc 2 ^ (k + u) = 2 ^ k * 2 ^ u := Nat.pow_add 2 k u
        _ ≤ 10 ^ e * 2 ^ u := Nat.mul_le_mul_right _ (two_pow_le_ten_pow (by omega))
        _ ≤ digits * (10 ^ e * 2 ^ u) := Nat.le_mul_of_pos_left _ (Nat.pos_of_ne_zero hd)
        _ = digits * 10 ^ e * 2 ^ u := (Nat.mul_assoc _ _ _).symm
    have hlog : k + u ≤ (digits * 10 ^ e * 2 ^ u).log2 :=
      (Nat.le_log2 (Nat.ne_of_gt (Nat.lt_of_lt_of_le (Nat.two_pow_pos _) hlarge))).2 hlarge
    apply magnitudeCount_le_nearestRank
    rw [Nat.div_one]
    omega
  | negSucc e => omega

/-- The number of this rank, if a finite magnitude has it. -/
def ofRank? (negative : Bool) (rank : Nat) : Option Binary64 :=
  if h : rank < magnitudeCount then some ⟨negative, rank, h⟩ else none

/-- The bounds of `ofDecimal?` give what the power of ten would give. -/
theorem ofDecimal?_eq (negative : Bool) (digits : Nat) (exponent : Int) :
    ofDecimal? negative digits exponent =
      ofRank? negative (nearestRankOfDecimal digits exponent) := by
  unfold ofDecimal?
  split
  · rename_i h
    have hr : nearestRankOfDecimal digits exponent = 0 := by
      rcases h with rfl | h
      · exact nearestRankOfDecimal_zero exponent
      · exact nearestRankOfDecimal_tiny h
    rw [hr]
    rfl
  · rename_i h
    split
    · rename_i hlarge
      have hr := magnitudeCount_le_nearestRankOfDecimal (fun hd => h (.inl hd)) hlarge
      rw [ofRank?, dif_neg (by omega)]
    · rfl

theorem nearestRankOfDecimal_mul_ten (digits : Nat) (exponent : Int) :
    nearestRankOfDecimal (digits * 10) exponent = nearestRankOfDecimal digits (exponent + 1) := by
  match exponent with
  | .ofNat e =>
    have he : Int.ofNat e + 1 = .ofNat (e + 1) := rfl
    rw [he, nearestRankOfDecimal_ofNat, nearestRankOfDecimal_ofNat, Nat.mul_assoc digits,
      ← Nat.pow_succ']
  | .negSucc 0 =>
    have he : Int.negSucc 0 + 1 = .ofNat 0 := rfl
    rw [he, nearestRankOfDecimal_negSucc, nearestRankOfDecimal_ofNat, Nat.pow_zero, Nat.mul_one,
      Nat.mul_right_comm]
    exact nearestRank_scale (by decide) _ 1
  | .negSucc (e + 1) =>
    have he : Int.negSucc (e + 1) + 1 = .negSucc e := rfl
    rw [he, nearestRankOfDecimal_negSucc, nearestRankOfDecimal_negSucc, Nat.pow_succ _ (e + 1),
      Nat.mul_right_comm]
    exact nearestRank_scale (by decide) _ _

/-- Zeros at the end of the digits are worth a higher exponent. -/
theorem ofDecimal?_mul_ten_pow (negative : Bool) (digits k : Nat) (exponent : Int) :
    ofDecimal? negative (digits * 10 ^ k) exponent = ofDecimal? negative digits (exponent + k) := by
  induction k generalizing exponent with
  | zero => simp
  | succ k ih =>
    rw [Nat.pow_succ, ← Nat.mul_assoc, ofDecimal?_eq, nearestRankOfDecimal_mul_ten, ← ofDecimal?_eq,
      ih]
    congr 1
    omega

/-- The sign is read apart from the magnitude. -/
theorem ofDecimal?_eq_some {negative : Bool} {digits : Nat} {exponent : Int} {x : Binary64}
    (h : ofDecimal? false digits exponent = some x) :
    ofDecimal? negative digits exponent = some ⟨negative, x.rank⟩ := by
  rw [ofDecimal?_eq, ofRank?] at h ⊢
  split at h
  · rename_i hlt
    cases h
    rw [dif_pos hlt]
  · cases h

end DotQuery.Binary64
