import DotQuery.Binary64.Shortest
import DotQuery.Proofs.Binary64.Rounding

/-! The shortest decimal of a magnitude is read back as it.

Every grid is asked for a decimal that is read back, so it is enough that one of the
twenty grids has one. The last grid is so fine that the decimal above the magnitude is
nearer to it than half a unit of its last place (`nearestRank_of_near`). -/
namespace DotQuery.Binary64

/-! ### Ranks and magnitudes -/

theorem scale_eq (rank : Nat) : scale rank = rank / 2 ^ 52 - 1 := by
  rw [scale, natPow_eq]

theorem significand_eq (rank : Nat) :
    significand rank = if rank < 2 ^ 52 then rank else 2 ^ 52 + rank % 2 ^ 52 := by
  rw [significand, natPow_eq]

theorem units_eq (rank : Nat) : units rank = significand rank * 2 ^ scale rank := by
  rw [units, natPow_eq]

theorem rank_eq (rank : Nat) : scale rank * 2 ^ 52 + significand rank = rank := by
  rw [scale_eq, significand_eq]
  split <;> omega

theorem significand_lt (rank : Nat) : significand rank < 2 ^ 53 := by
  rw [significand_eq]
  split <;> omega

theorem scale_eq_zero_or (rank : Nat) : scale rank = 0 ∨ 2 ^ 52 ≤ significand rank := by
  rw [scale_eq, significand_eq]
  split <;> omega

theorem scale_le {rank : Nat} (h : rank < magnitudeCount) : scale rank ≤ 2045 := by
  rw [magnitudeCount_eq] at h
  rw [scale_eq]
  omega

theorem log2_lt_of_lt {n k : Nat} (hk : 0 < k) (h : n < 2 ^ k) : n.log2 < k := by
  by_cases hn : n = 0
  · rw [hn]
    exact hk
  · exact (Nat.log2_lt hn).2 h

theorem units_lt (rank : Nat) : units rank < 2 ^ (53 + scale rank) := by
  rw [units_eq, Nat.pow_add]
  exact Nat.mul_lt_mul_of_pos_right (significand_lt rank) (Nat.two_pow_pos _)

theorem log2_units_le (rank : Nat) : (units rank).log2 ≤ 52 + scale rank := by
  have := log2_lt_of_lt (by omega) (units_lt rank)
  omega

theorem units_mul (rank d : Nat) : units rank * d = significand rank * (d * 2 ^ scale rank) := by
  rw [units_eq, Nat.mul_assoc, Nat.mul_comm d]

/-- A fraction not below a magnitude, and nearer to it than half a unit of its last
place, is read as it. -/
theorem nearestRank_of_near {rank n d : Nat} (hd : 0 < d) (hle : units rank * d ≤ n)
    (hnear : 2 * (n - units rank * d) < d * 2 ^ scale rank) : nearestRank n d = rank := by
  have hlt : n < (significand rank + 1) * (d * 2 ^ scale rank) := by
    rw [Nat.succ_mul, ← units_mul]
    omega
  have hround : roundHalfEven n (d * 2 ^ scale rank) = significand rank := by
    rw [units_mul] at hle hnear
    have hq : n / (d * 2 ^ scale rank) = significand rank := Nat.div_eq_of_lt_le hle hlt
    have hr := Nat.div_add_mod n (d * 2 ^ scale rank)
    rw [hq, Nat.mul_comm] at hr
    have hhalf : 2 * (n % (d * 2 ^ scale rank)) < d * 2 ^ scale rank := by omega
    simp only [roundHalfEven, hq, hhalf, if_true]
  have hscale : (n / d).log2 - 52 = scale rank := by
    have hupper : n / d < 2 ^ (53 + scale rank) := by
      rw [Nat.div_lt_iff_lt_mul hd, Nat.pow_add]
      calc n < (significand rank + 1) * (d * 2 ^ scale rank) := hlt
        _ ≤ 2 ^ 53 * (d * 2 ^ scale rank) := Nat.mul_le_mul_right _ (significand_lt rank)
        _ = 2 ^ 53 * 2 ^ scale rank * d := by rw [Nat.mul_assoc, Nat.mul_comm d]
    have hlog := log2_lt_of_lt (by omega) hupper
    rcases scale_eq_zero_or rank with h0 | hnormal
    · omega
    · have hlower : 2 ^ (52 + scale rank) ≤ n / d := by
        rw [Nat.le_div_iff_mul_le hd, Nat.pow_add]
        exact Nat.le_trans (Nat.mul_le_mul_right d (Nat.mul_le_mul_right _ hnormal)) hle
      have := (Nat.le_log2 (Nat.ne_of_gt (Nat.lt_of_lt_of_le (Nat.two_pow_pos _) hlower))).2 hlower
      omega
  rw [nearestRank_eq, hscale, hround, rank_eq]

/-! ### Decimals that are read back -/

theorem reads_iff {d : Decimal} {rank : Nat} (h : rank < magnitudeCount) :
    d.reads rank = true ↔ nearestRankOfDecimal d.digits d.exponent = rank := by
  rw [Decimal.reads, ofDecimal?_eq, ofRank?]
  by_cases hlt : nearestRankOfDecimal d.digits d.exponent < magnitudeCount
  · simp [hlt]
  · simp only [hlt, dite_false, Bool.false_eq_true, false_iff]
    omega

/-! ### Fine grids -/

/-- Whether the spacing of the grid is less than a quarter of the unit of the last place
of the magnitudes with this logarithm. -/
def IsFine (log : Nat) (exponent : Int) : Prop :=
  match exponent with
  | .ofNat e => 2 ^ 53 * (unitsInOne * 10 ^ e) < 2 ^ log
  | .negSucc e => 2 ^ 53 * unitsInOne < 10 ^ (e + 1) * 2 ^ log

theorem ten_pow_le_two_pow (e : Nat) : 10 ^ e ≤ 2 ^ ((10 * e + 2) / 3) := by
  rw [← Nat.pow_le_pow_iff_left (by decide : 3 ≠ 0)]
  calc (10 ^ e) ^ 3 = 1000 ^ e := by rw [← Nat.pow_mul, Nat.mul_comm, Nat.pow_mul]
    _ ≤ 1024 ^ e := Nat.pow_le_pow_left (by decide) e
    _ = 2 ^ (10 * e) := (Nat.pow_mul 2 10 e).symm
    _ ≤ 2 ^ ((10 * e + 2) / 3 * 3) := Nat.pow_le_pow_right (by decide) (by omega)
    _ = (2 ^ ((10 * e + 2) / 3)) ^ 3 := Nat.pow_mul 2 _ 3

theorem isFine_last {log : Nat} (h : log < 2099) :
    IsFine log (((log : Int) - 1073) * 30103 / 100000 + 1 - 19) := by
  obtain ⟨u, hu, hunit⟩ := exists_unitsInOne_eq
  unfold IsFine
  rw [hunit]
  split
  · rename_i e he
    rw [Int.ofNat_eq_natCast] at he
    calc 2 ^ 53 * (2 ^ u * 10 ^ e) ≤ 2 ^ 53 * (2 ^ u * 2 ^ ((10 * e + 2) / 3)) :=
          Nat.mul_le_mul_left _ (Nat.mul_le_mul_left _ (ten_pow_le_two_pow e))
      _ = 2 ^ (53 + (u + (10 * e + 2) / 3)) := by rw [Nat.pow_add, Nat.pow_add 2 u]
      _ < 2 ^ log := Nat.pow_lt_pow_right (by decide) (by omega)
  · rename_i e he
    calc 2 ^ 53 * 2 ^ u = 2 ^ (53 + u) := (Nat.pow_add 2 53 u).symm
      _ < 2 ^ (93 * (e + 1) / 28 + log) := Nat.pow_lt_pow_right (by decide) (by omega)
      _ = 2 ^ (93 * (e + 1) / 28) * 2 ^ log := Nat.pow_add 2 _ _
      _ ≤ 10 ^ (e + 1) * 2 ^ log := Nat.mul_le_mul_right _ (two_pow_le_ten_pow (by omega))

/-- The first multiple of `d` behind a magnitude is read as it, if `d` is less than half a
unit of its last place. -/
theorem nearestRank_next {rank c d : Nat} (hc : 0 < c) (hd : 0 < d)
    (h : 2 * d < c * 2 ^ scale rank) :
    nearestRank ((units rank * c / d + 1) * d) c = rank := by
  have hm := Nat.mod_lt (units rank * c) hd
  have hn := Nat.div_add_mod (units rank * c) d
  have hnext : (units rank * c / d + 1) * d = d * (units rank * c / d) + d := by
    rw [Nat.succ_mul, Nat.mul_comm]
  apply nearestRank_of_near hc <;> omega

/-- Twice the spacing of a fine grid is less than the unit of the last place. -/
theorem spacing_lt {rank a b : Nat} (h : 2 ^ 53 * a < b * 2 ^ (units rank).log2) :
    2 * a < b * 2 ^ scale rank := by
  apply Nat.lt_of_mul_lt_mul_left (a := 2 ^ 52)
  calc 2 ^ 52 * (2 * a) = 2 ^ 53 * a := by rw [← Nat.mul_assoc, ← Nat.pow_succ]
    _ < b * 2 ^ (units rank).log2 := h
    _ ≤ b * 2 ^ (52 + scale rank) :=
      Nat.mul_le_mul_left b (Nat.pow_le_pow_right (by decide) (log2_units_le rank))
    _ = 2 ^ 52 * (b * 2 ^ scale rank) := by rw [Nat.pow_add, Nat.mul_left_comm]

theorem nearestRank_above_ofNat (rank : Nat) {a b : Nat} (ha : 0 < a) (hb : 0 < b)
    (hfine : 2 ^ 53 * (a * b) < 2 ^ (units rank).log2) :
    nearestRank ((units rank / (a * b) + 1) * b * a) 1 = rank := by
  have hspacing : 2 * (a * b) < 1 * 2 ^ scale rank := spacing_lt (by rwa [Nat.one_mul])
  have hnext := nearestRank_next Nat.one_pos (Nat.mul_pos ha hb) hspacing
  rwa [Nat.mul_one, Nat.mul_comm a b, ← Nat.mul_assoc, Nat.mul_comm b a] at hnext

theorem gridFraction_ofNat (rank e : Nat) :
    gridFraction rank (.ofNat e) = (units rank, unitsInOne * 10 ^ e) := by
  simp only [gridFraction, natPow_eq]

theorem gridFraction_negSucc (rank e : Nat) :
    gridFraction rank (.negSucc e) = (units rank * 10 ^ (e + 1), unitsInOne) := by
  simp only [gridFraction, natPow_eq]

/-- On a fine grid the decimal above the magnitude is read back. -/
theorem above_reads {rank : Nat} (h : rank < magnitudeCount) {exponent : Int}
    (hfine : IsFine (units rank).log2 exponent) :
    (⟨(gridFraction rank exponent).1 / (gridFraction rank exponent).2 + 1, exponent⟩ :
      Decimal).reads rank = true := by
  rw [reads_iff h]
  cases exponent with
  | ofNat e =>
    rw [gridFraction_ofNat, nearestRankOfDecimal_ofNat]
    exact nearestRank_above_ofNat rank unitsInOne_pos (Nat.pow_pos (by decide)) hfine
  | negSucc e =>
    rw [gridFraction_negSucc, nearestRankOfDecimal_negSucc]
    dsimp only
    exact nearestRank_next (Nat.pow_pos (by decide)) unitsInOne_pos (spacing_lt hfine)

/-! ### The decimal of one grid -/

theorem roundHalfEven_eq_or (n d : Nat) :
    roundHalfEven n d = n / d ∨ roundHalfEven n d = n / d + 1 := by
  dsimp only [roundHalfEven]
  rcases Nat.mod_two_eq_zero_or_one (n / d) with h | h <;> grind

/-- The decimal of a grid is one of the two neighbours there, and is read back. -/
theorem onGrid?_eq_some {rank : Nat} {exponent : Int} {d : Decimal}
    (h : onGrid? rank exponent = some d) :
    d.reads rank = true ∧ d.exponent = exponent ∧
      d.digits ≤ (gridFraction rank exponent).1 / (gridFraction rank exponent).2 + 1 := by
  dsimp only [onGrid?] at h
  split at h
  · rename_i hbelow habove
    cases h
    rcases roundHalfEven_eq_or (gridFraction rank exponent).1 (gridFraction rank exponent).2
      with he | he
    · rw [he]
      exact ⟨hbelow, rfl, Nat.le_succ _⟩
    · rw [he]
      exact ⟨habove, rfl, Nat.le_refl _⟩
  · rename_i hbelow _
    cases h
    exact ⟨hbelow, rfl, Nat.le_succ _⟩
  · rename_i _ habove
    cases h
    exact ⟨habove, rfl, Nat.le_refl _⟩
  · cases h

theorem onGrid?_isSome {rank : Nat} (h : rank < magnitudeCount) {exponent : Int}
    (hfine : IsFine (units rank).log2 exponent) : (onGrid? rank exponent).isSome = true := by
  have habove := above_reads h hfine
  dsimp only [onGrid?]
  rw [habove]
  cases Decimal.reads
    ⟨(gridFraction rank exponent).1 / (gridFraction rank exponent).2, exponent⟩ rank <;> rfl

/-! ### The shortest decimal -/

/-- If the last grid has a decimal that is read back, the search ends on some grid. -/
theorem firstOnGrids_eq (rank : Nat) {grids : Nat} {exponent : Int}
    (h : (onGrid? rank (exponent - grids)).isSome = true) :
    ∃ i ≤ grids, onGrid? rank (exponent - i) = some (firstOnGrids rank (grids + 1) exponent) := by
  induction grids generalizing exponent with
  | zero =>
    obtain ⟨d, hd⟩ := Option.isSome_iff_exists.1 h
    refine ⟨0, Nat.le_refl 0, ?_⟩
    have he : exponent - ((0 : Nat) : Int) = exponent := Int.sub_zero exponent
    rw [he] at hd ⊢
    simp only [firstOnGrids, hd]
  | succ grids ih =>
    rw [firstOnGrids]
    cases hfirst : onGrid? rank exponent with
    | some d =>
      refine ⟨0, Nat.zero_le _, ?_⟩
      have he : exponent - ((0 : Nat) : Int) = exponent := Int.sub_zero exponent
      rw [he]
      exact hfirst
    | none =>
      have he : exponent - ((grids + 1 : Nat) : Int) = exponent - 1 - grids := by omega
      rw [he] at h
      obtain ⟨i, hi, hd⟩ := ih h
      refine ⟨i + 1, Nat.succ_le_succ hi, ?_⟩
      have hi' : exponent - ((i + 1 : Nat) : Int) = exponent - 1 - i := by omega
      rw [hi']
      exact hd

/-- The decimals of the twenty grids are short and not far from the point. -/
structure Decimal.IsModest (d : Decimal) : Prop where
  length_le : (Nat.toDigits 10 d.digits).length ≤ 701
  le_exponent : -342 ≤ d.exponent
  exponent_le : d.exponent ≤ 310

theorem gridFraction_div_lt {rank : Nat} (h : rank < magnitudeCount) {exponent : Int}
    (he : -342 ≤ exponent) {k : Nat} (hk : 700 ≤ k) :
    (gridFraction rank exponent).1 / (gridFraction rank exponent).2 < 10 ^ k := by
  have hscale := scale_le h
  obtain ⟨u, hu, hunit⟩ := exists_unitsInOne_eq
  cases exponent with
  | ofNat e =>
    rw [gridFraction_ofNat]
    calc units rank / (unitsInOne * 10 ^ e) ≤ units rank := Nat.div_le_self _ _
      _ < 2 ^ (53 + scale rank) := units_lt rank
      _ ≤ 10 ^ k := two_pow_le_ten_pow (by omega)
  | negSucc e =>
    obtain ⟨m, hm⟩ : ∃ m, m = 342 := ⟨_, rfl⟩
    have hunits : units rank < 10 ^ (k - m) * 2 ^ u := by
      calc units rank < 2 ^ (53 + scale rank) := units_lt rank
        _ ≤ 2 ^ (3 * (k - m) + u) := Nat.pow_le_pow_right (by decide) (by omega)
        _ = 2 ^ (3 * (k - m)) * 2 ^ u := Nat.pow_add 2 _ u
        _ ≤ 10 ^ (k - m) * 2 ^ u := Nat.mul_le_mul_right _ (two_pow_le_ten_pow (by omega))
    rw [gridFraction_negSucc, Nat.div_lt_iff_lt_mul unitsInOne_pos, hunit]
    calc units rank * 10 ^ (e + 1) ≤ units rank * 10 ^ m :=
          Nat.mul_le_mul_left _ (Nat.pow_le_pow_right (by decide) (by omega))
      _ < 10 ^ (k - m) * 2 ^ u * 10 ^ m :=
        Nat.mul_lt_mul_of_pos_right hunits (Nat.pow_pos (by decide))
      _ = 10 ^ k * 2 ^ u := by
        rw [Nat.mul_right_comm, ← Nat.pow_add, Nat.sub_add_cancel (by omega)]

/-- **The shortest decimal of a finite magnitude is read back as it.** -/
theorem shortest_reads {rank : Nat} (h : rank < magnitudeCount) :
    (shortest rank).reads rank = true ∧ (shortest rank).IsModest := by
  have hlog : (units rank).log2 < 2099 := by
    have := log2_units_le rank
    have := scale_le h
    omega
  have hlast : (onGrid? rank (exponentAbove rank - (19 : Nat))).isSome = true :=
    onGrid?_isSome h (isFine_last hlog)
  obtain ⟨i, hi, hd⟩ := firstOnGrids_eq rank hlast
  have hshortest : onGrid? rank (exponentAbove rank - i) = some (shortest rank) := hd
  obtain ⟨hreads, hexponent, hdigits⟩ := onGrid?_eq_some hshortest
  have hbounds : -342 ≤ exponentAbove rank - i ∧ exponentAbove rank - i ≤ 310 := by
    unfold exponentAbove
    omega
  refine ⟨hreads, ?_, ?_, ?_⟩
  · obtain ⟨k, hk⟩ : ∃ k, k + 1 = 701 := ⟨700, rfl⟩
    rw [← hk, Nat.length_toDigits_le_iff (by decide) (Nat.succ_pos k)]
    calc (shortest rank).digits ≤ _ := hdigits
      _ ≤ 10 ^ k := Nat.succ_le_of_lt (gridFraction_div_lt h hbounds.1 (by omega))
      _ < 10 ^ (k + 1) := Nat.pow_lt_pow_right (by decide) (Nat.lt_succ_self k)
  · rw [hexponent]
    exact hbounds.1
  · rw [hexponent]
    exact hbounds.2

end DotQuery.Binary64
