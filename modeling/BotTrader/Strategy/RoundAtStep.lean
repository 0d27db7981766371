import BotTrader.Strategy.Steady

/-! Quantities and whole steps. The step only decides how many digits a quantity is rounded to,
and these are always six: a quantity that was no multiple of the step stays none. -/

namespace BotTrader.Strategy

open Python Rational

variable {val step r : ℚ}

/-- `r` is `val` rounded down to a multiple of `step`. -/
structure RoundsDown (val step r : ℚ) : Prop where
  le : r ≤ val
  lt : val - r < step
  multiple : ∃ k : ℤ, r = k * step

/-- The method returns, and what it returns is `val` rounded down. -/
def RoundsAtStep (val step : ℚ) : Prop :=
  ∃ r, SymbolData.roundAtStep val step = .ok r ∧ RoundsDown val step r

/-- The largest multiple of `step` that is not above `val`. -/
def lastMultiple (val step : ℚ) : ℚ := ⌊val / step⌋ * step

/-- The last multiple has six fractional digits, and `val` is above it by less than half of the
last digit; by exactly that half if the digit is even. -/
def BarelyAbove (val step : ℚ) : Prop :=
  ∃ m : ℤ, lastMultiple val step * 10 ^ 6 = m ∧
    ((val - lastMultiple val step) * 10 ^ 6 < 1 / 2 ∨
      (val - lastMultiple val step) * 10 ^ 6 = 1 / 2 ∧ Even m)

theorem roundsDown_lastMultiple (val : ℚ) (hs : 0 < step) :
    RoundsDown val step (lastMultiple val step) := by
  have hle : lastMultiple val step ≤ val := (le_div_iff₀ hs).mp (Int.floor_le _)
  have hlt : val < (⌊val / step⌋ + 1) * step := (div_lt_iff₀ hs).mp (Int.lt_floor_add_one _)
  refine ⟨hle, ?_, _, rfl⟩
  unfold lastMultiple
  linarith

/-- There is one value to round down to. -/
theorem roundsDown_iff_eq (hs : 0 < step) :
    RoundsDown val step r ↔ r = lastMultiple val step := by
  constructor
  · rintro ⟨hle, hlt, k, rfl⟩
    have hfloor : ⌊val / step⌋ = k := by
      apply Int.floor_eq_iff.mpr
      constructor
      · exact (le_div_iff₀ hs).mpr hle
      · apply (div_lt_iff₀ hs).mpr
        linarith
    rw [lastMultiple, hfloor]
  · rintro rfl
    exact roundsDown_lastMultiple val hs

/-- The nearest decimal is the last multiple only if the value is barely above that one. -/
theorem roundsDown_roundTo_iff (hs : 0 < step) :
    RoundsDown val step (roundTo val 6) ↔ BarelyAbove val step := by
  have hle := (roundsDown_lastMultiple val hs).le
  rw [roundsDown_iff_eq hs, roundTo_eq_iff, IsNearest, abs_of_nonneg (sub_nonneg.mpr hle)]
  rfl

/-- The step itself has no part in the result. -/
theorem roundsAtStep_iff : RoundsAtStep val step ↔ RoundsDown val step (roundTo val 6) := by
  simp [RoundsAtStep]

/-- A value of six digits is barely above a multiple only if it is one. -/
theorem barelyAbove_decimal (hs : 0 < step) (hv : ∃ n : ℤ, val * 10 ^ 6 = n) :
    BarelyAbove val step ↔ ∃ k : ℤ, val = k * step := by
  obtain ⟨n, hn⟩ := hv
  constructor
  · rintro ⟨m, hm, h⟩
    have hle := (roundsDown_lastMultiple val hs).le
    have hexcess : (val - lastMultiple val step) * 10 ^ 6 = n - m := by rw [sub_mul, hn, hm]
    have hhalf : (n - m : ℚ) ≤ 1 / 2 := by
      rw [← hexcess]
      exact h.elim le_of_lt fun h => le_of_eq h.1
    have hlow : (m : ℚ) ≤ n := by
      rw [← hn, ← hm]
      linarith
    have hmn : m ≤ n := by exact_mod_cast hlow
    have hnm : n < m + 1 := by
      have : (n : ℚ) < m + 1 := by linarith
      exact_mod_cast this
    have heq : n = m := by omega
    refine ⟨⌊val / step⌋, ?_⟩
    show val = lastMultiple val step
    rw [heq, sub_self] at hexcess
    linarith
  · rintro ⟨k, hk⟩
    have hlast : lastMultiple val step = val := by
      rw [lastMultiple, hk, mul_div_cancel_right₀ _ hs.ne', Int.floor_intCast]
    refine ⟨n, by rw [hlast, hn], .inl ?_⟩
    rw [hlast, sub_self, zero_mul]
    norm_num

/-- A quantity of six digits is rounded down only if there is nothing to round. -/
theorem roundsAtStep_decimal (hs : 0 < step) (hv : ∃ n : ℤ, val * 10 ^ 6 = n) :
    RoundsAtStep val step ↔ ∃ k : ℤ, val = k * step := by
  rw [roundsAtStep_iff, roundsDown_roundTo_iff hs, barelyAbove_decimal hs hv]

/-- There is no step that all values are rounded down to. -/
theorem exists_not_roundsAtStep (hs : 0 < step) : ∃ val, 0 ≤ val ∧ ¬RoundsAtStep val step := by
  simp only [roundsAtStep_iff, roundsDown_roundTo_iff hs]
  by_cases hd : ∃ m : ℤ, step * 10 ^ 6 = m
  · -- Nine tenths of a step are at least nine tenths of the last digit.
    refine ⟨step * (9 / 10), by positivity, ?_⟩
    obtain ⟨m, hm⟩ := hd
    have hlast : lastMultiple (step * (9 / 10)) step = 0 := by
      rw [lastMultiple, mul_div_cancel_left₀ _ hs.ne']
      norm_num
    have hpos : 0 < m := by
      have : (0 : ℚ) < m := by rw [← hm]; positivity
      exact_mod_cast this
    have hone : (1 : ℚ) ≤ m := by exact_mod_cast hpos
    rintro ⟨n, -, h⟩
    rw [hlast] at h
    rcases h with h | ⟨h, -⟩ <;> linarith
  · refine ⟨step, hs.le, ?_⟩
    rintro ⟨m, hm, -⟩
    apply hd
    refine ⟨m, ?_⟩
    rw [← hm, lastMultiple, div_self hs.ne']
    norm_num

/-- A value is rounded down if and only if it is barely above a multiple. -/
theorem roundsAtStep_iff_barelyAbove (hs : 0 < step) :
    RoundsAtStep val step ↔ BarelyAbove val step := by
  rw [roundsAtStep_iff, roundsDown_roundTo_iff hs]

/-- Twelve hundredths are four steps of three. -/
theorem roundsAtStep_twelve :
    (0 : ℚ) < 3 / 100 ∧ RoundsAtStep (12 / 100) (3 / 100) := by
  have hpos : (0 : ℚ) < 3 / 100 := by norm_num
  refine ⟨hpos, (roundsAtStep_iff_barelyAbove hpos).mpr ⟨120000, ?_⟩⟩
  norm_num [lastMultiple]

/-- What is left of one after a commission of a thousandth is no multiple of a hundredth. -/
theorem not_roundsAtStep_commission :
    (0 : ℚ) ≤ 999 / 1000 ∧ (0 : ℚ) < 1 / 100 ∧ (1 / 100 : ℚ) * 10 ^ 8 = (1000000 : ℤ) ∧
      ¬RoundsAtStep (999 / 1000) (1 / 100) := by
  have hpos : (0 : ℚ) < 1 / 100 := by norm_num
  refine ⟨by norm_num, hpos, by norm_num, ?_⟩
  rw [roundsAtStep_iff, roundsDown_iff_eq hpos]
  have hround : roundTo (999 / 1000) 6 = 999 / 1000 := by
    rw [roundTo_eq_iff]
    exact ⟨999000, by norm_num, by norm_num⟩
  have hlast : lastMultiple (999 / 1000) (1 / 100) = 99 / 100 := by norm_num [lastMultiple]
  rw [hround, hlast]
  norm_num

end BotTrader.Strategy
