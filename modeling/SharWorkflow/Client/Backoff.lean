import SharWorkflow.Client.Jobs
import SharWorkflow.Arith.Wrapping
import Mathlib.Tactic.Positivity
import Mathlib.Tactic.Ring

/-!
# The delay between two attempts

`getOffset` computes in nanoseconds of 64 bits. Its result is compared with the delay in unbounded
integers, `exactOffset`.

Two things go wrong with large numbers. The growing delay is computed before the ceiling is applied,
so it may have been reduced to 64 bits when it is compared with the ceiling. And the time since the
message was published is compared with the delay *times a million*: the delay is in nanoseconds
already when it is converted from milliseconds. That product leaves the 64 bits for delays of three
hours and more.

* `toInt_grownOffset`: the growing delay is the exact one, reduced to 64 bits.
* `getOffset_eq_exactOffset_iff`: when the delay is the exact one.
-/

namespace SharWorkflow

open Wrapping

/-- The number of milliseconds is not negative, and fits as a number of nanoseconds. -/
def FitsAsNanos (milli : Int64) : Prop := 0 ≤ milli.toInt ∧ milli.toInt * 1000000 < 2 ^ 63

instance (milli : Int64) : Decidable (FitsAsNanos milli) := by
  unfold FitsAsNanos
  infer_instance

/-- The interval in nanoseconds, one second when there is none. -/
def exactInterval (interval : Int64) : Int :=
  if interval.toInt = 0 then 1000000000 else interval.toInt * 1000000

/-- How many intervals are added for the attempt. -/
def exactMultiplier (deliveryCount : Nat) : RetryStrategy → Int
  | .linear => deliveryCount - 1
  | .exponential => 2 ^ (deliveryCount - 1)

/-- The delay before the ceiling is applied. -/
def exactGrown (strategy : RetryStrategy) (initial interval : Int64) (deliveryCount : Nat) : Int :=
  initial.toInt * 1000000 + exactInterval interval * exactMultiplier deliveryCount strategy

/-- The ceiling, which is no less than the interval. -/
def exactCeiling (interval ceiling : Int64) : Int :=
  max (ceiling.toInt * 1000000) (exactInterval interval)

/-- **The delay in unbounded integers.** -/
def exactOffset (strategy : RetryStrategy) (initial interval : Int64) (deliveryCount : Nat)
    (ceiling : Int64) : Int :=
  if deliveryCount = 1 then 0
  else min (exactCeiling interval ceiling) (exactGrown strategy initial interval deliveryCount)

/-! ### The arithmetic of `getOffset` -/

theorem toInt_mul_millisecond {milli : Int64} (h : FitsAsNanos milli) :
    (milli * millisecond).toInt = milli.toInt * 1000000 := by
  have hmillisecond : millisecond.toInt = 1000000 := by decide
  obtain ⟨hnonneg, hlt⟩ := h
  have hfits : Fits (milli.toInt * millisecond.toInt) := by
    rw [hmillisecond]
    exact ⟨by omega, hlt⟩
  rw [toInt_mul_of_fits hfits, hmillisecond]

/-- The interval that is used, in nanoseconds. -/
def intervalNanos (interval : Int64) : Int64 :=
  if interval * millisecond = 0 then 1000 * millisecond else interval * millisecond

variable {interval : Int64}

theorem toInt_intervalNanos (h : FitsAsNanos interval) :
    (intervalNanos interval).toInt = exactInterval interval := by
  have hzero : interval * millisecond = 0 ↔ interval.toInt = 0 := by
    rw [← Int64.toInt_inj, toInt_mul_millisecond h, Int64.toInt_zero]
    omega
  unfold intervalNanos exactInterval
  by_cases hinterval : interval.toInt = 0
  · rw [if_pos (hzero.2 hinterval), if_pos hinterval]
    decide
  · rw [if_neg (hzero.not.2 hinterval), if_neg hinterval, toInt_mul_millisecond h]

theorem exactInterval_pos (h : FitsAsNanos interval) : 0 < exactInterval interval := by
  have hnonneg := h.1
  unfold exactInterval
  split <;> omega

theorem exactInterval_lt (h : FitsAsNanos interval) : exactInterval interval < 2 ^ 63 := by
  have hlt := h.2
  unfold exactInterval
  split <;> omega

/-- A number of milliseconds is an even number of nanoseconds. -/
theorem two_dvd_exactInterval (interval : Int64) : (2 : Int) ∣ exactInterval interval := by
  unfold exactInterval
  split <;> omega

/-- The factor of the exponential strategy. When the power of two does not fit, the conversion gives
`-2 ^ 63`; an even number makes no difference between the two. -/
theorem bmod_mul_incrementMultiplier {interval : Int} (heven : (2 : Int) ∣ interval) (a : Int)
    (n : Nat) : (a + interval * (incrementMultiplier n).toInt).bmod (2 ^ 64) =
      (a + interval * 2 ^ n).bmod (2 ^ 64) := by
  unfold incrementMultiplier
  split
  · rename_i hn
    have hpow : (2 : Int) ^ n < 2 ^ 63 := by
      exact_mod_cast Nat.pow_lt_pow_right (by omega) hn
    have hnonneg : (0 : Int) ≤ 2 ^ n := by positivity
    have hfits : Fits (2 ^ n) := ⟨by omega, hpow⟩
    rw [toInt_ofNat, Nat.cast_pow, Nat.cast_ofNat, hfits.bmod_eq]
  · rename_i hn
    obtain ⟨k, rfl⟩ := Nat.exists_eq_add_of_le (Nat.le_of_not_lt hn)
    obtain ⟨q, rfl⟩ := heven
    rw [Int64.toInt_minValue]
    refine bmod_eq_bmod ⟨-q * (1 + 2 ^ k), ?_⟩
    ring

/-- The growing delay is the exact one, reduced to 64 bits. -/
theorem toInt_grownOffset (strategy : RetryStrategy) {initial interval : Int64}
    (heven : (2 : Int) ∣ interval.toInt) (deliveryCount : Nat) :
    (grownOffset strategy initial interval deliveryCount).toInt =
      (initial.toInt + interval.toInt * exactMultiplier deliveryCount strategy).bmod (2 ^ 64) := by
  cases strategy with
  | linear =>
    have hone : (1 : Int64).toInt = 1 := by decide
    rw [grownOffset, Int64.toInt_add, Int64.toInt_mul, Int64.toInt_sub, toInt_ofNat, hone,
      Int.bmod_sub_bmod, Int.mul_bmod_bmod, Int.add_bmod_bmod, exactMultiplier]
  | exponential =>
    rw [grownOffset, Int64.toInt_add, Int64.toInt_mul, Int.add_bmod_bmod]
    exact bmod_mul_incrementMultiplier heven _ _

/-- The ceiling that is used, in nanoseconds. -/
def ceilingNanos (interval ceiling : Int64) : Int64 :=
  if ceiling * millisecond < intervalNanos interval then intervalNanos interval
  else ceiling * millisecond

theorem toInt_ceilingNanos {interval ceiling : Int64} (hinterval : FitsAsNanos interval)
    (hceiling : FitsAsNanos ceiling) :
    (ceilingNanos interval ceiling).toInt = exactCeiling interval ceiling := by
  have hlt : ceiling * millisecond < intervalNanos interval ↔
      ceiling.toInt * 1000000 < exactInterval interval := by
    rw [Int64.lt_iff_toInt_lt, toInt_mul_millisecond hceiling, toInt_intervalNanos hinterval]
  unfold ceilingNanos exactCeiling
  by_cases h : ceiling.toInt * 1000000 < exactInterval interval
  · rw [if_pos (hlt.2 h), max_eq_right h.le, toInt_intervalNanos hinterval]
  · rw [if_neg (hlt.not.2 h), max_eq_left (not_lt.1 h), toInt_mul_millisecond hceiling]

/-- The delay when the time since the publication is left aside. -/
def limitedOffset (strategy : RetryStrategy) (initial interval : Int64) (deliveryCount : Nat)
    (ceiling : Int64) : Int64 :=
  if deliveryCount > 1 then
    if grownOffset strategy (initial * millisecond) (intervalNanos interval) deliveryCount >
        ceilingNanos interval ceiling then ceilingNanos interval ceiling
    else grownOffset strategy (initial * millisecond) (intervalNanos interval) deliveryCount
  else 0

theorem getOffset_eq (strategy : RetryStrategy) (initial interval : Int64) (deliveryCount : Nat)
    (ceiling elapsed : Int64) : getOffset strategy initial interval deliveryCount ceiling elapsed =
      if elapsed > limitedOffset strategy initial interval deliveryCount ceiling * millisecond then
        0 else limitedOffset strategy initial interval deliveryCount ceiling := rfl

variable {strategy : RetryStrategy} {initial interval ceiling : Int64} {deliveryCount : Nat}

/-- After the first attempt the delay is the exact one, reduced to 64 bits, unless that is more than
the ceiling. -/
theorem toInt_limitedOffset (hinitial : FitsAsNanos initial) (hinterval : FitsAsNanos interval)
    (hceiling : FitsAsNanos ceiling) (hcount : 1 < deliveryCount) :
    (limitedOffset strategy initial interval deliveryCount ceiling).toInt =
      min (exactCeiling interval ceiling)
        ((exactGrown strategy initial interval deliveryCount).bmod (2 ^ 64)) := by
  have hgrown : (grownOffset strategy (initial * millisecond) (intervalNanos interval)
      deliveryCount).toInt =
      (exactGrown strategy initial interval deliveryCount).bmod (2 ^ 64) := by
    have heven : (2 : Int) ∣ (intervalNanos interval).toInt := by
      rw [toInt_intervalNanos hinterval]
      exact two_dvd_exactInterval interval
    rw [toInt_grownOffset strategy heven, toInt_mul_millisecond hinitial,
      toInt_intervalNanos hinterval, exactGrown]
  have hgt : grownOffset strategy (initial * millisecond) (intervalNanos interval) deliveryCount >
      ceilingNanos interval ceiling ↔ exactCeiling interval ceiling <
        (exactGrown strategy initial interval deliveryCount).bmod (2 ^ 64) := by
    rw [gt_iff_lt, Int64.lt_iff_toInt_lt, hgrown, toInt_ceilingNanos hinterval hceiling]
  rw [limitedOffset, if_pos hcount]
  split
  · rename_i h
    rw [toInt_ceilingNanos hinterval hceiling, min_eq_left (hgt.1 h).le]
  · rename_i h
    rw [hgrown, min_eq_right (not_lt.1 (hgt.not.1 h))]

/-! ### When the delay is exact -/

theorem exactGrown_pos (hinitial : FitsAsNanos initial) (hinterval : FitsAsNanos interval)
    (hcount : 1 < deliveryCount) : 0 < exactGrown strategy initial interval deliveryCount := by
  have hmultiplier : 0 < exactMultiplier deliveryCount strategy := by
    cases strategy with
    | linear =>
      rw [exactMultiplier]
      omega
    | exponential =>
      rw [exactMultiplier]
      positivity
  have hproduct := mul_pos (exactInterval_pos hinterval) hmultiplier
  have hnonneg := hinitial.1
  rw [exactGrown]
  omega

/-- The ceiling is a positive number that fits. -/
theorem exactCeiling_bounds (hinterval : FitsAsNanos interval) (hceiling : FitsAsNanos ceiling) :
    0 < exactCeiling interval ceiling ∧ exactCeiling interval ceiling < 2 ^ 63 :=
  ⟨lt_max_of_lt_right (exactInterval_pos hinterval), max_lt hceiling.2 (exactInterval_lt hinterval)⟩

/-- The ceiling is applied to the right delay exactly when the delay fits, or is still above the
ceiling when it has been reduced to 64 bits. -/
theorem min_bmod_eq_iff {ceiling grown : Int} (hceiling : ceiling < 2 ^ 63) (hgrown : 0 < grown) :
    min ceiling (grown.bmod (2 ^ 64)) = min ceiling grown ↔
      grown < 2 ^ 63 ∨ ceiling ≤ grown.bmod (2 ^ 64) := by
  by_cases hfits : grown < 2 ^ 63
  · have hsame : grown.bmod (2 ^ 64) = grown := Fits.bmod_eq ⟨by omega, hfits⟩
    rw [hsame]
    exact iff_of_true rfl (.inl hfits)
  · have hmin : min ceiling grown = ceiling := min_eq_left (by omega)
    rw [hmin, min_eq_left_iff, or_iff_right hfits]

/-- **When `getOffset` returns the exact delay**, called before that delay has elapsed: for the
first attempt, and for a later one exactly when the growing delay fits or is still at the ceiling
when it has been reduced to 64 bits, and the time elapsed is no more than a million times the delay,
reduced to 64 bits. -/
theorem getOffset_eq_exactOffset_iff (strategy : RetryStrategy) {initial interval ceiling : Int64}
    (hinitial : FitsAsNanos initial) (hinterval : FitsAsNanos interval)
    (hceiling : FitsAsNanos ceiling) {deliveryCount : Nat} (hcount : 1 ≤ deliveryCount)
    {elapsed : Int64}
    (helapsed : elapsed.toInt < exactOffset strategy initial interval deliveryCount ceiling) :
    (getOffset strategy initial interval deliveryCount ceiling elapsed).toInt =
        exactOffset strategy initial interval deliveryCount ceiling ↔ deliveryCount = 1 ∨
      (exactGrown strategy initial interval deliveryCount < 2 ^ 63 ∨ exactCeiling interval ceiling ≤
        (exactGrown strategy initial interval deliveryCount).bmod (2 ^ 64)) ∧ elapsed.toInt ≤
        (exactOffset strategy initial interval deliveryCount ceiling * 1000000).bmod (2 ^ 64) := by
  rcases hcount.eq_or_lt with rfl | hlater
  · -- the first attempt is made without a delay
    have hnone : limitedOffset strategy initial interval 1 ceiling = 0 := rfl
    rw [getOffset_eq, hnone, ite_self, Int64.toInt_zero, exactOffset, if_pos rfl]
    exact iff_of_true rfl (.inl rfl)
  have hne : deliveryCount ≠ 1 := by omega
  have hgrown : 0 < exactGrown strategy initial interval deliveryCount :=
    exactGrown_pos hinitial hinterval hlater
  have hlimits := exactCeiling_bounds hinterval hceiling
  have hexact : exactOffset strategy initial interval deliveryCount ceiling =
      min (exactCeiling interval ceiling) (exactGrown strategy initial interval deliveryCount) := by
    rw [exactOffset, if_neg hne]
  have hpositive : 0 < exactOffset strategy initial interval deliveryCount ceiling := by
    rw [hexact]
    exact lt_min hlimits.1 hgrown
  have hsame := min_bmod_eq_iff hlimits.2 hgrown
  rw [← hexact, ← toInt_limitedOffset hinitial hinterval hceiling hlater] at hsame
  have hmillisecond : millisecond.toInt = 1000000 := by decide
  -- the result is zero once the wrong time has elapsed, which the exact delay is not
  rw [getOffset_eq, ← hsame]
  split
  · rename_i hlate
    rw [gt_iff_lt, Int64.lt_iff_toInt_lt, Int64.toInt_mul, hmillisecond] at hlate
    rw [Int64.toInt_zero]
    refine iff_of_false (by omega) ?_
    rintro (hone | ⟨hoffset, hearly⟩)
    · exact hne hone
    · rw [hoffset] at hlate
      omega
  · rename_i hearly
    rw [gt_iff_lt, Int64.lt_iff_toInt_lt, Int64.toInt_mul, hmillisecond, not_lt] at hearly
    constructor
    · intro hoffset
      rw [hoffset] at hearly
      exact .inr ⟨hoffset, hearly⟩
    · rintro (hone | ⟨hoffset, -⟩)
      · exact absurd hone hne
      · exact hoffset

/-- The second attempt of a task with an interval of one second. -/
theorem getOffset_eq_exactOffset_second : (getOffset .exponential 0 1000 2 512000 5).toInt =
      exactOffset .exponential 0 1000 2 512000 :=
  (getOffset_eq_exactOffset_iff .exponential (by decide) (by decide) (by decide) (by decide)
    (by decide)).2 (by decide)

/-- **A ceiling of four hours.** The ninth attempt of a task with an interval of one minute is made
at once, where it should wait for four hours. -/
theorem four_hours_wait_is_zero : FitsAsNanos 0 ∧ FitsAsNanos 60000 ∧ FitsAsNanos 14400000 ∧
      exactOffset .exponential 0 60000 9 14400000 = 4 * 3600 * 1000000000 ∧
      getOffset .exponential 0 60000 9 14400000 0 = 0 := by
  decide

end SharWorkflow
