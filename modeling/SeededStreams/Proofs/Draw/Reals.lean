-- The values of the reals that are drawn. Two of the kinds are exact; the third
-- one is rounded, but stays between 0 and 1. No draw but zero is below 2^-53.
import SeededStreams.Draw.Kind
import SeededStreams.Proofs.Binary64.Values

namespace SeededStreams.Kind

open Binary64

/-! ## The units -/

/-- One over a power of two up to the 53rd is exact. -/
theorem toRat_one_over {k n : Nat} (hk : k ≤ 53) (hn : n = 2 ^ k) :
    ((Binary64.ofNat 1).quotient (Binary64.ofNat n)).toRat = (2 : Rat) ^ (-(k : Int)) := by
  have hle : n ≤ 2 * binade := by
    rw [hn]
    exact (Nat.pow_le_pow_right (by decide) hk).trans (by decide)
  have hvalue : ((1 : Nat) : Rat) / n = 2 ^ (-(k : Int)) := by
    rw [hn, zpow_neg, zpow_natCast]
    push_cast
    rw [one_div]
  rw [quotient_ofNat (by decide) hle, hvalue, toRat_nearest_zpow (by omega) (by omega)]

theorem toRat_halfOpenUnit : halfOpenUnit.toRat = (2 : Rat) ^ (-53 : Int) :=
  toRat_one_over (k := 53) (by decide) (by decide)

theorem toRat_openUnit : openUnit.toRat = (2 : Rat) ^ (-52 : Int) :=
  toRat_one_over (k := 52) (by decide) (by decide)

theorem toRat_half : half.toRat = (2 : Rat) ^ (-1 : Int) :=
  toRat_one_over (k := 1) (by decide) (by decide)

/-- The closed unit is one step above 2^-53. -/
theorem toRat_closedUnit : closedUnit.toRat = (2 : Rat) ^ (-53 : Int) + 2 ^ (-105 : Int) := by
  decide +kernel

/-! ## The draws -/

theorem toNat_shift_lt (w : Word) : (w >>> 11).toNat < 2 * binade ∧ (w >>> 12).toNat < binade := by
  have hsize := w.toNat_lt
  have hclosed : (w >>> 11).toNat = w.toNat / 2 ^ 11 := by
    rw [UInt64.toNat_shiftRight, Nat.shiftRight_eq_div_pow]
    rfl
  have hopen : (w >>> 12).toNat = w.toNat / 2 ^ 12 := by
    rw [UInt64.toNat_shiftRight, Nat.shiftRight_eq_div_pow]
    rfl
  unfold binade
  omega

theorem toRat_halfOpenReal (w : Word) :
    (halfOpenReal w).toRat = (w >>> 11).toNat * (2 : Rat) ^ (-53 : Int) := by
  have hlt := (toNat_shift_lt w).1
  unfold halfOpenReal product
  rw [toRat_ofNat hlt.le, toRat_halfOpenUnit, toRat_nearest_scaled hlt (by decide) (by decide)]

theorem toRat_openReal (w : Word) :
    (openReal w).toRat = (2 * (w >>> 12).toNat + 1 : Nat) * (2 : Rat) ^ (-53 : Int) := by
  have hlt := (toNat_shift_lt w).2
  have hodd : 2 * (w >>> 12).toNat + 1 < 2 * binade := by omega
  have hsum : ((w >>> 12).toNat : Rat) + (2 : Rat) ^ (-1 : Int) =
      (2 * (w >>> 12).toNat + 1 : Nat) * (2 : Rat) ^ (-1 : Int) := by
    push_cast
    norm_num
    ring
  unfold openReal product sum
  rw [toRat_ofNat (by omega), toRat_half, hsum, toRat_nearest_scaled hodd (by decide) (by decide),
    toRat_openUnit, mul_assoc, ← zpow_add₀ (by norm_num)]
  exact toRat_nearest_scaled hodd (by decide) (by decide)

theorem closedReal_eq (w : Word) :
    closedReal w = nearest ((w >>> 11).toNat * (2 ^ (-53 : Int) + 2 ^ (-105 : Int))) := by
  unfold closedReal product
  rw [toRat_ofNat (toNat_shift_lt w).1.le, toRat_closedUnit]

/-! ## Their range -/

/-- A real from 0 to 1, and at least 2^-53 unless it is 0. -/
structure UnitReal (x : Binary64) : Prop where
  isNegative : x.isNegative = false
  le_one : x.toRat ≤ 1
  zero_or_le : x.toRat = 0 ∨ (2 : Rat) ^ (-53 : Int) ≤ x.toRat

theorem unitReal_of_scaled {x : Binary64} (hx : x.isNegative = false) {a : Nat} (ha : a < 2 * binade)
    (hvalue : x.toRat = a * (2 : Rat) ^ (-53 : Int)) : UnitReal x := by
  have hunit : (0 : Rat) < 2 ^ (-53 : Int) := by positivity
  refine ⟨hx, ?_, ?_⟩
  · have hle : (a : Rat) ≤ (2 * binade : Nat) := by exact_mod_cast ha.le
    have hone : ((2 * binade : Nat) : Rat) * 2 ^ (-53 : Int) = 1 := by norm_num [binade]
    rw [hvalue, ← hone]
    exact mul_le_mul_of_nonneg_right hle hunit.le
  · rw [hvalue]
    rcases Nat.eq_zero_or_pos a with rfl | hpos
    · left
      rw [Nat.cast_zero, zero_mul]
    · right
      have hone : (1 : Rat) ≤ a := by exact_mod_cast hpos
      exact le_mul_of_one_le_left hunit.le hone

theorem isNegative_product {x y : Binary64} (hx : 0 ≤ x.toRat) (hy : 0 ≤ y.toRat) :
    (x.product y).isNegative = false :=
  isNegative_nearest (mul_nonneg hx hy)

theorem unitReal_halfOpenReal (w : Word) : UnitReal (halfOpenReal w) := by
  have hlt := (toNat_shift_lt w).1
  refine unitReal_of_scaled (isNegative_product ?_ ?_) hlt (toRat_halfOpenReal w)
  · rw [toRat_ofNat hlt.le]
    positivity
  · rw [toRat_halfOpenUnit]
    positivity

theorem unitReal_openReal (w : Word) : UnitReal (openReal w) := by
  have hlt := (toNat_shift_lt w).2
  refine unitReal_of_scaled (isNegative_product ?_ ?_) (by omega) (toRat_openReal w)
  · unfold sum
    rw [toRat_nearest]
    · exact valueAt_nonneg _
    · rw [toRat_ofNat (by omega), toRat_half]
      positivity
  · rw [toRat_openUnit]
    positivity

/-- The greatest product is less than half a step above 1. -/
theorem toRat_nearest_closed_top :
    (nearest ((9007199254740991 : Nat) * (2 ^ (-53 : Int) + 2 ^ (-105 : Int)))).toRat = 1 := by
  decide +kernel

/-- A product that is not zero is no smaller than 2^-53, which is a number itself. -/
theorem le_toRat_closedReal {w : Word} (hw : 0 < (w >>> 11).toNat) :
    (2 : Rat) ^ (-53 : Int) ≤ (closedReal w).toRat := by
  have hunit : (0 : Rat) < 2 ^ (-53 : Int) := by positivity
  have hstep : (0 : Rat) < 2 ^ (-105 : Int) := by positivity
  have hone : (1 : Rat) ≤ (w >>> 11).toNat := by exact_mod_cast hw
  have hle : (2 : Rat) ^ (-53 : Int) ≤ (w >>> 11).toNat * (2 ^ (-53 : Int) + 2 ^ (-105 : Int)) := by
    nlinarith
  have h := toRat_nearest_mono hunit.le hle
  rwa [toRat_nearest_zpow (by decide) (by decide), ← closedReal_eq] at h

theorem toRat_closedReal_of_zero {w : Word} (hw : (w >>> 11).toNat = 0) : (closedReal w).toRat = 0 := by
  rw [closedReal_eq, hw, Nat.cast_zero, zero_mul, toRat_nearest_zero]

theorem toRat_closedReal_mono {v w : Word} (h : (v >>> 11).toNat ≤ (w >>> 11).toNat) :
    (closedReal v).toRat ≤ (closedReal w).toRat := by
  have hle : ((v >>> 11).toNat : Rat) ≤ (w >>> 11).toNat := by exact_mod_cast h
  rw [closedReal_eq, closedReal_eq]
  apply toRat_nearest_mono (by positivity)
  gcongr

theorem unitReal_closedReal (w : Word) : UnitReal (closedReal w) := by
  have hlt := (toNat_shift_lt w).1
  refine ⟨?_, ?_, ?_⟩
  · rw [closedReal_eq]
    exact isNegative_nearest (by positivity)
  · have hle : ((w >>> 11).toNat : Rat) ≤ (9007199254740991 : Nat) := by
      exact_mod_cast Nat.le_of_lt_succ hlt
    rw [closedReal_eq, ← toRat_nearest_closed_top]
    apply toRat_nearest_mono (by positivity)
    gcongr
  · rcases Nat.eq_zero_or_pos (w >>> 11).toNat with hzero | hpos
    · exact Or.inl (toRat_closedReal_of_zero hzero)
    · exact Or.inr (le_toRat_closedReal hpos)

theorem unitReal_of_draw {k : Kind} {w : Word} {x : Binary64} (h : k.draw w = .real x) :
    UnitReal x := by
  cases k with
  | u64 => cases h
  | i63 => cases h
  | realClosed =>
    cases h
    exact unitReal_closedReal w
  | realHalfOpen =>
    cases h
    exact unitReal_halfOpenReal w
  | realOpen =>
    cases h
    exact unitReal_openReal w

/-! ## Their rank -/

theorem nearestRank_one : nearestRank 1 = 1023 * binade := by decide +kernel

namespace UnitReal

theorem rank_le {x : Binary64} (h : UnitReal x) : x.rank ≤ 1023 * binade := by
  have hle := h.le_one
  rw [toRat_of_nonneg h.isNegative] at hle
  have hranks := nearestRank_mono hle
  rw [nearestRank_valueAt, nearestRank_one] at hranks
  have hlimit : 1023 * binade < infinityRank := by decide
  omega

theorem rank_lt_infinityRank {x : Binary64} (h : UnitReal x) : x.rank < infinityRank :=
  h.rank_le.trans_lt (by decide)

end UnitReal

end SeededStreams.Kind
