-- The values of the numbers of 64 bits that are not negative. Small whole
-- numbers and small powers of ten are exact; what is larger is moved by a small
-- part of it, and so are quotients.
import SeededStreams.Proofs.Binary64.Rounding

namespace SeededStreams.Binary64

/-! ## Numbers that are not negative -/

theorem toNat_bits_ofRank {r : Nat} (hr : r < signWeight) : (ofRank false r).bits.toNat = r :=
  UInt64.toNat_ofNat_of_lt (hr.trans (by decide))

theorem rank_ofRank {r : Nat} (hr : r < signWeight) : (ofRank false r).rank = r := by
  unfold rank
  rw [toNat_bits_ofRank hr, Nat.mod_eq_of_lt hr]

theorem isNegative_ofRank {r : Nat} (hr : r < signWeight) : (ofRank false r).isNegative = false := by
  unfold isNegative
  rw [toNat_bits_ofRank hr, decide_eq_false (not_le.mpr hr)]

/-- A number is found again by its rank. -/
theorem ofRank_rank {x : Binary64} (hx : x.isNegative = false) : ofRank false x.rank = x := by
  have hbits : x.bits.toNat < signWeight := not_le.mp (of_decide_eq_false hx)
  unfold ofRank rank
  rw [if_neg (by decide), Nat.mod_eq_of_lt hbits, UInt64.ofNat_toNat]

theorem nearestRank_le (v : Rat) : nearestRank v ≤ infinityRank := by
  unfold nearestRank
  split
  · exact Nat.zero_le _
  · exact min_le_left _ _

theorem nearestRank_lt_signWeight (v : Rat) : nearestRank v < signWeight :=
  (nearestRank_le v).trans_lt (by decide)

theorem nearest_of_nonneg {v : Rat} (hv : 0 ≤ v) : nearest v = ofRank false (nearestRank v) := by
  unfold nearest
  rw [if_neg (not_lt.mpr hv)]

theorem rank_nearest {v : Rat} (hv : 0 ≤ v) : (nearest v).rank = nearestRank v := by
  rw [nearest_of_nonneg hv, rank_ofRank (nearestRank_lt_signWeight v)]

theorem isNegative_nearest {v : Rat} (hv : 0 ≤ v) : (nearest v).isNegative = false := by
  rw [nearest_of_nonneg hv, isNegative_ofRank (nearestRank_lt_signWeight v)]

theorem toRat_nearest {v : Rat} (hv : 0 ≤ v) : (nearest v).toRat = valueAt (nearestRank v) := by
  unfold toRat
  rw [isNegative_nearest hv, if_neg (by decide), rank_nearest hv]

theorem toRat_of_nonneg {x : Binary64} (hx : x.isNegative = false) : x.toRat = valueAt x.rank := by
  unfold toRat
  rw [hx, if_neg (by decide)]

theorem valueAt_nonneg (r : Nat) : 0 ≤ valueAt r := by
  rcases Nat.eq_zero_or_pos r with rfl | hr
  · rw [valueAt_zero]
  · exact (valueAt_pos hr).le

/-- A number is rounded to itself. -/
theorem nearest_toRat {x : Binary64} (hfinite : x.isFinite = true) (hx : x.isNegative = false) :
    nearest x.toRat = x := by
  have hrank : x.rank < infinityRank := of_decide_eq_true hfinite
  rw [toRat_of_nonneg hx, nearest_of_nonneg (valueAt_nonneg _), nearestRank_valueAt,
    min_eq_right hrank.le, ofRank_rank hx]

/-- The value tells the number. -/
theorem eq_of_toRat_eq {x y : Binary64} (hxfinite : x.isFinite = true) (hx : x.isNegative = false)
    (hyfinite : y.isFinite = true) (hy : y.isNegative = false) (h : x.toRat = y.toRat) : x = y := by
  rw [← nearest_toRat hxfinite hx, h, nearest_toRat hyfinite hy]

/-- Ranks are in the order of their values. -/
theorem valueAt_mono {r s : Nat} (h : r ≤ s) (hs : s ≤ infinityRank) : valueAt r ≤ valueAt s := by
  by_contra hlt
  have hranks := nearestRank_mono (not_le.mp hlt).le
  rw [nearestRank_valueAt, nearestRank_valueAt, min_eq_right hs, min_eq_right (h.trans hs)] at hranks
  obtain rfl := Nat.le_antisymm h hranks
  exact hlt (le_refl _)

theorem toRat_nearest_mono {v w : Rat} (hv : 0 ≤ v) (h : v ≤ w) :
    (nearest v).toRat ≤ (nearest w).toRat := by
  rw [toRat_nearest hv, toRat_nearest (hv.trans h)]
  exact valueAt_mono (nearestRank_mono h) (nearestRank_le w)

theorem toRat_nearest_zero : (nearest 0).toRat = 0 := by
  rw [toRat_nearest (le_refl 0), nearestRank_of_nonpos (le_refl 0), valueAt_zero]

theorem toRat_nearest_scaled {a : Nat} {b : Int} (ha : a < 2 * binade) (hlow : -1074 ≤ b)
    (hhigh : b ≤ 971) : (nearest (a * 2 ^ b)).toRat = a * 2 ^ b := by
  obtain ⟨r, hr, hvalue⟩ := exists_rank_of_scaled ha hlow hhigh
  rw [toRat_nearest (by positivity), ← hvalue, nearestRank_valueAt, min_eq_right hr.le]

theorem toRat_nearest_zpow {b : Int} (hlow : -1074 ≤ b) (hhigh : b ≤ 971) :
    (nearest (2 ^ b)).toRat = 2 ^ b := by
  have h := toRat_nearest_scaled (a := 1) (by decide) hlow hhigh
  rwa [Nat.cast_one, one_mul] at h

/-- Whole numbers of at most 53 bits are exact, and so is the next one. -/
theorem toRat_ofNat {n : Nat} (hn : n ≤ 2 * binade) : (ofNat n).toRat = n := by
  unfold ofNat
  rcases Nat.lt_or_eq_of_le hn with hlt | rfl
  · have h := toRat_nearest_scaled hlt (b := 0) (by decide) (by decide)
    rwa [zpow_zero, mul_one] at h
  · have h := toRat_nearest_scaled (a := 1) (b := 53) (by decide) (by decide) (by decide)
    have hpower : ((1 : Nat) : Rat) * 2 ^ (53 : Int) = (2 * binade : Nat) := by norm_num [binade]
    rwa [hpower] at h

theorem quotient_ofNat {a b : Nat} (ha : a ≤ 2 * binade) (hb : b ≤ 2 * binade) :
    (ofNat a).quotient (ofNat b) = nearest (a / b) := by
  unfold quotient
  rw [toRat_ofNat ha, toRat_ofNat hb]

/-- Longer ones are moved by the 2^-53th part at most. -/
theorem near_ofNat {n : Nat} (hpos : 0 < n) (hn : n ≤ 10 ^ 32) : Near (ofNat n).toRat n := by
  have hone : (1 : Rat) ≤ n := by exact_mod_cast hpos
  have hbound : (n : Rat) ≤ 10 ^ 32 := by exact_mod_cast hn
  have hlimit : (10 : Rat) ^ 32 < 2 ^ (107 : Int) := by norm_num
  have hlast : (2 : Rat) ^ (107 : Int) ≤ 2 ^ (1023 : Int) :=
    zpow_le_zpow_right₀ (by norm_num) (by decide)
  unfold ofNat
  rw [toRat_nearest (Nat.cast_nonneg n)]
  apply near_nearestRank
  · exact (zpow_le_one_of_nonpos₀ (by norm_num) (by decide)).trans hone
  · exact (hbound.trans_lt hlimit).trans_le hlast

/-- The powers of ten with an odd part of at most 53 bits are exact. -/
theorem toRat_ofNat_ten_pow {k : Nat} (hk : k ≤ 22) :
    (ofNat (10 ^ k)).toRat = ((10 ^ k : Nat) : Rat) := by
  have hodd : 5 ^ k < 2 * binade := (Nat.pow_le_pow_right (by decide) hk).trans_lt (by decide)
  have h := toRat_nearest_scaled hodd (b := k) (by omega) (by omega)
  have hparts : ((5 ^ k : Nat) : Rat) * 2 ^ (k : Int) = ((10 ^ k : Nat) : Rat) := by
    rw [zpow_natCast]
    push_cast
    rw [← mul_pow]
    norm_num
  rwa [hparts] at h

/-! ## Several roundings -/

/-- The quotient of two numbers that are each off by a part of them. -/
theorem Near.div {a b c d : Rat} (hb : 0 < b) (hd : 0 < d) (hab : Near a b) (hcd : Near c d) :
    a / c * (1 - 2 ^ (-53 : Int)) ≤ b / d * (1 + 2 ^ (-53 : Int)) ∧
      b / d * (1 - 2 ^ (-53 : Int)) ≤ a / c * (1 + 2 ^ (-53 : Int)) := by
  obtain ⟨hale, hage⟩ := hab
  obtain ⟨hcle, hcge⟩ := hcd
  have hunit : (0 : Rat) < 2 ^ (-53 : Int) ∧ (2 : Rat) ^ (-53 : Int) < 1 := by norm_num
  obtain ⟨hu, hu'⟩ := hunit
  generalize (2 : Rat) ^ (-53 : Int) = u at *
  have hless : 0 < 1 - u := by linarith
  have hlow : d * (1 - u) ≤ c := by linarith
  have hc : 0 < c := lt_of_lt_of_le (mul_pos hd hless) hlow
  have hq : 0 < b / d := div_pos hb hd
  constructor
  · rw [div_mul_eq_mul_div, div_le_iff₀ hc]
    calc a * (1 - u) ≤ (b + b * u) * (1 - u) := by gcongr
      _ = b / d * (1 + u) * (d * (1 - u)) := by field_simp
      _ ≤ b / d * (1 + u) * c := by gcongr
  · rw [div_mul_eq_mul_div a, le_div_iff₀ hc]
    calc b / d * (1 - u) * c ≤ b / d * (1 - u) * (d + d * u) := by gcongr
      _ = (b - b * u) * (1 + u) := by field_simp
      _ ≤ a * (1 + u) := by gcongr; linarith

/-- Rounding two numbers that are near each other keeps them near. -/
theorem nearest_near {q r : Rat} (hlow : 1 / 10 ^ 32 ≤ q) (hhigh : q ≤ 10 ^ 32)
    (hrq : r * (1 - 2 ^ (-53 : Int)) ≤ q * (1 + 2 ^ (-53 : Int)))
    (hqr : q * (1 - 2 ^ (-53 : Int)) ≤ r * (1 + 2 ^ (-53 : Int))) :
    |(nearest r).toRat - valueAt (nearestRank q)| ≤ valueAt (nearestRank q) * 2 ^ (-50 : Int) := by
  have hunit : (2 : Rat) ^ (-53 : Int) = 1 / 9007199254740992 := by norm_num
  have hpart : (2 : Rat) ^ (-50 : Int) = 1 / 1125899906842624 := by norm_num
  have hleast : (2 : Rat) ^ (-1022 : Int) ≤ 1 / (2 * 10 ^ 32) := by
    have hsmall : (2 : Rat) ^ (-110 : Int) ≤ 1 / (2 * 10 ^ 32) := by norm_num
    exact (zpow_le_zpow_right₀ (by norm_num) (by decide)).trans hsmall
  have hgreatest : (2 * 10 ^ 32 : Rat) < 2 ^ (1023 : Int) := by
    have hlarge : (2 * 10 ^ 32 : Rat) < 2 ^ (110 : Int) := by norm_num
    exact hlarge.trans_le (zpow_le_zpow_right₀ (by norm_num) (by decide))
  rw [hunit] at hrq hqr
  have hqlow : 1 / (2 * 10 ^ 32) ≤ q := by linarith
  have hqhigh : q ≤ 2 * 10 ^ 32 := by linarith
  have hrlow : 1 / (2 * 10 ^ 32) ≤ r := by linarith
  have hrhigh : r ≤ 2 * 10 ^ 32 := by linarith
  obtain ⟨hqle, hqge⟩ := near_nearestRank (hleast.trans hqlow) (hqhigh.trans_lt hgreatest)
  obtain ⟨hrle, hrge⟩ := near_nearestRank (hleast.trans hrlow) (hrhigh.trans_lt hgreatest)
  rw [hunit] at hqle hqge hrle hrge
  rw [toRat_nearest (by linarith), hpart, abs_le]
  constructor <;> linarith

end SeededStreams.Binary64
