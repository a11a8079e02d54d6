-- That rounding is rounding to the nearest number, and to the one with an even
-- significand where two are as near. So a rounded number is told by distances alone.
import SeededStreams.Proofs.Binary64.Values

namespace SeededStreams.Binary64

/-! ## Steps between ranks -/

theorem valueAt_lt {r s : Nat} (h : r < s) (hs : s ≤ infinityRank) : valueAt r < valueAt s := by
  apply lt_of_le_of_ne (valueAt_mono h.le hs)
  intro hsame
  have hranks := congrArg nearestRank hsame
  rw [nearestRank_valueAt, nearestRank_valueAt] at hranks
  omega

theorem toRat_lt {x y : Binary64} (hx : x.isNegative = false) (hy : y.isNegative = false)
    (hfinite : y.isFinite = true) (h : x.rank < y.rank) : x.toRat < y.toRat := by
  have hrank : y.rank < infinityRank := of_decide_eq_true hfinite
  rw [toRat_of_nonneg hx, toRat_of_nonneg hy]
  exact valueAt_lt h hrank.le

/-- The next rank is a whole step further. Behind the last multiple of a window the steps
are twice as long. -/
theorem add_spacing_le_valueAt {k m : Nat} (hlow : k = 0 ∨ binade ≤ m) (hhigh : m ≤ 2 * binade) :
    m * spacing k + spacing k ≤ valueAt (k * binade + m + 1) := by
  have hspacing := spacing_pos k
  rcases Nat.lt_or_eq_of_le hhigh with hlt | rfl
  · rw [Nat.add_assoc, valueAt_window (hlow.imp id (by omega)) hlt]
    push_cast
    linarith
  · have hrank : k * binade + 2 * binade + 1 = (k + 1) * binade + (binade + 1) := by ring
    have hbinade : binade + 1 ≤ 2 * binade := by decide
    rw [hrank, valueAt_window (Or.inr (Nat.le_succ _)) hbinade, spacing_succ]
    push_cast
    linarith

/-- The rank before is a whole step back, but not below the first multiple of a window. -/
theorem valueAt_le_sub_spacing {k m : Nat} (hlow : k = 0 ∨ binade < m) (hpos : 0 < m)
    (hhigh : m ≤ 2 * binade) : valueAt (k * binade + m - 1) = m * spacing k - spacing k := by
  obtain ⟨n, rfl⟩ := Nat.exists_eq_add_of_lt hpos
  have hrank : k * binade + (0 + n + 1) - 1 = k * binade + n := by omega
  rw [hrank, valueAt_window (hlow.imp id (by omega)) (by omega)]
  push_cast
  ring

/-! ## The nearest rank -/

/-- A multiple of the spacing of a number's window at most half a spacing away from the
number, and an even one where it is that far. -/
structure NearMultiple (v : Rat) (k m : Nat) : Prop where
  window : InWindow k v
  low : k = 0 ∨ binade ≤ m
  high : m ≤ 2 * binade
  near : |m * spacing k - v| ≤ spacing k / 2
  even : |m * spacing k - v| = spacing k / 2 → m % 2 = 0

/-- The nearest rank is that of such a multiple. -/
theorem exists_nearMultiple {v : Rat} (hv : 0 < v) (hfinite : nearestRank v < infinityRank) :
    ∃ k m, nearestRank v = k * binade + m ∧ NearMultiple v k m := by
  obtain ⟨k, hk⟩ := exists_window hv
  have hspacing := spacing_pos k
  have hquotient : 0 ≤ v / spacing k := (div_pos hv hspacing).le
  have hrank := nearestRank_of_window hv hk
  have hhalf : spacing k / 2 = 1 / 2 * spacing k := by ring
  have hdist : ∀ m : Rat, |m * spacing k - v| = |m - v / spacing k| * spacing k := by
    intro m
    rw [← abs_of_pos hspacing, ← abs_mul, abs_of_pos hspacing, sub_mul,
      div_mul_cancel₀ v hspacing.ne']
  refine ⟨k, roundEven (v / spacing k), by omega, hk, hk.low.imp id le_roundEven,
    hk.roundEven_le hv, ?_, ?_⟩
  · obtain ⟨hle, hge⟩ := roundEven_near hquotient
    have hnear : |(roundEven (v / spacing k) : Rat) - v / spacing k| ≤ 1 / 2 := by
      rw [abs_le]
      constructor <;> linarith
    rw [hdist, hhalf]
    exact mul_le_mul_of_nonneg_right hnear hspacing.le
  · intro htie
    rw [hdist, hhalf] at htie
    exact roundEven_even hquotient (mul_right_cancel₀ hspacing.ne' htie)

namespace NearMultiple

variable {v : Rat} {k m s : Nat}

theorem le_of_above (h : NearMultiple v k m) (hs : s < infinityRank) (habove : k * binade + m < s) :
    spacing k / 2 ≤ |valueAt s - v| := by
  have hstep := add_spacing_le_valueAt h.low h.high
  have hmono := valueAt_mono (Nat.succ_le_of_lt habove) hs.le
  have hnear := (abs_le.mp h.near).1
  exact le_trans (by linarith) (le_abs_self _)

theorem le_of_below (h : NearMultiple v k m) (hrank : k * binade + m < infinityRank)
    (hfirst : k = 0 ∨ binade < m) (hbelow : s < k * binade + m) :
    spacing k / 2 ≤ |valueAt s - v| := by
  have hpos : 0 < m := by
    rcases hfirst with rfl | hlt <;> omega
  have hstep := valueAt_le_sub_spacing hfirst hpos h.high
  have hmono := valueAt_mono (Nat.le_sub_one_of_lt hbelow) (by omega)
  have hnear := (abs_le.mp h.near).2
  rw [abs_sub_comm]
  exact le_trans (by linarith) (le_abs_self _)

/-- The number is not below the first multiple of its window, so all ranks before that one
are further away. -/
theorem lt_of_first (h : NearMultiple v k m) (hrank : k * binade + m < infinityRank)
    (hfirst : ¬(k = 0 ∨ binade < m)) (hbelow : s < k * binade + m) :
    |m * spacing k - v| < |valueAt s - v| := by
  obtain ⟨hk, hm⟩ := not_or.mp hfirst
  obtain rfl : m = binade := Nat.le_antisymm (not_lt.mp hm) (h.low.resolve_left hk)
  have hstart := h.window.low.resolve_left hk
  have hvalue := valueAt_lt hbelow hrank.le
  rw [valueAt_window h.low h.high] at hvalue
  rw [abs_of_nonpos (by linarith), abs_of_nonpos (by linarith)]
  linarith

/-- A rank that is half a spacing away or more is as near at best, and then the
multiple is even. -/
theorem nearer_of_le (h : NearMultiple v k m) (hle : spacing k / 2 ≤ |valueAt s - v|) :
    |m * spacing k - v| < |valueAt s - v| ∨
      |m * spacing k - v| = |valueAt s - v| ∧ (k * binade + m) % 2 = 0 := by
  rcases (h.near.trans hle).lt_or_eq with hlt | heq
  · exact Or.inl hlt
  · have hm := h.even (le_antisymm h.near (heq ▸ hle))
    have hbinade : k * binade % 2 = 0 := Nat.mod_eq_zero_of_dvd (Dvd.dvd.mul_left (by decide) k)
    exact Or.inr ⟨heq, by omega⟩

end NearMultiple

/-- No other rank has a value as near, or the nearest rank is even. -/
theorem nearestRank_nearest {v : Rat} (hv : 0 ≤ v) {s : Nat} (hs : s < infinityRank)
    (hfinite : nearestRank v < infinityRank) (hne : s ≠ nearestRank v) :
    |valueAt (nearestRank v) - v| < |valueAt s - v| ∨
      |valueAt (nearestRank v) - v| = |valueAt s - v| ∧ nearestRank v % 2 = 0 := by
  rcases hv.eq_or_lt with rfl | hpos
  · rw [nearestRank_of_nonpos (le_refl 0)] at hne ⊢
    have hvalue := valueAt_pos (Nat.pos_of_ne_zero hne)
    left
    rwa [valueAt_zero, sub_zero, sub_zero, abs_zero, abs_of_pos hvalue]
  · obtain ⟨k, m, hrank, h⟩ := exists_nearMultiple hpos hfinite
    rw [hrank] at hne hfinite ⊢
    rw [valueAt_window h.low h.high]
    rcases Nat.lt_or_gt_of_ne hne with hbelow | habove
    · by_cases hfirst : k = 0 ∨ binade < m
      · exact h.nearer_of_le (h.le_of_below hfinite hfirst hbelow)
      · exact Or.inl (h.lt_of_first hfinite hfirst hbelow)
    · exact h.nearer_of_le (h.le_of_above hs habove)

/-! ## Rounding -/

/-- Rounding to nearest, for a number that is not negative: every other finite number is
further away, or as far away and the bits of the rounded one are even. -/
structure Rounds (v : Rat) (x : Binary64) : Prop where
  isFinite : x.isFinite = true
  isNegative : x.isNegative = false
  nearest : ∀ y : Binary64, y.isFinite = true → y ≠ x →
    |x.toRat - v| < |y.toRat - v| ∨ |x.toRat - v| = |y.toRat - v| ∧ x.bits.toNat % 2 = 0

theorem toNat_bits_of_nonneg {x : Binary64} (hx : x.isNegative = false) : x.bits.toNat = x.rank :=
  (Nat.mod_eq_of_lt (not_le.mp (of_decide_eq_false hx))).symm

/-- Zero is a candidate as well, so no number is rounded to what is further away. -/
theorem nearestRank_near {v : Rat} (hv : 0 ≤ v) (hfinite : nearestRank v < infinityRank) :
    |valueAt (nearestRank v) - v| < v ∨
      |valueAt (nearestRank v) - v| = v ∧ nearestRank v % 2 = 0 := by
  have hzero : |valueAt 0 - v| = v := by
    rw [valueAt_zero, zero_sub, abs_neg, abs_of_nonneg hv]
  by_cases hne : 0 = nearestRank v
  · rw [← hne]
    exact Or.inr ⟨hzero, rfl⟩
  · have h := nearestRank_nearest hv (by decide) hfinite hne
    rwa [hzero] at h

theorem rounds_nearest {v : Rat} (hv : 0 ≤ v) (hfinite : (nearest v).isFinite = true) :
    Rounds v (nearest v) := by
  have hnegative := isNegative_nearest hv
  refine ⟨hfinite, hnegative, ?_⟩
  intro y hy hne
  rw [toNat_bits_of_nonneg hnegative, toRat_nearest hv, rank_nearest hv]
  have hlt : nearestRank v < infinityRank := by
    rw [← rank_nearest hv]
    exact of_decide_eq_true hfinite
  cases hsign : y.isNegative with
  | false =>
    rw [toRat_of_nonneg hsign]
    apply nearestRank_nearest hv (of_decide_eq_true hy) hlt
    intro hrank
    rw [nearest_of_nonneg hv, ← hrank, ofRank_rank hsign] at hne
    exact hne rfl
  | true =>
    have hvalue := valueAt_nonneg y.rank
    have hdist : |y.toRat - v| = v + valueAt y.rank := by
      unfold toRat
      rw [hsign, if_pos rfl, abs_of_nonpos (by linarith)]
      ring
    rw [hdist]
    rcases nearestRank_near hv hlt with hless | ⟨hsame, heven⟩
    · exact Or.inl (by linarith)
    · rcases hvalue.eq_or_lt with hzero | hpos
      · exact Or.inr ⟨by linarith, heven⟩
      · exact Or.inl (by linarith)

/-- What lies between two numbers is nearer than both to what they are as near to. -/
theorem abs_sub_lt_of_between {a b c v : Rat} (hab : a < b) (hbc : b < c)
    (h : |a - v| = |c - v|) : |b - v| < |a - v| := by
  have hmiddle : v = (a + c) / 2 := by
    rcases abs_eq_abs.mp h with hsame | hmirror <;> linarith
  rw [abs_of_neg (show a - v < 0 by linarith), abs_lt]
  constructor <;> linarith

namespace Rounds

variable {v : Rat} {x y : Binary64}

/-- Two numbers to which one is rounded are as near as each other, and both even. -/
theorem tie (hx : Rounds v x) (hy : Rounds v y) (hne : x ≠ y) :
    |x.toRat - v| = |y.toRat - v| ∧ x.rank % 2 = 0 ∧ y.rank % 2 = 0 := by
  have hxeven := hx.nearest y hy.isFinite hne.symm
  have hyeven := hy.nearest x hx.isFinite hne
  rw [toNat_bits_of_nonneg hx.isNegative] at hxeven
  rw [toNat_bits_of_nonneg hy.isNegative] at hyeven
  rcases hxeven with hless | ⟨hsame, hxeven⟩
  · rcases hyeven with hless' | ⟨hsame, _⟩ <;> linarith
  · rcases hyeven with hless' | ⟨_, hyeven⟩
    · linarith
    · exact ⟨hsame, hxeven, hyeven⟩

/-- Between two even ranks there is another one, and its number would be nearer. -/
theorem not_rank_lt (hx : Rounds v x) (hy : Rounds v y) : ¬ x.rank < y.rank := by
  intro hlt
  have hne : x ≠ y := fun h => by rw [h] at hlt; omega
  obtain ⟨hsame, hxeven, hyeven⟩ := hx.tie hy hne
  have hfinite : y.rank < infinityRank := of_decide_eq_true hy.isFinite
  have hnext : x.rank + 1 < signWeight := by
    have hlimit : infinityRank < signWeight := by decide
    omega
  have hrank := rank_ofRank hnext
  have hsign := isNegative_ofRank hnext
  have hmiddle : (ofRank false (x.rank + 1)).isFinite = true :=
    decide_eq_true (by rw [hrank]; omega)
  have hbelow := toRat_lt hx.isNegative hsign hmiddle (by rw [hrank]; omega)
  have habove := toRat_lt hsign hy.isNegative hy.isFinite (by rw [hrank]; omega)
  have hnearer := abs_sub_lt_of_between hbelow habove hsame
  rcases hx.nearest _ hmiddle (fun h => by rw [h] at hrank; omega) with hless | ⟨hsame', _⟩
  · linarith
  · linarith

/-- A number is rounded in one way only. -/
theorem unique (hx : Rounds v x) (hy : Rounds v y) : x = y := by
  have hrank := Nat.le_antisymm (Nat.not_lt.mp (hy.not_rank_lt hx)) (Nat.not_lt.mp (hx.not_rank_lt hy))
  rw [← ofRank_rank hx.isNegative, ← ofRank_rank hy.isNegative, hrank]

end Rounds

end SeededStreams.Binary64
