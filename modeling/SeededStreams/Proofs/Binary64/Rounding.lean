-- Rounding to the numbers of 64 bits. The numbers lie in windows: in window
-- `k` they are the whole multiples of one spacing, and the spacing doubles from
-- each window to the next. Rounding finds every number again, keeps the order,
-- and takes to a number all that is nearer to it than 2^-54 of it.
import Mathlib.Algebra.Order.Field.Power
import Mathlib.Algebra.Order.Floor.Semifield
import Mathlib.Data.Rat.Floor
import Mathlib.Tactic.FieldSimp
import Mathlib.Tactic.Linarith
import Mathlib.Tactic.Positivity
import Mathlib.Tactic.Ring
import SeededStreams.Binary64

namespace SeededStreams.Binary64

/-! ## Powers -/

theorem scaled_eq (m base : Nat) (e : Int) : scaled m base e = (m : Rat) * (base : Rat) ^ e := by
  unfold scaled
  split
  · rename_i he
    obtain ⟨n, rfl⟩ := Int.eq_ofNat_of_zero_le he
    rw [Int.toNat_natCast, zpow_natCast, Nat.pow_eq]
    push_cast
    rfl
  · obtain ⟨n, hn⟩ : ∃ n : Nat, e = -(n : Int) := ⟨(-e).toNat, by omega⟩
    rw [hn, neg_neg, Int.toNat_natCast, Rat.mkRat_eq_div, zpow_neg, zpow_natCast, Nat.pow_eq,
      div_eq_mul_inv]
    push_cast
    rfl

theorem eq_natAbs_div_den {v : Rat} (hv : 0 ≤ v) : v = (v.num.natAbs : Rat) / v.den := by
  have hnum : ((v.num.natAbs : Int) : Rat) = v.num := by
    rw [Int.natAbs_of_nonneg (Rat.num_nonneg.mpr hv)]
  rw [← Int.cast_natCast, hnum, Rat.num_div_den]

/-- The quotient of two whole numbers is off by one power of two at most. -/
theorem floorLog2_spec {v : Rat} (hv : 0 < v) :
    (2 : Rat) ^ floorLog2 v ≤ v ∧ v < (2 : Rat) ^ (floorLog2 v + 1) := by
  have hdiv := eq_natAbs_div_den hv.le
  have hnum : v.num.natAbs ≠ 0 := Int.natAbs_ne_zero.mpr (Rat.num_pos.mpr hv).ne'
  have hden : v.den ≠ 0 := v.den_nz
  have hdenpos : (0 : Rat) < v.den := by exact_mod_cast Nat.pos_of_ne_zero hden
  have hnumlow : (2 : Rat) ^ v.num.natAbs.log2 ≤ v.num.natAbs := by
    exact_mod_cast Nat.log2_self_le hnum
  have hnumhigh : (v.num.natAbs : Rat) < 2 ^ (v.num.natAbs.log2 + 1) := by
    exact_mod_cast Nat.lt_log2_self
  have hdenlow : (2 : Rat) ^ v.den.log2 ≤ v.den := by exact_mod_cast Nat.log2_self_le hden
  have hdenhigh : (v.den : Rat) < 2 ^ (v.den.log2 + 1) := by exact_mod_cast Nat.lt_log2_self
  unfold floorLog2
  simp only [scaled_eq, Nat.cast_one, one_mul, Nat.cast_ofNat]
  generalize hk : (v.num.natAbs.log2 : Int) - (v.den.log2 : Int) = k
  have hhigh : v < (2 : Rat) ^ (k + 1) := by
    rw [hdiv, div_lt_iff₀ hdenpos]
    calc (v.num.natAbs : Rat) < 2 ^ (v.num.natAbs.log2 + 1) := hnumhigh
      _ = (2 : Rat) ^ (k + 1) * 2 ^ v.den.log2 := by
        rw [← zpow_natCast, ← zpow_natCast, ← zpow_add₀ (by norm_num)]
        congr 1
        push_cast
        omega
      _ ≤ (2 : Rat) ^ (k + 1) * v.den := by gcongr
  have hlow : (2 : Rat) ^ (k - 1) ≤ v := by
    rw [hdiv, le_div_iff₀ hdenpos]
    calc (2 : Rat) ^ (k - 1) * v.den ≤ (2 : Rat) ^ (k - 1) * 2 ^ (v.den.log2 + 1) := by gcongr
      _ = 2 ^ v.num.natAbs.log2 := by
        rw [← zpow_natCast, ← zpow_natCast, ← zpow_add₀ (by norm_num)]
        congr 1
        push_cast
        omega
      _ ≤ v.num.natAbs := hnumlow
  split
  · rename_i hle
    exact ⟨hle, hhigh⟩
  · rename_i hlt
    refine ⟨hlow, ?_⟩
    rw [sub_add_cancel]
    exact not_le.mp hlt

/-! ## Rounding to whole numbers -/

/-- What is rounded is a whole number and a part of one. Less than a half is left out,
more than a half is one more, and a half goes to the even side. -/
theorem roundEven_parts {v : Rat} (hv : 0 ≤ v) :
    ∃ (q : Nat) (part : Rat), v = q + part ∧ 0 ≤ part ∧ part < 1 ∧
      (part < 1 / 2 ∧ roundEven v = q ∨ 1 / 2 < part ∧ roundEven v = q + 1 ∨
        part = 1 / 2 ∧ roundEven v = q + q % 2) := by
  have hden : (0 : Rat) < v.den := by exact_mod_cast v.den_pos
  have hquotient := eq_natAbs_div_den hv
  unfold roundEven
  simp only
  generalize v.num.natAbs = n at hquotient
  generalize v.den = d at hden hquotient
  have hpart : v = (n / d : Nat) + (n % d : Nat) / (d : Rat) := by
    have hsplit : (n : Rat) = (n / d : Nat) * d + (n % d : Nat) := by
      exact_mod_cast (Nat.div_add_mod' n d).symm
    rw [hquotient, hsplit, add_div, mul_div_cancel_right₀ _ hden.ne']
  have hone : (n % d : Nat) / (d : Rat) < 1 := by
    rw [div_lt_one hden]
    exact_mod_cast Nat.mod_lt n (by exact_mod_cast hden)
  refine ⟨n / d, (n % d : Nat) / (d : Rat), hpart, by positivity, hone, ?_⟩
  split
  · rename_i hless
    have hr : 2 * ((n % d : Nat) : Rat) < d := by exact_mod_cast Nat.compare_eq_lt.mp hless
    refine Or.inl ⟨?_, rfl⟩
    rw [div_lt_iff₀ hden]
    linarith
  · rename_i hmore
    have hr : (d : Rat) < 2 * ((n % d : Nat) : Rat) := by exact_mod_cast Nat.compare_eq_gt.mp hmore
    refine Or.inr (Or.inl ⟨?_, rfl⟩)
    rw [lt_div_iff₀ hden]
    linarith
  · rename_i htie
    have hr : 2 * ((n % d : Nat) : Rat) = d := by exact_mod_cast Nat.compare_eq_eq.mp htie
    refine Or.inr (Or.inr ⟨?_, rfl⟩)
    rw [div_eq_iff hden.ne']
    linarith

/-- A number and the whole number that it is rounded to are no further apart
than one half. -/
theorem roundEven_near {v : Rat} (hv : 0 ≤ v) :
    (roundEven v : Rat) ≤ v + 1 / 2 ∧ v ≤ roundEven v + 1 / 2 := by
  obtain ⟨q, part, hsum, hpart, hone, ⟨hlt, h⟩ | ⟨hgt, h⟩ | ⟨hhalf, h⟩⟩ := roundEven_parts hv
  · rw [h]
    constructor <;> linarith
  · rw [h]
    push_cast
    constructor <;> linarith
  · rw [h]
    rcases Nat.mod_two_eq_zero_or_one q with hq | hq
    all_goals
      rw [hq]
      push_cast
      constructor <;> linarith

/-- Where they are one half apart, the whole number is even. -/
theorem roundEven_even {v : Rat} (hv : 0 ≤ v) (hhalf : |(roundEven v : Rat) - v| = 1 / 2) :
    roundEven v % 2 = 0 := by
  obtain ⟨q, part, hsum, hpart, hone, ⟨hlt, h⟩ | ⟨hgt, h⟩ | ⟨htie, h⟩⟩ := roundEven_parts hv
  · rw [h, hsum, sub_add_cancel_left, abs_neg, abs_of_nonneg hpart] at hhalf
    exact absurd hhalf hlt.ne
  · have hrest : ((q + 1 : Nat) : Rat) - (q + part) = 1 - part := by
      push_cast
      ring
    rw [h, hsum, hrest, abs_of_pos (by linarith)] at hhalf
    linarith
  · omega

theorem roundEven_eq {v : Rat} {n : Nat} (hv : 0 ≤ v) (hlow : (n : Rat) - 1 / 2 < v)
    (hhigh : v < n + 1 / 2) : roundEven v = n := by
  obtain ⟨hle, hge⟩ := roundEven_near hv
  have hlt : (roundEven v : Rat) < (n + 1 : Nat) := by
    push_cast
    linarith
  have hgt : (n : Rat) < (roundEven v + 1 : Nat) := by
    push_cast
    linarith
  have hlt' : roundEven v < n + 1 := by exact_mod_cast hlt
  have hgt' : n < roundEven v + 1 := by exact_mod_cast hgt
  omega

theorem roundEven_natCast (n : Nat) : roundEven (n : Rat) = n :=
  roundEven_eq (Nat.cast_nonneg n) (by linarith) (by linarith)

/-- Were the order not kept, both would be the middle between two whole numbers. -/
theorem roundEven_mono {v w : Rat} (hv : 0 ≤ v) (h : v ≤ w) : roundEven v ≤ roundEven w := by
  by_contra hlt
  have hstep : (roundEven w : Rat) + 1 ≤ roundEven v := by exact_mod_cast not_le.mp hlt
  have hnear := (roundEven_near hv).1
  have hnear' := (roundEven_near (hv.trans h)).2
  have hsame : v = w := by linarith
  rw [hsame] at hlt
  exact hlt (Nat.le_refl _)

/-! ## Windows -/

/-- The distance of neighbours in window `k`. -/
def spacing (k : Nat) : Rat := (2 : Rat) ^ ((k : Int) - 1074)

theorem spacing_pos (k : Nat) : 0 < spacing k := zpow_pos (by norm_num) _

theorem spacing_succ (k : Nat) : spacing (k + 1) = 2 * spacing k := by
  unfold spacing
  rw [mul_comm, ← zpow_add_one₀ (by norm_num)]
  congr 1
  push_cast
  omega

theorem binade_eq : (binade : Rat) = (2 : Rat) ^ (52 : Int) := by norm_num [binade]

/-- The window of a positive number. Only the first one goes down to zero. -/
structure InWindow (k : Nat) (v : Rat) : Prop where
  low : k = 0 ∨ binade * spacing k ≤ v
  high : v < 2 * binade * spacing k

theorem binade_mul_spacing (k : Nat) : (binade : Rat) * spacing k = (2 : Rat) ^ ((k : Int) - 1022) := by
  rw [binade_eq, spacing, ← zpow_add₀ (by norm_num)]
  congr 1
  omega

theorem two_binade_mul_spacing (k : Nat) :
    2 * (binade : Rat) * spacing k = (2 : Rat) ^ ((k : Int) - 1021) := by
  rw [mul_assoc, binade_mul_spacing, mul_comm, ← zpow_add_one₀ (by norm_num)]
  congr 1
  omega

theorem exists_window {v : Rat} (hv : 0 < v) : ∃ k, InWindow k v := by
  obtain ⟨hlow, hhigh⟩ := floorLog2_spec hv
  refine ⟨(floorLog2 v + 1022).toNat, ?_, ?_⟩
  · by_cases hfirst : floorLog2 v + 1022 ≤ 0
    · exact Or.inl (Int.toNat_of_nonpos hfirst)
    · right
      rw [binade_mul_spacing, Int.toNat_of_nonneg (by omega), add_sub_cancel_right]
      exact hlow
  · rw [two_binade_mul_spacing]
    refine hhigh.trans_le (zpow_le_zpow_right₀ (by norm_num) ?_)
    have := Int.self_le_toNat (floorLog2 v + 1022)
    omega

/-- Below a power of two lie only the windows up to it. -/
theorem InWindow.first_or_lt {k : Nat} {v : Rat} (h : InWindow k v) {e : Int} (hv : v < 2 ^ e) :
    k = 0 ∨ (k : Int) - 1022 < e := by
  refine h.low.imp id fun hle => ?_
  rw [binade_mul_spacing] at hle
  exact (zpow_lt_zpow_iff_right₀ (by norm_num)).mp (hle.trans_lt hv)

/-- The power of two that is looked for is that of the window. -/
theorem InWindow.exponent_eq {k : Nat} {v : Rat} (h : InWindow k v) (hv : 0 < v) :
    max (floorLog2 v - 52) (-1074) = (k : Int) - 1074 := by
  obtain ⟨hlow, hhigh⟩ := floorLog2_spec hv
  have hbelow : floorLog2 v < (k : Int) - 1021 := by
    have hlt := hlow.trans_lt h.high
    rw [two_binade_mul_spacing] at hlt
    exact (zpow_lt_zpow_iff_right₀ (by norm_num)).mp hlt
  have habove := h.first_or_lt hhigh
  omega

theorem InWindow.roundEven_le {k : Nat} {v : Rat} (h : InWindow k v) (hv : 0 < v) :
    roundEven (v / spacing k) ≤ 2 * binade := by
  have hspacing := spacing_pos k
  rw [← roundEven_natCast (2 * binade)]
  apply roundEven_mono (by positivity)
  rw [div_le_iff₀ hspacing]
  push_cast
  exact h.high.le

theorem le_roundEven {k : Nat} {v : Rat} (h : binade * spacing k ≤ v) :
    binade ≤ roundEven (v / spacing k) := by
  rw [← roundEven_natCast binade]
  apply roundEven_mono (Nat.cast_nonneg _)
  rw [le_div_iff₀ (spacing_pos k)]
  exact h

theorem nearestRank_of_window {k : Nat} {v : Rat} (hv : 0 < v) (h : InWindow k v) :
    nearestRank v = min infinityRank (k * binade + roundEven (v / spacing k)) := by
  unfold nearestRank
  rw [if_neg (not_le.mpr hv)]
  simp only [h.exponent_eq hv]
  rw [sub_add_cancel, Int.toNat_natCast, scaled_eq, Nat.cast_one, one_mul, Nat.cast_ofNat, zpow_neg,
    ← div_eq_mul_inv]
  rfl

/-! ## Ranks and values -/

/-- The rank of a whole multiple of the spacing. In each window but the first
the multiples begin with one binade; twice that is already in the next window. -/
theorem valueAt_window {k m : Nat} (hlow : k = 0 ∨ binade ≤ m) (hhigh : m ≤ 2 * binade) :
    valueAt (k * binade + m) = m * spacing k := by
  have hbinade : 0 < binade := by decide
  unfold valueAt significandAt exponentAt spacing
  rw [scaled_eq, Nat.cast_ofNat]
  by_cases hfirst : m < binade
  · obtain rfl : k = 0 := hlow.resolve_right (not_le.mpr hfirst)
    rw [Nat.zero_mul, Nat.zero_add, if_pos hfirst, Nat.div_eq_of_lt hfirst]
    rfl
  · obtain ⟨n, rfl⟩ := Nat.exists_eq_add_of_le (not_lt.mp hfirst)
    have hrank : k * binade + (binade + n) = n + binade * (k + 1) := by ring
    rw [hrank, if_neg (by rw [Nat.mul_succ]; omega), Nat.add_mul_mod_self_left,
      Nat.add_mul_div_left _ _ hbinade]
    rcases Nat.lt_or_ge n binade with hn | hn
    · rw [Nat.mod_eq_of_lt hn, Nat.div_eq_of_lt hn]
      congr 2
      omega
    · obtain rfl : n = binade := by omega
      rw [Nat.mod_self, Nat.div_self hbinade]
      have hpower : ((max (1 + (k + 1)) 1 : Nat) : Int) - 1075 = ((k : Int) - 1074) + 1 := by omega
      rw [hpower, zpow_add_one₀ (by norm_num)]
      push_cast
      ring

theorem exists_multiple_of_rank (r : Nat) :
    ∃ k m, r = k * binade + m ∧ (k = 0 ∨ binade ≤ m) ∧ m < 2 * binade := by
  have hmod : r % binade < binade := Nat.mod_lt r (by decide)
  have hdiv := Nat.div_add_mod' r binade
  rcases Nat.eq_zero_or_pos (r / binade) with hq | hq
  · rw [hq] at hdiv
    exact ⟨0, r % binade, by omega, Or.inl rfl, by omega⟩
  · obtain ⟨k, hk⟩ := Nat.exists_eq_add_of_lt hq
    rw [Nat.zero_add] at hk
    rw [hk, Nat.add_mul, Nat.one_mul] at hdiv
    exact ⟨k, binade + r % binade, by omega, Or.inr (by omega), by omega⟩

theorem valueAt_pos {r : Nat} (hr : 0 < r) : 0 < valueAt r := by
  obtain ⟨k, m, rfl, hlow, hhigh⟩ := exists_multiple_of_rank r
  have hbinade : 0 < binade := by decide
  have hm : 0 < m := by
    rcases hlow with rfl | hlow <;> omega
  have hmpos : (0 : Rat) < m := by exact_mod_cast hm
  have hspacing := spacing_pos k
  rw [valueAt_window hlow hhigh.le]
  positivity

theorem valueAt_zero : valueAt 0 = 0 := by
  have h := valueAt_window (Or.inl rfl) (Nat.zero_le (2 * binade)) (k := 0)
  rw [Nat.zero_mul, Nat.cast_zero, zero_mul] at h
  exact h

theorem inWindow_multiple {k m : Nat} (hlow : k = 0 ∨ binade ≤ m) (hhigh : m < 2 * binade) :
    InWindow k (m * spacing k) where
  low := by
    refine hlow.imp id fun hle => ?_
    have hle' : (binade : Rat) ≤ m := by exact_mod_cast hle
    exact mul_le_mul_of_nonneg_right hle' (spacing_pos k).le
  high := by
    have hlt : (m : Rat) < 2 * binade := by exact_mod_cast hhigh
    exact mul_lt_mul_of_pos_right hlt (spacing_pos k)

/-! ## What rounding gives -/

/-- Every number is rounded to itself. -/
theorem nearestRank_valueAt (r : Nat) : nearestRank (valueAt r) = min infinityRank r := by
  rcases Nat.eq_zero_or_pos r with rfl | hr
  · rw [valueAt_zero]
    rfl
  · have hpos := valueAt_pos hr
    obtain ⟨k, m, rfl, hlow, hhigh⟩ := exists_multiple_of_rank r
    rw [valueAt_window hlow hhigh.le] at hpos ⊢
    rw [nearestRank_of_window hpos (inWindow_multiple hlow hhigh),
      mul_div_cancel_right₀ _ (spacing_pos k).ne', roundEven_natCast]

theorem nearestRank_of_nonpos {v : Rat} (hv : v ≤ 0) : nearestRank v = 0 := by
  unfold nearestRank
  rw [if_pos hv]

theorem InWindow.le {k l : Nat} {v w : Rat} (hk : InWindow k v) (hl : InWindow l w) (h : v ≤ w) :
    k ≤ l := by
  have hlt := h.trans_lt hl.high
  rw [two_binade_mul_spacing] at hlt
  have := hk.first_or_lt hlt
  omega

/-- Rounding keeps the order. Between two windows lies a number of both, and
rounding does not pass over it. -/
theorem nearestRank_mono {v w : Rat} (h : v ≤ w) : nearestRank v ≤ nearestRank w := by
  rcases le_or_gt v 0 with hv | hv
  · rw [nearestRank_of_nonpos hv]
    exact Nat.zero_le _
  obtain ⟨k, hk⟩ := exists_window hv
  obtain ⟨l, hl⟩ := exists_window (hv.trans_le h)
  rw [nearestRank_of_window hv hk, nearestRank_of_window (hv.trans_le h) hl]
  apply min_le_min_left
  have hkpos := spacing_pos k
  rcases Nat.eq_or_lt_of_le (hk.le hl h) with rfl | hlt
  · apply Nat.add_le_add_left
    apply roundEven_mono (by positivity)
    gcongr
  · have hbelow := hk.roundEven_le hv
    have habove := le_roundEven (hl.low.resolve_left (by omega))
    have hstep : (k + 1) * binade ≤ l * binade := Nat.mul_le_mul_right binade hlt
    rw [Nat.add_mul, Nat.one_mul] at hstep
    omega

/-- The 2^-54th part of a number is at most half of the spacing around it. -/
theorem part_le_half_spacing (k : Nat) {m : Nat} (hm : m ≤ 2 * binade) :
    (m : Rat) * spacing k * 2 ^ (-54 : Int) ≤ spacing k / 2 := by
  have hbinade : (m : Rat) ≤ 2 * 4503599627370496 := by exact_mod_cast hm
  have hpower : (2 : Rat) ^ (-54 : Int) = 1 / 18014398509481984 := by norm_num
  have hspacing := spacing_pos k
  rw [hpower]
  nlinarith

theorem nearestRank_of_close_multiple {k m : Nat} {q : Rat} (hq : 0 < q) (hwindow : InWindow k q)
    (hm : m ≤ 2 * binade) (hclose : |q - m * spacing k| < m * spacing k * 2 ^ (-54 : Int)) :
    nearestRank q = min infinityRank (k * binade + m) := by
  have hspacing := spacing_pos k
  obtain ⟨hlow, hhigh⟩ := abs_lt.mp (hclose.trans_le (part_le_half_spacing k hm))
  rw [nearestRank_of_window hq hwindow]
  congr 2
  apply roundEven_eq (by positivity)
  · rw [lt_div_iff₀ hspacing]
    linarith
  · rw [div_lt_iff₀ hspacing]
    linarith

/-- What is nearer to a number than 2^-54 of it is rounded to it. Below the
least number of a window the window before counts, of which the number is the
end. -/
theorem nearestRank_of_close {r : Nat} (hr : 0 < r) (hfinite : r < infinityRank) {q : Rat}
    (hclose : |q - valueAt r| < valueAt r * 2 ^ (-54 : Int)) : nearestRank q = r := by
  have hpos := valueAt_pos hr
  obtain ⟨k, m, rfl, hlow, hhigh⟩ := exists_multiple_of_rank r
  rw [valueAt_window hlow hhigh.le] at hclose hpos
  have hspacing := spacing_pos k
  have hpower : (2 : Rat) ^ (-54 : Int) ≤ 1 / 2 := by norm_num
  have hpart := mul_le_mul_of_nonneg_left hpower hpos.le
  have hmore := (abs_lt.mp (hclose.trans_le hpart)).1
  obtain ⟨hbelow, habove⟩ := abs_lt.mp (hclose.trans_le (part_le_half_spacing k hhigh.le))
  have hm : (m : Rat) + 1 ≤ 2 * binade := by exact_mod_cast hhigh
  have hqpos : 0 < q := by linarith
  by_cases hwindow : k = 0 ∨ (binade : Rat) * spacing k ≤ q
  · have hq : InWindow k q := ⟨hwindow, by nlinarith⟩
    rw [nearestRank_of_close_multiple hqpos hq hhigh.le hclose, min_eq_right hfinite.le]
  · obtain ⟨hk, hlt⟩ := not_or.mp hwindow
    have hmiddle : m = binade := by
      by_contra hne
      have hbinade : (binade : Rat) + 1 ≤ m := by
        exact_mod_cast lt_of_le_of_ne (hlow.resolve_left hk) (Ne.symm hne)
      exact hlt (by nlinarith)
    obtain ⟨k, rfl⟩ := Nat.exists_eq_succ_of_ne_zero hk
    subst hmiddle
    have hend : (binade : Rat) * spacing (k + 1) = (2 * binade : Nat) * spacing k := by
      rw [spacing_succ]
      push_cast
      ring
    rw [Nat.succ_eq_add_one] at *
    rw [hend] at hclose hlt hmore
    have hq : InWindow k q := ⟨Or.inr (by push_cast at *; linarith), by push_cast at *; linarith⟩
    have hrank : (k + 1) * binade + binade = k * binade + 2 * binade := by ring
    rw [nearestRank_of_close_multiple hqpos hq (Nat.le_refl _) hclose, ← hrank,
      min_eq_right hfinite.le]

/-- `a` is off from `b` by the 2^-53th part of `b` at most. -/
structure Near (a b : Rat) : Prop where
  le : a ≤ b + b * 2 ^ (-53 : Int)
  ge : b ≤ a + b * 2 ^ (-53 : Int)

/-- Outside the first window, rounding moves a number by half of the spacing at
most, which is the 2^-53th part of the least number of the window. -/
theorem near_nearestRank {v : Rat} (hlow : (2 : Rat) ^ (-1022 : Int) ≤ v)
    (hhigh : v < 2 ^ (1023 : Int)) : Near (valueAt (nearestRank v)) v := by
  have hv : 0 < v := lt_of_lt_of_le (by positivity) hlow
  obtain ⟨k, hk⟩ := exists_window hv
  have hspacing := spacing_pos k
  have hleast : (binade : Rat) * spacing k ≤ v := by
    rcases hk.low with rfl | hle
    · rw [binade_mul_spacing]
      exact hlow
    · exact hle
  have hbelow := le_roundEven hleast
  have habove := hk.roundEven_le hv
  have hrank : nearestRank v = k * binade + roundEven (v / spacing k) := by
    have hwindow := hk.first_or_lt hhigh
    have hlast : k * binade ≤ 2044 * binade := Nat.mul_le_mul_right binade (by omega)
    rw [nearestRank_of_window hv hk]
    apply min_eq_right
    unfold infinityRank
    omega
  have hhalf : spacing k / 2 ≤ v * 2 ^ (-53 : Int) := by
    have hpower : (2 : Rat) ^ (-53 : Int) = 1 / 9007199254740992 := by norm_num
    have hbinade : (binade : Rat) = 4503599627370496 := rfl
    rw [hbinade] at hleast
    rw [hpower]
    linarith
  obtain ⟨hle, hge⟩ := roundEven_near (v := v / spacing k) (by positivity)
  rw [hrank, valueAt_window (Or.inr hbelow) habove]
  have hvalue : v / spacing k * spacing k = v := div_mul_cancel₀ _ hspacing.ne'
  constructor
  · nlinarith
  · nlinarith

/-! ## Numbers that are whole multiples of a power of two -/

/-- A whole number of at most 53 bits times a power of two is a number. It is
a multiple of the spacing of its window, since that has no greater power. -/
theorem exists_rank_of_scaled {a : Nat} {b : Int} (ha : a < 2 * binade) (hlow : -1074 ≤ b)
    (hhigh : b ≤ 971) : ∃ r, r < infinityRank ∧ valueAt r = a * 2 ^ b := by
  rcases Nat.eq_zero_or_pos a with rfl | hpos
  · refine ⟨0, by decide, ?_⟩
    rw [valueAt_zero, Nat.cast_zero, zero_mul]
  have hapos : (0 : Rat) < a := by exact_mod_cast hpos
  have hbelow : (a : Rat) * 2 ^ b < 2 ^ (53 + b) := by
    have hbits : (a : Rat) < 2 ^ (53 : Int) := by
      have hpower : (2 : Rat) ^ (53 : Int) = (2 * binade : Nat) := by norm_num [binade]
      rw [hpower]
      exact_mod_cast ha
    rw [zpow_add₀ (by norm_num)]
    exact mul_lt_mul_of_pos_right hbits (by positivity)
  obtain ⟨k, hk⟩ := exists_window (v := a * 2 ^ b) (by positivity)
  have hwindow := hk.first_or_lt hbelow
  obtain ⟨j, hj⟩ : ∃ j : Nat, b = (k : Int) - 1074 + j := ⟨(b - ((k : Int) - 1074)).toNat, by omega⟩
  have hmultiple : (a : Rat) * 2 ^ b = (a * 2 ^ j : Nat) * spacing k := by
    rw [hj, zpow_add₀ (by norm_num), spacing, zpow_natCast]
    push_cast
    ring
  have hspacing := spacing_pos k
  rw [hmultiple] at hk ⊢
  have hm : a * 2 ^ j < 2 * binade := by exact_mod_cast lt_of_mul_lt_mul_right hk.high hspacing.le
  have hle : k = 0 ∨ binade ≤ a * 2 ^ j :=
    hk.low.imp id fun hle => by exact_mod_cast le_of_mul_le_mul_right hle hspacing
  refine ⟨k * binade + a * 2 ^ j, ?_, valueAt_window hle hm.le⟩
  have hlast : k * binade ≤ 2045 * binade := Nat.mul_le_mul_right binade (by omega)
  unfold infinityRank
  omega

end SeededStreams.Binary64
