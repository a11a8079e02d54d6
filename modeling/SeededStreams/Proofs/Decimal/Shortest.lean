-- The shortest decimals. The search for one never fails: one of the two
-- neighbours of a number on the grid of its seventeenth digit is always so near
-- that it reads back. So the digits fit a word, and the decimal reads back.
import SeededStreams.Decimal.Shortest
import SeededStreams.Proofs.Binary64.Rounding

namespace SeededStreams.Decimal

open Binary64

theorem toRat_eq (d : Decimal) : d.toRat = d.digits * (10 : Rat) ^ d.exponent := by
  unfold toRat
  rw [scaled_eq]
  rfl

/-! ## The place of the leading digit -/

theorem digitCount_pos (n : Nat) : 0 < digitCount n := Nat.length_toDigits_pos

theorem lt_ten_pow_digitCount (n : Nat) : n < 10 ^ digitCount n :=
  (Nat.length_toDigits_le_iff (by decide) (digitCount_pos n)).mp (Nat.le_refl _)

theorem ten_pow_digitCount_le {n : Nat} (hn : 0 < n) : 10 ^ (digitCount n - 1) ≤ n := by
  by_contra hlt
  rcases Nat.eq_zero_or_pos (digitCount n - 1) with hone | hmore
  · rw [hone] at hlt
    omega
  · have hcount := (Nat.length_toDigits_le_iff (b := 10) (by decide) hmore).mpr (not_le.mp hlt)
    unfold digitCount at hmore hcount
    omega

/-- The count of digits, in rationals. -/
theorem digitCount_spec {n : Nat} (hn : 0 < n) :
    (10 : Rat) ^ ((digitCount n : Int) - 1) ≤ n ∧ (n : Rat) + 1 ≤ (10 : Rat) ^ (digitCount n : Int) := by
  have hpos := digitCount_pos n
  constructor
  · have hplace : (digitCount n : Int) - 1 = (digitCount n - 1 : Nat) := by omega
    rw [hplace, zpow_natCast]
    exact_mod_cast ten_pow_digitCount_le hn
  · rw [zpow_natCast]
    exact_mod_cast lt_ten_pow_digitCount n

theorem leadingPlace_spec {v : Rat} (hv : 0 < v) :
    (10 : Rat) ^ (leadingPlace v - 1) ≤ v ∧ v < (10 : Rat) ^ leadingPlace v := by
  unfold leadingPlace
  split
  · rename_i hone
    have hfloor : 1 ≤ v.floor := Rat.le_floor_iff.mpr (by exact_mod_cast hone)
    obtain ⟨n, hn⟩ := Int.eq_ofNat_of_zero_le (by omega : 0 ≤ v.floor)
    have hbelow := Rat.floor_le v
    have habove := Rat.lt_floor_add_one v
    rw [hn] at hbelow habove hfloor ⊢
    rw [Int.toNat_natCast]
    obtain ⟨hlow, hhigh⟩ := digitCount_spec (n := n) (by omega)
    push_cast at hbelow habove
    exact ⟨hlow.trans hbelow, habove.trans_le hhigh⟩
  · rename_i hless
    have hinv : 1 < v⁻¹ := (one_lt_inv₀ hv).mpr (not_le.mp hless)
    obtain ⟨n, hn, hpos⟩ : ∃ n : Nat, v⁻¹.ceil = n + 1 ∧ 0 < n := by
      have hceil : (1 : Rat) < v⁻¹.ceil := hinv.trans_le Rat.le_ceil
      have hceil' : (1 : Int) < v⁻¹.ceil := by exact_mod_cast hceil
      exact ⟨(v⁻¹.ceil - 1).toNat, by omega, by omega⟩
    have habove := Rat.le_ceil (x := v⁻¹)
    have hbelow := Rat.ceil_lt (x := v⁻¹)
    rw [hn] at habove hbelow
    push_cast at habove hbelow
    have hcount : (n + 1 : Int).toNat - 1 = n := by omega
    obtain ⟨hlow, hhigh⟩ := digitCount_spec hpos
    rw [hn, hcount]
    constructor
    · have hplace : 1 - (digitCount n : Int) - 1 = -(digitCount n : Int) := by omega
      rw [hplace, zpow_neg]
      exact inv_le_of_inv_le₀ hv (habove.trans hhigh)
    · have hplace : 1 - (digitCount n : Int) = -((digitCount n : Int) - 1) := by omega
      rw [hplace, zpow_neg, lt_inv_comm₀ hv (by positivity)]
      linarith

/-! ## The neighbours of a number on a grid -/

/-- How many whole steps of a grid are below a number. -/
def stepsBelow (v : Rat) (exponent : Int) : Nat := (v * scaled 1 10 (-exponent)).floor.toNat

theorem stepsBelow_spec {v : Rat} (hv : 0 ≤ v) (exponent : Int) :
    (stepsBelow v exponent : Rat) * 10 ^ exponent ≤ v ∧
      v < (stepsBelow v exponent + 1) * 10 ^ exponent := by
  have hstep : (0 : Rat) < 10 ^ exponent := by positivity
  have hquotient : v * scaled 1 10 (-exponent) = v / 10 ^ exponent := by
    rw [scaled_eq, zpow_neg, Nat.cast_one, one_mul, Nat.cast_ofNat, div_eq_mul_inv]
  unfold stepsBelow
  rw [hquotient]
  have hfloor : 0 ≤ (v / 10 ^ exponent).floor :=
    Rat.le_floor_iff.mpr (by rw [Int.cast_zero]; positivity)
  obtain ⟨n, hn⟩ := Int.eq_ofNat_of_zero_le hfloor
  have hbelow := Rat.floor_le (v / 10 ^ exponent)
  have habove := Rat.lt_floor_add_one (v / 10 ^ exponent)
  rw [hn] at hbelow habove ⊢
  rw [Int.toNat_natCast]
  push_cast at hbelow habove
  exact ⟨(le_div_iff₀ hstep).mp hbelow, (div_lt_iff₀ hstep).mp habove⟩

/-- A decimal that the search may give: a neighbour on the grid that reads back. -/
structure Candidate (v : Rat) (rank : Nat) (exponent : Int) (d : Decimal) : Prop where
  onGrid : d.exponent = exponent
  neighbour : d.digits = stepsBelow v exponent ∨ d.digits = stepsBelow v exponent + 1
  readsBack : nearestRank d.toRat = rank

section Search

variable {tie : Tie} {v : Rat} {rank : Nat} {exponent : Int}

theorem candidate_of_onGrid {d : Decimal} (h : onGrid tie v rank exponent = some d) :
    Candidate v rank exponent d := by
  unfold onGrid at h
  simp only at h
  split at h
  · cases h
  · rename_i hlower _
    cases h
    exact ⟨rfl, Or.inl rfl, beq_iff_eq.mp hlower⟩
  · rename_i _ hupper
    cases h
    exact ⟨rfl, Or.inr rfl, beq_iff_eq.mp hupper⟩
  · rename_i hlower hupper
    -- However the tie is broken, one of the two neighbours is taken.
    have hboth : d = ⟨stepsBelow v exponent, exponent⟩ ∨ d = ⟨stepsBelow v exponent + 1, exponent⟩ := by
      split at h
      · exact Or.inl (Option.some.inj h).symm
      · split at h
        · exact Or.inr (Option.some.inj h).symm
        · split at h
          · exact Or.inl (Option.some.inj h).symm
          · exact Or.inr (Option.some.inj h).symm
    rcases hboth with rfl | rfl
    · exact ⟨rfl, Or.inl rfl, beq_iff_eq.mp hlower⟩
    · exact ⟨rfl, Or.inr rfl, beq_iff_eq.mp hupper⟩

theorem onGrid_ne_none {d : Decimal} (h : Candidate v rank exponent d) :
    onGrid tie v rank exponent ≠ none := by
  obtain ⟨digits, e⟩ := d
  obtain ⟨rfl, hneighbour, hreads⟩ := h
  intro hnone
  unfold onGrid at hnone
  simp only at hnone
  split at hnone
  · rename_i hlower hupper
    rcases hneighbour with hdigits | hdigits
    all_goals
      simp only at hdigits
      rw [hdigits] at hreads
    · exact beq_eq_false_iff_ne.mp hlower hreads
    · exact beq_eq_false_iff_ne.mp hupper hreads
  · cases hnone
  · cases hnone
  · split at hnone
    · cases hnone
    · split at hnone <;> cases hnone

/-- What is found lies on one of the grids that are tried. -/
theorem candidate_of_search {tries : Nat} {d : Decimal}
    (h : search tie v rank exponent tries = some d) :
    ∃ j, j < tries ∧ Candidate v rank (exponent - j) d := by
  induction tries generalizing exponent with
  | zero => cases h
  | succ tries ih =>
    unfold search at h
    split at h
    · rename_i d' hgrid
      cases h
      refine ⟨0, Nat.zero_lt_succ _, ?_⟩
      rw [Nat.cast_zero, sub_zero]
      exact candidate_of_onGrid hgrid
    · obtain ⟨j, hj, hd⟩ := ih h
      refine ⟨j + 1, Nat.succ_lt_succ hj, ?_⟩
      have hgrid : exponent - ((j + 1 : Nat) : Int) = exponent - 1 - j := by omega
      rw [hgrid]
      exact hd

/-- A candidate on the last grid that is tried is enough. -/
theorem search_ne_none {tries : Nat} {d : Decimal} (h : Candidate v rank (exponent - tries) d) :
    search tie v rank exponent (tries + 1) ≠ none := by
  induction tries generalizing exponent with
  | zero =>
    rw [Nat.cast_zero, sub_zero] at h
    unfold search
    split
    · exact Option.some_ne_none _
    · rename_i hnone
      exact absurd hnone (onGrid_ne_none h)
  | succ tries ih =>
    have hlast : exponent - ((tries + 1 : Nat) : Int) = exponent - 1 - tries := by omega
    rw [hlast] at h
    unfold search
    split
    · exact Option.some_ne_none _
    · exact ih h

end Search

/-- The nearer neighbour on the seventeenth grid is nearer than 2^-54 of the
number, since half a step is at most 10^-16 / 2 of it. -/
theorem exists_candidate {rank : Nat} (hrank : 0 < rank) (hfinite : rank < infinityRank) :
    ∃ d, Candidate (valueAt rank) rank (leadingPlace (valueAt rank) - 17) d := by
  have hv := valueAt_pos hrank
  obtain ⟨hlow, _⟩ := leadingPlace_spec hv
  generalize leadingPlace (valueAt rank) = p at hlow
  obtain ⟨hbelow, habove⟩ := stepsBelow_spec hv.le (p - 17)
  generalize hn : stepsBelow (valueAt rank) (p - 17) = n at hbelow habove
  have hstep : (10 : Rat) ^ (p - 17) / 2 < valueAt rank * 2 ^ (-54 : Int) := by
    have hgrid : (10 : Rat) ^ (p - 1) = 10 ^ (p - 17) * 10 ^ (16 : Int) := by
      rw [← zpow_add₀ (by norm_num)]
      congr 1
      omega
    have hpos : (0 : Rat) < 10 ^ (p - 17) := by positivity
    have hpower : (2 : Rat) ^ (-54 : Int) = 1 / 18014398509481984 := by norm_num
    rw [hgrid] at hlow
    rw [hpower]
    norm_num at hlow ⊢
    linarith
  have hclose : ∀ q : Rat, |q - valueAt rank| ≤ 10 ^ (p - 17) / 2 → nearestRank q = rank :=
    fun q hq => nearestRank_of_close hrank hfinite (hq.trans_lt hstep)
  -- The middle of the step tells which neighbour is the nearer one.
  rcases le_or_gt (valueAt rank) ((n + 1 / 2) * 10 ^ (p - 17)) with hmiddle | hmiddle
  · refine ⟨⟨n, p - 17⟩, rfl, Or.inl hn.symm, hclose _ ?_⟩
    rw [toRat_eq, abs_le]
    simp only
    constructor <;> linarith
  · refine ⟨⟨n + 1, p - 17⟩, rfl, Or.inr (by rw [hn]), hclose _ ?_⟩
    rw [toRat_eq, abs_le]
    push_cast
    constructor <;> linarith

/-! ## Zeros at the end -/

/-- Each zero that is taken off the digits adds one to the exponent. -/
theorem exists_dropZeros (fuel : Nat) (d : Decimal) :
    ∃ t : Nat, (dropZeros fuel d).exponent = d.exponent + t ∧
      d.digits = (dropZeros fuel d).digits * 10 ^ t := by
  induction fuel generalizing d with
  | zero => exact ⟨0, (Int.add_zero _).symm, (Nat.mul_one _).symm⟩
  | succ fuel ih =>
    unfold dropZeros
    split
    · rename_i hzero
      obtain ⟨t, hexponent, hdigits⟩ := ih ⟨d.digits / 10, d.exponent + 1⟩
      refine ⟨t + 1, ?_, ?_⟩
      · rw [hexponent]
        push_cast
        ring
      · rw [pow_succ, ← Nat.mul_assoc, ← hdigits]
        exact (Nat.div_mul_cancel (Nat.dvd_of_mod_eq_zero hzero)).symm
    · exact ⟨0, (Int.add_zero _).symm, (Nat.mul_one _).symm⟩

theorem toRat_dropZeros (fuel : Nat) (d : Decimal) : (dropZeros fuel d).toRat = d.toRat := by
  obtain ⟨t, hexponent, hdigits⟩ := exists_dropZeros fuel d
  rw [toRat_eq, toRat_eq, hexponent, hdigits, zpow_add₀ (by norm_num), zpow_natCast]
  push_cast
  ring

/-! ## The shortest decimal -/

/-- What holds of the shortest decimal of a positive number. -/
structure Faithful (rank : Nat) (d : Decimal) : Prop where
  readsBack : nearestRank d.toRat = rank
  digits_pos : 0 < d.digits
  digits_le : d.digits ≤ 10 ^ 17
  le_exponent : leadingPlace (valueAt rank) - 17 ≤ d.exponent

theorem Candidate.digits_le {v : Rat} (hv : 0 < v) {rank j : Nat} (hj : j ≤ 16) {d : Decimal}
    (h : Candidate v rank (leadingPlace v - 1 - j) d) : d.digits ≤ 10 ^ 17 := by
  obtain ⟨_, hneighbour, _⟩ := h
  obtain ⟨_, hhigh⟩ := leadingPlace_spec hv
  generalize leadingPlace v = p at hneighbour hhigh
  obtain ⟨hbelow, _⟩ := stepsBelow_spec hv.le (p - 1 - j)
  generalize stepsBelow v (p - 1 - j) = n at hneighbour hbelow
  have hsteps : n < 10 ^ (j + 1) := by
    have hsplit : (10 : Rat) ^ p = (10 ^ (j + 1) : Nat) * 10 ^ (p - 1 - j) := by
      push_cast
      rw [← zpow_natCast, ← zpow_add₀ (by norm_num)]
      congr 1
      push_cast
      omega
    have hlt := hbelow.trans_lt hhigh
    rw [hsplit] at hlt
    exact_mod_cast lt_of_mul_lt_mul_right hlt (by positivity)
  have hlast : 10 ^ (j + 1) ≤ 10 ^ 17 := Nat.pow_le_pow_right (by decide) (by omega)
  omega

theorem shortest_faithful (tie : Tie) {rank : Nat} (hrank : 0 < rank)
    (hfinite : rank < infinityRank) : Faithful rank (shortest tie rank) := by
  have hv := valueAt_pos hrank
  obtain ⟨c, hc⟩ := exists_candidate hrank hfinite
  have hfound : search tie (valueAt rank) rank (leadingPlace (valueAt rank) - 1) 17 ≠ none := by
    have hgrid : leadingPlace (valueAt rank) - 17 =
        leadingPlace (valueAt rank) - 1 - ((16 : Nat) : Int) := by omega
    rw [hgrid] at hc
    exact search_ne_none hc
  obtain ⟨d, hd⟩ := Option.ne_none_iff_exists'.mp hfound
  obtain ⟨j, hj, hcandidate⟩ := candidate_of_search hd
  have hshortest : shortest tie rank = dropZeros (digitCount d.digits) d := by
    unfold shortest
    rw [if_neg hrank.ne']
    simp only [hd, Option.getD_some]
  obtain ⟨t, hexponent, hdigits⟩ := exists_dropZeros (digitCount d.digits) d
  have hreads : nearestRank (shortest tie rank).toRat = rank := by
    rw [hshortest, toRat_dropZeros, hcandidate.readsBack]
  refine ⟨hreads, ?_, ?_, ?_⟩
  · by_contra hzero
    have hvalue : (shortest tie rank).toRat = 0 := by
      rw [toRat_eq, Nat.eq_zero_of_not_pos hzero, Nat.cast_zero, zero_mul]
    rw [hvalue, nearestRank_of_nonpos (le_refl _)] at hreads
    omega
  · have hpositive : 0 < 10 ^ t := Nat.pow_pos (by decide)
    have hle := hcandidate.digits_le hv (by omega)
    rw [hdigits] at hle
    rw [hshortest]
    exact (Nat.le_mul_of_pos_right _ hpositive).trans hle
  · have hgrid := hcandidate.onGrid
    rw [hshortest]
    omega

end SeededStreams.Decimal
