-- Where the reals that are drawn lie. The half-open and the open reals are exact
-- quotients by 2^53; neither is ever 1, and an open one is never 0. A closed real is
-- rounded, but it keeps the order of the words and reaches both ends.
import SeededStreams.Proofs.Binary64.Nearest
import SeededStreams.Proofs.Draw.Reals

namespace SeededStreams.Kind

open Binary64

theorem toRat_halfOpenReal_eq_div (w : Word) :
    (halfOpenReal w).toRat = (w >>> 11).toNat / 2 ^ 53 := by
  rw [toRat_halfOpenReal, zpow_neg, div_eq_mul_inv]
  norm_num

theorem toRat_openReal_eq_div (w : Word) :
    (openReal w).toRat = (2 * (w >>> 12).toNat + 1) / 2 ^ 53 := by
  rw [toRat_openReal, zpow_neg, div_eq_mul_inv]
  push_cast
  norm_num

theorem isFinite_of_unitReal {x : Binary64} (h : UnitReal x) : x.isFinite = true :=
  decide_eq_true h.rank_lt_infinityRank

theorem toRat_nonneg_of_unitReal {x : Binary64} (h : UnitReal x) : 0 ≤ x.toRat := by
  rw [toRat_of_nonneg h.isNegative]
  exact valueAt_nonneg _

/-- The greater of two words has the greater upper bits. -/
theorem toNat_shift_mono {v w : Word} (h : v ≤ w) : (v >>> 11).toNat ≤ (w >>> 11).toNat := by
  rw [UInt64.toNat_shiftRight, UInt64.toNat_shiftRight, Nat.shiftRight_eq_div_pow,
    Nat.shiftRight_eq_div_pow]
  exact Nat.div_le_div_right (UInt64.le_iff_toNat_le.mp h)

theorem toRat_closedReal_eq_zero_iff (w : Word) : (closedReal w).toRat = 0 ↔ w >>> 11 = 0 := by
  constructor
  · intro hzero
    apply UInt64.toNat_inj.mp
    by_contra hne
    have hle := le_toRat_closedReal (Nat.pos_of_ne_zero hne)
    have hunit : (0 : Rat) < 2 ^ (-53 : Int) := by positivity
    rw [hzero] at hle
    exact absurd hle (not_le.mpr hunit)
  · intro h
    apply toRat_closedReal_of_zero
    rw [h]
    rfl

theorem toRat_closedReal_top {w : Word} (h : (w >>> 11).toNat = 2 ^ 53 - 1) :
    (closedReal w).toRat = 1 := by
  rw [closedReal_eq, h]
  exact toRat_nearest_closed_top

theorem rounds_closedUnit : Rounds (1 / 9007199254740991) closedUnit := by
  have hunit : closedUnit = nearest (1 / 9007199254740991) := by
    have h := quotient_ofNat (a := 1) (b := 9007199254740991) (by decide) (by decide)
    unfold closedUnit
    rw [h]
    norm_num
  rw [hunit]
  exact rounds_nearest (by norm_num) (by decide +kernel)

theorem rounds_closedReal (w : Word) :
    Rounds ((w >>> 11).toNat * closedUnit.toRat) (closedReal w) := by
  have hproduct : closedReal w = nearest ((w >>> 11).toNat * closedUnit.toRat) := by
    unfold closedReal product
    rw [toRat_ofNat (toNat_shift_lt w).1.le]
  have hfinite := isFinite_of_unitReal (unitReal_closedReal w)
  rw [hproduct] at hfinite ⊢
  apply rounds_nearest _ hfinite
  rw [toRat_closedUnit]
  positivity

/-! ## The law -/

/-- What each word gives as a real, and that the kinds draw these reals. The half-open
real is the number of the upper 53 bits over 2^53, and the open one twice the number of
the upper 52 bits and one, over 2^53, both exactly. The closed real is the product of the
upper 53 bits and of 1 / (2^53 - 1), each rounded to the nearest number. It is 0 when none
of these bits is set and only then, 1 when all of them are, and never less for a greater
word. All three are finite and stay in the range of their kind. -/
theorem reals_stay_in_their_range (w : Word) :
    (realHalfOpen.draw w = .real (halfOpenReal w) ∧
      (halfOpenReal w).isFinite = true ∧ (halfOpenReal w).toRat = (w >>> 11).toNat / 2 ^ 53 ∧
      0 ≤ (halfOpenReal w).toRat ∧ (halfOpenReal w).toRat < 1) ∧
    (realOpen.draw w = .real (openReal w) ∧
      (openReal w).isFinite = true ∧ (openReal w).toRat = (2 * (w >>> 12).toNat + 1) / 2 ^ 53 ∧
      0 < (openReal w).toRat ∧ (openReal w).toRat < 1) ∧
    (realClosed.draw w = .real (closedReal w) ∧
      (∃ unit, Rounds (1 / 9007199254740991) unit ∧
        Rounds ((w >>> 11).toNat * unit.toRat) (closedReal w)) ∧
      (closedReal w).isFinite = true ∧ 0 ≤ (closedReal w).toRat ∧ (closedReal w).toRat ≤ 1 ∧
      ((closedReal w).toRat = 0 ↔ w >>> 11 = 0) ∧
      ((w >>> 11).toNat = 2 ^ 53 - 1 → (closedReal w).toRat = 1) ∧
      ∀ v, w ≤ v → (closedReal w).toRat ≤ (closedReal v).toRat) := by
  obtain ⟨hclosed, hopen⟩ := toNat_shift_lt w
  have hhalfOpenReal := unitReal_halfOpenReal w
  have hopenReal := unitReal_openReal w
  have hclosedReal := unitReal_closedReal w
  refine ⟨⟨rfl, isFinite_of_unitReal hhalfOpenReal, toRat_halfOpenReal_eq_div w,
    toRat_nonneg_of_unitReal hhalfOpenReal, ?_⟩, ⟨rfl, isFinite_of_unitReal hopenReal,
    toRat_openReal_eq_div w, ?_, ?_⟩, rfl, ⟨closedUnit, rounds_closedUnit, rounds_closedReal w⟩,
    isFinite_of_unitReal hclosedReal, toRat_nonneg_of_unitReal hclosedReal, hclosedReal.le_one,
    toRat_closedReal_eq_zero_iff w, toRat_closedReal_top,
    fun v h => toRat_closedReal_mono (toNat_shift_mono h)⟩
  · have hlt : ((w >>> 11).toNat : Rat) < 2 ^ 53 := by exact_mod_cast hclosed
    rw [toRat_halfOpenReal_eq_div]
    exact (div_lt_one (by norm_num)).mpr hlt
  · rw [toRat_openReal_eq_div]
    positivity
  · have hlt : 2 * ((w >>> 12).toNat : Rat) + 1 < 2 ^ 53 := by
      have hnat : 2 * (w >>> 12).toNat + 1 < 2 ^ 53 := by
        unfold binade at hopen
        omega
      exact_mod_cast hnat
    rw [toRat_openReal_eq_div]
    exact (div_lt_one (by norm_num)).mpr hlt

end SeededStreams.Kind
