-- What the draws of xoshiro256** show. A draw shows the second word of the
-- state; by the steps between them, four draws in a row show the other three
-- words as well. So they settle the state, and as there are as many states as
-- lists of four words, every such list is drawn from some state.
import Mathlib.Data.FinEnum
import Mathlib.Data.Fintype.EquivFin
import SeededStreams.Proofs.Word.Lossless
import SeededStreams.Steps
import SeededStreams.Xoshiro.Basic

namespace SeededStreams.Xoshiro

/-! ## One step -/

/-- The word shown is scrambled by steps that can be undone. -/
theorem output_eq_iff (x y : Xoshiro) : x.output = y.output ↔ x.s1 = y.s1 := by
  unfold output
  constructor
  · intro h
    rw [UInt64.mul_comm _ 9, UInt64.mul_comm _ 9] at h
    have hturned := Word.mul_left_cancel_of_odd (by decide) h
    have hproduct := Word.rotateLeft_injective (by decide) (by decide) hturned
    rw [UInt64.mul_comm, UInt64.mul_comm y.s1] at hproduct
    exact Word.mul_left_cancel_of_odd (by decide) hproduct
  · intro h
    rw [h]

/-- A step merges no two states. -/
theorem step_injective {x y : Xoshiro} (h : x.step = y.step) : x = y := by
  obtain ⟨x0, x1, x2, x3⟩ := x
  obtain ⟨y0, y1, y2, y3⟩ := y
  simp only [step, mk.injEq] at h
  obtain ⟨h0, h1, h2, h3⟩ := h
  have hlast : x3 ^^^ x1 = y3 ^^^ y1 := Word.rotateLeft_injective (by decide) (by decide) h3
  rw [hlast] at h0
  have hfirst : x0 = y0 := (UInt64.xor_left_inj _).mp h0
  -- The third word is taken out of the second by what the step adds to both.
  have hsecond : x1 = y1 := by
    have hsum : x1 ^^^ (x1 <<< 17) = y1 ^^^ (y1 <<< 17) := by
      calc x1 ^^^ (x1 <<< 17)
          = (x1 ^^^ (x2 ^^^ x0)) ^^^ ((x2 ^^^ x0) ^^^ (x1 <<< 17)) := by
            rw [UInt64.xor_assoc, ← UInt64.xor_assoc (x2 ^^^ x0), UInt64.xor_self, UInt64.zero_xor]
        _ = (y1 ^^^ (y2 ^^^ y0)) ^^^ ((y2 ^^^ y0) ^^^ (y1 <<< 17)) := by rw [h1, h2]
        _ = y1 ^^^ (y1 <<< 17) := by
            rw [UInt64.xor_assoc, ← UInt64.xor_assoc (y2 ^^^ y0), UInt64.xor_self, UInt64.zero_xor]
    exact Word.xor_shiftLeft_injective 17 (-1) (by decide)
      (by simpa only [UInt64.and_neg_one] using hsum)
  subst hfirst hsecond
  have hthird : x2 = y2 := (UInt64.xor_left_inj _).mp ((UInt64.xor_right_inj _).mp h1)
  have hfourth : x3 = y3 := (UInt64.xor_left_inj _).mp hlast
  rw [hthird, hfourth]

theorem advance_injective {x y : Xoshiro} (n : Nat)
    (h : Steps.advance next n x = Steps.advance next n y) : x = y := by
  induction n generalizing x y with
  | zero => exact h
  | succ n ih => exact step_injective (ih h)

/-! ## Draws in a row -/

section TwoStates

variable {x y : Xoshiro} (h0 : x.s1 = y.s1) (h1 : x.step.s1 = y.step.s1)

include h0 h1

/-- Two draws show the sum of the first and the third word. -/
theorem sum_eq_of_two_draws : x.s2 ^^^ x.s0 = y.s2 ^^^ y.s0 := by
  simp only [step, h0] at h1
  exact (UInt64.xor_right_inj _).mp h1

theorem third_eq_of_two_draws : x.step.s2 = y.step.s2 := by
  simp only [step, h0, sum_eq_of_two_draws h0 h1]

variable (h2 : x.step.step.s1 = y.step.step.s1)

include h2

theorem first_eq_of_three_draws : x.step.s0 = y.step.s0 := by
  have hsum := sum_eq_of_two_draws h1 h2
  rw [third_eq_of_two_draws h0 h1] at hsum
  exact (UInt64.xor_right_inj _).mp hsum

/-- With the fourth draw the first word after two steps is known too, and it
shows the fourth word after one. -/
theorem eq_of_four_draws (h3 : x.step.step.step.s1 = y.step.step.step.s1) : x = y := by
  have hfirst := first_eq_of_three_draws h0 h1 h2
  have hthird := third_eq_of_two_draws h0 h1
  have hfourth : x.step.s3 = y.step.s3 := by
    have hnext : x.step.step.s0 = y.step.step.s0 := first_eq_of_three_draws h1 h2 h3
    rw [step.eq_def x.step, step.eq_def y.step] at hnext
    simp only [hfirst, h1] at hnext
    exact (UInt64.xor_left_inj _).mp ((UInt64.xor_right_inj _).mp hnext)
  apply step_injective
  calc x.step = ⟨x.step.s0, x.step.s1, x.step.s2, x.step.s3⟩ := rfl
    _ = ⟨y.step.s0, y.step.s1, y.step.s2, y.step.s3⟩ := by rw [hfirst, h1, hthird, hfourth]
    _ = y.step := rfl

end TwoStates

theorem collect_four (x : Xoshiro) :
    (Steps.collect next 4 x).1 =
      [x.output, x.step.output, x.step.step.output, x.step.step.step.output] := rfl

theorem four_draws_eq_iff (x y : Xoshiro) :
    (Steps.collect next 4 x).1 = (Steps.collect next 4 y).1 ↔ x = y := by
  constructor
  · intro h
    simp only [collect_four, List.cons.injEq, and_true, output_eq_iff] at h
    obtain ⟨h0, h1, h2, h3⟩ := h
    exact eq_of_four_draws h0 h1 h2 h3
  · intro h
    rw [h]

/-! ## As many states as lists of four words -/

/-- The state with four given words. -/
def ofQuadruple (w : Word × Word × Word × Word) : Xoshiro := ⟨w.1, w.2.1, w.2.2.1, w.2.2.2⟩

/-- The first four draws of a state. -/
def quadruple (x : Xoshiro) : Word × Word × Word × Word :=
  (x.output, x.step.output, x.step.step.output, x.step.step.step.output)

theorem quadruple_injective : Function.Injective (fun w => quadruple (ofQuadruple w)) := by
  intro w v h
  simp only [quadruple, Prod.mk.injEq, output_eq_iff] at h
  obtain ⟨h0, h1, h2, h3⟩ := h
  have hstate := eq_of_four_draws h0 h1 h2 h3
  simp only [ofQuadruple, mk.injEq] at hstate
  obtain ⟨e0, e1, e2, e3⟩ := hstate
  exact Prod.ext e0 (Prod.ext e1 (Prod.ext e2 e3))

theorem exists_of_four_draws (r0 r1 r2 r3 : Word) :
    ∃ x : Xoshiro, (Steps.collect next 4 x).1 = [r0, r1, r2, r3] := by
  obtain ⟨w, hw⟩ := Finite.injective_iff_surjective.mp quadruple_injective (r0, r1, r2, r3)
  simp only [quadruple, Prod.mk.injEq] at hw
  obtain ⟨h0, h1, h2, h3⟩ := hw
  refine ⟨ofQuadruple w, ?_⟩
  rw [collect_four, h0, h1, h2, h3]

/-! ## The state of four zero words -/

theorem ofState_eq_ok_iff (s x : Xoshiro) : ofState s = .ok x ↔ s = x ∧ x ≠ zero := by
  unfold ofState
  split
  · rename_i hzero
    constructor
    · intro h
      cases h
    · rintro ⟨rfl, hne⟩
      exact absurd hzero hne
  · rename_i hne
    constructor
    · intro h
      cases h
      exact ⟨rfl, hne⟩
    · rintro ⟨rfl, _⟩
      rfl

theorem four_draws_zero_iff (x : Xoshiro) :
    (Steps.collect next 4 x).1 = [0, 0, 0, 0] ↔ x = zero :=
  four_draws_eq_iff x zero

theorem advance_zero (n : Nat) : Steps.advance next n zero = zero := by
  induction n with
  | zero => rfl
  | succ n ih => exact ih

/-- No run comes to the state of four zero words. -/
theorem advance_ne_zero {x : Xoshiro} (h : x ≠ zero) (n : Nat) : Steps.advance next n x ≠ zero := by
  intro hend
  rw [← advance_zero n] at hend
  exact h (advance_injective n hend)

/-! ## The law -/

/-- Each four words that are not all zero are the first four draws of exactly
one accepted state. So two runs that agree in four draws in a row agree from
the start and for ever, and no accepted state ever gives four zeros in a row. -/
theorem four_draws_settle_the_state :
    (∀ r0 r1 r2 r3 : Word, ¬ (r0 = 0 ∧ r1 = 0 ∧ r2 = 0 ∧ r3 = 0) →
      ∃! x : Xoshiro, ofState x = .ok x ∧ (Steps.collect next 4 x).1 = [r0, r1, r2, r3]) ∧
    (∀ (x y : Xoshiro) (n : Nat),
      (Steps.collect next 4 (Steps.advance next n x)).1 =
        (Steps.collect next 4 (Steps.advance next n y)).1 →
      x = y ∧ ∀ m, (Steps.collect next m x).1 = (Steps.collect next m y).1) ∧
    (∀ s x : Xoshiro, ofState s = .ok x → ∀ n,
      (Steps.collect next 4 (Steps.advance next n x)).1 ≠ [0, 0, 0, 0]) := by
  refine ⟨?_, ?_, ?_⟩
  · intro r0 r1 r2 r3 hsome
    obtain ⟨x, hx⟩ := exists_of_four_draws r0 r1 r2 r3
    have hne : x ≠ zero := by
      intro hzero
      rw [(four_draws_zero_iff x).mpr hzero] at hx
      simp only [List.cons.injEq, and_true] at hx
      exact hsome ⟨hx.1.symm, hx.2.1.symm, hx.2.2.1.symm, hx.2.2.2.symm⟩
    refine ⟨x, ⟨(ofState_eq_ok_iff x x).mpr ⟨rfl, hne⟩, hx⟩, ?_⟩
    rintro y ⟨_, hy⟩
    exact (four_draws_eq_iff y x).mp (hy.trans hx.symm)
  · intro x y n h
    have hxy : x = y := advance_injective n ((four_draws_eq_iff _ _).mp h)
    refine ⟨hxy, ?_⟩
    intro m
    rw [hxy]
  · intro s x h n hdraws
    have hne : x ≠ zero := ((ofState_eq_ok_iff s x).mp h).2
    exact advance_ne_zero hne n ((four_draws_zero_iff _).mp hdraws)

/-- The law at four draws of which three are zero, at a small state, and at
two descriptions of the state after it. -/
theorem one_draw_that_is_not_zero_is_enough :
    (¬ ((0 : Word) = 0 ∧ (0 : Word) = 0 ∧ (0 : Word) = 0 ∧ (1 : Word) = 0) ∧
      ∃! x : Xoshiro, ofState x = .ok x ∧ (Steps.collect next 4 x).1 = [0, 0, 0, 1]) ∧
    ((Steps.collect next 4 (Steps.advance next 2 (step ⟨1, 2, 3, 4⟩))).1 =
        (Steps.collect next 4 (Steps.advance next 2 ⟨7, 0, 262146, 211106232532992⟩)).1 ∧
      step ⟨1, 2, 3, 4⟩ = ⟨7, 0, 262146, 211106232532992⟩) ∧
    (ofState ⟨1, 2, 3, 4⟩ = .ok ⟨1, 2, 3, 4⟩ ∧
      ∀ n, (Steps.collect next 4 (Steps.advance next n ⟨1, 2, 3, 4⟩)).1 ≠ [0, 0, 0, 0]) := by
  obtain ⟨hexists, hagree, hnever⟩ := four_draws_settle_the_state
  have hsome : ¬ ((0 : Word) = 0 ∧ (0 : Word) = 0 ∧ (0 : Word) = 0 ∧ (1 : Word) = 0) := by decide
  have hdraws : (Steps.collect next 4 (Steps.advance next 2 (step ⟨1, 2, 3, 4⟩))).1 =
      (Steps.collect next 4 (Steps.advance next 2 ⟨7, 0, 262146, 211106232532992⟩)).1 := by decide
  have haccepted : ofState ⟨1, 2, 3, 4⟩ = .ok ⟨1, 2, 3, 4⟩ := by rfl
  exact ⟨⟨hsome, hexists 0 0 0 1 hsome⟩, ⟨hdraws, (hagree _ _ 2 hdraws).1⟩, haccepted,
    hnever _ _ haccepted⟩

end SeededStreams.Xoshiro
