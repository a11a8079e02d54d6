-- The period of the scrambled counter. Its increment is odd, so the counter
-- meets every word once before it comes back to where it began; and as the
-- scramble loses nothing, every word is an output exactly once in a period.
import Mathlib.Data.FinEnum
import Mathlib.Data.Fintype.EquivFin
import Mathlib.Data.List.Nodup
import SeededStreams.Proofs.SplitMix.Scramble
import SeededStreams.Steps

namespace SeededStreams.SplitMix

/-! ## The counter -/

theorem advance_eq (s : Word) (n : Nat) :
    Steps.advance next n s = s + UInt64.ofNat n * increment := by
  induction n with
  | zero => simp [Steps.advance]
  | succ n ih =>
    have hstep : (next (Steps.advance next n s)).2 = Steps.advance next n s + increment := rfl
    rw [Steps.advance_succ, hstep, ih, UInt64.ofNat_add, UInt64.add_mul, UInt64.add_assoc]
    simp

theorem ofNat_eq_ofNat_iff (m n : Nat) :
    UInt64.ofNat m = UInt64.ofNat n ↔ m % UInt64.size = n % UInt64.size := by
  rw [← UInt64.toNat_inj, UInt64.toNat_ofNat', UInt64.toNat_ofNat']

/-- The increment is odd, so it can be cancelled: the counter is the same after
two counts of steps only if they differ by whole periods. -/
theorem advance_eq_advance_iff (s : Word) (m n : Nat) :
    Steps.advance next m s = Steps.advance next n s ↔ m % UInt64.size = n % UInt64.size := by
  rw [advance_eq, advance_eq, UInt64.add_right_inj, UInt64.mul_comm, UInt64.mul_comm _ increment,
    ← ofNat_eq_ofNat_iff]
  constructor
  · exact Word.mul_left_cancel_of_odd (by decide)
  · intro h
    rw [h]

theorem advance_eq_self_iff (s : Word) (n : Nat) :
    Steps.advance next n s = s ↔ UInt64.size ∣ n := by
  rw [Nat.dvd_iff_mod_eq_zero]
  exact advance_eq_advance_iff s n 0

/-! ## The outputs -/

/-- The output of the step number `i`, counted from 0. -/
def output (s : Word) (i : Nat) : Word := (next (Steps.advance next i s)).1

theorem output_eq_iff (s : Word) (i j : Nat) :
    output s i = output s j ↔ i % UInt64.size = j % UInt64.size := by
  rw [← advance_eq_advance_iff s]
  constructor
  · intro h
    exact (UInt64.add_left_inj _).mp (scramble_injective h)
  · intro h
    unfold output
    rw [h]

theorem output_inj (s : Word) {i j : Nat} (hi : i < UInt64.size) (hj : j < UInt64.size) :
    output s i = output s j ↔ i = j := by
  rw [output_eq_iff, Nat.mod_eq_of_lt hi, Nat.mod_eq_of_lt hj]

/-- There are as many outputs in a period as words, and no two are the same. -/
theorem exists_output (s w : Word) : ∃ i < UInt64.size, output s i = w := by
  have hinjective : Function.Injective fun i : Word => output s i.toNat := by
    intro i j h
    exact UInt64.toNat_inj.mp ((output_inj s i.toNat_lt j.toNat_lt).mp h)
  obtain ⟨i, hi⟩ := Finite.injective_iff_surjective.mp hinjective w
  exact ⟨i.toNat, i.toNat_lt, hi⟩

theorem output_succ (s : Word) (i : Nat) : output s (i + 1) = output (next s).2 i := by
  rw [output, Steps.advance, ← output]

/-- A run gives the outputs in order. -/
theorem collect_eq (s : Word) (n : Nat) :
    (Steps.collect next n s).1 = (List.range n).map (output s) := by
  induction n generalizing s with
  | zero => rfl
  | succ n ih =>
    have hshift : output s ∘ Nat.succ = output (next s).2 := funext (output_succ s)
    rw [Steps.collect_succ, ih, List.range_succ_eq_map, List.map_cons, List.map_map, hshift]
    rfl

/-! ## The law -/

/-- From every start the outputs of the first 2^64 steps differ from each other,
and each word is one of them exactly once. The counter is back at its start after
2^64 steps, and after no other count of steps than the multiples of that. -/
theorem each_word_is_an_output_once_in_a_period (s : Word) :
    (∀ i j, i < j → j < UInt64.size → output s i ≠ output s j) ∧
    (∀ n, Steps.advance next n s = s ↔ UInt64.size ∣ n) ∧
    ∀ w, (Steps.collect next UInt64.size s).1.count w = 1 := by
  refine ⟨?_, advance_eq_self_iff s, ?_⟩
  · intro i j hij hj h
    exact Nat.ne_of_lt hij ((output_inj s (hij.trans hj) hj).mp h)
  · intro w
    obtain ⟨i, hi, hw⟩ := exists_output s w
    rw [collect_eq]
    apply List.count_eq_one_of_mem
    · apply List.Nodup.map_on _ List.nodup_range
      intro i hi j hj h
      exact (output_inj s (List.mem_range.mp hi) (List.mem_range.mp hj)).mp h
    · exact List.mem_map.mpr ⟨i, List.mem_range.mpr hi, hw⟩

/-- The law at the first and the last step of a period. -/
theorem a_period_ends_with_another_output :
    0 < UInt64.size - 1 ∧ UInt64.size - 1 < UInt64.size ∧
      output 1234567 0 ≠ output 1234567 (UInt64.size - 1) := by
  have hfirst : 0 < UInt64.size - 1 := by decide
  have hlast : UInt64.size - 1 < UInt64.size := by decide
  exact ⟨hfirst, hlast, (each_word_is_an_output_once_in_a_period 1234567).1 _ _ hfirst hlast⟩

end SeededStreams.SplitMix
