-- Seeds that can be told apart. Each word of the register of a seed is made
-- from the word before it by steps that lose nothing, so every word holds the
-- whole seed; and the words behind word 0 all show in the first draws.
import SeededStreams.Proofs.Twister.Draws

namespace SeededStreams.Twister

/-- A word with its two top bits folded onto the two lowest. All seeding
takes the word before a place in this form. -/
def folded (x : Word) : Word := x ^^^ (x >>> 62)

theorem folded_injective {x y : Word} (h : folded x = folded y) : x = y := by
  unfold folded at h
  exact Word.xor_shiftRight_injective 62 (-1) (by decide)
    (by simpa only [UInt64.and_neg_one] using h)

theorem seedWord_succ (seed : Word) (i : Nat) :
    Register.seedWord seed (i + 1) =
      6364136223846793005 * folded (Register.seedWord seed i) + UInt64.ofNat (i + 1) := rfl

theorem seedWord_inj (s t : Word) (i : Nat) :
    Register.seedWord s i = Register.seedWord t i ↔ s = t := by
  induction i with
  | zero => exact Iff.rfl
  | succ i ih =>
    rw [← ih, seedWord_succ, seedWord_succ]
    constructor
    · intro h
      have hproduct := (UInt64.add_left_inj _).mp h
      exact folded_injective (Word.mul_left_cancel_of_odd (by decide) hproduct)
    · intro h
      rw [h]

/-- Two seeds with the same first 312 draws are the same seed. The first
batch drops the lower bits of the seed itself, which is word 0, but word 1
has them all. -/
theorem seeds_are_told_apart_by_their_draws (s t : Word) :
    (Steps.collect next 312 (ofSeed s)).1 = (Steps.collect next 312 (ofSeed t)).1 ↔ s = t := by
  constructor
  · intro h
    have hindex : (ofSeed s).index = (ofSeed t).index := rfl
    have hword : (Register.ofSeed s).get 1 = (Register.ofSeed t).get 1 :=
      (agreeLive_of_draws hindex h).later 1 (by decide)
    rw [get_ofSeed, get_ofSeed] at hword
    exact (seedWord_inj s t 1).mp hword
  · intro h
    rw [h]

end SeededStreams.Twister
