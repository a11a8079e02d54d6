-- The scrambled counter loses nothing: each round of the scramble can be
-- undone, so an output shows the counter that it comes from.
import SeededStreams.Proofs.Word.Lossless
import SeededStreams.SplitMix

namespace SeededStreams.SplitMix

/-- One round: a word xored with a shifted copy of itself, times an odd factor. -/
theorem round_injective {s factor : Word} (hs : 0 < s.toNat % 64) (hodd : factor % 2 = 1)
    {x y : Word} (h : (x ^^^ (x >>> s)) * factor = (y ^^^ (y >>> s)) * factor) : x = y := by
  rw [UInt64.mul_comm, UInt64.mul_comm _ factor] at h
  have hmixed := Word.mul_left_cancel_of_odd hodd h
  exact Word.xor_shiftRight_injective s (-1) hs (by simpa only [UInt64.and_neg_one] using hmixed)

theorem scramble_injective {x y : Word} (h : scramble x = scramble y) : x = y := by
  unfold scramble at h
  have h3 := Word.xor_shiftRight_injective 31 (-1) (by decide)
    (by simpa only [UInt64.and_neg_one] using h)
  have h2 := round_injective (by decide) (by decide) h3
  exact round_injective (by decide) (by decide) h2

theorem scramble_eq_zero_iff (x : Word) : scramble x = 0 ↔ x = 0 := by
  constructor
  · intro h
    exact scramble_injective (h.trans (by decide))
  · rintro rfl
    decide

end SeededStreams.SplitMix
