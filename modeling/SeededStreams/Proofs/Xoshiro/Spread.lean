-- Starts of xoshiro256** from one word. The four words of state come from
-- four different counter values, so not all of them are zero and every seed is
-- accepted; and each of them shows the seed, so no two seeds have the same
-- first draws.
import SeededStreams.Proofs.SplitMix.Scramble
import SeededStreams.Proofs.Xoshiro.Draws

namespace SeededStreams.Xoshiro

/-- The state that a seed is spread over: four outputs of the counter in a row. -/
def spread (seed : Word) : Xoshiro where
  s0 := SplitMix.scramble (seed + SplitMix.increment)
  s1 := SplitMix.scramble (seed + SplitMix.increment + SplitMix.increment)
  s2 := SplitMix.scramble (seed + SplitMix.increment + SplitMix.increment + SplitMix.increment)
  s3 := SplitMix.scramble
    (seed + SplitMix.increment + SplitMix.increment + SplitMix.increment + SplitMix.increment)

/-- Of two counter values in a row only one can be zero. -/
theorem spread_ne_zero (seed : Word) : spread seed ≠ zero := by
  intro h
  simp only [spread, zero, mk.injEq, SplitMix.scramble_eq_zero_iff] at h
  obtain ⟨hfirst, hsecond, _, _⟩ := h
  rw [hfirst, UInt64.zero_add] at hsecond
  exact absurd hsecond (by decide)

theorem ofSplitMix_eq (seed : Word) : ofSplitMix seed = .ok (spread seed) :=
  (ofState_eq_ok_iff (spread seed) (spread seed)).mpr ⟨rfl, spread_ne_zero seed⟩

theorem spread_injective {s t : Word} (h : spread s = spread t) : s = t := by
  simp only [spread, mk.injEq] at h
  have hcounter := SplitMix.scramble_injective h.1
  exact (UInt64.add_left_inj _).mp hcounter

/-- Every seed starts a generator, and two seeds with the same first four
draws are the same seed. -/
theorem every_seed_starts_a_stream_of_its_own :
    ∃ start : Word → Xoshiro, (∀ seed, ofSplitMix seed = .ok (start seed)) ∧
      ∀ s t, (Steps.collect next 4 (start s)).1 = (Steps.collect next 4 (start t)).1 ↔ s = t := by
  refine ⟨spread, ofSplitMix_eq, ?_⟩
  intro s t
  rw [four_draws_eq_iff]
  constructor
  · exact spread_injective
  · intro h
    rw [h]

end SeededStreams.Xoshiro
