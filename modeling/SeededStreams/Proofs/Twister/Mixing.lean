-- What the two word functions of the twister keep: `temper` loses nothing,
-- and `mix` shows exactly the upper 33 bits of its first word and the lower
-- 31 bits of its second.
import SeededStreams.Twister.Register
import SeededStreams.Proofs.Word.Lossless

namespace SeededStreams.Twister

/-! ## Words joined of two -/

/-- The upper 33 bits of `u` above the lower 31 bits of `l`. -/
def joined (u l : Word) : Word := (u &&& upperBits) ||| (l &&& lowerBits)

theorem joined_upper (u l : Word) : joined u l &&& upperBits = u &&& upperBits := by
  unfold joined
  rw [Word.and_or_distrib_right, UInt64.and_assoc, UInt64.and_assoc,
    show upperBits &&& upperBits = upperBits by decide,
    show lowerBits &&& upperBits = 0 by decide, UInt64.and_zero, UInt64.or_zero]

theorem joined_lower (u l : Word) : joined u l &&& lowerBits = l &&& lowerBits := by
  unfold joined
  rw [Word.and_or_distrib_right, UInt64.and_assoc, UInt64.and_assoc,
    show upperBits &&& lowerBits = 0 by decide,
    show lowerBits &&& lowerBits = lowerBits by decide, UInt64.and_zero, UInt64.zero_or]

/-- A word is joined of its own two parts. -/
theorem joined_self (x : Word) : joined x x = x := by
  unfold joined
  rw [← Word.and_or_distrib_left, show upperBits ||| lowerBits = -1 by decide, UInt64.and_neg_one]

theorem joined_eq_iff (u l u' l' : Word) :
    joined u l = joined u' l' ↔
      u &&& upperBits = u' &&& upperBits ∧ l &&& lowerBits = l' &&& lowerBits := by
  constructor
  · intro h
    refine ⟨?_, ?_⟩
    · rw [← joined_upper u l, h, joined_upper]
    · rw [← joined_lower u l, h, joined_lower]
  · rintro ⟨hu, hl⟩
    unfold joined
    rw [hu, hl]

theorem eq_of_upper_of_lower {x y : Word} (hu : x &&& upperBits = y &&& upperBits)
    (hl : x &&& lowerBits = y &&& lowerBits) : x = y := by
  rw [← joined_self x, ← joined_self y]
  exact (joined_eq_iff x x y y).mpr ⟨hu, hl⟩

/-- The last bit of a joined word is that of its lower part. -/
theorem joined_mod_two (u l : Word) : joined u l % 2 = l % 2 := by
  have hlast : ∀ x : Word, x % 2 = (x &&& lowerBits) &&& 1 := by
    intro x
    rw [UInt64.and_assoc, show lowerBits &&& 1 = 1 by decide]
    apply UInt64.toNat_inj.mp
    simp
  rw [hlast, joined_lower, ← hlast]

/-! ## The mixed word -/

/-- A word moved down by one place; the feedback is xored in when the bit
that leaves was set. -/
def turned (x : Word) : Word := (x >>> 1) ^^^ (if x % 2 = 1 then feedback else 0)

theorem mix_eq_turned (u l : Word) : mix u l = turned (joined u l) := by
  have hlast : l &&& 1 = joined u l % 2 := by
    rw [joined_mod_two]
    apply UInt64.toNat_inj.mp
    simp
  unfold mix turned
  rw [hlast]
  rcases Word.mod_two_eq (joined u l) with h | h
  · rw [h, UInt64.zero_mul, if_neg (by decide)]
    rfl
  · rw [h, UInt64.one_mul, if_pos rfl]
    rfl

/-- The mixed word as it is published: the feedback goes in when the second
word is odd. -/
theorem mix_eq (u l : Word) :
    mix u l = (joined u l >>> 1) ^^^ (if l % 2 = 1 then feedback else 0) := by
  rw [mix_eq_turned]
  unfold turned
  rw [joined_mod_two]

/-- The top bit of a turned word is the bit that left: the move empties the
top place, and the feedback fills it. -/
theorem turned_top (x : Word) : turned x >>> 63 = if x % 2 = 1 then 1 else 0 := by
  have hempty : (x >>> 1) >>> 63 = 0 := by
    apply UInt64.toNat_inj.mp
    have := x.toNat_lt
    simp [Nat.shiftRight_eq_div_pow]
    omega
  unfold turned
  rw [UInt64.shiftRight_xor, hempty, UInt64.zero_xor]
  split <;> decide

theorem turned_injective {x y : Word} (h : turned x = turned y) : x = y := by
  have htop : turned x >>> 63 = turned y >>> 63 := by rw [h]
  rw [turned_top, turned_top] at htop
  have hlast : x % 2 = y % 2 := by
    rcases Word.mod_two_eq x with hx | hx <;> rcases Word.mod_two_eq y with hy | hy
    all_goals simp [hx, hy] at htop ⊢
  unfold turned at h
  rw [hlast] at h
  exact Word.eq_of_shiftRight_one ((UInt64.xor_left_inj _).mp h) hlast

/-- A mixed word shows the upper bits of its first word and the lower bits
of its second, and nothing else. -/
theorem mix_eq_mix_iff (u l u' l' : Word) :
    mix u l = mix u' l' ↔
      u &&& upperBits = u' &&& upperBits ∧ l &&& lowerBits = l' &&& lowerBits := by
  rw [mix_eq_turned, mix_eq_turned, ← joined_eq_iff]
  constructor
  · exact turned_injective
  · intro h
    rw [h]

theorem mix_zero : mix 0 0 = 0 := by decide

/-! ## The tempered word -/

/-- Tempering loses nothing: each of its four steps can be undone. -/
theorem temper_injective {x y : Word} (h : temper x = temper y) : x = y := by
  unfold temper at h
  have h4 := Word.xor_shiftRight_injective 43 (-1) (by decide)
    (by simpa only [UInt64.and_neg_one] using h)
  have h3 := Word.xor_shiftLeft_injective 37 _ (by decide) h4
  have h2 := Word.xor_shiftLeft_injective 17 _ (by decide) h3
  exact Word.xor_shiftRight_injective 29 _ (by decide) h2

theorem temper_eq_zero_iff (x : Word) : temper x = 0 ↔ x = 0 := by
  constructor
  · intro h
    exact temper_injective (h.trans (by decide))
  · rintro rfl
    decide

end SeededStreams.Twister
