-- Operations on words that lose nothing: a word can be told from the xor of
-- the word and a shifted copy of it, whatever bits of the copy are masked out,
-- from its product with an odd factor, from the word turned, and from its bytes.
import Mathlib.Data.Nat.Digits.Defs
import Mathlib.Data.Nat.ModEq
import Mathlib.Data.Nat.Prime.Basic
import SeededStreams.Word

namespace SeededStreams.Word

/-! ## Xor and masks -/

theorem and_xor_distrib_right (x y mask : Word) :
    (x ^^^ y) &&& mask = (x &&& mask) ^^^ (y &&& mask) := by
  apply UInt64.toNat_inj.mp
  simp only [UInt64.toNat_and, UInt64.toNat_xor]
  exact Nat.and_xor_distrib_right

theorem and_or_distrib_right (x y mask : Word) :
    (x ||| y) &&& mask = (x &&& mask) ||| (y &&& mask) := by
  apply UInt64.toNat_inj.mp
  simp only [UInt64.toNat_and, UInt64.toNat_or]
  exact Nat.and_or_distrib_right _ _ _

theorem and_or_distrib_left (x m n : Word) : x &&& (m ||| n) = (x &&& m) ||| (x &&& n) := by
  apply UInt64.toNat_inj.mp
  simp only [UInt64.toNat_and, UInt64.toNat_or]
  exact Nat.and_or_distrib_left _ _ _

/-- In an equation of two xors, the second word of the left side and the
first of the right side change places. -/
theorem xor_eq_xor_swap {a b c d : Word} (h : a ^^^ b = c ^^^ d) : a ^^^ c = b ^^^ d := by
  apply UInt64.xor_eq_zero_iff.mp
  calc (a ^^^ c) ^^^ (b ^^^ d) = (a ^^^ b) ^^^ (c ^^^ d) := by ac_rfl
    _ = 0 := by rw [h, UInt64.xor_self]

/-! ## Shifts -/

theorem mod_two_eq (x : Word) : x % 2 = 0 ∨ x % 2 = 1 := by
  rcases Nat.mod_two_eq_zero_or_one x.toNat with h | h
  · exact Or.inl (UInt64.toNat_inj.mp (by simp [h]))
  · exact Or.inr (UInt64.toNat_inj.mp (by simp [h]))

theorem eq_of_shiftRight_one {x y : Word} (hshift : x >>> 1 = y >>> 1) (hlast : x % 2 = y % 2) :
    x = y := by
  apply UInt64.toNat_inj.mp
  have h1 : x.toNat / 2 = y.toNat / 2 := by
    simpa [Nat.shiftRight_eq_div_pow] using congrArg UInt64.toNat hshift
  have h2 : x.toNat % 2 = y.toNat % 2 := by simpa using congrArg UInt64.toNat hlast
  omega

/-- A word that is a part of itself shifted down is zero: it would be no
larger than half of itself. -/
theorem eq_zero_of_eq_shiftRight {x s mask : Word} (hs : 0 < s.toNat % 64)
    (h : x = (x >>> s) &&& mask) : x = 0 := by
  have hle : x.toNat ≤ x.toNat / 2 ^ (s.toNat % 64) := by
    calc x.toNat = ((x >>> s) &&& mask).toNat := congrArg UInt64.toNat h
      _ ≤ (x >>> s).toNat := by rw [UInt64.toNat_and]; exact Nat.and_le_left
      _ = x.toNat / 2 ^ (s.toNat % 64) := by
        rw [UInt64.toNat_shiftRight, Nat.shiftRight_eq_div_pow]
  have htwo : 1 < 2 ^ (s.toNat % 64) := Nat.one_lt_two_pow (by omega)
  apply UInt64.toNat_inj.mp
  by_cases hx : x.toNat = 0
  · exact hx
  · have := Nat.div_lt_self (Nat.pos_of_ne_zero hx) htwo
    omega

/-- A word that is a part of itself shifted up is zero: each bit is a lower
bit of the same word, and below the lowest there is none. -/
theorem eq_zero_of_eq_shiftLeft {x s mask : Word} (hs : 0 < s.toNat % 64)
    (h : x = (x <<< s) &&& mask) : x = 0 := by
  apply UInt64.toNat_inj.mp
  apply Nat.eq_of_testBit_eq
  intro i
  induction i using Nat.strongRecOn with
  | ind i ih =>
    rw [h, UInt64.toNat_and, Nat.testBit_and, UInt64.toNat_shiftLeft, Nat.testBit_mod_two_pow,
      Nat.testBit_shiftLeft]
    by_cases hi : s.toNat % 64 ≤ i
    · rw [ih (i - s.toNat % 64) (by omega)]
      simp
    · simp [hi]

/-! ## A word xored with a shifted copy of itself -/

theorem xor_shiftRight_injective (s mask : Word) {x y : Word} (hs : 0 < s.toNat % 64)
    (h : x ^^^ ((x >>> s) &&& mask) = y ^^^ ((y >>> s) &&& mask)) : x = y := by
  have hself : x ^^^ y = ((x ^^^ y) >>> s) &&& mask := by
    rw [UInt64.shiftRight_xor, and_xor_distrib_right]
    exact xor_eq_xor_swap h
  exact UInt64.xor_eq_zero_iff.mp (eq_zero_of_eq_shiftRight hs hself)

theorem xor_shiftLeft_injective (s mask : Word) {x y : Word} (hs : 0 < s.toNat % 64)
    (h : x ^^^ ((x <<< s) &&& mask) = y ^^^ ((y <<< s) &&& mask)) : x = y := by
  have hself : x ^^^ y = ((x ^^^ y) <<< s) &&& mask := by
    rw [UInt64.shiftLeft_xor, and_xor_distrib_right]
    exact xor_eq_xor_swap h
  exact UInt64.xor_eq_zero_iff.mp (eq_zero_of_eq_shiftLeft hs hself)

/-! ## Products -/

/-- An odd factor can be cancelled, as it has no divisor in common with 2^64. -/
theorem mul_left_cancel_of_odd {c x y : Word} (hc : c % 2 = 1) (h : c * x = c * y) : x = y := by
  have hodd : Odd c.toNat := Nat.odd_iff.mpr (by simpa using congrArg UInt64.toNat hc)
  have hcoprime : Nat.Coprime (2 ^ 64) c.toNat := (Nat.coprime_two_left.mpr hodd).pow_left 64
  have hmod : c.toNat * x.toNat ≡ c.toNat * y.toNat [MOD 2 ^ 64] := by
    unfold Nat.ModEq
    rw [← UInt64.toNat_mul, ← UInt64.toNat_mul, h]
  apply UInt64.toNat_inj.mp
  exact (hmod.cancel_left_of_coprime hcoprime).eq_of_lt_of_lt x.toNat_lt y.toNat_lt

/-! ## Turned words -/

theorem testBit_of_le (x : Word) {i : Nat} (hi : 64 ≤ i) : x.toNat.testBit i = false :=
  Nat.testBit_lt_two_pow (Nat.lt_of_lt_of_le x.toNat_lt (Nat.pow_le_pow_right (by decide) hi))

section Turns

variable {k : Word} (hpos : 0 < k.toNat) (hk : k.toNat < 64)

include hpos hk

theorem testBit_rotateLeft (x : Word) (i : Nat) :
    (rotateLeft x k).toNat.testBit i =
      ((decide (i < 64) && (decide (k.toNat ≤ i) && x.toNat.testBit (i - k.toNat))) ||
        x.toNat.testBit (64 - k.toNat + i)) := by
  have hback : (64 - k).toNat % 64 = 64 - k.toNat := by
    rw [UInt64.toNat_sub]
    simp
    omega
  unfold rotateLeft
  rw [UInt64.toNat_or, Nat.testBit_or, UInt64.toNat_shiftLeft, UInt64.toNat_shiftRight, hback,
    Nat.mod_eq_of_lt hk, Nat.testBit_mod_two_pow, Nat.testBit_shiftLeft, Nat.testBit_shiftRight]

/-- A bit that does not reach the top moves up. -/
theorem testBit_rotateLeft_add (x : Word) {i : Nat} (hi : i + k.toNat < 64) :
    (rotateLeft x k).toNat.testBit (i + k.toNat) = x.toNat.testBit i := by
  rw [testBit_rotateLeft hpos hk, testBit_of_le x (by omega : 64 ≤ 64 - k.toNat + (i + k.toNat))]
  simp [hi]

/-- The upper bits come back at the bottom. -/
theorem testBit_rotateLeft_of_lt (x : Word) {i : Nat} (hi : i < k.toNat) :
    (rotateLeft x k).toNat.testBit i = x.toNat.testBit (64 - k.toNat + i) := by
  rw [testBit_rotateLeft hpos hk]
  simp [Nat.not_le.mpr hi]

theorem rotateLeft_injective {x y : Word} (h : rotateLeft x k = rotateLeft y k) : x = y := by
  apply UInt64.toNat_inj.mp
  apply Nat.eq_of_testBit_eq
  intro i
  by_cases hup : i + k.toNat < 64
  · rw [← testBit_rotateLeft_add hpos hk x hup, h, testBit_rotateLeft_add hpos hk y hup]
  · by_cases hword : i < 64
    · obtain ⟨j, rfl⟩ := Nat.exists_eq_add_of_le (by omega : 64 - k.toNat ≤ i)
      have hj : j < k.toNat := by omega
      rw [← testBit_rotateLeft_of_lt hpos hk x hj, h, testBit_rotateLeft_of_lt hpos hk y hj]
    · rw [testBit_of_le x (by omega), testBit_of_le y (by omega)]

end Turns

/-! ## Bytes -/

/-- The bytes are the digits of a word to base 256, the lowest first. -/
theorem ofDigits_bytes (x : Word) : Nat.ofDigits 256 (x.bytes.map UInt8.toNat) = x.toNat := by
  have hx := x.toNat_lt
  simp only [bytes, List.map_cons, List.map_nil, Nat.ofDigits_cons, Nat.ofDigits_nil,
    UInt64.toNat_toUInt8, UInt64.toNat_shiftRight, UInt64.reduceToNat, Nat.reduceMod,
    Nat.shiftRight_eq_div_pow, Nat.reducePow]
  omega

theorem bytes_inj {x y : Word} : x.bytes = y.bytes ↔ x = y := by
  constructor
  · intro h
    apply UInt64.toNat_inj.mp
    rw [← ofDigits_bytes x, h, ofDigits_bytes]
  · rintro rfl
    rfl

end SeededStreams.Word
