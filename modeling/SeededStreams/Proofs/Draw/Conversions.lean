-- What each kind makes of a word, told by values: the word, half of it as a signed
-- number, and three reals. Two of the reals are exact quotients; the closed one is a
-- rounded product with a rounded unit. This settles the draw, to the last bit.
import SeededStreams.Proofs.Draw.Ranges

namespace SeededStreams.Kind

open Binary64

/-- The draws that a kind makes of a word. -/
inductive Converts : Kind → Word → Draw → Prop where
  | u64 {w : Word} : Converts .u64 w (.word w)
  | i63 {w : Word} {v : Int64} : v.toInt = (w.toNat / 2 : Nat) → Converts .i63 w (.signed v)
  | realClosed {w : Word} {unit x : Binary64} : Rounds (1 / 9007199254740991) unit →
      Rounds ((w >>> 11).toNat * unit.toRat) x → Converts .realClosed w (.real x)
  | realHalfOpen {w : Word} {x : Binary64} : x.isFinite = true → x.isNegative = false →
      x.toRat = (w >>> 11).toNat / 2 ^ 53 → Converts .realHalfOpen w (.real x)
  | realOpen {w : Word} {x : Binary64} : x.isFinite = true → x.isNegative = false →
      x.toRat = (2 * (w >>> 12).toNat + 1) / 2 ^ 53 → Converts .realOpen w (.real x)

variable {k : Kind} {w : Word} {d e : Draw}

/-! ## The draw is one of them -/

/-- A word that is shifted has no sign bit, so its number stays as it is. -/
theorem toInt_shifted (w : Word) : ((w >>> 1).toInt64).toInt = (w.toNat / 2 : Nat) := by
  have hshift : (w >>> 1).toNat = w.toNat / 2 := by simp [Nat.shiftRight_eq_div_pow]
  have hlt : 2 * (w >>> 1).toBitVec.toNat < 2 ^ 64 := by
    have hsize := w.toNat_lt
    rw [UInt64.toNat_toBitVec, hshift]
    omega
  rw [← Int64.toInt_toBitVec, UInt64.toBitVec_toInt64, BitVec.toInt_eq_toNat_of_lt hlt,
    UInt64.toNat_toBitVec, hshift]

theorem converts_draw (k : Kind) (w : Word) : Converts k w (k.draw w) := by
  cases k with
  | u64 => exact .u64
  | i63 => exact .i63 (toInt_shifted w)
  | realClosed => exact .realClosed rounds_closedUnit (rounds_closedReal w)
  | realHalfOpen =>
    have hreal := unitReal_halfOpenReal w
    exact .realHalfOpen (isFinite_of_unitReal hreal) hreal.isNegative (toRat_halfOpenReal_eq_div w)
  | realOpen =>
    have hreal := unitReal_openReal w
    exact .realOpen (isFinite_of_unitReal hreal) hreal.isNegative (toRat_openReal_eq_div w)

/-! ## There is no other -/

theorem Converts.unique (hd : Converts k w d) (he : Converts k w e) : d = e := by
  cases hd with
  | u64 =>
    cases he
    rfl
  | i63 hv =>
    cases he with
    | i63 hv' => rw [Int64.toInt_inj.mp (hv.trans hv'.symm)]
  | realClosed hunit hx =>
    cases he with
    | realClosed hunit' hy =>
      rw [hunit.unique hunit'] at hx
      rw [hx.unique hy]
  | realHalfOpen hfinite hsign hx =>
    cases he with
    | realHalfOpen hfinite' hsign' hy =>
      rw [eq_of_toRat_eq hfinite hsign hfinite' hsign' (hx.trans hy.symm)]
  | realOpen hfinite hsign hx =>
    cases he with
    | realOpen hfinite' hsign' hy =>
      rw [eq_of_toRat_eq hfinite hsign hfinite' hsign' (hx.trans hy.symm)]

theorem converts_iff : Converts k w d ↔ d = k.draw w := by
  constructor
  · intro h
    exact h.unique (converts_draw k w)
  · rintro rfl
    exact converts_draw k w

end SeededStreams.Kind
