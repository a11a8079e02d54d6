-- Floating-point numbers of 64 bits. Their arithmetic is exact arithmetic
-- on rationals followed by one rounding, to the nearest number and on a tie
-- to the one with an even significand.
import SeededStreams.Word

namespace SeededStreams

/-- A floating-point number of 64 bits, told apart by its bits alone. -/
structure Binary64 where
  bits : Word
deriving DecidableEq, Repr

namespace Binary64

/-! ## The parts of a number -/

/-- What the sign bit adds to the bits: two to the power 63. -/
def signWeight : Nat := 0x8000000000000000

/-- The count of numbers between a power of two and the next one: two to the
power 52. -/
def binade : Nat := 0x10000000000000

/-- The sign bit is set. -/
def isNegative (x : Binary64) : Bool := signWeight ≤ x.bits.toNat

/-- The bits without the sign. The numbers that are not negative lie in the
order of their ranks: zero has rank 0, and the next larger number the next
rank. -/
def rank (x : Binary64) : Nat := x.bits.toNat % signWeight

/-- The rank of infinity. Above it are the ranks that are no number. -/
def infinityRank : Nat := 2047 * binade

def isFinite (x : Binary64) : Bool := x.rank < infinityRank
def isInfinite (x : Binary64) : Bool := x.rank == infinityRank
def isNaN (x : Binary64) : Bool := infinityRank < x.rank

/-- The number with a rank and a sign. -/
def ofRank (negative : Bool) (rank : Nat) : Binary64 :=
  ⟨UInt64.ofNat (if negative then signWeight + rank else rank)⟩

/-- The number with the other sign. -/
def negate (x : Binary64) : Binary64 := ⟨x.bits ^^^ 0x8000000000000000⟩

/-- The significand at a rank: a whole number, to be taken times a power of
two. The leading bit is not stored, but in the first binade there is none. -/
def significandAt (rank : Nat) : Nat :=
  if rank < binade then rank else binade + rank % binade

/-- The power of two that belongs to the significand at a rank. -/
def exponentAt (rank : Nat) : Int := (max (rank / binade) 1 : Nat) - 1075

/-- `m` times `base` to the power `e`. -/
def scaled (m : Nat) (base : Nat) (e : Int) : Rat :=
  if 0 ≤ e then ((m * Nat.pow base e.toNat : Nat) : Rat) else mkRat m (Nat.pow base (-e).toNat)

/-- The value at a rank below that of infinity. At the rank of infinity it is
the power of two that would come next. -/
def valueAt (rank : Nat) : Rat := scaled (significandAt rank) 2 (exponentAt rank)

/-- The value of a finite number. -/
def toRat (x : Binary64) : Rat := if x.isNegative then -valueAt x.rank else valueAt x.rank

/-! ## Rounding -/

/-- The greatest `k` with two to the power `k` at most `v`, for a positive `v`. -/
def floorLog2 (v : Rat) : Int :=
  let k : Int := (v.num.natAbs.log2 : Int) - (v.den.log2 : Int)
  if scaled 1 2 k ≤ v then k else k - 1

/-- The whole number nearest to `v`, the even one on a tie, for `v` that is
not negative. -/
def roundEven (v : Rat) : Nat :=
  let n := v.num.natAbs
  let floor := n / v.den
  match compare (2 * (n % v.den)) v.den with
  | .lt => floor
  | .gt => floor + 1
  | .eq => floor + floor % 2

/-- The rank of the number nearest to `v`, for `v` that is not negative. A
carry out of the significand goes into the exponent by itself, since ranks
go on without a gap; from the middle between the last number and the power
of two after it on, the rank is that of infinity. -/
def nearestRank (v : Rat) : Nat :=
  if v ≤ 0 then 0
  else
    let e := max (floorLog2 v - 52) (-1074)
    min infinityRank ((e + 1074).toNat * binade + roundEven (v * scaled 1 2 (-e)))

/-- The number nearest to a rational. -/
def nearest (v : Rat) : Binary64 :=
  if v < 0 then ofRank true (nearestRank (-v)) else ofRank false (nearestRank v)

/-- The number nearest to a whole number. -/
def ofNat (n : Nat) : Binary64 := nearest n

/-! ## Arithmetic

Each operation is meant for finite numbers that are not negative. -/

/-- The sum, rounded once. -/
def sum (x y : Binary64) : Binary64 := nearest (x.toRat + y.toRat)

/-- The product, rounded once. -/
def product (x y : Binary64) : Binary64 := nearest (x.toRat * y.toRat)

/-- The quotient by a number that is not zero, rounded once. -/
def quotient (x y : Binary64) : Binary64 := nearest (x.toRat / y.toRat)

/-! ## Comparison -/

/-- Equality of values: both zeros are equal, and what is no number equals
nothing, itself included. -/
def sameValue (x y : Binary64) : Bool :=
  !x.isNaN && !y.isNaN && (x.bits == y.bits || (x.rank == 0 && y.rank == 0))

end Binary64

end SeededStreams
