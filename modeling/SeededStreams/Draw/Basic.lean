-- Draws: the values that a stream is made of, their 8 bytes and their text.
import SeededStreams.Decimal.Layout

namespace SeededStreams

/-- One value of a stream. -/
inductive Draw where
  | word (w : Word)
  | signed (v : Int64)
  | real (x : Binary64)
deriving DecidableEq

namespace Draw

/-- The 64 bits that stand for a draw. -/
def bits : Draw → Word
  | word w => w
  | signed v => v.toUInt64
  | real x => x.bits

/-- The eight bytes of a draw, the lowest first. -/
def bytes (d : Draw) : List UInt8 := d.bits.bytes

/-- Equality of draws of one sort by value. A word never equals a signed
number, and reals are compared as numbers, not by their bits. -/
def sameValue : Draw → Draw → Bool
  | word a, word b => a == b
  | signed a, signed b => a == b
  | real a, real b => a.sameValue b
  | _, _ => false

/-- The decimal text of an integer. -/
def integerText (v : Int) : List Char :=
  if v < 0 then '-' :: Nat.toDigits 10 v.natAbs else Nat.toDigits 10 v.natAbs

/-- The text of a draw on a line of its own. -/
def text : Draw → List Char
  | word w => Nat.toDigits 10 w.toNat
  | signed v => integerText v.toInt
  | real x =>
    if x.isNaN then "NaN".toList
    else if x.isInfinite then if x.isNegative then "-inf".toList else "inf".toList
    else Decimal.lineLayout.finite x

end Draw

end SeededStreams
