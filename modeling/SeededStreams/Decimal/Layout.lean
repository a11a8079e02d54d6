-- How the digits of a number are laid out: with a point among them, or with
-- a power of ten after them.
import SeededStreams.Decimal.Shortest

namespace SeededStreams.Decimal

/-- The decisions of a number format. -/
structure Layout where
  /-- The least power of ten of the leading digit that is written without a power. -/
  plainFrom : Int
  /-- The first power of ten of the leading digit that is written with a power again. -/
  plainBelow : Int
  /-- A power that is not negative is written with a plus sign. -/
  plusSign : Bool
  /-- Which of two equally near decimals is written. -/
  tie : Tie

/-- Digits with a point among them, and at least one digit on each side of
it. `power` is the power of ten of the leading digit. -/
def plain (digits : List Char) (power : Int) : List Char :=
  if power < 0 then
    '0' :: '.' :: (List.replicate (-power - 1).toNat '0' ++ digits)
  else
    let whole := power.toNat + 1
    let fraction := digits.drop whole
    digits.take whole ++ List.replicate (whole - digits.length) '0' ++
      '.' :: (if fraction.isEmpty then ['0'] else fraction)

/-- Digits with a point after the first, if there are more, and the power of
ten after them. -/
def withPower (plusSign : Bool) (digits : List Char) (power : Int) : List Char :=
  let mantissa :=
    match digits with
    | first :: rest@(_ :: _) => first :: '.' :: rest
    | short => short
  let sign := if power < 0 then ['-'] else if plusSign then ['+'] else []
  mantissa ++ 'e' :: (sign ++ Nat.toDigits 10 power.natAbs)

/-- The text of the finite number of a rank. -/
def Layout.magnitude (layout : Layout) (rank : Nat) : List Char :=
  let d := shortest layout.tie rank
  let digits := Nat.toDigits 10 d.digits
  let power := d.exponent + digits.length - 1
  if rank = 0 then ['0', '.', '0']
  else if layout.plainFrom ≤ power ∧ power < layout.plainBelow then plain digits power
  else withPower layout.plusSign digits power

/-- The text of a finite number. -/
def Layout.finite (layout : Layout) (x : Binary64) : List Char :=
  if x.isNegative then '-' :: layout.magnitude x.rank else layout.magnitude x.rank

/-! ## The two formats -/

/-- In lines of text, numbers from 0.0001 to below 10^16 are written without
a power of ten, and powers have no plus sign. Of two equally near decimals
the upper one is written. -/
def lineLayout : Layout where
  plainFrom := -4
  plainBelow := 16
  plusSign := false
  tie := .up

/-- In JSON, numbers from 0.00001 to below 10^16 are written without a power
of ten, and powers have a sign. Of two equally near decimals the even one is
written. -/
def jsonLayout : Layout where
  plainFrom := -5
  plainBelow := 16
  plusSign := true
  tie := .toEven

end SeededStreams.Decimal
