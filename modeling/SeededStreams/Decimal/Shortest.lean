-- The fewest decimal digits that read back to the same number.
import SeededStreams.Binary64

namespace SeededStreams

/-- A decimal: a whole number times a power of ten. -/
structure Decimal where
  digits : Nat
  exponent : Int
deriving DecidableEq, Repr

namespace Decimal

/-- The value of a decimal. -/
def toRat (d : Decimal) : Rat := Binary64.scaled d.digits 10 d.exponent

/-- Which of two equally near decimals is taken. -/
inductive Tie where
  | toEven
  | up
deriving DecidableEq, Repr

/-- The count of decimal digits of a whole number. -/
def digitCount (n : Nat) : Nat := (Nat.toDigits 10 n).length

/-- The least `k` with `v` below ten to the power `k`, for a positive `v`. -/
def leadingPlace (v : Rat) : Int :=
  if 1 ≤ v then (digitCount v.floor.toNat : Int)
  else 1 - (digitCount (v⁻¹.ceil.toNat - 1) : Int)

/-- Takes the zeros at the end of the digits into the exponent. -/
def dropZeros : Nat → Decimal → Decimal
  | 0, d => d
  | fuel + 1, d =>
    if d.digits % 10 = 0 then dropZeros fuel ⟨d.digits / 10, d.exponent + 1⟩ else d

/-- The decimal on the grid of step `10 ^ exponent` that reads back to the
rank of `v`, if there is one: one of the two neighbours of `v` on the grid,
the nearer one if both do. -/
def onGrid (tie : Tie) (v : Rat) (rank : Nat) (exponent : Int) : Option Decimal :=
  let steps := v * Binary64.scaled 1 10 (-exponent)
  let below := steps.floor.toNat
  let lower : Decimal := ⟨below, exponent⟩
  let upper : Decimal := ⟨below + 1, exponent⟩
  let readsBack (d : Decimal) : Bool := Binary64.nearestRank d.toRat == rank
  match readsBack lower, readsBack upper with
  | false, false => none
  | true, false => some lower
  | false, true => some upper
  | true, true =>
    let middle : Rat := mkRat (2 * below + 1 : Nat) 2
    if steps < middle then some lower
    else if middle < steps then some upper
    else some (if tie = .toEven ∧ below % 2 = 0 then lower else upper)

/-- Tries the grids from the leading digit on, each ten times finer than the
one before. -/
def search (tie : Tie) (v : Rat) (rank : Nat) (exponent : Int) : Nat → Option Decimal
  | 0 => none
  | tries + 1 =>
    match onGrid tie v rank exponent with
    | some d => some d
    | none => search tie v rank (exponent - 1) tries

/-- The exact decimal of a rank. -/
def exact (rank : Nat) : Decimal :=
  let m := Binary64.significandAt rank
  let e := Binary64.exponentAt rank
  if 0 ≤ e then ⟨m * Nat.pow 2 e.toNat, 0⟩ else ⟨m * Nat.pow 5 (-e).toNat, e⟩

/-- The decimal with the fewest digits that reads back to the finite number
of a rank, and of these the nearest to it. Seventeen digits are enough for
every number; should they not be, the exact decimal is given. -/
def shortest (tie : Tie) (rank : Nat) : Decimal :=
  if rank = 0 then ⟨0, 0⟩
  else
    let v := Binary64.valueAt rank
    let d := (search tie v rank (leadingPlace v - 1) 17).getD (exact rank)
    dropZeros (digitCount d.digits) d

end Decimal

end SeededStreams
