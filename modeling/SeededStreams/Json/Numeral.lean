-- Numbers in JSON: the numerals of a text and the numbers that they stand
-- for. An integer that fits a word is kept as it is; every other number is
-- read as a real, by a rule that does not always give the nearest one.
import SeededStreams.Json.Fault

namespace SeededStreams.Json

/-- A number as a text holds it. -/
structure Numeral where
  negative : Bool
  /-- The digits before the point. -/
  whole : List Char
  /-- The digits behind the point, if there is one. -/
  fraction : List Char
  /-- The power of ten, if there is one: its sign and its digits. -/
  power : Option (Bool × List Char)
deriving DecidableEq, Repr

namespace Numeral

/-! ## The numerals of a text -/

/-- Splits digits off the front of a text. -/
def digits (s : List Char) : List Char × List Char := s.span Char.isDigit

/-- One digit at least. `short` is the fault of a text that ends instead. -/
def someDigits (short : Fault) (s : List Char) : Except Fault (List Char × List Char) :=
  match s with
  | [] => .error short
  | c :: _ => if c.isDigit then .ok (digits s) else .error .badNumber

/-- The digits before the point: a zero stands alone. -/
def wholeDigits (short : Fault) (s : List Char) : Except Fault (List Char × List Char) :=
  match s with
  | '0' :: rest =>
    match rest with
    | c :: _ => if c.isDigit then .error .badNumber else .ok (['0'], rest)
    | [] => .ok (['0'], rest)
  | s => someDigits short s

/-- The digits behind the point, none if there is no point. -/
def fractionDigits (short : Fault) (s : List Char) : Except Fault (List Char × List Char) :=
  match s with
  | '.' :: rest => someDigits short rest
  | s => .ok ([], s)

/-- The power of ten, if a letter `e` begins one. -/
def powerDigits (short : Fault) (s : List Char) :
    Except Fault (Option (Bool × List Char) × List Char) :=
  let after (negative : Bool) (s : List Char) : Except Fault (Option (Bool × List Char) × List Char) :=
    match someDigits short s with
    | .ok (ds, rest) => .ok (some (negative, ds), rest)
    | .error e => .error e
  match s with
  | c :: rest =>
    if c = 'e' ∨ c = 'E' then
      match rest with
      | '-' :: rest => after true rest
      | '+' :: rest => after false rest
      | rest => after false rest
    else .ok (none, s)
  | [] => .ok (none, s)

/-- Reads a numeral without its sign. -/
def readUnsigned (short : Fault) (negative : Bool) (s : List Char) :
    Except Fault (Numeral × List Char) := do
  let (whole, s) ← wholeDigits short s
  let (fraction, s) ← fractionDigits short s
  let (power, s) ← powerDigits short s
  return ({ negative, whole, fraction, power }, s)

/-- Reads a numeral. -/
def read (short : Fault) (s : List Char) : Except Fault (Numeral × List Char) :=
  match s with
  | '-' :: rest => readUnsigned short true rest
  | s => readUnsigned short false s

/-! ## What a numeral stands for -/

/-- The value of digits. -/
def digitsValue (ds : List Char) : Nat := Nat.ofDigitChars 10 ds 0

/-- Takes digits into a significand as long as it fits a word. From the first
digit on that does not, all are left over. -/
def gather (significand : Nat) : List Char → Nat × List Char
  | [] => (significand, [])
  | c :: rest =>
    let grown := 10 * significand + (c.toNat - 48)
    if grown < UInt64.size then gather grown rest else (significand, c :: rest)

/-- Multiplies or divides by a power of ten in one step if the power is not
beyond 308, and else in steps of 10^308 on the way down. -/
def scale : Nat → Binary64 → Int → Except Fault Binary64
  | 0, x, _ => .ok x
  | steps + 1, x, power =>
    if power.natAbs ≤ 308 then
      let ten := Binary64.ofNat (Nat.pow 10 power.natAbs)
      if 0 ≤ power then
        let x := x.product ten
        if x.isInfinite then .error .numberTooLarge else .ok x
      else .ok (x.quotient ten)
    else if x.rank = 0 then .ok x
    else if 0 ≤ power then .error .numberTooLarge
    else scale steps (x.quotient (Binary64.ofNat (Nat.pow 10 308))) (power + 308)

/-- The largest power of ten that is told from larger ones. -/
def powerLimit : Nat := 2147483647

/-- The real that a numeral stands for, without its sign. Digits are gathered
into one word; a digit before the point that is left over counts as a power
of ten, a gathered one behind the point takes a power away. -/
def magnitude (n : Numeral) : Except Fault Binary64 :=
  let (whole, left) := gather 0 n.whole
  let (significand, rest) := gather whole n.fraction
  let shift : Int := (left.length : Int) - (n.fraction.length - rest.length : Nat)
  match n.power with
  | none => scale (shift.natAbs + 1) (Binary64.ofNat significand) shift
  | some (negative, ds) =>
    let power := digitsValue ds
    if powerLimit < power then
      if significand ≠ 0 ∧ !negative then .error .numberTooLarge else .ok (Binary64.ofNat 0)
    else
      let power := if negative then shift - power else shift + power
      scale (power.natAbs + 1) (Binary64.ofNat significand) power

end Numeral

/-- A number: a word, a negative integer of 64 bits, or a real. -/
inductive Number where
  | word (w : Word)
  | negative (v : Int64)
  | real (x : Binary64)
deriving DecidableEq

/-- The number that a numeral stands for. Without a point and a power it is an
integer if it fits; a negative zero is a real. -/
def Numeral.number (n : Numeral) : Except Fault Number :=
  let value := digitsValue n.whole
  if n.fraction = [] ∧ n.power = none ∧ !n.negative ∧ value < UInt64.size then
    .ok (.word (UInt64.ofNat value))
  else if n.fraction = [] ∧ n.power = none ∧ n.negative ∧ 0 < value ∧ value ≤ 0x8000000000000000 then
    .ok (.negative (Int64.ofInt (-value)))
  else
    match n.magnitude with
    | .ok x => .ok (.real (if n.negative then x.negate else x))
    | .error e => .error e

/-- How a fault shows a number. -/
def Number.found : Number → Found
  | word w => .integer w.toNat
  | negative v => .integer v.toInt
  | real x => .real x

/-- Reads a number. -/
def Number.read (s : List Char) : Except Fault (Number × List Char) := do
  let (n, s) ← Numeral.read .valueCutShort s
  let x ← n.number
  return (x, s)

end SeededStreams.Json
