-- Words as text in the arguments of a command: decimal, or hexadecimal
-- after 0x.
import SeededStreams.Word

namespace SeededStreams.Word

/-- Why a text is no number. -/
inductive TextFault where
  | empty
  | badDigit
  | tooLarge
deriving DecidableEq, Repr

/-- The text of a fault. -/
def TextFault.message : TextFault → String
  | empty => "cannot parse integer from empty string"
  | badDigit => "invalid digit found in string"
  | tooLarge => "number too large to fit in target type"

/-- The value of a digit, up to `f` in either case. -/
def digitValue? (c : Char) : Option Nat :=
  if '0' ≤ c ∧ c ≤ '9' then some (c.toNat - 48)
  else if 'a' ≤ c ∧ c ≤ 'f' then some (c.toNat - 87)
  else if 'A' ≤ c ∧ c ≤ 'F' then some (c.toNat - 55)
  else none

/-- Takes the digits of a base onto a value, from the left. The first digit
that is none, or that makes the value too large for a word, ends it. -/
def digitsOnto (base : Nat) : Nat → List Char → Except TextFault Nat
  | value, [] => .ok value
  | value, c :: rest =>
    match digitValue? c with
    | none => .error .badDigit
    | some d =>
      if base ≤ d then .error .badDigit
      else if value * base + d < UInt64.size then digitsOnto base (value * base + d) rest
      else .error .tooLarge

/-- A number in a base: digits, and perhaps a plus sign before them. -/
def natOfText (base : Nat) (s : List Char) : Except TextFault Nat :=
  match s with
  | [] => .error .empty
  | ['+'] => .error .badDigit
  | '+' :: rest => digitsOnto base 0 rest
  | s => digitsOnto base 0 s

/-- A word: hexadecimal after 0x or 0X, and decimal otherwise. -/
def ofText (s : List Char) : Except TextFault Word := do
  let n ←
    match s with
    | '0' :: 'x' :: rest => natOfText 16 rest
    | '0' :: 'X' :: rest => natOfText 16 rest
    | s => natOfText 10 s
  return UInt64.ofNat n

end SeededStreams.Word
