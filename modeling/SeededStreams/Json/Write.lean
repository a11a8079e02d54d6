-- JSON texts without blanks: lists, objects and numbers.
import SeededStreams.Json.Quoted

namespace SeededStreams.Json

/-- Texts with commas between them. -/
def commas : List (List Char) → List Char
  | [] => []
  | [x] => x
  | x :: xs => x ++ ',' :: commas xs

/-- A list of values that are written already. -/
def writeList (xs : List (List Char)) : List Char := '[' :: (commas xs ++ [']'])

/-- A member with a value that is written already. -/
def writeMember (m : String × List Char) : List Char := Quoted.write m.1.toList ++ ':' :: m.2

/-- An object with values that are written already. -/
def writeObject (ms : List (String × List Char)) : List Char :=
  '\x7b' :: (commas (ms.map writeMember) ++ ['\x7d'])

/-- A whole number. -/
def writeNat (n : Nat) : List Char := Nat.toDigits 10 n

/-- A word. -/
def writeWord (w : Word) : List Char := writeNat w.toNat

end SeededStreams.Json
