-- Strings in JSON: how they are written, read, and passed over.
import SeededStreams.Json.Fault

namespace SeededStreams.Json.Quoted

/-! ## Writing -/

/-- A character as it is written between the quotes. -/
def escape (c : Char) : List Char :=
  match c with
  | '"' => ['\\', '"']
  | '\\' => ['\\', '\\']
  | '\x08' => ['\\', 'b']
  | '\x0c' => ['\\', 'f']
  | '\n' => ['\\', 'n']
  | '\r' => ['\\', 'r']
  | '\t' => ['\\', 't']
  | c =>
    if c.toNat < 0x20 then
      ['\\', 'u', '0', '0', Nat.digitChar (c.toNat / 16), Nat.digitChar (c.toNat % 16)]
    else [c]

/-- A string with its quotes. -/
def write (s : List Char) : List Char := '"' :: (s.flatMap escape ++ ['"'])

/-! ## Reading -/

/-- The value of a hexadecimal digit of either case. -/
def hexDigit? (c : Char) : Option Nat :=
  if '0' ≤ c ∧ c ≤ '9' then some (c.toNat - 48)
  else if 'a' ≤ c ∧ c ≤ 'f' then some (c.toNat - 87)
  else if 'A' ≤ c ∧ c ≤ 'F' then some (c.toNat - 55)
  else none

/-- The code unit that four hexadecimal digits name. -/
def codeUnit? (a b c d : Char) : Option Nat := do
  let a ← hexDigit? a
  let b ← hexDigit? b
  let c ← hexDigit? c
  let d ← hexDigit? d
  return 4096 * a + 256 * b + 16 * c + d

/-- The code unit is the first half of a pair. -/
def isFirstHalf (u : Nat) : Bool := 0xD800 ≤ u && u ≤ 0xDBFF

/-- The code unit is the second half of a pair. -/
def isSecondHalf (u : Nat) : Bool := 0xDC00 ≤ u && u ≤ 0xDFFF

/-- The character of a pair of code units. -/
def pairChar (u v : Nat) : Char := Char.ofNat (0x10000 + 1024 * (u - 0xD800) + (v - 0xDC00))

/-- The character that a letter after a backslash stands for. -/
def escaped? : Char → Option Char
  | '"' => some '"'
  | '\\' => some '\\'
  | '/' => some '/'
  | 'b' => some '\x08'
  | 'f' => some '\x0c'
  | 'n' => some '\n'
  | 'r' => some '\r'
  | 't' => some '\t'
  | _ => none

/-- What is wrong with a text that holds less than four characters where four
digits have to be: it is cut short if it holds less than four bytes. -/
def shortDigits (s : List Char) : Fault :=
  if (String.ofList s).utf8ByteSize < 4 then .stringCutShort else .badEscape

/-- Puts a character in front of what is read after it. -/
def push (c : Char) (r : Except Fault (List Char × List Char)) :
    Except Fault (List Char × List Char) :=
  match r with
  | .ok (s, rest) => .ok (c :: s, rest)
  | .error e => .error e

/-- Reads a string from behind its opening quote: its characters, and the
text behind its closing quote. -/
def read : List Char → Except Fault (List Char × List Char)
  | [] => .error .stringCutShort
  | '"' :: rest => .ok ([], rest)
  | '\\' :: 'u' :: a :: b :: c :: d :: rest =>
    match codeUnit? a b c d with
    | none => .error .badEscape
    | some u =>
      if isSecondHalf u then .error .loneSurrogate
      else if isFirstHalf u then
        match rest with
        | '\\' :: 'u' :: p :: q :: r :: s :: rest =>
          match codeUnit? p q r s with
          | none => .error .badEscape
          | some v => if isSecondHalf v then push (pairChar u v) (read rest) else .error .loneSurrogate
        | '\\' :: 'u' :: short => .error (shortDigits short)
        | [] => .error .stringCutShort
        | ['\\'] => .error .stringCutShort
        | _ => .error .pairCutShort
      else push (Char.ofNat u) (read rest)
  | '\\' :: 'u' :: short => .error (shortDigits short)
  | ['\\'] => .error .stringCutShort
  | '\\' :: c :: rest =>
    match escaped? c with
    | some c => push c (read rest)
    | none => .error .badEscape
  | c :: rest => if c.toNat < 0x20 then .error .controlCharacter else push c (read rest)

/-- Passes over a string from behind its opening quote. Code units are not
paired here, so a lone half is no fault. -/
def skip : List Char → Except Fault (List Char)
  | [] => .error .stringCutShort
  | '"' :: rest => .ok rest
  | '\\' :: 'u' :: a :: b :: c :: d :: rest =>
    match codeUnit? a b c d with
    | none => .error .badEscape
    | some _ => skip rest
  | '\\' :: 'u' :: short => .error (shortDigits short)
  | ['\\'] => .error .stringCutShort
  | '\\' :: c :: rest =>
    match escaped? c with
    | some _ => skip rest
    | none => .error .badEscape
  | c :: rest => if c.toNat < 0x20 then .error .controlCharacter else skip rest

end SeededStreams.Json.Quoted
