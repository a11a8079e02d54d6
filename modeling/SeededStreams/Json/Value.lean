-- Values of JSON that are kept whole, for what can be understood only after
-- all of it has been read.
import SeededStreams.Json.Between
import SeededStreams.Json.Numeral

namespace SeededStreams.Json

/-- A value. The members of an object keep their order, and a key may come
more than once. -/
inductive Value where
  | null
  | boolean (b : Bool)
  | number (x : Number)
  | text (s : List Char)
  | list (xs : List Value)
  | object (members : List (List Char × Value))

namespace Value

/-- How a fault shows a value. -/
def found : Value → Found
  | null => .null
  | boolean b => .boolean b
  | number x => x.found
  | text s => .text s
  | list _ => .list
  | object _ => .object

/-- Reads a value. What is inside a list or an object is read by `inside`,
if it may still be opened. -/
def readWith (inside : Option (List Char → Except Fault (Value × List Char))) (s : List Char) :
    Except Fault (Value × List Char) :=
  match dropBlank s with
  | [] => .error .valueCutShort
  | 'n' :: s => do return (null, ← spelling "ull".toList s)
  | 't' :: s => do return (boolean true, ← spelling "rue".toList s)
  | 'f' :: s => do return (boolean false, ← spelling "alse".toList s)
  | '"' :: s => do
    let (t, s) ← Quoted.read s
    return (text t, s)
  | '[' :: s =>
    match inside with
    | none => .error .tooDeep
    | some inside => do
      let (xs, s) ← Json.list inside s
      return (list xs, s)
  | '\x7b' :: s =>
    match inside with
    | none => .error .tooDeep
    | some inside => do
      let member (before : List (List Char × Value)) (key s : List Char) :
          Except Fault (List (List Char × Value) × List Char) := do
        let (v, s) ← inside (← colon s)
        return ((key, v) :: before, s)
      let (ms, s) ← Json.object member [] s
      return (object ms.reverse, s)
  | c :: s =>
    if c = '-' ∨ c.isDigit then do
      let (x, s) ← Number.read (c :: s)
      return (number x, s)
    else .error .valueWanted

/-- Reads a value in which not more than `room` lists and objects are open
at the same time. -/
def read : (room : Nat) → List Char → Except Fault (Value × List Char)
  | 0 => readWith none
  | room + 1 => readWith (some (read room))

end Value

end SeededStreams.Json
