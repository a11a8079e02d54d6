-- Passing over values that nothing is done with. They are looked at less
-- closely: nesting has no limit, numbers have no range, halves of pairs are
-- not matched, and some faults have another name.
import SeededStreams.Json.Between
import SeededStreams.Json.Numeral

namespace SeededStreams.Json.Skip

/-- What is open around the place of reading. -/
inductive Frame where
  | list
  | object
deriving DecidableEq, Repr

/-- Passes over a value that is neither a list nor an object. -/
def scalar (s : List Char) : Except Fault (List Char) :=
  match s with
  | [] => .error .valueCutShort
  | 'n' :: s => spelling "ull".toList s
  | 't' :: s => spelling "rue".toList s
  | 'f' :: s => spelling "alse".toList s
  | '"' :: s => Quoted.skip s
  | c :: s =>
    if c = '-' ∨ c.isDigit then do
      let (_, s) ← Numeral.read .badNumber (c :: s)
      return s
    else .error .valueWanted

/-- Passes over the key of a member and the colon behind it. -/
def key (s : List Char) : Except Fault (List Char) := do
  match dropBlank s with
  | [] => .error .objectCutShort
  | '"' :: s => colon (← Quoted.skip s)
  | _ => .error .keyNotString

/-- Goes to the place of the next value inside a frame. -/
def enter (frame : Frame) (s : List Char) : Except Fault (List Char) :=
  match frame with
  | .list => .ok s
  | .object => key s

/-- The closing bracket of a frame. -/
def Frame.closing : Frame → Char
  | list => ']'
  | object => '\x7d'

/-- After a value, or after an opening bracket: closes the frames that end
here and goes on to the next value. A comma counts only after a value. The
result is the frames that are still open and the text at the next value, or
the text behind the whole value if nothing is open any more. -/
def close : List Frame → (afterValue : Bool) → (fuel : Nat) → List Char →
    Except Fault (List Frame × List Char)
  | [], _, _, s => .ok ([], s)
  | _ :: _, _, 0, _ => .error .valueCutShort
  | frame :: outer, afterValue, fuel + 1, s =>
    match dropBlank s with
    | [] => .error (match frame with | .list => .listCutShort | .object => .objectCutShort)
    | c :: rest =>
      if c = ',' ∧ afterValue then do
        return (frame :: outer, ← enter frame rest)
      else if c = frame.closing then close outer true fuel rest
      else if afterValue then
        .error (match frame with | .list => .listCommaWanted | .object => .objectCommaWanted)
      else do
        return (frame :: outer, ← enter frame (c :: rest))

/-- Passes over values until no frame is open. Each round takes at least one
character, so `fuel`, the length of the text, is enough. -/
def values : (fuel : Nat) → List Frame → List Char → Except Fault (List Char)
  | 0, _, _ => .error .valueCutShort
  | fuel + 1, frames, s => do
    let s := dropBlank s
    let (frames, afterValue, s) ←
      match s with
      | '[' :: s => .ok (Frame.list :: frames, false, s)
      | '\x7b' :: s => .ok (Frame.object :: frames, false, s)
      | s => do
        let s ← scalar s
        pure (frames, true, s)
    let (frames, s) ← close frames afterValue (s.length + 1) s
    if frames.isEmpty then return s else values fuel frames s

/-- Passes over one value. -/
def value (s : List Char) : Except Fault (List Char) := values (s.length + 1) [] s

end SeededStreams.Json.Skip
