-- The JSON form of draws and of their kinds. A draw is a bare number, and
-- the number alone tells of which sort it is.
import SeededStreams.Draw.Kind
import SeededStreams.Json.Reader
import SeededStreams.Json.Write

namespace SeededStreams

namespace Draw

/-- The text of a draw. A real that is not finite has none, so it is `null`. -/
def write : Draw → List Char
  | word w => Json.writeWord w
  | signed v => integerText v.toInt
  | real x => if x.isFinite then Decimal.jsonLayout.finite x else "null".toList

/-- The text of a list of draws. -/
def writeAll (draws : List Draw) : List Char := Json.writeList (draws.map write)

/-- The draw that a value is: a number of any sort. -/
def ofValue : Json.Value → Except Json.Fault Draw
  | .number (.word w) => .ok (.word w)
  | .number (.negative v) => .ok (.signed v)
  | .number (.real x) => .ok (.real x)
  | _ => .error (.noChoice "Draw")

/-- Reads a draw. Any value is read to its end before it is found to be no draw. -/
def read : Json.Reader Draw := fun room s => do
  let (v, s) ← Json.Value.read room s
  return (← ofValue v, s)

end Draw

namespace Kind

/-- The text of a kind. -/
def write (k : Kind) : List Char := Json.Quoted.write k.name.toList

/-- Reads a kind: its name, or an object with the name as its one key and
`null` as the value. -/
def read : Json.Reader Kind := fun room s =>
  match Json.dropBlank s with
  | [] => .error .valueCutShort
  | '"' :: s => do
    let (key, s) ← Json.Quoted.read s
    return (← Json.choice all name key, s)
  | '\x7b' :: s =>
    match room with
    | 0 => .error .tooDeep
    | room + 1 =>
      match Json.dropBlank s with
      | [] => .error .objectCutShort
      | '"' :: s => do
        let (key, s) ← Json.Quoted.read s
        let k ← Json.choice all name key
        let ((), s) ← Json.scalar "unit" (Json.Value.nothing "unit") room (← Json.colon s)
        match Json.dropBlank s with
        | [] => .error .objectCutShort
        | '\x7d' :: s => return (k, s)
        | _ => .error .valueWanted
      | '\x7d' :: _ => .error .valueWanted
      | _ => .error .keyNotString
  | _ => .error .valueWanted

end Kind

end SeededStreams
