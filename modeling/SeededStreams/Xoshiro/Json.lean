-- The JSON form of the generator with four words of state: the list of its
-- words. Reading makes the same check as a start from four words.
import SeededStreams.Json.Reader
import SeededStreams.Json.Write
import SeededStreams.Xoshiro.Basic

namespace SeededStreams.Xoshiro

/-- What is wanted where a state is read. -/
def label : String := "an array of length 4"

/-- The text of a state. -/
def write (x : Xoshiro) : List Char := Json.writeList (x.words.map Json.writeWord)

/-- Reads four words as a state, and checks nothing. -/
def readState : Json.Reader Xoshiro := fun room s =>
  match Json.dropBlank s with
  | '[' :: s =>
    match room with
    | 0 => .error .tooDeep
    | room + 1 => do
      let (ws, s) ← Json.exactly label (Json.word room) 4 0 s
      match ws with
      | [s0, s1, s2, s3] => return (⟨s0, s1, s2, s3⟩, s)
      | _ => .error (.wrongLength ws.length label)
  | s => .error (Json.wrongAt label s)

/-- Reads a generator. -/
def read : Json.Reader Xoshiro := fun room s => do
  let (x, s) ← readState room s
  match ofState x with
  | .ok x => return (x, s)
  | .error e => .error (.refused e.message)

end SeededStreams.Xoshiro
