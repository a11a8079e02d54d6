-- Readers of values of a wanted sort, straight from the text.
import SeededStreams.Json.Value
import SeededStreams.Json.Skip

namespace SeededStreams.Json

/-- A reader takes how many more lists and objects may be open inside each
other, and the text at the value; it gives what it has read and the text
behind it. -/
abbrev Reader (α : Type) := (room : Nat) → List Char → Except Fault (α × List Char)

/-- How many lists and objects may be open inside each other in a text. -/
def depthLimit : Nat := 127

/-- Reads a text that holds one value and nothing else. -/
def parse {α : Type} (reader : Reader α) (s : List Char) : Except Fault α := do
  let (x, s) ← reader depthLimit s
  endOfText s
  return x

/-! ## Values of a wanted sort -/

namespace Value

/-- The word that a value is. -/
def word (wanted : String) : Value → Except Fault Word
  | number (.word w) => .ok w
  | number (.negative v) => .error (.wrongInteger v.toInt wanted)
  | v => .error (.wrongSort v.found wanted)

/-- The string that a value is. -/
def string (wanted : String) : Value → Except Fault (List Char)
  | text s => .ok s
  | v => .error (.wrongSort v.found wanted)

/-- Nothing, which `null` stands for. -/
def nothing (wanted : String) : Value → Except Fault Unit
  | null => .ok ()
  | v => .error (.wrongSort v.found wanted)

/-- The words that the elements of a list are. -/
def words : Value → Except Fault (List Word)
  | list xs => xs.mapM (word "u64")
  | v => .error (.wrongSort v.found "a sequence")

end Value

/-! ## Readers -/

/-- Reads a value that is no list and no object, and takes it as the wanted
sort. Of a list or an object only the first character is looked at. -/
def scalar {α : Type} (wanted : String) (as : Value → Except Fault α) : Reader α := fun _ s =>
  match dropBlank s with
  | '[' :: _ => .error (.wrongSort .list wanted)
  | '\x7b' :: _ => .error (.wrongSort .object wanted)
  | s => do
    let (v, s) ← Value.read 0 s
    return (← as v, s)

/-- The fault of a text at which a list or an object was wanted and something
else stands. -/
def wrongAt (wanted : String) (s : List Char) : Fault :=
  match dropBlank s with
  | '[' :: _ => .wrongSort .list wanted
  | '\x7b' :: _ => .wrongSort .object wanted
  | s =>
    match Value.read 0 s with
    | .ok (v, _) => .wrongSort v.found wanted
    | .error e => e

/-- Reads a word. -/
def word : Reader Word := scalar "u64" (Value.word "u64")

/-- Reads a count or a position. It fits a word. -/
def size : Reader Nat := scalar "usize" fun v => do return (← Value.word "usize" v).toNat

/-- Reads a string. -/
def string : Reader (List Char) := scalar "a string" (Value.string "a string")

/-- Reads a name out of the names of `choices`. -/
def choice {α : Type} (choices : List α) (name : α → String) (key : List Char) : Except Fault α :=
  match choices.find? fun a => (name a).toList == key with
  | some a => .ok a
  | none => .error (.unknownName key (choices.map name))

/-- Reads a list of any length. -/
def listOf {α : Type} (element : Reader α) : Reader (List α) := fun room s =>
  match dropBlank s with
  | '[' :: s =>
    match room with
    | 0 => .error .tooDeep
    | room + 1 => list (element room) s
  | s => .error (wrongAt "a sequence" s)

/-- Reads `count` elements and the end of the list, from behind `before`
elements of it. -/
def exactly {α : Type} (wanted : String) (element : List Char → Except Fault (α × List Char)) :
    (count before : Nat) → List Char → Except Fault (List α × List Char)
  | 0, _, s => do return ([], ← endOfList s)
  | count + 1, before, s => do
    match ← nextElement (before == 0) s with
    | .done _ => .error (.wrongLength before wanted)
    | .more s =>
      let (x, s) ← element s
      let (xs, s) ← exactly wanted element count (before + 1) s
      return (x :: xs, s)

end SeededStreams.Json
