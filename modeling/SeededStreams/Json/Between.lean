-- What stands between the values of a text: blanks, commas, colons and the
-- ends of lists and objects.
import SeededStreams.Json.Quoted

namespace SeededStreams.Json

/-- Space, line feed, carriage return and tab are blank. -/
def isBlank (c : Char) : Bool := c == ' ' || c == '\n' || c == '\r' || c == '\t'

/-- The text from its first character on that is not blank. -/
def dropBlank (s : List Char) : List Char := s.dropWhile isBlank

/-- What comes next in a list or an object: one more, or the end. -/
inductive Next where
  /-- The text at the next element or member. -/
  | more (s : List Char)
  /-- The text behind the closing bracket. -/
  | done (s : List Char)
deriving DecidableEq, Repr

/-- The next element of a list. A comma has to stand before every element
but the first. -/
def nextElement (first : Bool) (s : List Char) : Except Fault Next :=
  match dropBlank s with
  | [] => .error .listCutShort
  | ']' :: rest => .ok (.done rest)
  | c :: rest =>
    if first then .ok (.more (c :: rest))
    else if c = ',' then
      match dropBlank rest with
      | [] => .error .valueCutShort
      | ']' :: _ => .error .trailingComma
      | rest => .ok (.more rest)
    else .error .listCommaWanted

/-- The end of a list of which all elements that are wanted have been read:
the text behind the bracket. -/
def endOfList (s : List Char) : Except Fault (List Char) :=
  match dropBlank s with
  | [] => .error .listCutShort
  | ']' :: rest => .ok rest
  | ',' :: rest =>
    match dropBlank rest with
    | ']' :: _ => .error .trailingComma
    | _ => .error .trailingCharacters
  | _ => .error .trailingCharacters

/-- The next member of an object, from behind the quote that opens its key. -/
def nextMember (first : Bool) (s : List Char) : Except Fault Next :=
  match dropBlank s with
  | [] => .error .objectCutShort
  | '\x7d' :: rest => .ok (.done rest)
  | c :: rest =>
    if first then
      if c = '"' then .ok (.more rest) else .error .keyNotString
    else if c = ',' then
      match dropBlank rest with
      | [] => .error .valueCutShort
      | '"' :: rest => .ok (.more rest)
      | '\x7d' :: _ => .error .trailingComma
      | _ => .error .keyNotString
    else .error .objectCommaWanted

/-- The text behind the colon that follows a key. -/
def colon (s : List Char) : Except Fault (List Char) :=
  match dropBlank s with
  | [] => .error .objectCutShort
  | ':' :: rest => .ok rest
  | _ => .error .colonWanted

/-- Reads the letters of `null`, `true` or `false` that come after the first one. -/
def spelling (letters : List Char) (s : List Char) : Except Fault (List Char) :=
  match letters, s with
  | [], s => .ok s
  | _ :: _, [] => .error .valueCutShort
  | l :: letters, c :: s => if l = c then spelling letters s else .error .misspelt

/-- The end of a text that holds one value: nothing but blanks may be left. -/
def endOfText (s : List Char) : Except Fault Unit :=
  if dropBlank s = [] then .ok () else .error .trailingCharacters

/-- Reads elements until the list ends. Every element takes at least one
character, so there are not more of them than `fuel`, the length of the text. -/
def elements {α : Type} (element : List Char → Except Fault (α × List Char)) :
    (fuel : Nat) → (first : Bool) → List Char → Except Fault (List α × List Char)
  | 0, _, _ => .error .listCutShort
  | fuel + 1, first, s => do
    match ← nextElement first s with
    | .done rest => return ([], rest)
    | .more s =>
      let (x, s) ← element s
      let (xs, s) ← elements element fuel false s
      return (x :: xs, s)

/-- Reads a list from behind its opening bracket. -/
def list {α : Type} (element : List Char → Except Fault (α × List Char)) (s : List Char) :
    Except Fault (List α × List Char) :=
  elements element (s.length + 1) true s

/-- Reads members until the object ends, each with its key and the state
that the members before it have led to. -/
def members {σ : Type} (member : σ → List Char → List Char → Except Fault (σ × List Char)) :
    (fuel : Nat) → (first : Bool) → σ → List Char → Except Fault (σ × List Char)
  | 0, _, _, _ => .error .objectCutShort
  | fuel + 1, first, state, s => do
    match ← nextMember first s with
    | .done rest => return (state, rest)
    | .more s =>
      let (key, s) ← Quoted.read s
      let (state, s) ← member state key s
      members member fuel false state s

/-- Reads an object from behind its opening brace. -/
def object {σ : Type} (member : σ → List Char → List Char → Except Fault (σ × List Char))
    (start : σ) (s : List Char) : Except Fault (σ × List Char) :=
  members member (s.length + 1) true start s

end SeededStreams.Json
