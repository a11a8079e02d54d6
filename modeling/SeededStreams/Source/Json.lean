-- The JSON form of sources: an object in which `algorithm` tells which other
-- member counts. The other members may come before it, so they are kept
-- whole and understood after the end of the object.
import SeededStreams.Json.Reader
import SeededStreams.Json.Write
import SeededStreams.Source.Basic
import SeededStreams.Xoshiro.Json

namespace SeededStreams.Source

/-! ## The four forms -/

/-- What `algorithm` tells. -/
inductive Form where
  | seed
  | key
  | state
  | spread
deriving DecidableEq, Repr

namespace Form

/-- All forms, in the order in which they are listed. -/
def all : List Form := [seed, key, state, spread]

/-- The name of a form. -/
def name : Form → String
  | seed => "mt19937_64"
  | key => "mt19937_64_array"
  | state => "xoshiro256starstar"
  | spread => "xoshiro256starstar_splitmix"

/-- The member that counts. -/
def field : Form → String
  | seed => "seed"
  | key => "key"
  | state => "state"
  | spread => "seed"

/-- What a fault calls a form. -/
def label : Form → String
  | seed => "struct variant GeneratorConfig::Mt19937_64"
  | key => "struct variant GeneratorConfig::Mt19937_64Array"
  | state => "struct variant GeneratorConfig::Xoshiro256StarStar"
  | spread => "struct variant GeneratorConfig::Xoshiro256StarStarSplitMix"

end Form

/-! ## Values that have been kept -/

/-- The state that a list of four words is. -/
def stateOfValue : Json.Value → Except Json.Fault Xoshiro
  | .list xs => do
    match ← (xs.take 4).mapM (Json.Value.word "u64") with
    | [s0, s1, s2, s3] =>
      if xs.length = 4 then return ⟨s0, s1, s2, s3⟩
      else .error (.wrongLength xs.length "4 elements in sequence")
    | short => .error (.wrongLength short.length Xoshiro.label)
  | v => .error (.wrongSort v.found Xoshiro.label)

/-- The source of a form, from the value of the member that counts. -/
def ofValue (form : Form) (v : Json.Value) : Except Json.Fault Source :=
  match form with
  | .seed => do return twisterSeed (← v.word "u64")
  | .key => do return twisterKey (← v.words)
  | .state => do return xoshiroState (← stateOfValue v)
  | .spread => do return xoshiroSpread (← v.word "u64")

/-- Goes through the members in order. The member that counts may come once;
the others are nothing to this form. -/
def gather (form : Form) : Option Source → List (List Char × Json.Value) →
    Except Json.Fault (Option Source)
  | found, [] => .ok found
  | found, (key, v) :: rest =>
    if key = form.field.toList then
      match found with
      | some _ => .error (.duplicateField form.field)
      | none => do gather form (some (← ofValue form v)) rest
    else gather form found rest

/-- The source that the members of an object describe, `algorithm` apart. -/
def ofMembers (form : Form) (members : List (List Char × Json.Value)) : Except Json.Fault Source := do
  match ← gather form none members with
  | some source => return source
  | none => .error (.missingField form.field)

/-- The source that the elements of a list describe, the first one apart. -/
def ofElements (form : Form) (elements : List Json.Value) : Except Json.Fault Source :=
  match elements with
  | [] => .error (.wrongLength 0 (form.label ++ " with 1 element"))
  | v :: rest => do
    let source ← ofValue form v
    if rest.isEmpty then return source
    else .error (.wrongLength elements.length "1 element in sequence")

/-! ## Reading -/

/-- What a fault calls a source. -/
def label : String := "internally tagged enum GeneratorConfig"

/-- Reads the value of `algorithm`. -/
def readForm : Json.Reader Form :=
  Json.scalar "variant identifier" fun v => do
    Json.choice Form.all Form.name (← v.string "variant identifier")

/-- What is known of a source while its object is read: the form, and the
other members, the last one first. -/
structure Draft where
  form : Option Form := none
  members : List (List Char × Json.Value) := []

/-- Reads one member of an object. -/
def member (room : Nat) (d : Draft) (key s : List Char) : Except Json.Fault (Draft × List Char) := do
  if key = "algorithm".toList then
    if d.form.isSome then .error (.duplicateField "algorithm")
    else
      let (form, s) ← readForm room (← Json.colon s)
      return ({ d with form := some form }, s)
  else
    let (v, s) ← Json.Value.read room (← Json.colon s)
    return ({ d with members := (key, v) :: d.members }, s)

/-- Reads a source from behind the brace of its object. -/
def readObject (room : Nat) (s : List Char) : Except Json.Fault (Source × List Char) := do
  let (d, s) ← Json.object (member room) {} s
  match d.form with
  | some form => return (← ofMembers form d.members.reverse, s)
  | none => .error (.missingField "algorithm")

/-- Reads a source from behind the bracket of a list. -/
def readList (room : Nat) (s : List Char) : Except Json.Fault (Source × List Char) := do
  match ← Json.nextElement true s with
  | .done _ => .error (.missingField "algorithm")
  | .more s =>
    let (form, s) ← readForm room s
    let (vs, s) ← Json.elements (Json.Value.read room) (s.length + 1) false s
    return (← ofElements form vs, s)

/-- Reads a source. -/
def read : Json.Reader Source := fun room s =>
  match Json.dropBlank s with
  | '[' :: s =>
    match room with
    | 0 => .error .tooDeep
    | room + 1 => readList room s
  | '\x7b' :: s =>
    match room with
    | 0 => .error .tooDeep
    | room + 1 => readObject room s
  | s => .error (Json.wrongAt label s)

/-! ## Writing -/

/-- The form of a source. -/
def form : Source → Form
  | twisterSeed _ => .seed
  | twisterKey _ => .key
  | xoshiroState _ => .state
  | xoshiroSpread _ => .spread

/-- The text of the member that counts. -/
def writeField : Source → List Char
  | twisterSeed seed => Json.writeWord seed
  | twisterKey key => Json.writeList (key.map Json.writeWord)
  | xoshiroState state => state.write
  | xoshiroSpread seed => Json.writeWord seed

/-- The text of a source, `algorithm` first. -/
def write (source : Source) : List Char :=
  Json.writeObject
    [("algorithm", Json.Quoted.write source.form.name.toList),
     (source.form.field, source.writeField)]

end SeededStreams.Source
