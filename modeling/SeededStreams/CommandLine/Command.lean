-- The commands: what they are told by their arguments, and what they print.
import SeededStreams.CommandLine.Option
import SeededStreams.Draw.Digest
import SeededStreams.KnownAnswer.Published
import SeededStreams.Word.Text

namespace SeededStreams.CommandLine

/-- How a stream is printed. -/
inductive Style where
  | lines
  | json
  | digest
deriving DecidableEq, Repr

/-- What is to be done. -/
inductive Command where
  /-- Prints a stream. -/
  | stream (request : Request) (style : Style)
  /-- Prints the stream of a request that is in a file. -/
  | file (path : String) (style : Style)
  /-- Checks the known answers. -/
  | verify
deriving DecidableEq

/-! ## The options -/

/-- The seed of the twister. -/
def seedOption : OptionSpec := { name := "seed", letter := some 's', takes := .one }
/-- The key of the twister. -/
def keyOption : OptionSpec := { name := "key", letter := some 'k', takes := .many }
/-- The kind of draw. -/
def drawOption : OptionSpec := { name := "draw", letter := some 'd', takes := .one, standard := some "u64" }
/-- The four words of state. -/
def stateOption : OptionSpec := { name := "state", takes := .many }
/-- The seed that is spread over the state. -/
def spreadOption : OptionSpec := { name := "splitmix", takes := .one }
/-- The count of draws. -/
def countOption : OptionSpec := { name := "count", letter := some 'n', takes := .one, standard := some "10" }
/-- The count of draws that are dropped. -/
def skipOption : OptionSpec := { name := "skip", takes := .one, standard := some "0" }
/-- The stream is printed as JSON. -/
def jsonOption : OptionSpec := { name := "json", takes := .nothing }
/-- Only the fingerprint of the stream is printed. -/
def digestOption : OptionSpec := { name := "digest", takes := .nothing }

/-- What the command for the twister takes. -/
def twisterSpec : Spec where
  options := [seedOption, keyOption, drawOption, countOption, skipOption, jsonOption, digestOption]
  conflicts := [("seed", "key"), ("json", "digest")]

/-- What the command for the generator with four words of state takes. -/
def xoshiroSpec : Spec where
  options := [stateOption, spreadOption, countOption, skipOption, jsonOption, digestOption]
  conflicts := [("state", "splitmix"), ("json", "digest")]

/-- What the command for a request in a file takes. -/
def fileSpec : Spec where
  options := [jsonOption, digestOption]
  takesPath := true
  conflicts := [("json", "digest")]

/-- What the command that checks the known answers takes. -/
def verifySpec : Spec where
  options := []

/-! ## Understanding the arguments -/

/-- A word, with the reason in words if it is none. -/
def wordValue (s : List Char) : Except String Word :=
  match Word.ofText s with
  | .ok w => .ok w
  | .error e => .error e.message

/-- A count, which is decimal always. -/
def countValue (s : List Char) : Except String Nat :=
  match Word.natOfText 10 s with
  | .ok n => .ok n
  | .error e => .error e.message

/-- A kind of draw by its name. -/
def kindValue (s : List Char) : Except String Kind :=
  match Kind.ofName? (String.ofList s) with
  | some k => .ok k
  | none => .error (Kind.unknownMessage (String.ofList s))

/-- How a stream is to be printed. -/
def styleOf (g : Given) : Except Fault Style := do
  let json ← g.flag jsonOption
  let digest ← g.flag digestOption
  return if digest then .digest else if json then .json else .lines

/-- The command for the twister. A key counts if it holds a word, and else the
seed; without both the default seed is taken. -/
def readTwister (args : List String) : Except Fault Command := do
  let g ← twisterSpec.read args
  let seed ← g.one? seedOption wordValue
  let key ← g.all keyOption wordValue
  let kind ← g.one drawOption kindValue
  let count ← g.one countOption countValue
  let skip ← g.one skipOption countValue
  let style ← styleOf g
  let source :=
    if key.isEmpty then Source.twisterSeed (seed.getD Twister.defaultSeed) else .twisterKey key
  return .stream { source, kind, count, skip } style

/-- The command for the generator with four words of state. -/
def readXoshiro (args : List String) : Except Fault Command := do
  let g ← xoshiroSpec.read args
  let state ← g.all stateOption wordValue
  let spread ← g.one? spreadOption wordValue
  let count ← g.one countOption countValue
  let skip ← g.one skipOption countValue
  let style ← styleOf g
  let source ←
    match state, spread with
    | [s0, s1, s2, s3], none => .ok (Source.xoshiroState ⟨s0, s1, s2, s3⟩)
    | [], some seed => .ok (Source.xoshiroSpread seed)
    | [], none => .error .noState
    | ws, _ => .error (.stateCount ws.length)
  return .stream { source, count, skip } style

/-- The command for a request in a file. -/
def readPath (args : List String) : Except Fault Command := do
  let g ← fileSpec.read args
  let style ← styleOf g
  match g.path with
  | some path => return .file path style
  | none => .error .usage

/-- The command that the arguments name. -/
def Command.read (args : List String) : Except Fault Command :=
  match args with
  | "mt64" :: rest => readTwister rest
  | "xoshiro" :: rest => readXoshiro rest
  | "config" :: rest => readPath rest
  | "verify" :: rest => do
    let _ ← verifySpec.read rest
    return .verify
  | _ => .error .usage

/-! ## Doing it -/

/-- What a command prints, and how it fails, if it does. -/
structure Outcome where
  output : List Char
  fault : Option Fault := none

/-- A text with a line end. -/
def line (s : List Char) : List Char := s ++ ['\n']

/-- The text of a stream. -/
def Style.print (style : Style) (draws : List Draw) : List Char :=
  match style with
  | .lines => draws.flatMap fun d => line d.text
  | .json => line (Draw.writeAll draws)
  | .digest => line (Draw.digest draws)

/-- Prints the stream of a request. Nothing is printed if there is none. -/
def printRequest (request : Request) (style : Style) : Outcome :=
  match request.stream with
  | .ok draws => { output := style.print draws }
  | .error e => { output := [], fault := some (.noStream e) }

/-- Prints the stream of the request that a file holds. -/
def printFile (path : String) (style : Style) (content : Except FileFault (List Char)) : Outcome :=
  match content with
  | .error e => { output := [], fault := some (.noText path e) }
  | .ok text =>
    match Json.parse Request.read text with
    | .ok request => printRequest request style
    | .error e => { output := [], fault := some (.noRequest path e) }

/-- The line on one known answer, and whether it is met. -/
def answerLine (k : KnownAnswer) : List Char × Bool :=
  match k.verify with
  | .ok () => (line ("ok    " ++ k.name).toList, true)
  | .error e => (line ("FAIL  " ++ k.name ++ ": " ++ e.message).toList, false)

/-- Checks known answers, a line for each. -/
def printAnswers (answers : List KnownAnswer) : Outcome :=
  let results := answers.map answerLine
  let failed := (results.filter fun r => !r.2).length
  { output := results.flatMap (·.1)
    fault := if failed = 0 then none else some (.wrongAnswers failed) }

/-- The file that a command has to read. -/
def Command.path? : Command → Option String
  | .file path _ => some path
  | _ => none

/-- Does what a command says. `content` is the text of its file. -/
def Command.run (command : Command) (content : Except FileFault (List Char)) : Outcome :=
  match command with
  | .stream request style => printRequest request style
  | .file path style => printFile path style content
  | .verify => printAnswers KnownAnswer.published

/-- The file that the arguments name, if their command reads one. -/
def fileOf? (args : List String) : Option String :=
  match Command.read args with
  | .ok command => command.path?
  | .error _ => none

/-- What the arguments lead to. `content` is the text of the file that they name. -/
def outcomeOf (args : List String) (content : Except FileFault (List Char)) : Outcome :=
  match Command.read args with
  | .ok command => command.run content
  | .error e => { output := [], fault := some e }

/-- The text that bytes are. -/
def textOfBytes (bytes : ByteArray) : Except FileFault (List Char) :=
  match String.fromUTF8? bytes with
  | some s => .ok s.toList
  | none => .error .notText

end SeededStreams.CommandLine
