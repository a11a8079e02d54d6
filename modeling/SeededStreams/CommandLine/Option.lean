-- Options: how arguments are sorted into the options that they give and the
-- path that stands alone, before any value is understood.
import SeededStreams.CommandLine.Fault

namespace SeededStreams.CommandLine

/-- How many values an option takes. -/
inductive Takes where
  | nothing
  | one
  /-- Any count of values, which may be joined by commas. -/
  | many
deriving DecidableEq, Repr

/-- An option of a command. -/
structure OptionSpec where
  name : String
  letter : Option Char := none
  takes : Takes
  /-- The value of the option if none is given. -/
  standard : Option String := none
deriving DecidableEq, Repr

/-- What a fault calls an option. -/
def OptionSpec.label (o : OptionSpec) : String :=
  "--" ++ o.name ++ " <" ++ o.name ++ ">" ++ (if o.takes = .many then "..." else "")

/-- What a command takes. -/
structure Spec where
  options : List OptionSpec
  /-- The command takes a path. -/
  takesPath : Bool := false
  /-- Options that may not be given together, by name. -/
  conflicts : List (String × String) := []

/-- What the arguments give: each option as often as it comes, each value with
the name of its option, and the path. -/
structure Given where
  names : List String := []
  values : List (String × List Char) := []
  path : Option String := none
deriving DecidableEq, Repr

namespace Given

/-- The option is given. -/
def has (g : Given) (name : String) : Bool := g.names.contains name

/-- How often an option is given. -/
def times (g : Given) (name : String) : Nat := g.names.count name

/-- The values of an option in order. -/
def valuesOf (g : Given) (name : String) : List (List Char) :=
  g.values.filterMap fun v => if v.1 = name then some v.2 else none

/-- Notes that an option is given. -/
def note (g : Given) (o : OptionSpec) : Given := { g with names := g.names ++ [o.name] }

/-- Adds values of an option. -/
def addValues (g : Given) (o : OptionSpec) (vs : List (List Char)) : Given :=
  { g with values := g.values ++ vs.map fun v => (o.name, v) }

end Given

/-! ## Values -/

/-- `pieces` with the letters found of the first piece, the last one first. -/
def piecesOnto (found : List Char) : List Char → List (List Char)
  | [] => if found.isEmpty then [] else [found.reverse]
  | c :: rest => if c = ',' then found.reverse :: piecesOnto [] rest else piecesOnto (c :: found) rest

/-- The pieces between commas. Nothing after the last comma is no piece. -/
def pieces (s : List Char) : List (List Char) := piecesOnto [] s

/-- The values that one text gives. An empty text is an empty value. -/
def OptionSpec.split (o : OptionSpec) (v : List Char) : List (List Char) :=
  if o.takes = .many ∧ v ≠ [] then pieces v else [v]

/-! ## Arguments -/

/-- An argument by its form. -/
inductive Form where
  /-- Two dashes alone: only paths come after them. -/
  | pathsOnly
  /-- A name after dashes, and the text after the first equals sign. -/
  | long (name : String) (value : Option (List Char))
  /-- A letter after one dash, and what stands behind it. -/
  | short (letter : Char) (attached : List Char)
  /-- Anything else. -/
  | plain
deriving DecidableEq, Repr

/-- The form of an argument. One dash alone is plain. Dashes before a name
beyond the second do not count. -/
def formOf (arg : String) : Form :=
  match arg.toList with
  | ['-', '-'] => .pathsOnly
  | '-' :: '-' :: rest =>
    let body := rest.dropWhile (· == '-')
    let name := String.ofList (body.takeWhile (· != '='))
    match body.dropWhile (· != '=') with
    | [] => .long name none
    | _ :: value => .long name (some value)
  | '-' :: letter :: rest => .short letter rest
  | _ => .plain

/-- Takes a plain argument as the path, if the command takes one and has none yet. -/
def takePath (spec : Spec) (g : Given) (arg : String) : Except Fault Given :=
  if spec.takesPath ∧ g.path = none then .ok { g with path := some arg } else .error .usage

/-- Sorts the arguments. `awaiting` is an option that takes the next plain
argument as a value; `ended` says that two dashes alone have been met. -/
def sort (spec : Spec) : (awaiting : Option OptionSpec) → (ended : Bool) → Given → List String →
    Except Fault Given
  | _, _, g, [] => .ok g
  | awaiting, true, g, arg :: args => do sort spec awaiting true (← takePath spec g arg) args
  | awaiting, false, g, arg :: args =>
    match formOf arg with
    | .pathsOnly => sort spec awaiting true g args
    | .long name value =>
      match spec.options.find? (·.name == name) with
      | none => .error .usage
      | some o =>
        match o.takes, value with
        | .nothing, _ => sort spec none false (g.note o) args
        | _, some v =>
          sort spec none false ((g.note o).addValues o (o.split (v.dropWhile (· == '=')))) args
        | _, none => sort spec (some o) false (g.note o) args
    | .short letter attached =>
      match spec.options.find? (·.letter == some letter) with
      | none => .error .usage
      | some o =>
        if attached.isEmpty then sort spec (some o) false (g.note o) args
        else
          let g := (g.note o).addValues o (o.split (attached.dropWhile (· == '=')))
          let awaiting := if o.takes = .many ∧ attached.head? ≠ some '=' then some o else none
          sort spec awaiting false g args
    | .plain =>
      match awaiting with
      | none => do sort spec none false (← takePath spec g arg) args
      | some o =>
        let v := arg.toList
        let awaiting := if o.takes = .many ∧ !v.contains ',' then some o else none
        sort spec awaiting false (g.addValues o (o.split v)) args

/-- Gives every option that has a standard value and no other the standard one. -/
def addStandard (spec : Spec) (g : Given) : Given :=
  spec.options.foldl
    (fun g o =>
      match o.standard with
      | some v => if (g.valuesOf o.name).isEmpty then g.addValues o [v.toList] else g
      | none => g)
    g

/-- What the arguments of a command give, with no conflict in it and the path
there if one is taken. -/
def Spec.read (spec : Spec) (args : List String) : Except Fault Given := do
  let g := addStandard spec (← sort spec none false {} args)
  if spec.conflicts.any fun (a, b) => g.has a && g.has b then .error .usage
  else if spec.takesPath ∧ g.path = none then .error .usage
  else return g

/-! ## Understanding values -/

/-- The values of an option, understood by `as`. An option that is given has
to have a value, and may be given twice only if it takes many. -/
def Given.all {α : Type} (g : Given) (o : OptionSpec) (as : List Char → Except String α) :
    Except Fault (List α) := do
  let vs := g.valuesOf o.name
  if g.has o.name ∧ o.takes ≠ .nothing ∧ vs.isEmpty then .error .usage
  else
    let found ← vs.mapM fun v =>
      match as v with
      | .ok a => .ok a
      | .error reason => .error (.badValue o.label reason)
    if 1 < g.times o.name ∧ o.takes ≠ .many then .error .usage else return found

/-- The one value of an option, if there is one. -/
def Given.one? {α : Type} (g : Given) (o : OptionSpec) (as : List Char → Except String α) :
    Except Fault (Option α) := do
  return (← g.all o as).head?

/-- The one value of an option that has a standard value. -/
def Given.one {α : Type} (g : Given) (o : OptionSpec) (as : List Char → Except String α) :
    Except Fault α := do
  match ← g.one? o as with
  | some a => return a
  | none => .error .usage

/-- The option is given, and not more than once. -/
def Given.flag (g : Given) (o : OptionSpec) : Except Fault Bool := do
  let _ ← g.all (α := Unit) o fun _ => .ok ()
  return g.has o.name

end SeededStreams.CommandLine
