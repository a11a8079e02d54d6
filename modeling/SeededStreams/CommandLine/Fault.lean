-- What can go wrong with a command.
import SeededStreams.Json.Fault
import SeededStreams.KnownAnswer.Basic
import SeededStreams.Stream.Json

namespace SeededStreams.CommandLine

/-- Why a file gives no text. -/
inductive FileFault where
  /-- There is no such file. -/
  | notFound
  /-- The bytes of the file are no text. -/
  | notText
  /-- Any other reason, in the words of the system. -/
  | other (reason : String)
deriving DecidableEq, Repr

/-- The text of a fault. -/
def FileFault.message : FileFault → String
  | notFound => "No such file or directory (os error 2)"
  | notText => "stream did not contain valid UTF-8"
  | other reason => reason

/-- Why a command fails. -/
inductive Fault where
  /-- The arguments do not fit the command. -/
  | usage
  /-- The value of an option is refused, for the reason given. -/
  | badValue (label reason : String)
  /-- Neither a state nor a seed is given. -/
  | noState
  /-- A state has another count of words than four. -/
  | stateCount (count : Nat)
  /-- A file cannot be read. -/
  | noText (path : String) (fault : FileFault)
  /-- A file does not hold a request. -/
  | noRequest (path : String) (fault : Json.Fault)
  /-- A request gives no stream. -/
  | noStream (fault : StreamFault)
  /-- Known answers are not met. -/
  | wrongAnswers (count : Nat)
deriving DecidableEq

/-- A text set in by four columns, each of its lines alike. -/
def setIn (s : String) : String :=
  String.ofList ("    ".toList ++ s.toList.flatMap fun c => if c = '\n' then "\n    ".toList else [c])

/-- A fault with the fault that caused it, which is set in. -/
def causedBy (fault cause : String) : String := fault ++ "\n\nCaused by:\n" ++ setIn cause

/-- The text of a fault. -/
def Fault.message : Fault → String
  | usage => "the arguments do not fit the command"
  | badValue label reason => "'" ++ label ++ "': " ++ reason
  | noState => "either --state or --splitmix is required"
  | stateCount count => "--state needs exactly 4 words, got " ++ count.repr
  | noText path fault => causedBy ("failed to read " ++ path) fault.message
  | noRequest path fault =>
    causedBy ("invalid stream config in " ++ path) (Request.faultMessage fault)
  | noStream fault => fault.message
  | wrongAnswers count => count.repr ++ " reference vector(s) failed"

end SeededStreams.CommandLine
