-- Known answers: a request together with the draws that it has to give.
import SeededStreams.Stream.Basic

namespace SeededStreams

/-- A stream with a name and the draws that are known to be right. -/
structure KnownAnswer where
  name : String
  request : Request
  expected : List Draw

/-- Why draws are not the known answer. -/
inductive AnswerFault where
  /-- There is no stream to compare. -/
  | noStream (fault : StreamFault)
  /-- The draws at a position differ. -/
  | mismatch (name : String) (index : Nat) (expected actual : Draw)
  /-- There are too few draws. -/
  | truncated (name : String) (expected actual : Nat)
deriving DecidableEq

/-- The text of a fault. -/
def AnswerFault.message : AnswerFault → String
  | noStream fault => fault.message
  | mismatch name index expected actual =>
    "Vector '" ++ name ++ "' mismatch at draw " ++ index.repr ++ ": expected " ++
      String.ofList expected.text ++ ", got " ++ String.ofList actual.text
  | truncated name expected actual =>
    "Vector '" ++ name ++ "' truncated: expected " ++ expected.repr ++ " draws, got " ++ actual.repr

namespace KnownAnswer

/-- A known answer of words. As many are asked for as are expected. -/
def ofWords (name : String) (source : Source) (skip : Nat) (expected : List Word) : KnownAnswer :=
  { name, request := { source, count := expected.length, skip }, expected := expected.map .word }

/-- The first position, counted from `index`, at which two lists both have a
draw and the bytes of the draws differ. -/
def firstDifference : (index : Nat) → List Draw → List Draw → Option (Nat × Draw × Draw)
  | index, e :: es, a :: as =>
    if e.bytes = a.bytes then firstDifference (index + 1) es as else some (index, e, a)
  | _, _, _ => none

/-- Compares draws with the expected ones. The first difference counts, then
a lack of draws; more draws than are expected do no harm. -/
def compare (k : KnownAnswer) (actual : List Draw) : Except AnswerFault Unit :=
  match firstDifference 0 k.expected actual with
  | some (index, e, a) => .error (.mismatch k.name index e a)
  | none =>
    if actual.length < k.expected.length then
      .error (.truncated k.name k.expected.length actual.length)
    else .ok ()

/-- Makes the stream and compares it. -/
def verify (k : KnownAnswer) : Except AnswerFault Unit :=
  match k.request.stream with
  | .error e => .error (.noStream e)
  | .ok actual => k.compare actual

end KnownAnswer

end SeededStreams
