-- The JSON form of known answers.
import SeededStreams.KnownAnswer.Basic
import SeededStreams.Stream.Json

namespace SeededStreams.KnownAnswer

/-- What is known of a known answer while it is read. -/
structure Draft where
  name : Option (List Char) := none
  request : Option Request := none
  expected : Option (List Draw) := none

/-- The members of a known answer. -/
def shape : Json.Shape Draft KnownAnswer where
  label := "struct ReferenceVector"
  slots :=
    [{ name := "name", optional := false, isFilled := (·.name.isSome)
       fill := fun d room s => do
         let (name, s) ← Json.string room s
         return ({ d with name := some name }, s) },
     { name := "stream", optional := false, isFilled := (·.request.isSome)
       fill := fun d room s => do
         let (request, s) ← Request.read room s
         return ({ d with request := some request }, s) },
     { name := "expected", optional := false, isFilled := (·.expected.isSome)
       fill := fun d room s => do
         let (expected, s) ← Json.listOf Draw.read room s
         return ({ d with expected := some expected }, s) }]
  start := {}
  finish := fun d => do
    let name ← Json.require "name" d.name
    let request ← Json.require "stream" d.request
    let expected ← Json.require "expected" d.expected
    return { name := String.ofList name, request, expected }

/-- Reads a known answer. -/
def read : Json.Reader KnownAnswer := shape.read

/-- The text of a known answer. -/
def write (k : KnownAnswer) : List Char :=
  Json.writeObject
    [("name", Json.Quoted.write k.name.toList),
     ("stream", k.request.write),
     ("expected", Draw.writeAll k.expected)]

end SeededStreams.KnownAnswer
