-- The JSON form of requests.
import SeededStreams.Draw.Json
import SeededStreams.Json.Record
import SeededStreams.Source.Json
import SeededStreams.Stream.Basic

namespace SeededStreams.Request

/-- What is known of a request while it is read. -/
structure Draft where
  source : Option Source := none
  kind : Option Kind := none
  count : Option Nat := none
  skip : Option Nat := none

/-- The members of a request. Without a kind the draws are words, and without
a count to skip none are dropped. -/
def shape : Json.Shape Draft Request where
  label := "struct StreamConfig"
  slots :=
    [{ name := "generator", optional := false, isFilled := (·.source.isSome)
       fill := fun d room s => do
         let (source, s) ← Source.read room s
         return ({ d with source := some source }, s) },
     { name := "draw", optional := true, isFilled := (·.kind.isSome)
       fill := fun d room s => do
         let (kind, s) ← Kind.read room s
         return ({ d with kind := some kind }, s) },
     { name := "count", optional := false, isFilled := (·.count.isSome)
       fill := fun d room s => do
         let (count, s) ← Json.size room s
         return ({ d with count := some count }, s) },
     { name := "skip", optional := true, isFilled := (·.skip.isSome)
       fill := fun d room s => do
         let (skip, s) ← Json.size room s
         return ({ d with skip := some skip }, s) }]
  start := {}
  finish := fun d => do
    let source ← Json.require "generator" d.source
    let count ← Json.require "count" d.count
    return { source, kind := d.kind.getD .u64, count, skip := d.skip.getD 0 }

/-- Reads a request. -/
def read : Json.Reader Request := shape.read

/-- The text of a request. -/
def write (r : Request) : List Char :=
  Json.writeObject
    [("generator", r.source.write),
     ("draw", r.kind.write),
     ("count", Json.writeNat r.count),
     ("skip", Json.writeNat r.skip)]

/-- What is said of a text that is no request. -/
def faultMessage (e : Json.Fault) : String := "Serialization error: " ++ e.message

end SeededStreams.Request
