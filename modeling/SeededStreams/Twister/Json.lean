-- The JSON form of checkpoints and twisters. They have the same form; a
-- twister is checked as a restored checkpoint is.
import SeededStreams.Json.Record
import SeededStreams.Json.Write
import SeededStreams.Twister.Checkpoint

namespace SeededStreams

namespace Checkpoint

/-- What is known of a checkpoint while it is read. -/
structure Draft where
  words : Option (List Word) := none
  index : Option Nat := none
  batches : Option Word := none

/-- The members of a checkpoint. Without a count of batches it is zero. -/
def shape : Json.Shape Draft Checkpoint where
  label := "struct MtSnapshot"
  slots :=
    [{ name := "words", optional := false, isFilled := (·.words.isSome)
       fill := fun d room s => do
         let (words, s) ← Json.listOf Json.word room s
         return ({ d with words := some words }, s) },
     { name := "index", optional := false, isFilled := (·.index.isSome)
       fill := fun d room s => do
         let (index, s) ← Json.size room s
         return ({ d with index := some index }, s) },
     { name := "batches", optional := true, isFilled := (·.batches.isSome)
       fill := fun d room s => do
         let (batches, s) ← Json.word room s
         return ({ d with batches := some batches }, s) }]
  start := {}
  finish := fun d => do
    let words ← Json.require "words" d.words
    let index ← Json.require "index" d.index
    return { words, index, batches := d.batches.getD 0 }

/-- Reads a checkpoint, of which nothing is promised. -/
def read : Json.Reader Checkpoint := shape.read

/-- The text of a checkpoint. -/
def write (c : Checkpoint) : List Char :=
  Json.writeObject
    [("words", Json.writeList (c.words.map Json.writeWord)),
     ("index", Json.writeNat c.index),
     ("batches", Json.writeWord c.batches)]

end Checkpoint

namespace Twister

/-- Reads a twister. -/
def read : Json.Reader Twister := fun room s => do
  let (c, s) ← Checkpoint.read room s
  match restore c with
  | .ok t => return (t, s)
  | .error e => .error (.refused e.message)

/-- The text of a twister. -/
def write (t : Twister) : List Char := t.checkpoint.write

end Twister

end SeededStreams
