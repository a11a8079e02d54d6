-- Checkpoints: the whole state of a twister as plain data, and the checks
-- that such data has to pass to become a twister again.
import SeededStreams.Twister.Basic

namespace SeededStreams

/-- The state of a twister as plain data, of which nothing is promised. -/
structure Checkpoint where
  words : List Word
  index : Nat
  batches : Word
deriving DecidableEq, Repr

/-- Why a checkpoint is refused. -/
inductive CheckpointFault where
  /-- It holds another count of words than 312. -/
  | wordCount (count : Nat)
  /-- Its index is past the end of the register. -/
  | indexTooLarge (index : Nat)
  /-- All its words are zero. -/
  | allZero
deriving DecidableEq, Repr

/-- The text of a refusal. -/
def CheckpointFault.message : CheckpointFault → String
  | wordCount n => "Invalid snapshot: expected 312 state words, got " ++ n.repr
  | indexTooLarge i => "Invalid snapshot: index " ++ i.repr ++ " exceeds 312"
  | allZero => "Invalid snapshot: state words are all zero"

namespace Twister

/-- The state of a twister, written down. -/
def checkpoint (t : Twister) : Checkpoint := ⟨t.words.toList, t.index, t.batches⟩

/-- The twister that a checkpoint describes. The count of words is checked
first, then the index, then that some word is not zero. -/
def restore (c : Checkpoint) : Except CheckpointFault Twister :=
  if length : c.words.length = 312 then
    if bound : c.index ≤ 312 then
      if c.words.all (· == 0) then .error .allZero
      else .ok
        { words := ⟨c.words.toArray, length⟩, index := c.index, index_le := bound,
          batches := c.batches }
    else .error (.indexTooLarge c.index)
  else .error (.wordCount c.words.length)

end Twister

end SeededStreams
