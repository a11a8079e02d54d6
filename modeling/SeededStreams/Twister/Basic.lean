-- The twister, MT19937-64: a register, the place of the next word to give
-- out, and the count of batches. A batch is made only when a draw needs it.
import SeededStreams.Seed
import SeededStreams.Twister.Seeding

namespace SeededStreams

/-- The state of a twister. Index 312 means that the batch is used up. -/
structure Twister where
  words : Twister.Register
  index : Nat
  index_le : index ≤ 312 := by decide
  batches : Word
deriving DecidableEq

namespace Twister

/-- The name of the algorithm. -/
def algorithm : String := "mt19937_64"

/-- The seed of a twister that is given none. -/
def defaultSeed : Word := 5489

/-- A start from one word. -/
def ofSeed (seed : Word) : Twister := { words := Register.ofSeed seed, index := 312, batches := 0 }

/-- A start from a key, which has to hold a word. -/
def ofKey (key : List Word) : Except SeedFault Twister :=
  if h : 0 < key.toArray.size then
    .ok { words := Register.ofKey key.toArray h, index := 312, batches := 0 }
  else
    .error .emptyKey

/-- One draw. A used-up batch is replaced first. -/
def next (t : Twister) : Word × Twister :=
  if h : t.index < 312 then
    (temper t.words[t.index], { t with index := t.index + 1, index_le := h })
  else
    let words := t.words.regenerate
    (temper words[0], { words := words, index := 1, batches := t.batches + 1 })

end Twister

end SeededStreams
