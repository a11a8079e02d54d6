-- The generator with four words of state, xoshiro256**. The state of
-- four zero words repeats itself, so it is refused as a start.
import SeededStreams.SplitMix
import SeededStreams.Seed

namespace SeededStreams

/-- The four words of state. -/
structure Xoshiro where
  s0 : Word
  s1 : Word
  s2 : Word
  s3 : Word
deriving DecidableEq, Repr

namespace Xoshiro

/-- The name of the algorithm. -/
def algorithm : String := "xoshiro256starstar"

/-- The state of four zero words, which no step leaves. -/
def zero : Xoshiro := ⟨0, 0, 0, 0⟩

/-- The words of the state in order. -/
def words (x : Xoshiro) : List Word := [x.s0, x.s1, x.s2, x.s3]

/-- The word that a state shows. It hangs on the second word alone. -/
def output (x : Xoshiro) : Word := Word.rotateLeft (x.s1 * 5) 7 * 9

/-- The state after the next one. -/
def step (x : Xoshiro) : Xoshiro :=
  let s2 := x.s2 ^^^ x.s0
  let s3 := x.s3 ^^^ x.s1
  { s0 := x.s0 ^^^ s3
    s1 := x.s1 ^^^ s2
    s2 := s2 ^^^ (x.s1 <<< 17)
    s3 := Word.rotateLeft s3 45 }

/-- One draw: the word shown, and the state after it. -/
def next (x : Xoshiro) : Word × Xoshiro := (x.output, x.step)

/-- A start from four words, not all of them zero. -/
def ofState (x : Xoshiro) : Except SeedFault Xoshiro :=
  if x = zero then .error .zeroState else .ok x

/-- A start from one word, spread over the state by the scrambled counter. -/
def ofSplitMix (seed : Word) : Except SeedFault Xoshiro :=
  let (s0, c) := SplitMix.next seed
  let (s1, c) := SplitMix.next c
  let (s2, c) := SplitMix.next c
  let (s3, _) := SplitMix.next c
  ofState ⟨s0, s1, s2, s3⟩

end Xoshiro

end SeededStreams
