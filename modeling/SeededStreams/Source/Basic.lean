-- Sources: which generator is to be started, and from what seed.
import SeededStreams.Draw.Kind
import SeededStreams.Twister.Basic
import SeededStreams.Xoshiro.Basic

namespace SeededStreams

/-- Where a stream comes from. -/
inductive Source where
  /-- A twister from one word. -/
  | twisterSeed (seed : Word)
  /-- A twister from a key. -/
  | twisterKey (key : List Word)
  /-- The generator with four words of state, from its state. -/
  | xoshiroState (state : Xoshiro)
  /-- The generator with four words of state, from one word that is spread. -/
  | xoshiroSpread (seed : Word)
deriving DecidableEq

namespace Source

/-- The name of the generator that a source starts. -/
def algorithm : Source → String
  | twisterSeed _ | twisterKey _ => Twister.algorithm
  | xoshiroState _ | xoshiroSpread _ => Xoshiro.algorithm

/-- The generator gives draws of a kind. The twister gives all kinds, the
other one only words. -/
def supports : Source → Kind → Bool
  | twisterSeed _, _ | twisterKey _, _ => true
  | xoshiroState _, k | xoshiroSpread _, k => k == .u64

end Source

end SeededStreams
