-- What can be wrong with the seed of a generator.

namespace SeededStreams

/-- Why seed material is refused. -/
inductive SeedFault where
  /-- Four zero words for the generator with four words of state. -/
  | zeroState
  /-- A key without a word. -/
  | emptyKey
deriving DecidableEq, Repr

/-- The text of a refusal. -/
def SeedFault.message : SeedFault → String
  | zeroState => "Invalid seed: xoshiro256** state must not be all zero"
  | emptyKey => "Invalid seed: MT19937-64 seed key must contain at least one word"

end SeededStreams
