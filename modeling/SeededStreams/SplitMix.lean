-- A counter that is scrambled: it spreads one seed word over as many
-- words as a larger state needs.
import SeededStreams.Word

namespace SeededStreams.SplitMix

/-- What each step adds to the counter. It is odd, so the counter meets
every word before it comes back. -/
def increment : Word := 0x9E3779B97F4A7C15

/-- The output for a counter value. Each of its three rounds can be
undone, so different counters give different outputs. -/
def scramble (z : Word) : Word :=
  let z := (z ^^^ (z >>> 30)) * 0xBF58476D1CE4E5B9
  let z := (z ^^^ (z >>> 27)) * 0x94D049BB133111EB
  z ^^^ (z >>> 31)

/-- One step: the output, and the counter after it. -/
def next (counter : Word) : Word × Word :=
  let counter := counter + increment
  (scramble counter, counter)

end SeededStreams.SplitMix
