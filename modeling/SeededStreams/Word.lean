-- Words of 64 bits, on which both generators work. All arithmetic on
-- them is modulo 2^64.

namespace SeededStreams

/-- A word of 64 bits. -/
abbrev Word := UInt64

namespace Word

/-- Turns a word to the left by `k` places: what leaves at the top comes
back at the bottom. -/
def rotateLeft (x : Word) (k : Word) : Word := (x <<< k) ||| (x >>> (64 - k))

/-- The eight bytes of a word, the lowest first. -/
def bytes (x : Word) : List UInt8 :=
  [x.toUInt8, (x >>> 8).toUInt8, (x >>> 16).toUInt8, (x >>> 24).toUInt8,
    (x >>> 32).toUInt8, (x >>> 40).toUInt8, (x >>> 48).toUInt8, (x >>> 56).toUInt8]

end Word

end SeededStreams
