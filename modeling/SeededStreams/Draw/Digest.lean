-- The fingerprint of a list of draws. Reals count by their bits, so two
-- lists with one fingerprint are the same bit for bit.
import SeededStreams.Draw.Basic
import SeededStreams.Sha256

namespace SeededStreams

/-- The bytes as two lowercase hexadecimal digits each. -/
def hexText (bytes : List UInt8) : List Char :=
  bytes.flatMap fun b => [Nat.digitChar (b.toNat / 16), Nat.digitChar (b.toNat % 16)]

namespace Draw

/-- The bytes of all draws, one after the other. -/
def streamBytes (draws : List Draw) : List UInt8 := draws.flatMap bytes

/-- The fingerprint of a list of draws: the SHA-256 of their bytes. -/
def digest (draws : List Draw) : List Char := hexText (Sha256.hash (streamBytes draws))

end Draw

end SeededStreams
