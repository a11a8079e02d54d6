-- The kinds of draw. Every kind takes one word of a generator and turns it
-- into a value.
import SeededStreams.Draw.Basic

namespace SeededStreams

/-- What is made of each word. -/
inductive Kind where
  /-- The word itself. -/
  | u64
  /-- The upper 63 bits, as a number that is not negative. -/
  | i63
  /-- A real from 0 to 1. -/
  | realClosed
  /-- A real from 0 to below 1. -/
  | realHalfOpen
  /-- A real above 0 and below 1. -/
  | realOpen
deriving DecidableEq, Repr

namespace Kind

/-- All kinds, in the order in which they are listed. -/
def all : List Kind := [u64, i63, realClosed, realHalfOpen, realOpen]

/-- The name of a kind. -/
def name : Kind → String
  | u64 => "u64"
  | i63 => "i63"
  | realClosed => "real_closed01"
  | realHalfOpen => "real_half_open01"
  | realOpen => "real_open01"

/-- The kind with a name. -/
def ofName? (s : String) : Option Kind := all.find? (·.name == s)

/-- What is said of a name that no kind has. -/
def unknownMessage (s : String) : String := "unknown draw kind '" ++ s ++ "'"

/-! ## Reals from words -/

/-- The number nearest to 1 / (2^53 - 1). It is a little above it. -/
def closedUnit : Binary64 := (Binary64.ofNat 1).quotient (Binary64.ofNat 9007199254740991)

/-- The number 1 / 2^53. -/
def halfOpenUnit : Binary64 := (Binary64.ofNat 1).quotient (Binary64.ofNat 9007199254740992)

/-- The number 1 / 2^52. -/
def openUnit : Binary64 := (Binary64.ofNat 1).quotient (Binary64.ofNat 4503599627370496)

/-- The number 1 / 2. -/
def half : Binary64 := (Binary64.ofNat 1).quotient (Binary64.ofNat 2)

/-- The upper 53 bits times the closed unit. -/
def closedReal (w : Word) : Binary64 := (Binary64.ofNat (w >>> 11).toNat).product closedUnit

/-- The upper 53 bits times 1 / 2^53. -/
def halfOpenReal (w : Word) : Binary64 := (Binary64.ofNat (w >>> 11).toNat).product halfOpenUnit

/-- The upper 52 bits and a half, times 1 / 2^52. -/
def openReal (w : Word) : Binary64 :=
  ((Binary64.ofNat (w >>> 12).toNat).sum half).product openUnit

/-- The draw of a kind that a word gives. -/
def draw (k : Kind) (w : Word) : Draw :=
  match k with
  | u64 => .word w
  | i63 => .signed (w >>> 1).toInt64
  | realClosed => .real (closedReal w)
  | realHalfOpen => .real (halfOpenReal w)
  | realOpen => .real (openReal w)

end Kind

end SeededStreams
