-- The first registers: from one word, and from a key of any length.
import SeededStreams.Twister.Register

namespace SeededStreams.Twister.Register

/-! ## One word -/

/-- Word `i` of the register that a seed starts: the seed itself, then each
word from the one before it. -/
def seedWord (seed : Word) : Nat → Word
  | 0 => seed
  | i + 1 =>
    let before := seedWord seed i
    (6364136223846793005 : Word) * (before ^^^ (before >>> 62)) + UInt64.ofNat (i + 1)

/-- The register that a seed starts. -/
def ofSeed (seed : Word) : Register := Vector.ofFn fun i => seedWord seed i

/-! ## A key -/

/-- A register and the place in it that is stirred next. The place goes
round the words 1 to 311. -/
structure Stirring where
  words : Register
  place : Nat
  one_le_place : 1 ≤ place := by decide
  place_lt : place < 312 := by decide

namespace Stirring

/-- Moves to the next place. After the last word, word 0 becomes a copy of
it and the round starts again at word 1. -/
def move (s : Stirring) : Stirring :=
  if h : s.place + 1 < 312 then
    { words := s.words, place := s.place + 1, one_le_place := Nat.le_add_left 1 s.place, place_lt := h }
  else
    { words := s.words.set 0 s.words[311], place := 1 }

/-- Replaces the word at the place by `change` of it and of the folded word
before it, and moves on. -/
def stir (s : Stirring) (change : Word → Word → Word) : Stirring :=
  have : s.place < 312 := s.place_lt
  let before := s.words[s.place - 1]
  let word := change s.words[s.place] (before ^^^ (before >>> 62))
  move { s with words := s.words.set s.place word }

/-- One step of the first pass: a key word and its position are added. -/
def takeIn (s : Stirring) (key : Word) (position : Nat) : Stirring :=
  s.stir fun word folded => (word ^^^ (folded * 3935559000370003845)) + key + UInt64.ofNat position

/-- One step of the second pass: the place is subtracted. -/
def settle (s : Stirring) : Stirring :=
  s.stir fun word folded => (word ^^^ (folded * 2862933555777941757)) - UInt64.ofNat s.place

end Stirring

/-- The first pass while it runs: the position of the key word to be taken
in next goes round the key. -/
structure KeyPass (length : Nat) where
  stirring : Stirring
  position : Nat
  position_lt : position < length

/-- Takes in one key word. -/
def KeyPass.step (key : Array Word) (p : KeyPass key.size) : KeyPass key.size :=
  have := p.position_lt
  { stirring := p.stirring.takeIn key[p.position] p.position
    position := if p.position + 1 < key.size then p.position + 1 else 0
    position_lt := by split <;> omega }

/-- The register that a key starts. Each key word is taken in at least once
and each place is stirred at least once; after the second pass word 0 is
one bit that is set, so the register is never all zero. -/
def ofKey (key : Array Word) (nonempty : 0 < key.size) : Register :=
  let start : KeyPass key.size := ⟨{ words := ofSeed 19650218, place := 1 }, 0, nonempty⟩
  let taken := Nat.repeat (KeyPass.step key) (max 312 key.size) start
  let settled := Nat.repeat Stirring.settle 311 taken.stirring
  settled.words.set 0 0x8000000000000000

end SeededStreams.Twister.Register
