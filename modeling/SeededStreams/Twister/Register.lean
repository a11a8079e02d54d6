-- The register of the twister: 312 words, replaced a whole batch at a
-- time, and the two word functions that do the work.
import SeededStreams.Word

namespace SeededStreams.Twister

/-- The 312 words of state. -/
abbrev Register := Vector Word 312

/-- The upper 33 bits of a word. -/
def upperBits : Word := 0xFFFFFFFF80000000

/-- The lower 31 bits of a word. -/
def lowerBits : Word := 0x7FFFFFFF

/-- What is xored in when the bit that leaves at the bottom is set. -/
def feedback : Word := 0xB5026F5AA96619E9

/-- Joins the upper 33 bits of `u` and the lower 31 bits of `l`, and moves
them down by one place; the feedback goes in when the last bit was set. -/
def mix (u l : Word) : Word :=
  (((u &&& upperBits) ||| (l &&& lowerBits)) >>> 1) ^^^ ((l &&& 1) * feedback)

/-- The draw that a word of the register gives. -/
def temper (x : Word) : Word :=
  let x := x ^^^ ((x >>> 29) &&& 0x5555555555555555)
  let x := x ^^^ ((x <<< 17) &&& 0x71D67FFFEDA60000)
  let x := x ^^^ ((x <<< 37) &&& 0xFFF7EEE000000000)
  x ^^^ (x >>> 43)

namespace Register

/-- One pair of updates: word `i` of the low half reads the old word of the
high half, and word `i` of the high half reads the new word of the low half. -/
def pairStep (w : Register) (i : Fin 155) : Register :=
  let w := w.set i (w[i.val + 156] ^^^ mix w[i.val] w[i.val + 1])
  w.set (i + 156) (w[i.val] ^^^ mix w[i.val + 156] w[i.val + 157])

/-- The next batch. The two halves advance together; the last word of each
half has its neighbour in the other half and is done after the others, the
low one with the neighbour as it was before the batch. -/
def regenerate (w : Register) : Register :=
  let middle := w[156]
  let w := Fin.foldl 155 pairStep w
  let w := w.set 155 (w[311] ^^^ mix w[155] middle)
  w.set 311 (w[155] ^^^ mix w[311] w[0])

end Register

end SeededStreams.Twister
