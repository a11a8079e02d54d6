-- The known answers that come with the program.
import SeededStreams.KnownAnswer.Basic

namespace SeededStreams.KnownAnswer

/-- The twister from a key of four words. -/
def twisterKey : KnownAnswer :=
  ofWords "mt19937_64 init_by_array64" (.twisterKey [0x12345, 0x23456, 0x34567, 0x45678]) 0
    [7266447313870364031, 4946485549665804864, 16945909448695747420, 16394063075524226720,
     4873882236456199058, 14877448043947020171, 6740343660852211943, 13857871200353263164,
     5249110015610582907, 10205081126064480383]

/-- The twister from its default seed. -/
def twisterSeed : KnownAnswer :=
  ofWords "mt19937_64 seed 5489" (.twisterSeed Twister.defaultSeed) 0
    [14514284786278117030, 4620546740167642908, 13109570281517897720, 17462938647148434322,
     355488278567739596]

/-- The 10000th draw of the twister from its default seed. -/
def twisterLate : KnownAnswer :=
  ofWords "mt19937_64 seed 5489 draw 10000" (.twisterSeed Twister.defaultSeed) 9999
    [9981545732273789042]

/-- The generator with four words of state, from a small state. -/
def xoshiroSmall : KnownAnswer :=
  ofWords "xoshiro256starstar [1, 2, 3, 4]" (.xoshiroState ⟨1, 2, 3, 4⟩) 0
    [11520, 0, 1509978240, 1215971899390074240, 1216172134540287360, 607988272756665600,
     16172922978634559625, 8476171486693032832, 10595114339597558777, 2904607092377533576]

/-- All known answers, in the order in which they are checked. -/
def published : List KnownAnswer := [twisterKey, twisterSeed, twisterLate, xoshiroSmall]

end SeededStreams.KnownAnswer
