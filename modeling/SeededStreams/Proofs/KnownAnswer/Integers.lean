-- Known answers of integers as texts. Whether a draw was signed is lost when it
-- is not negative, but its bytes are not, and a comparison sees only these.
import SeededStreams.Proofs.Draw.Integers
import SeededStreams.Proofs.KnownAnswer.Comparison
import SeededStreams.Proofs.KnownAnswer.Json

namespace SeededStreams.KnownAnswer

theorem reads_integers (room : Nat) {draws : List Draw} (h : ∀ d ∈ draws, d.isInteger = true) :
    List.Forall₂ (Json.Reads (Draw.read room)) (draws.map Draw.write) (draws.map Draw.told) := by
  rw [List.forall₂_map_left_iff, List.forall₂_map_right_iff, List.forall₂_same]
  exact fun d hd => Draw.reads_integer room (h d hd)

/-- A known answer of integers is read back from its text with its name, its
request and, at each position, a draw of the same 8 bytes: the same draw, or the
word of a signed integer that is not negative. So a comparison with any draws
comes out as it did: it finds no fault, or as few draws, or a difference at the
same position, of which only the expected draw may be called otherwise. -/
theorem integers_survive_reading (k : KnownAnswer) (hcount : k.request.count < UInt64.size)
    (hskip : k.request.skip < UInt64.size) (hintegers : ∀ d ∈ k.expected, d.isInteger = true) :
    ∃ k', Json.parse read k.write = .ok k' ∧ k'.name = k.name ∧ k'.request = k.request ∧
      k'.expected = k.expected.map Draw.told ∧
      k'.expected.map Draw.bytes = k.expected.map Draw.bytes ∧
      ∀ actual, k'.compare actual =
        (k.compare actual).mapError (AnswerFault.mapExpected Draw.told) := by
  have hreads := reads_write 123 hcount hskip (reads_integers 125 hintegers)
  refine ⟨_, Json.parse_of_reads hreads, rfl, rfl, rfl, ?_, compare_map Draw.bytes_told k⟩
  rw [List.map_map]
  exact List.map_congr_left fun d _ => d.bytes_told

/-- A known answer at the ends of both sorts of integer. -/
def integerEnds : KnownAnswer where
  name := "\"ends\" \\ of\nboth\x01 sorts é"
  request := { source := .xoshiroState ⟨1, 2, 3, 4⟩, kind := .i63, count := 5, skip := 7 }
  expected := [.signed Int64.minValue, .signed (-1), .signed 0, .signed Int64.maxValue,
    .word 0xffffffffffffffff]

/-- The ends are read back, and a comparison finds the same difference with the
draws of another sort. -/
theorem integer_ends_survive_reading :
    integerEnds.request.count < UInt64.size ∧ integerEnds.request.skip < UInt64.size ∧
    (∀ d ∈ integerEnds.expected, d.isInteger = true) ∧
    ∃ k', Json.parse read integerEnds.write = .ok k' ∧ k'.name = integerEnds.name ∧
      k'.request = integerEnds.request ∧
      k'.expected = [.signed Int64.minValue, .signed (-1), .word 0, .word 0x7fffffffffffffff,
        .word 0xffffffffffffffff] ∧
      integerEnds.compare [.word 0x8000000000000000, .word 0xffffffffffffffff, .word 1] =
        .error (.mismatch integerEnds.name 2 (.signed 0) (.word 1)) ∧
      k'.compare [.word 0x8000000000000000, .word 0xffffffffffffffff, .word 1] =
        .error (.mismatch integerEnds.name 2 (.word 0) (.word 1)) := by
  have hintegers : ∀ d ∈ integerEnds.expected, d.isInteger = true := by decide
  have hdifference :
      integerEnds.compare [.word 0x8000000000000000, .word 0xffffffffffffffff, .word 1] =
        .error (.mismatch integerEnds.name 2 (.signed 0) (.word 1)) := rfl
  obtain ⟨k', hread, hname, hrequest, hexpected, _, hcompare⟩ :=
    integers_survive_reading integerEnds (by decide) (by decide) hintegers
  refine ⟨by decide, by decide, hintegers, k', hread, hname, hrequest, hexpected, hdifference, ?_⟩
  rw [hcompare, hdifference]
  rfl

end SeededStreams.KnownAnswer
