-- Two ways to compare two streams: draw by draw, and by their fingerprints. What is
-- hashed is the same exactly when a comparison finds no fault between streams of one
-- length. So the fingerprints of two such streams are the same, whatever the hash is,
-- and those of all others differ but where the hash collides.
import Mathlib.Data.List.Forall2
import SeededStreams.Proofs.Draw.Digest
import SeededStreams.Proofs.KnownAnswer.Comparison

namespace SeededStreams.KnownAnswer

variable {k : KnownAnswer} {actual : List Draw}

/-- A comparison of lists of one length finds no fault when their draws have the same
bytes one by one. -/
theorem map_bytes_eq_iff :
    k.expected.map Draw.bytes = actual.map Draw.bytes ↔
      k.expected.length = actual.length ∧ k.compare actual = .ok () := by
  rw [compare_eq_ok_iff, ← List.forall₂_eq_eq_eq, List.forall₂_map_left_iff,
    List.forall₂_map_right_iff, List.forall₂_iff_zip]
  constructor
  · rintro ⟨hlength, hbytes⟩
    exact ⟨hlength, fun p hp => hbytes hp, Nat.le_of_eq hlength⟩
  · rintro ⟨hlength, hbytes, _⟩
    exact ⟨hlength, fun hp => hbytes _ hp⟩

theorem streamBytes_expected_eq_iff :
    Draw.streamBytes k.expected = Draw.streamBytes actual ↔
      k.expected.length = actual.length ∧ k.compare actual = .ok () :=
  (Draw.streamBytes_eq_iff _ _).trans map_bytes_eq_iff

/-! ## The law -/

/-- A fingerprint is the lowercase text of the hash of the bytes of all draws, eight for
each draw, one after the other. The bytes of a draw are the digits of its number to base
256, the lowest first, and two draws have the same bytes exactly when they have the same
bits. The bytes of two lists of draws are the same exactly when the lists have one length
and a comparison of them finds no fault. Then they have one fingerprint by every hash;
and other lists have one only where two different lists of bytes have one hash. -/
theorem fingerprints_agree_with_comparisons (k : KnownAnswer) (actual : List Draw) :
    (∀ draws, Draw.digest draws = Draw.digestBy Sha256.hash draws) ∧
    (∀ hash draws, SpellsHex (hash (draws.flatMap Draw.bytes)) (Draw.digestBy hash draws)) ∧
    (∀ d : Draw, d.bytes.length = 8 ∧ Nat.ofDigits 256 (d.bytes.map UInt8.toNat) = d.code) ∧
    (∀ a b : Draw, a.bytes = b.bytes ↔ a.bits = b.bits) ∧
    (Draw.streamBytes k.expected = Draw.streamBytes actual ↔
      k.expected.length = actual.length ∧ k.compare actual = .ok ()) ∧
    ∀ hash,
      (k.expected.length = actual.length → k.compare actual = .ok () →
        Draw.digestBy hash k.expected = Draw.digestBy hash actual) ∧
      (¬ (k.expected.length = actual.length ∧ k.compare actual = .ok ()) →
        Draw.digestBy hash k.expected = Draw.digestBy hash actual →
        Draw.streamBytes k.expected ≠ Draw.streamBytes actual ∧
          hash (Draw.streamBytes k.expected) = hash (Draw.streamBytes actual)) := by
  refine ⟨Draw.digest_eq_digestBy, fun hash draws => hexText_spells _,
    fun d => ⟨d.length_bytes, d.ofDigits_bytes⟩, Draw.bytes_eq_iff, streamBytes_expected_eq_iff,
    fun hash => ⟨?_, ?_⟩⟩
  · intro hlength hcompare
    have hbytes := streamBytes_expected_eq_iff.mpr ⟨hlength, hcompare⟩
    rw [Draw.digestBy_eq_iff, hbytes]
  · intro hrefused hdigest
    refine ⟨?_, Draw.digestBy_eq_iff.mp hdigest⟩
    intro hbytes
    exact hrefused (streamBytes_expected_eq_iff.mp hbytes)

/-- One and one half. -/
def oneAndHalf : KnownAnswer where
  name := "one and one half"
  request := { source := .twisterSeed 1, count := 2 }
  expected := [.word 1, .real ⟨0x3fe0000000000000⟩]

/-- The law at draws of other sorts with the same bits, and at a hash of the first eight
bytes, by which a list that lacks a draw has the same fingerprint. -/
theorem a_hash_of_eight_bytes_collides :
    (oneAndHalf.expected.length = 2 ∧
      oneAndHalf.compare [.signed 1, .word 0x3fe0000000000000] = .ok () ∧
      Draw.digestBy Sha256.hash oneAndHalf.expected =
        Draw.digestBy Sha256.hash [.signed 1, .word 0x3fe0000000000000]) ∧
    (¬ (oneAndHalf.expected.length = 1 ∧ oneAndHalf.compare [.word 1] = .ok ()) ∧
      Draw.digestBy (List.take 8) oneAndHalf.expected = Draw.digestBy (List.take 8) [.word 1] ∧
      Draw.streamBytes oneAndHalf.expected ≠ Draw.streamBytes [.word 1] ∧
      (Draw.streamBytes oneAndHalf.expected).take 8 = (Draw.streamBytes [.word 1]).take 8) := by
  obtain ⟨_, _, _, _, _, hsame⟩ := fingerprints_agree_with_comparisons oneAndHalf
    [.signed 1, .word 0x3fe0000000000000]
  obtain ⟨_, _, _, _, _, hother⟩ := fingerprints_agree_with_comparisons oneAndHalf [.word 1]
  have hcompare : oneAndHalf.compare [.signed 1, .word 0x3fe0000000000000] = .ok () := rfl
  have hshort : ¬ (oneAndHalf.expected.length = 1 ∧ oneAndHalf.compare [.word 1] = .ok ()) := by
    decide
  have hdigest : Draw.digestBy (List.take 8) oneAndHalf.expected =
      Draw.digestBy (List.take 8) [.word 1] := by decide
  obtain ⟨hbytes, hcollide⟩ := (hother (List.take 8)).2 hshort hdigest
  exact ⟨⟨rfl, hcompare, (hsame Sha256.hash).1 rfl hcompare⟩, hshort, hdigest, hbytes, hcollide⟩

end SeededStreams.KnownAnswer
