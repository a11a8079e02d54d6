-- What a comparison finds: no difference when all draws that both lists have
-- are equal byte for byte.
import SeededStreams.KnownAnswer.Basic

namespace SeededStreams

/-- The fault of a comparison when another draw stands for the expected one. -/
def AnswerFault.mapExpected (f : Draw → Draw) : AnswerFault → AnswerFault
  | mismatch name index expected actual => mismatch name index (f expected) actual
  | fault => fault

namespace KnownAnswer

theorem firstDifference_eq_none_iff (index : Nat) (expected actual : List Draw) :
    firstDifference index expected actual = none ↔
      ∀ p ∈ expected.zip actual, p.1.bytes = p.2.bytes := by
  induction expected generalizing index actual with
  | nil => simp [firstDifference]
  | cons e expected ih =>
    cases actual with
    | nil => simp [firstDifference]
    | cons a actual =>
      unfold firstDifference
      rw [List.zip_cons_cons, List.forall_mem_cons]
      split
      · rename_i hbytes
        rw [ih]
        exact ⟨fun h => ⟨hbytes, h⟩, fun h => h.2⟩
      · rename_i hbytes
        exact ⟨fun h => (Option.some_ne_none _ h).elim, fun h => (hbytes h.1).elim⟩

theorem compare_eq_ok_iff (k : KnownAnswer) (actual : List Draw) :
    k.compare actual = .ok () ↔
      (∀ p ∈ k.expected.zip actual, p.1.bytes = p.2.bytes) ∧ k.expected.length ≤ actual.length := by
  rw [← firstDifference_eq_none_iff 0]
  unfold compare
  split
  · rename_i hdifference
    rw [hdifference]
    constructor
    · intro h
      cases h
    · rintro ⟨h, _⟩
      cases h
  · rename_i hnone
    rw [hnone]
    split
    · rename_i hshort
      constructor
      · intro h
        cases h
      · rintro ⟨_, hlong⟩
        exact absurd hlong (Nat.not_le.mpr hshort)
    · rename_i hlong
      exact ⟨fun _ => ⟨rfl, Nat.not_lt.mp hlong⟩, fun _ => rfl⟩

theorem verify_of_fault {k : KnownAnswer} {fault : StreamFault}
    (h : k.request.stream = .error fault) : k.verify = .error (.noStream fault) := by
  unfold verify
  rw [h]

theorem verify_of_stream {k : KnownAnswer} {draws : List Draw} (h : k.request.stream = .ok draws) :
    k.verify = k.compare draws := by
  unfold verify
  rw [h]

theorem verify_eq_ok_iff {k : KnownAnswer} {draws : List Draw} (h : k.request.stream = .ok draws) :
    k.verify = .ok () ↔
      (∀ p ∈ k.expected.zip draws, p.1.bytes = p.2.bytes) ∧ k.expected.length ≤ draws.length := by
  rw [verify_of_stream h]
  exact compare_eq_ok_iff k draws

/-! ## Other draws with the same bytes -/

section SameBytes

variable {f : Draw → Draw} (hf : ∀ d, (f d).bytes = d.bytes)

include hf

theorem firstDifference_map (index : Nat) (expected actual : List Draw) :
    firstDifference index (expected.map f) actual =
      (firstDifference index expected actual).map fun p => (p.1, f p.2.1, p.2.2) := by
  induction expected generalizing index actual with
  | nil => rfl
  | cons e expected ih =>
    cases actual with
    | nil => rfl
    | cons a actual =>
      rw [List.map_cons]
      unfold firstDifference
      rw [hf]
      split
      · exact ih (index + 1) actual
      · rfl

/-- A comparison only sees the bytes of the expected draws. -/
theorem compare_map (k : KnownAnswer) (actual : List Draw) :
    compare { k with expected := k.expected.map f } actual =
      (k.compare actual).mapError (AnswerFault.mapExpected f) := by
  unfold compare
  simp only [firstDifference_map hf, List.length_map]
  cases firstDifference 0 k.expected actual with
  | some difference => rfl
  | none =>
    simp only [Option.map_none]
    split <;> rfl

end SameBytes

end KnownAnswer

end SeededStreams
