-- What it means that a text is read: each part of a reader has read its part.
import SeededStreams.Json.Reader

namespace SeededStreams.Json

/-- Two steps that can fail succeed together when the first one does and the
second one does with its result. -/
theorem bind_eq_ok_iff {ε α β : Type} (x : Except ε α) (f : α → Except ε β) (b : β) :
    x >>= f = .ok b ↔ ∃ a, x = .ok a ∧ f a = .ok b := by
  cases x with
  | ok a =>
    constructor
    · intro h
      exact ⟨a, rfl, h⟩
    · rintro ⟨a', ha, h⟩
      cases ha
      exact h
  | error e =>
    constructor
    · intro h
      cases h
    · rintro ⟨a, ha, _⟩
      cases ha

/-- A whole text is read when its value is and nothing follows. -/
theorem parse_eq_ok_iff {α : Type} (reader : Reader α) (s : List Char) (x : α) :
    parse reader s = .ok x ↔
      ∃ rest, reader depthLimit s = .ok (x, rest) ∧ endOfText rest = .ok () := by
  unfold parse
  rw [bind_eq_ok_iff]
  constructor
  · rintro ⟨⟨y, rest⟩, hread, h⟩
    simp only [bind_eq_ok_iff] at h
    obtain ⟨_, hend, h⟩ := h
    cases h
    exact ⟨rest, hread, hend⟩
  · rintro ⟨rest, hread, hend⟩
    refine ⟨(x, rest), hread, ?_⟩
    simp only [hend]
    rfl

end SeededStreams.Json
