-- Runs of xoshiro256** that are put aside as texts and taken up again. A started
-- generator is one with a word that is not zero, and it stays one in any run; so
-- its text is accepted at every point, and the text holds the whole of it.
import SeededStreams.Proofs.Json.Records
import SeededStreams.Proofs.Xoshiro.Spread
import SeededStreams.Xoshiro.Json

namespace SeededStreams.Xoshiro

/-! ## Generators as texts -/

theorem readState_write (room : Nat) (x : Xoshiro) (rest : List Char) :
    readState (room + 1) (x.write ++ rest) = .ok (x, rest) := by
  have hwords : Json.exactly label (Json.word room) 4 0
      (Json.commas (x.words.map Json.writeWord) ++ ']' :: rest) = .ok (x.words, rest) :=
    Json.exactly_commas (Json.forall₂_map (Json.reads_word room) x.words) label rest
  unfold write Json.writeList
  rw [List.cons_append, List.append_assoc, List.singleton_append]
  exact (Json.bind_eq_ok_iff _ _ _).mpr ⟨(x.words, rest), hwords, rfl⟩

/-- What is read has passed the check of a start from four words. -/
theorem read_eq_ok_iff (room : Nat) (s rest : List Char) (x : Xoshiro) :
    read room s = .ok (x, rest) ↔ readState room s = .ok (x, rest) ∧ x ≠ zero := by
  unfold read
  rw [Json.bind_eq_ok_iff]
  constructor
  · rintro ⟨⟨y, after⟩, hread, h⟩
    simp only at h
    split at h
    · rename_i hstate
      cases h
      obtain ⟨rfl, hne⟩ := (ofState_eq_ok_iff _ _).mp hstate
      exact ⟨hread, hne⟩
    · cases h
  · rintro ⟨hread, hne⟩
    refine ⟨(x, rest), hread, ?_⟩
    simp only [(ofState_eq_ok_iff x x).mpr ⟨rfl, hne⟩]
    rfl

theorem parse_write {x : Xoshiro} (h : x ≠ zero) : Json.parse read x.write = .ok x := by
  have hstate := readState_write 126 x []
  rw [List.append_nil] at hstate
  exact (Json.parse_eq_ok_iff read x.write x).mpr
    ⟨[], (read_eq_ok_iff _ _ _ _).mpr ⟨hstate, h⟩, rfl⟩

/-! ## Started generators -/

/-- The generators that can be had: from four words, from one word that is
spread over them, and from a text. -/
inductive Started : Xoshiro → Prop where
  | ofState {s x : Xoshiro} : ofState s = .ok x → Started x
  | ofSplitMix {seed : Word} {x : Xoshiro} : ofSplitMix seed = .ok x → Started x
  | read {text : List Char} {x : Xoshiro} : Json.parse read text = .ok x → Started x

theorem started_iff (x : Xoshiro) : Started x ↔ x ≠ zero := by
  constructor
  · intro h
    cases h with
    | ofState h => exact ((ofState_eq_ok_iff _ x).mp h).2
    | @ofSplitMix seed _ h =>
      rw [ofSplitMix_eq] at h
      cases h
      exact spread_ne_zero seed
    | read h =>
      obtain ⟨_, hread, _⟩ := (Json.parse_eq_ok_iff _ _ _).mp h
      exact ((read_eq_ok_iff _ _ _ _).mp hread).2
  · intro h
    exact .ofState ((ofState_eq_ok_iff x x).mpr ⟨rfl, h⟩)

/-- A started generator is one again after any count of draws. -/
theorem Started.advance {x : Xoshiro} (h : Started x) (n : Nat) :
    Started (Steps.advance next n x) :=
  (started_iff _).mpr (advance_ne_zero ((started_iff x).mp h) n)

/-! ## Runs with pauses -/

/-- What happens to a generator: a draw is taken, or it is written as a text and
read back. -/
inductive Event where
  | draw
  | pause
deriving DecidableEq

/-- The draws of a run and the generator at its end, if no text is refused. -/
def run : List Event → Xoshiro → Except Json.Fault (List Word × Xoshiro)
  | [], x => .ok ([], x)
  | .draw :: events, x => do
    let (draws, last) ← run events x.next.2
    return (x.next.1 :: draws, last)
  | .pause :: events, x => do run events (← Json.parse read x.write)

/-- Only the count of the draws tells what a run gives. -/
theorem run_of_started {x : Xoshiro} (h : Started x) (events : List Event) :
    run events x = .ok (Steps.collect next (events.count .draw) x) := by
  induction events generalizing x with
  | nil => rfl
  | cons event events ih =>
    cases event with
    | draw =>
      have hnext : Started x.next.2 := h.advance 1
      rw [run, ih hnext, List.count_cons_self, Steps.collect_succ]
      rfl
    | pause =>
      rw [run, parse_write ((started_iff x).mp h), List.count_cons_of_ne (by decide)]
      exact ih h

/-! ## The law -/

/-- A started generator never comes to four zero words; at every point of a run
its text is read back as the generator that was written; and a run with pauses
anywhere gives the draws, and ends in the state, of the run without them. Two
started generators that differ never meet. -/
theorem runs_neither_collapse_nor_meet :
    (∀ x, Started x →
      (∀ n, Steps.advance next n x ≠ zero ∧
        Json.parse read (Steps.advance next n x).write = .ok (Steps.advance next n x)) ∧
      ∀ events, run events x = .ok (Steps.collect next (events.count .draw) x)) ∧
    (∀ x y, Started x → Started y → x ≠ y → ∀ n,
      Steps.advance next n x ≠ Steps.advance next n y) := by
  refine ⟨fun x hx => ⟨?_, run_of_started hx⟩, ?_⟩
  · intro n
    have hlater := (started_iff _).mp (hx.advance n)
    exact ⟨hlater, parse_write hlater⟩
  · intro x y _ _ hne n h
    exact hne (advance_injective n h)

/-- The law at a generator that is read from a text and at one that is spread
from the seed 0, in a run with a pause before and behind a draw. -/
theorem a_read_and_a_spread_run_stay_apart :
    Started ⟨1, 0, 0, 0⟩ ∧ Started (spread 0) ∧ (⟨1, 0, 0, 0⟩ : Xoshiro) ≠ spread 0 ∧
    run [.pause, .draw, .pause, .draw] ⟨1, 0, 0, 0⟩ = .ok (Steps.collect next 2 ⟨1, 0, 0, 0⟩) ∧
    Steps.advance next 1000 ⟨1, 0, 0, 0⟩ ≠ zero ∧
    Steps.advance next 1000 ⟨1, 0, 0, 0⟩ ≠ Steps.advance next 1000 (spread 0) := by
  have hread : Started ⟨1, 0, 0, 0⟩ := .read (parse_write (by decide))
  have hspread : Started (spread 0) := .ofSplitMix (ofSplitMix_eq 0)
  have hne : (⟨1, 0, 0, 0⟩ : Xoshiro) ≠ spread 0 := by decide
  obtain ⟨hkept, hapart⟩ := runs_neither_collapse_nor_meet
  obtain ⟨hlater, hruns⟩ := hkept _ hread
  exact ⟨hread, hspread, hne, hruns _, (hlater 1000).1, hapart _ _ hread hspread hne 1000⟩

end SeededStreams.Xoshiro
