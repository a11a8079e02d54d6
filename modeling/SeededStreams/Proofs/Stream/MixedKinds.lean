-- Draws of mixed kinds from one generator. A kind that it does not give is refused at
-- every point of a run, and the generator is left as it was; so the draws of the run,
-- and where it ends, are those of the run in which only the other kinds are asked for.
import SeededStreams.Proofs.Stream.Draws

namespace SeededStreams.Generator

/-! ## Runs of requests -/

/-- The answers to requests for one draw each, in order, and the generator after them. -/
def askEach : List Kind → Generator → List (Except StreamFault Draw) × Generator
  | [], g => ([], g)
  | kind :: kinds, g =>
    let (answer, after) := g.ask kind
    let (answers, last) := askEach kinds after
    (answer :: answers, last)

/-- The draws among answers. -/
def granted (answers : List (Except StreamFault Draw)) : List Draw :=
  answers.filterMap Except.toOption

/-! ## One request -/

variable {g : Generator} {kind : Kind}

/-- A kind that is not given is refused by the name of the generator, which takes no word. -/
theorem ask_of_not_supports (h : g.supports kind = false) :
    g.ask kind = (.error (.unsupported g.algorithm kind), g) := by
  cases g with
  | twister t => cases h
  | xoshiro x =>
    cases kind with
    | u64 => cases h
    | _ => rfl

theorem ask_eq_error_iff {fault : StreamFault} :
    (g.ask kind).1 = .error fault ↔
      g.supports kind = false ∧ fault = .unsupported g.algorithm kind := by
  cases h : g.supports kind with
  | false => simp [ask_of_not_supports h, eq_comm]
  | true => simp [ask_of_supports h]

theorem algorithm_next : g.next.2.algorithm = g.algorithm := by
  cases g with
  | twister t => rfl
  | xoshiro x => rfl

theorem algorithm_advance (n : Nat) : (Steps.advance next n g).algorithm = g.algorithm :=
  Steps.advance_keeps algorithm (fun _ => algorithm_next) n g

theorem algorithm_ofSource {source : Source} (h : ofSource source = .ok g) :
    g.algorithm = source.algorithm := by
  cases source
  case twisterSeed =>
    cases h
    rfl
  -- The other seeds are checked before there is a generator.
  all_goals
    obtain ⟨_, _, hmade⟩ := (Json.bind_eq_ok_iff _ _ _).mp h
    cases hmade
    rfl

theorem supports_of_next (g : Generator) : g.next.2.supports = g.supports :=
  funext fun _ => supports_next

/-! ## A run -/

theorem askEach_cons_of_supports (h : g.supports kind = true) (kinds : List Kind) :
    askEach (kind :: kinds) g =
      (.ok (kind.draw g.next.1) :: (askEach kinds g.next.2).1, (askEach kinds g.next.2).2) := by
  simp only [askEach, ask_of_supports h]

theorem askEach_cons_of_not_supports (h : g.supports kind = false) (kinds : List Kind) :
    askEach (kind :: kinds) g =
      (.error (.unsupported g.algorithm kind) :: (askEach kinds g).1, (askEach kinds g).2) := by
  simp only [askEach, ask_of_not_supports h]

/-- A run takes one word for each request that is granted. -/
theorem askEach_state (kinds : List Kind) (g : Generator) :
    (askEach kinds g).2 = Steps.advance next (kinds.countP g.supports) g := by
  induction kinds generalizing g with
  | nil => rfl
  | cons kind kinds ih =>
    cases h : g.supports kind with
    | true =>
      rw [askEach_cons_of_supports h, List.countP_cons_of_pos h, ih, supports_of_next]
      rfl
    | false =>
      rw [askEach_cons_of_not_supports h, List.countP_cons_of_neg (by simp [h])]
      exact ih g

/-- Without the refused requests, a run gives the same draws and ends in the same generator. -/
theorem askEach_filter (kinds : List Kind) (g : Generator) :
    askEach (kinds.filter g.supports) g =
      ((granted (askEach kinds g).1).map .ok, (askEach kinds g).2) := by
  induction kinds generalizing g with
  | nil => rfl
  | cons kind kinds ih =>
    cases h : g.supports kind with
    | true =>
      have hrest := ih g.next.2
      rw [supports_of_next] at hrest
      rw [List.filter_cons_of_pos h, askEach_cons_of_supports h, askEach_cons_of_supports h, hrest]
      rfl
    | false =>
      rw [List.filter_cons_of_neg (by simp [h]), askEach_cons_of_not_supports h]
      exact ih g

/-! ## The law -/

/-- At every point of a run the generator of a source refuses the kinds that the source
does not give, under the name of the algorithm, and no others. And a refusal leaves no
trace: the run in which only the other kinds are asked for is granted every draw, these
are the draws of the whole run, and it ends in the same generator. -/
theorem refused_requests_leave_no_trace {source : Source} {g : Generator}
    (h : ofSource source = .ok g) :
    (∀ (before : List Kind) (kind : Kind) (fault : StreamFault),
      ((askEach before g).2.ask kind).1 = .error fault ↔
        source.supports kind = false ∧ fault = .unsupported source.algorithm kind) ∧
    (∀ kinds : List Kind, askEach (kinds.filter source.supports) g =
      ((granted (askEach kinds g).1).map .ok, (askEach kinds g).2)) := by
  have hsupports : g.supports = source.supports := funext fun _ => supports_ofSource h
  constructor
  · intro before kind fault
    rw [ask_eq_error_iff, askEach_state, supports_advance, algorithm_advance,
      algorithm_ofSource h, hsupports]
  · intro kinds
    rw [← hsupports]
    exact askEach_filter kinds g

/-- Two words, and between them a signed number and a real. -/
def wordsAround : List Kind := [.u64, .i63, .realOpen, .u64]

/-- The law at a state of four words, where only the two words are granted. -/
theorem words_around_refused_kinds :
    ofSource (.xoshiroState ⟨1, 2, 3, 4⟩) = .ok (.xoshiro ⟨1, 2, 3, 4⟩) ∧
    ((askEach [.u64, .i63] (.xoshiro ⟨1, 2, 3, 4⟩)).2.ask .realOpen).1 =
      .error (.unsupported Xoshiro.algorithm .realOpen) ∧
    askEach [.u64, .u64] (.xoshiro ⟨1, 2, 3, 4⟩) =
      ((granted (askEach wordsAround (.xoshiro ⟨1, 2, 3, 4⟩)).1).map .ok,
        (askEach wordsAround (.xoshiro ⟨1, 2, 3, 4⟩)).2) ∧
    granted (askEach wordsAround (.xoshiro ⟨1, 2, 3, 4⟩)).1 = [.word 11520, .word 0] := by
  have hsource : ofSource (.xoshiroState ⟨1, 2, 3, 4⟩) = .ok (.xoshiro ⟨1, 2, 3, 4⟩) := rfl
  obtain ⟨hrefused, hgranted⟩ := refused_requests_leave_no_trace hsource
  exact ⟨hsource, (hrefused _ _ _).mpr ⟨rfl, rfl⟩, hgranted wordsAround, by decide⟩

end SeededStreams.Generator
