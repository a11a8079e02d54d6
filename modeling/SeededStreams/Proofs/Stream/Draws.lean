-- What a stream is made of. Every draw takes exactly one word of the generator,
-- whatever its kind, so a stream is a piece of the generator's words, turned into
-- draws one by one; and whether there is a stream hangs on source and kind alone.
import Mathlib.Control.Monad.Basic
import SeededStreams.Proofs.Draw.Conversions
import SeededStreams.Proofs.Json.Reading
import SeededStreams.Stream.Basic

namespace SeededStreams

namespace Generator

/-! ## The words of a generator -/

/-- The word number `n` of a generator, counted from 0. -/
def word (g : Generator) (n : Nat) : Word := (Steps.advance next n g).next.1

/-- The `n` words of a generator that begin with word number `k`. -/
def words (g : Generator) (k n : Nat) : List Word := (List.range' k n).map g.word

@[simp] theorem length_words (g : Generator) (k n : Nat) : (g.words k n).length = n := by
  simp [words]

theorem getElem?_words (g : Generator) {k n t : Nat} (ht : t < n) :
    (g.words k n)[t]? = some (g.word (k + t)) := by
  simp [words, ht]

theorem drop_words (g : Generator) (k n : Nat) : (g.words 0 (n + k)).drop k = g.words k n := by
  unfold words
  rw [← List.map_drop, List.drop_range']
  congr 2
  · omega
  · omega

theorem collect_advance (g : Generator) (k n : Nat) :
    (Steps.collect next n (Steps.advance next k g)).1 = g.words k n := by
  induction n generalizing k with
  | zero => rfl
  | succ n ih =>
    rw [Steps.collect_succ, ← Steps.advance_succ, ih]
    rfl

/-! ## Draws of a kind that is given -/

/-- The generator gives draws of a kind. -/
def supports (g : Generator) (kind : Kind) : Bool :=
  match g with
  | twister _ => true
  | xoshiro _ => kind == .u64

variable {g : Generator} {kind : Kind}

theorem supports_next : g.next.2.supports kind = g.supports kind := by
  cases g <;> rfl

theorem supports_advance (n : Nat) :
    (Steps.advance next n g).supports kind = g.supports kind :=
  Steps.advance_keeps (fun g => g.supports kind) (fun _ => supports_next) n g

/-- A started generator gives the kinds that its source says. -/
theorem supports_ofSource {source : Source} (h : ofSource source = .ok g) :
    g.supports kind = source.supports kind := by
  cases source
  case twisterSeed =>
    cases h
    rfl
  -- The other seeds are checked before there is a generator.
  all_goals
    obtain ⟨_, _, hmade⟩ := (Json.bind_eq_ok_iff _ _ _).mp h
    cases hmade
    rfl

/-- A draw is made of the next word, and takes that word only. -/
theorem ask_of_supports (h : g.supports kind) :
    g.ask kind = (.ok (kind.draw g.next.1), g.next.2) := by
  cases g with
  | twister t => rfl
  | xoshiro x =>
    have hkind : kind = .u64 := eq_of_beq h
    rw [hkind]
    rfl

theorem nextDraw_of_supports (h : g.supports kind) :
    g.nextDraw kind = .ok (kind.draw g.next.1, g.next.2) := by
  unfold nextDraw
  rw [ask_of_supports h]

theorem discard_of_supports (h : g.supports kind) (n : Nat) :
    g.discard kind n = .ok (Steps.advance next n g) := by
  induction n generalizing g with
  | zero => rfl
  | succ n ih =>
    unfold discard
    rw [nextDraw_of_supports h]
    exact ih (supports_next.trans h)

theorem drawOnto_of_supports (h : g.supports kind) (n : Nat) (found : List Draw) :
    g.drawOnto kind n found =
      .ok (found.reverse ++ (Steps.collect next n g).1.map kind.draw, Steps.advance next n g) := by
  induction n generalizing g found with
  | zero => simp [drawOnto, Steps.advance]
  | succ n ih =>
    unfold drawOnto
    rw [nextDraw_of_supports h]
    simp only
    rw [ih (supports_next.trans h), Steps.collect_succ, List.reverse_cons, List.append_assoc]
    rfl

end Generator

namespace Request

/-! ## Streams -/

/-- What a request gives, in full: the kind is refused, or the seed is, or the
stream is the piece of words that is asked for. -/
theorem stream_eq (r : Request) :
    r.stream =
      if r.source.supports r.kind then
        ((Generator.ofSource r.source).mapError .seed).map fun g =>
          (g.words r.skip r.count).map r.kind.draw
      else .error (.unsupported r.source.algorithm r.kind) := by
  unfold stream validate
  split
  · rename_i hkind
    cases hsource : Generator.ofSource r.source with
    | error e => rfl
    | ok g =>
      have hsupports := (Generator.supports_ofSource hsource).trans hkind
      have hafter := (Generator.supports_advance r.skip).trans hsupports
      simp only [bind, Except.bind, Generator.discard_of_supports hsupports, Generator.drawMany,
        Generator.drawOnto_of_supports hafter, Generator.collect_advance]
      rfl
  · rfl

theorem eq_of_stream {r : Request} {draws : List Draw} (h : r.stream = .ok draws) :
    ∃ g, Generator.ofSource r.source = .ok g ∧ draws = (g.words r.skip r.count).map r.kind.draw := by
  rw [stream_eq] at h
  split at h
  · cases hsource : Generator.ofSource r.source with
    | error e =>
      rw [hsource] at h
      cases h
    | ok g =>
      rw [hsource] at h
      cases h
      exact ⟨g, rfl, rfl⟩
  · cases h

theorem exists_word_of_mem_stream {r : Request} {draws : List Draw} (h : r.stream = .ok draws)
    {d : Draw} (hd : d ∈ draws) : ∃ w, d = r.kind.draw w := by
  obtain ⟨g, _, rfl⟩ := eq_of_stream h
  obtain ⟨w, _, rfl⟩ := List.mem_map.mp hd
  exact ⟨w, rfl⟩

/-- The draws of a list of words are what the kind makes of each. -/
theorem converts_words (kind : Kind) (ws : List Word) :
    List.Forall₂ kind.Converts ws (ws.map kind.draw) := by
  simp [List.forall₂_map_right_iff, List.forall₂_same, Kind.converts_draw]

/-! ## The law -/

/-- A stream holds what its kind makes of the words of its generator, one draw of each
from behind the dropped ones on. By values this is the word, half of it as a signed
number, or the real that is nearest to a product or equal to a quotient, and it is one
draw only. So dropping draws is the same as asking for more and leaving the first ones
out, also when the request is refused; and a stream of any kind is that of the words,
turned into draws one by one. -/
theorem a_stream_is_a_piece_of_the_words :
    (∀ (r : Request) (draws : List Draw), r.stream = .ok draws →
      ∃ g, Generator.ofSource r.source = .ok g ∧ draws.length = r.count ∧
        ∀ t < r.count, ∃ d, draws[t]? = some d ∧ r.kind.Converts (g.word (r.skip + t)) d) ∧
    (∀ (r : Request) (n k : Nat),
      stream { r with count := n, skip := k } =
        (stream { r with count := n + k, skip := 0 }).map (List.drop k)) ∧
    (∀ (r : Request) (draws : List Draw), r.stream = .ok draws →
      ∃ ws : List Word, stream { r with kind := .u64 } = .ok (ws.map .word) ∧
        List.Forall₂ r.kind.Converts ws draws) ∧
    (∀ (kind : Kind) (w : Word) (d : Draw), kind.Converts w d ↔ d = kind.draw w) := by
  refine ⟨?_, ?_, ?_, fun _ _ _ => Kind.converts_iff⟩
  · intro r draws h
    obtain ⟨g, hg, rfl⟩ := eq_of_stream h
    refine ⟨g, hg, by simp, ?_⟩
    intro t ht
    refine ⟨r.kind.draw (g.word (r.skip + t)), ?_, Kind.converts_draw _ _⟩
    rw [List.getElem?_map, Generator.getElem?_words g ht]
    rfl
  · intro r n k
    rw [stream_eq, stream_eq]
    split
    · cases Generator.ofSource r.source with
      | error e => rfl
      | ok g =>
        simp only [Except.mapError, Except.map]
        rw [← List.map_drop, Generator.drop_words]
    · rfl
  · intro r draws h
    obtain ⟨g, hg, rfl⟩ := eq_of_stream h
    refine ⟨g.words r.skip r.count, ?_, converts_words _ _⟩
    have hwords : r.source.supports .u64 := by cases r.source <;> rfl
    rw [stream_eq, if_pos hwords, hg]
    rfl

/-- The second and the third draw of a twister, of a kind. -/
def secondAndThird (kind : Kind) : Request where
  source := .twisterSeed Twister.defaultSeed
  kind := kind
  count := 2
  skip := 1

theorem stream_secondAndThird :
    (secondAndThird .i63).stream =
        .ok [.signed 2310273370083821454, .signed 6554785140758948860] ∧
      (secondAndThird .realClosed).stream =
        .ok [.real ⟨4598183872593850883⟩, .real ⟨4604576376909298827⟩] := by
  decide +kernel

/-- The law at requests that drop a draw, and that shift the words that follow or make
closed reals of them. -/
theorem shifted_draws_behind_a_dropped_one :
    ((secondAndThird .i63).stream =
        .ok [.signed 2310273370083821454, .signed 6554785140758948860] ∧
      (∃ g, Generator.ofSource (secondAndThird .i63).source = .ok g ∧
        ∀ t < 2, ∃ d, [Draw.signed 2310273370083821454, .signed 6554785140758948860][t]? = some d ∧
          Kind.i63.Converts (g.word (1 + t)) d) ∧
      ∃ ws : List Word, (secondAndThird .u64).stream = .ok (ws.map .word) ∧
        List.Forall₂ Kind.i63.Converts ws
          [.signed 2310273370083821454, .signed 6554785140758948860]) ∧
    (secondAndThird .realClosed).stream =
        .ok [.real ⟨4598183872593850883⟩, .real ⟨4604576376909298827⟩] ∧
      ∃ ws : List Word, (secondAndThird .u64).stream = .ok (ws.map .word) ∧
        List.Forall₂ Kind.realClosed.Converts ws
          [.real ⟨4598183872593850883⟩, .real ⟨4604576376909298827⟩] := by
  obtain ⟨hpiece, _, hwords, _⟩ := a_stream_is_a_piece_of_the_words
  obtain ⟨hshifted, hclosed⟩ := stream_secondAndThird
  obtain ⟨g, hg, _, hdraws⟩ := hpiece _ _ hshifted
  exact ⟨⟨hshifted, ⟨g, hg, hdraws⟩, hwords _ _ hshifted⟩, hclosed, hwords _ _ hclosed⟩

end Request

end SeededStreams
