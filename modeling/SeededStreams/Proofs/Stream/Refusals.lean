-- When there is no stream, and which fault is told then. The kind is checked before
-- the seed, and both before a word is taken; of all seeds only an empty key and a
-- state of four zeros are refused. After these checks nothing fails, however many
-- draws are dropped or taken.
import SeededStreams.Proofs.Stream.Draws
import SeededStreams.Proofs.Xoshiro.Spread

namespace SeededStreams

/-! ## Seeds that are refused -/

theorem Twister.ofKey_eq_error_iff (key : List Word) (fault : SeedFault) :
    ofKey key = .error fault ↔ key = [] ∧ fault = .emptyKey := by
  cases key with
  | nil => simp [ofKey, eq_comm]
  | cons word rest => simp [ofKey]

theorem Xoshiro.ofState_eq_error_iff (state : Xoshiro) (fault : SeedFault) :
    ofState state = .error fault ↔ state = zero ∧ fault = .zeroState := by
  unfold ofState
  by_cases hzero : state = zero
  · simp [hzero, eq_comm]
  · simp [hzero]

theorem bind_pure_eq_error_iff {ε α β : Type} (x : Except ε α) (f : α → β) (e : ε) :
    (do return f (← x)) = Except.error e ↔ x = .error e := by
  cases x with
  | ok a => simp [bind, Except.bind, pure, Except.pure]
  | error e' => simp [bind, Except.bind]

/-- A seed that is spread always starts a generator. -/
theorem Generator.ofSource_spread (seed : Word) :
    ofSource (.xoshiroSpread seed) = .ok (.xoshiro (.spread seed)) := by
  simp only [ofSource, Xoshiro.ofSplitMix_eq]
  rfl

theorem Generator.ofSource_eq_error_iff (source : Source) (fault : SeedFault) :
    ofSource source = .error fault ↔
      (source = .twisterKey [] ∧ fault = .emptyKey) ∨
      (source = .xoshiroState .zero ∧ fault = .zeroState) := by
  cases source with
  | twisterSeed seed => simp [ofSource]
  | twisterKey key =>
    unfold ofSource
    rw [bind_pure_eq_error_iff, Twister.ofKey_eq_error_iff]
    simp
  | xoshiroState state =>
    unfold ofSource
    rw [bind_pure_eq_error_iff, Xoshiro.ofState_eq_error_iff]
    simp
  | xoshiroSpread seed =>
    rw [ofSource_spread]
    simp

theorem Generator.exists_ofSource_iff (source : Source) :
    (∃ g, ofSource source = .ok g) ↔ source ≠ .twisterKey [] ∧ source ≠ .xoshiroState .zero := by
  cases h : ofSource source with
  | ok g =>
    have hnone : ∀ fault : SeedFault, ¬ ((source = .twisterKey [] ∧ fault = .emptyKey) ∨
        (source = .xoshiroState .zero ∧ fault = .zeroState)) := by
      intro fault
      rw [← ofSource_eq_error_iff, h]
      simp
    refine ⟨fun _ => ⟨?_, ?_⟩, fun _ => ⟨g, rfl⟩⟩
    · intro hkey
      exact hnone .emptyKey (Or.inl ⟨hkey, rfl⟩)
    · intro hstate
      exact hnone .zeroState (Or.inr ⟨hstate, rfl⟩)
  | error fault =>
    rcases (ofSource_eq_error_iff source fault).mp h with ⟨hkey, _⟩ | ⟨hstate, _⟩
    · simp [hkey]
    · simp [hstate]

/-! ## Kinds that are refused -/

/-- The source is one of the generator with four words of state. -/
def Source.IsXoshiro (source : Source) : Prop :=
  (∃ state, source = .xoshiroState state) ∨ ∃ seed, source = .xoshiroSpread seed

theorem Source.supports_eq_false_iff (source : Source) (kind : Kind) :
    source.supports kind = false ↔ source.IsXoshiro ∧ kind ≠ .u64 := by
  cases source with
  | twisterSeed seed => simp [supports, IsXoshiro]
  | twisterKey key => simp [supports, IsXoshiro]
  | xoshiroState state => simp [supports, IsXoshiro]
  | xoshiroSpread seed => simp [supports, IsXoshiro]

theorem Source.IsXoshiro.algorithm {source : Source} (h : source.IsXoshiro) :
    source.algorithm = Xoshiro.algorithm := by
  rcases h with ⟨state, rfl⟩ | ⟨seed, rfl⟩
  · rfl
  · rfl

namespace Request

/-! ## What a request comes to -/

/-- The three ways a request can end. -/
theorem stream_cases (r : Request) :
    (r.source.supports r.kind = false ∧
      r.stream = .error (.unsupported r.source.algorithm r.kind)) ∨
    (r.source.supports r.kind = true ∧
      ∃ fault, Generator.ofSource r.source = .error fault ∧ r.stream = .error (.seed fault)) ∨
    (r.source.supports r.kind = true ∧
      ∃ g, Generator.ofSource r.source = .ok g ∧
        r.stream = .ok ((g.words r.skip r.count).map r.kind.draw)) := by
  rw [stream_eq]
  cases hkind : r.source.supports r.kind with
  | false => exact Or.inl ⟨rfl, rfl⟩
  | true =>
    cases hsource : Generator.ofSource r.source with
    | error fault => exact Or.inr (Or.inl ⟨rfl, fault, rfl, rfl⟩)
    | ok g => exact Or.inr (Or.inr ⟨rfl, g, rfl, rfl⟩)

variable {r : Request}

theorem stream_eq_unsupported_iff {algorithm : String} {kind : Kind} :
    r.stream = .error (.unsupported algorithm kind) ↔
      r.source.supports r.kind = false ∧ algorithm = r.source.algorithm ∧ kind = r.kind := by
  rcases stream_cases r with ⟨hkind, h⟩ | ⟨hkind, fault, hseed, h⟩ | ⟨hkind, g, hsource, h⟩
  · simp [h, hkind, eq_comm]
  · simp [h, hkind]
  · simp [h, hkind]

theorem stream_eq_seed_iff {fault : SeedFault} :
    r.stream = .error (.seed fault) ↔
      r.source.supports r.kind = true ∧ Generator.ofSource r.source = .error fault := by
  rcases stream_cases r with ⟨hkind, h⟩ | ⟨hkind, fault, hseed, h⟩ | ⟨hkind, g, hsource, h⟩
  · simp [h, hkind]
  · simp [h, hkind, hseed]
  · simp [h, hsource]

/-- A stream that there is has as many draws as are asked for. -/
theorem exists_stream_iff :
    (∃ draws, r.stream = .ok draws ∧ draws.length = r.count) ↔
      r.source.supports r.kind = true ∧ ∃ g, Generator.ofSource r.source = .ok g := by
  rcases stream_cases r with ⟨hkind, h⟩ | ⟨hkind, fault, hseed, h⟩ | ⟨hkind, g, hsource, h⟩
  · simp [h, hkind]
  · simp [h, hseed]
  · simp [h, hkind, hsource]

/-- Behind the two checks no draw fails, neither one that is dropped nor one that is kept. -/
theorem draws_of_validate {g : Generator} (hkind : r.validate = .ok ())
    (hsource : Generator.ofSource r.source = .ok g) (n m : Nat) :
    ∃ g', g.discard r.kind n = .ok g' ∧
      ∃ draws last, g'.drawMany r.kind m = .ok (draws, last) ∧ draws.length = m := by
  have hsource_kind : r.source.supports r.kind = true := by
    unfold validate at hkind
    by_contra hne
    rw [if_neg hne] at hkind
    cases hkind
  have hsupports : g.supports r.kind = true :=
    (Generator.supports_ofSource hsource).trans hsource_kind
  refine ⟨_, Generator.discard_of_supports hsupports n, _, _,
    Generator.drawOnto_of_supports ((Generator.supports_advance n).trans hsupports) m [], ?_⟩
  simp

/-! ## The law -/

/-- Which fault a request meets is told by its source and its kind alone, whatever the
counts of draws to take and to drop: first a kind that the source does not give, also
when the seed is bad too, then an empty key or a state of four zeros. Every other
request gives as many draws as are asked for. After both checks the draws never fail, at
no point of either loop; and a seed that is spread is never bad. -/
theorem a_request_fails_for_its_kind_or_else_for_its_seed (r : Request) :
    (∀ algorithm kind, r.stream = .error (.unsupported algorithm kind) ↔
      (r.source.IsXoshiro ∧ r.kind ≠ .u64) ∧ algorithm = Xoshiro.algorithm ∧ kind = r.kind) ∧
    (r.stream = .error (.seed .emptyKey) ↔
      ¬ (r.source.IsXoshiro ∧ r.kind ≠ .u64) ∧ r.source = .twisterKey []) ∧
    (r.stream = .error (.seed .zeroState) ↔
      ¬ (r.source.IsXoshiro ∧ r.kind ≠ .u64) ∧ r.source = .xoshiroState .zero) ∧
    ((∃ draws, r.stream = .ok draws ∧ draws.length = r.count) ↔
      ¬ (r.source.IsXoshiro ∧ r.kind ≠ .u64) ∧
        r.source ≠ .twisterKey [] ∧ r.source ≠ .xoshiroState .zero) ∧
    (∀ g, r.validate = .ok () → Generator.ofSource r.source = .ok g → ∀ n m,
      ∃ g', g.discard r.kind n = .ok g' ∧
        ∃ draws last, g'.drawMany r.kind m = .ok (draws, last) ∧ draws.length = m) ∧
    (∀ seed, r.source = .xoshiroSpread seed → r.source.supports r.kind = true →
      ∃ draws, r.stream = .ok draws ∧ draws.length = r.count) := by
  have hgiven : r.source.supports r.kind = true ↔ ¬ (r.source.IsXoshiro ∧ r.kind ≠ .u64) := by
    rw [← Source.supports_eq_false_iff, Bool.not_eq_false]
  refine ⟨?_, ?_, ?_, ?_, fun g => draws_of_validate, ?_⟩
  · intro algorithm kind
    rw [stream_eq_unsupported_iff, Source.supports_eq_false_iff]
    constructor
    · rintro ⟨hrefused, halgorithm, hkind⟩
      exact ⟨hrefused, halgorithm.trans hrefused.1.algorithm, hkind⟩
    · rintro ⟨hrefused, halgorithm, hkind⟩
      exact ⟨hrefused, halgorithm.trans hrefused.1.algorithm.symm, hkind⟩
  · rw [stream_eq_seed_iff, hgiven, Generator.ofSource_eq_error_iff]
    simp
  · rw [stream_eq_seed_iff, hgiven, Generator.ofSource_eq_error_iff]
    simp
  · rw [exists_stream_iff, hgiven, Generator.exists_ofSource_iff]
  · intro seed hsource hkind
    apply exists_stream_iff.mpr
    refine ⟨hkind, (Generator.exists_ofSource_iff r.source).mpr ?_⟩
    simp [hsource]

/-- Words of a seed of zero that is spread. -/
def spreadZero : Request where
  source := .xoshiroSpread 0
  count := 3
  skip := 2

/-- Reals of a state of four zeros: both the kind and the seed are bad. -/
def realsOfZeros : Request where
  source := .xoshiroState .zero
  kind := .realOpen
  count := 0

/-- The law at a zero that is spread, which is no bad seed, and at four zeros of which
reals are wanted, where the kind is told. -/
theorem a_spread_zero_is_no_bad_seed :
    spreadZero.validate = .ok () ∧
    Generator.ofSource spreadZero.source = .ok (.xoshiro (.spread 0)) ∧
    (∃ g', (Generator.xoshiro (.spread 0)).discard .u64 2 = .ok g' ∧
      ∃ draws last, g'.drawMany .u64 3 = .ok (draws, last) ∧ draws.length = 3) ∧
    spreadZero.source = .xoshiroSpread 0 ∧ spreadZero.source.supports spreadZero.kind = true ∧
    (∃ draws, spreadZero.stream = .ok draws ∧ draws.length = 3) ∧
    realsOfZeros.stream = .error (.unsupported Xoshiro.algorithm .realOpen) := by
  obtain ⟨_, _, _, _, hloops, hspread⟩ :=
    a_request_fails_for_its_kind_or_else_for_its_seed spreadZero
  have hvalid : spreadZero.validate = .ok () := rfl
  have hsource : Generator.ofSource spreadZero.source = .ok (.xoshiro (.spread 0)) :=
    Generator.ofSource_spread 0
  refine ⟨hvalid, hsource, hloops _ hvalid hsource 2 3, rfl, rfl, hspread 0 rfl rfl, ?_⟩
  have hzeros := (a_request_fails_for_its_kind_or_else_for_its_seed realsOfZeros).1
  exact (hzeros _ _).mpr ⟨⟨Or.inl ⟨.zero, rfl⟩, by decide⟩, rfl, rfl⟩

end Request

end SeededStreams
