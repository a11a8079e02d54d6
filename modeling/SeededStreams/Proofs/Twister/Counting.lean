-- The index and the count of batches of a run. A draw of any kind takes one word, and
-- a batch is made only when a draw finds the last one used up; so where a run
-- stands and how often the register was replaced is told by the count of draws alone.
import SeededStreams.Proofs.Twister.Pauses

namespace SeededStreams.Twister

/-! ## One draw -/

/-- The draw reads the place that the index names, and place 0 of a new batch when the
index names none. -/
theorem next_draw (t : Twister) {k : Fin 312} (hk : k.val = t.index % 312) :
    t.next.1 = temper (t.next.2.words.get k) := by
  have hle := t.index_le
  by_cases h : t.index < 312
  · obtain rfl : k = ⟨t.index, h⟩ := Fin.ext (hk.trans (Nat.mod_eq_of_lt h))
    rw [next_of_lt t h]
    rfl
  · obtain rfl : k = 0 := Fin.ext (by simp only [Fin.val_zero]; omega)
    rw [next_of_spent t h]

theorem next_index (t : Twister) : t.next.2.index = t.index % 312 + 1 := by
  have hle := t.index_le
  by_cases h : t.index < 312
  · rw [next_of_lt t h, Nat.mod_eq_of_lt h]
  · rw [next_of_spent t h]
    simp only
    omega

/-! ## A run -/

theorem index_pos_advance (t : Twister) {n : Nat} (h : 0 < t.index + n) :
    0 < (Steps.advance next n t).index := by
  cases n with
  | zero => exact h
  | succ n =>
    rw [Steps.advance_succ, next_index]
    exact Nat.succ_pos _

/-- The place in the sequence is known, and the index is one of 1 to 312: so both of its
parts are. -/
theorem advance_index_batches (t : Twister) {n : Nat} (h : 0 < t.index + n) :
    (Steps.advance next n t).index = (t.index + n - 1) % 312 + 1 ∧
      t.batchesMade n = (t.index + n - 1) / 312 := by
  have hplace := (follows_advance t n).index
  have hpos := index_pos_advance t h
  have hle := (Steps.advance next n t).index_le
  omega

theorem advance_index_mod (t : Twister) (n : Nat) :
    (Steps.advance next n t).index % 312 = (t.index + n) % 312 := by
  have hplace := (follows_advance t n).index
  omega

theorem holds_repeat (w : Register) (m : Nat) :
    Holds (sequence w) (312 * m) (Nat.repeat Register.regenerate m w) := by
  induction m with
  | zero => exact holds_sequence w
  | succ m ih => exact regenerate_holds (sequence_recurs w) ih

/-- The register is replaced as often as batches are counted. -/
theorem advance_words (t : Twister) (n : Nat) :
    (Steps.advance next n t).words = Nat.repeat Register.regenerate (t.batchesMade n) t.words :=
  (follows_advance t n).holds.unique (holds_repeat t.words _)

theorem advance_batches_toNat (t : Twister) {n : Nat}
    (h : t.batches.toNat + t.batchesMade n < UInt64.size) :
    (Steps.advance next n t).batches.toNat = t.batches.toNat + t.batchesMade n := by
  rw [advance_batches, UInt64.toNat_add, UInt64.toNat_ofNat_of_lt' (by omega)]
  exact Nat.mod_eq_of_lt h

/-- `u` is where `n` draws lead from `t`: its index is one of 1 to 312, and a batch is
counted, and made, for each time that the places before it were used up. -/
structure Counted (t : Twister) (n : Nat) (u : Twister) : Prop where
  index : u.index = (t.index + n - 1) % 312 + 1
  batches : u.batches.toNat = t.batches.toNat + (t.index + n - 1) / 312
  words : u.words = Nat.repeat Register.regenerate ((t.index + n - 1) / 312) t.words

theorem counted_advance (t : Twister) {n : Nat} (hplace : 0 < t.index + n)
    (hfits : t.batches.toNat + (t.index + n - 1) / 312 < UInt64.size) :
    Counted t n (Steps.advance next n t) := by
  obtain ⟨hindex, hmade⟩ := advance_index_batches t hplace
  rw [← hmade] at hfits
  refine ⟨hindex, ?_, ?_⟩
  · rw [advance_batches_toNat t hfits, hmade]
  · rw [advance_words, hmade]

/-! ## Draws of any kinds -/

theorem getElem?_drawEach (kinds : List Kind) (t : Twister) (n : Nat) :
    (drawEach kinds t).1[n]? = kinds[n]?.map fun kind => kind.draw (Steps.advance next n t).next.1 := by
  induction kinds generalizing t n with
  | nil => rfl
  | cons kind kinds ih =>
    cases n with
    | zero => rfl
    | succ n => exact ih t.next.2 n

/-- Draw number `n` of a run is made of the word at place `index + n`, counted round the
register as it is after the draw. -/
theorem draw_of_drawEach (t : Twister) {kinds : List Kind} {n : Nat} {kind : Kind}
    (hkind : kinds[n]? = some kind) {k : Fin 312} (hk : k.val = (t.index + n) % 312) :
    (drawEach kinds t).1[n]? =
      some (kind.draw (temper ((drawEach (kinds.take (n + 1)) t).2.words.get k))) := by
  have hlt : n < kinds.length := (List.getElem?_eq_some_iff.mp hkind).1
  have htaken : (kinds.take (n + 1)).length = n + 1 := by
    rw [List.length_take]
    omega
  rw [getElem?_drawEach, hkind, drawEach_state, htaken, Steps.advance_succ,
    next_draw _ (hk.trans (advance_index_mod t n).symm)]
  rfl

/-! ## The law -/

/-- A twister that a seed or a key has started has its batch used up and no batch counted. -/
theorem index_batches_of_seeded {t : Twister}
    (h : (∃ seed, t = ofSeed seed) ∨ ∃ key, ofKey key = .ok t) : t.index = 312 ∧ t.batches = 0 := by
  rcases h with ⟨seed, rfl⟩ | ⟨key, hkey⟩
  · exact ⟨rfl, rfl⟩
  · cases key with
    | nil => cases hkey
    | cons word rest =>
      obtain ⟨u, hu, hindex, hbatches, _⟩ := ofKey_cons word rest
      cases hu.symm.trans hkey
      exact ⟨hindex, hbatches⟩

/-- From any index and any count of batches, draws of any kinds lead to the index and the
count that their number tells, and the register is replaced just as often. Each draw
reads a place inside the register. So a batch is made no sooner than a draw needs it:
312 draws for each of `m` batches, from a start, make no batch more and use the last one up. -/
theorem a_run_is_told_by_the_count_of_its_draws :
    (∀ (t : Twister) (kinds : List Kind), 0 < t.index + kinds.length →
      t.batches.toNat + (t.index + kinds.length - 1) / 312 < UInt64.size →
      Counted t kinds.length (drawEach kinds t).2) ∧
    (∀ (t : Twister) (kinds : List Kind) (n : Nat) (kind : Kind), kinds[n]? = some kind →
      ∀ k : Fin 312, k.val = (t.index + n) % 312 →
        (drawEach kinds t).1[n]? =
          some (kind.draw (temper ((drawEach (kinds.take (n + 1)) t).2.words.get k)))) ∧
    (∀ (t : Twister) (kinds : List Kind) (m : Nat),
      ((∃ seed, t = ofSeed seed) ∨ ∃ key, ofKey key = .ok t) →
      kinds.length = 312 * m → m < UInt64.size →
      (drawEach kinds t).2.index = 312 ∧ (drawEach kinds t).2.batches.toNat = m ∧
        (drawEach kinds t).2.words = Nat.repeat Register.regenerate m t.words) := by
  have hcounted : ∀ (t : Twister) (kinds : List Kind), 0 < t.index + kinds.length →
      t.batches.toNat + (t.index + kinds.length - 1) / 312 < UInt64.size →
      Counted t kinds.length (drawEach kinds t).2 := by
    intro t kinds hplace hfits
    rw [drawEach_state]
    exact counted_advance t hplace hfits
  refine ⟨hcounted, fun t kinds n kind hkind k hk => draw_of_drawEach t hkind hk, ?_⟩
  intro t kinds m hseeded hlength hfits
  obtain ⟨hindex, hbatches⟩ := index_batches_of_seeded hseeded
  have hmade : (t.index + kinds.length - 1) / 312 = m := by omega
  have hnone : t.batches.toNat = 0 := by rw [hbatches]; rfl
  have hend := hcounted t kinds (by omega) (by omega)
  refine ⟨?_, ?_, ?_⟩
  · rw [hend.index]
    omega
  · rw [hend.batches, hmade, hnone, Nat.zero_add]
  · rw [hend.words, hmade]

/-- A word and 312 reals: the last of them is the first draw of the second batch. -/
def wordAndReals : List Kind := .u64 :: List.replicate 312 .realOpen

/-- The law at the draws of a word and of 312 reals, from a start. -/
theorem a_draw_more_than_a_batch_makes_a_second_one :
    0 < (ofSeed defaultSeed).index + wordAndReals.length ∧
    (ofSeed defaultSeed).batches.toNat + ((ofSeed defaultSeed).index + wordAndReals.length - 1) / 312 <
      UInt64.size ∧
    (drawEach wordAndReals (ofSeed defaultSeed)).2.index = 1 ∧
    (drawEach wordAndReals (ofSeed defaultSeed)).2.batches.toNat = 2 ∧
    wordAndReals[312]? = some .realOpen ∧
    (drawEach wordAndReals (ofSeed defaultSeed)).1[312]? =
      some (Kind.realOpen.draw
        (temper ((drawEach (wordAndReals.take (312 + 1)) (ofSeed defaultSeed)).2.words.get 0))) ∧
    (drawEach (wordAndReals.take 312) (ofSeed defaultSeed)).2.index = 312 ∧
    (drawEach (wordAndReals.take 312) (ofSeed defaultSeed)).2.batches.toNat = 1 := by
  obtain ⟨hcounted, hdraws, hwhole⟩ := a_run_is_told_by_the_count_of_its_draws
  have hlength : wordAndReals.length = 313 := by
    rw [wordAndReals, List.length_cons, List.length_replicate]
  have hindex : (ofSeed defaultSeed).index = 312 := rfl
  have hbatches : (ofSeed defaultSeed).batches.toNat = 0 := rfl
  have hplace : 0 < (ofSeed defaultSeed).index + wordAndReals.length := by omega
  have hfits : (ofSeed defaultSeed).batches.toNat +
      ((ofSeed defaultSeed).index + wordAndReals.length - 1) / 312 < UInt64.size := by
    rw [hlength, hindex, hbatches]
    decide
  have hend := hcounted (ofSeed defaultSeed) wordAndReals hplace hfits
  have hlast : wordAndReals[312]? = some .realOpen := by
    rw [wordAndReals, List.getElem?_cons_succ, List.getElem?_replicate]
    rfl
  have htaken : (wordAndReals.take 312).length = 312 * 1 := by
    rw [List.length_take, hlength]
    rfl
  have hbatch := hwhole (ofSeed defaultSeed) _ 1 (Or.inl ⟨defaultSeed, rfl⟩) htaken (by decide)
  have hdraw := hdraws (ofSeed defaultSeed) wordAndReals 312 _ hlast 0 (by rw [hindex]; rfl)
  refine ⟨hplace, hfits, ?_, ?_, hlast, hdraw, hbatch.1, hbatch.2.1⟩
  · rw [hend.index, hlength, hindex]
  · rw [hend.batches, hlength, hindex, hbatches]

end SeededStreams.Twister
