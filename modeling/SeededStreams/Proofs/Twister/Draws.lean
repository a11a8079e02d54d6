-- What the draws of a twister show. Tempering loses nothing, so 312 draws in
-- a row show a whole window of the sequence that the run follows, and a
-- window settles the sequence from there on. Of the register they show all
-- bits but the lower 31 of word 0, and these too while word 0 is not drawn.
import SeededStreams.Proofs.Twister.LiveBits

namespace SeededStreams.Twister

/-! ## Draws and words -/

theorem draws_eq_iff (t u : Twister) (n : Nat) :
    (Steps.collect next n t).1 = (Steps.collect next n u).1 ↔
      ∀ j < n, sequence t.words (t.index + j) = sequence u.words (u.index + j) := by
  rw [(follows_sequence t).draws (sequence_recurs _),
    (follows_sequence u).draws (sequence_recurs _), List.map_inj_left]
  constructor
  · intro h j hj
    exact temper_injective (h j (List.mem_range.mpr hj))
  · intro h j hj
    rw [h j (List.mem_range.mp hj)]

/-- When 312 draws of two twisters agree, all their later draws do. They may
stand at different places of their batches: each run is a sequence of the one
recurrence, counted from its own next draw. -/
theorem draws_agree_for_ever_iff_the_next_312_do (t u : Twister) :
    (∀ n, (Steps.collect next n t).1 = (Steps.collect next n u).1) ↔
      (Steps.collect next 312 t).1 = (Steps.collect next 312 u).1 := by
  constructor
  · intro h
    exact h 312
  · intro h n
    rw [draws_eq_iff] at h ⊢
    have hwindow : AgreeFrom (fun j => sequence t.words (t.index + j))
        (fun j => sequence u.words (u.index + j)) 0 := by
      apply agreeFrom_of_window
      intro j hj
      rw [Nat.zero_add]
      exact h j hj
    intro j _
    rcases Nat.eq_zero_or_pos j with hj | hj
    · rw [hj]
      exact h 0 (by decide)
    · exact hwindow.eq ((sequence_recurs _).shift _) ((sequence_recurs _).shift _) hj

/-! ## Registers with the same live bits -/

theorem agreeLive_iff (w v : Register) :
    w.AgreeLive v ↔ AgreeFrom (sequence w) (sequence v) 0 :=
  agreeLive_iff_agreeFrom (holds_sequence w) (holds_sequence v)

/-- A batch reads all live bits and nothing else, and merges no two registers
in which they differ. -/
theorem regenerate_eq_iff (w v : Register) :
    w.regenerate = v.regenerate ↔ w.AgreeLive v := by
  have ha := sequence_recurs w
  have hb := sequence_recurs v
  have hw := regenerate_holds ha (holds_sequence w)
  have hv := regenerate_holds hb (holds_sequence v)
  rw [agreeLive_iff]
  constructor
  · intro h
    rw [h] at hw
    have hwindow : AgreeFrom (sequence w) (sequence v) (0 + 312) :=
      agreeFrom_of_window fun k hk => (hw k hk).symm.trans (hv k hk)
    exact (agreeFrom_iff_agreeFrom_zero ha hb).mp hwindow
  · intro h
    have hholds : Holds (sequence w) (0 + 312) v.regenerate := by
      intro k hk
      rw [hv k hk]
      exact (h.eq ha hb (by omega)).symm
    exact hw.unique hholds

/-! ## What the draws show of a register -/

theorem agreeLive_of_draws {t u : Twister} (hindex : t.index = u.index)
    (h : (Steps.collect next 312 t).1 = (Steps.collect next 312 u).1) :
    t.words.AgreeLive u.words := by
  rw [draws_eq_iff, ← hindex] at h
  have hwindow : AgreeFrom (sequence t.words) (sequence u.words) t.index :=
    agreeFrom_of_window h
  rw [agreeLive_iff]
  exact (agreeFrom_iff_agreeFrom_zero (sequence_recurs _) (sequence_recurs _)).mp hwindow

/-- The registers agree in the bits that later draws can show: in the live
bits, and in all of word 0 when it is the word to be drawn next. -/
structure AgreeInSight (t u : Twister) : Prop where
  live : t.words.AgreeLive u.words
  first : t.index = 0 → t.words.get 0 = u.words.get 0

theorem AgreeInSight.draws {t u : Twister} (hindex : t.index = u.index) (h : AgreeInSight t u)
    (n : Nat) : (Steps.collect next n t).1 = (Steps.collect next n u).1 := by
  have hlive := (agreeLive_iff _ _).mp h.live
  rw [draws_eq_iff, ← hindex]
  intro j _
  rcases Nat.eq_zero_or_pos (t.index + j) with hplace | hplace
  · have hfirst := h.first (by omega)
    rw [(holds_sequence _).get, (holds_sequence _).get] at hfirst
    rw [hplace]
    exact hfirst
  · exact hlive.eq (sequence_recurs _) (sequence_recurs _) hplace

/-- Two twisters at one index have the same next 312 draws exactly when their
registers agree in every bit, the lower 31 bits of word 0 apart when it has
been drawn; and then they have the same draws for ever. So every other bit
shows, and no batch merges two registers that differ in a live bit. -/
theorem draws_agree_iff_the_bits_in_sight_do {t u : Twister} (hindex : t.index = u.index) :
    ((Steps.collect next 312 t).1 = (Steps.collect next 312 u).1 ↔ AgreeInSight t u) ∧
    (AgreeInSight t u → ∀ n, (Steps.collect next n t).1 = (Steps.collect next n u).1) ∧
    (t.words.regenerate = u.words.regenerate ↔ t.words.AgreeLive u.words) := by
  refine ⟨⟨?_, ?_⟩, ?_, regenerate_eq_iff _ _⟩
  · intro h
    refine ⟨agreeLive_of_draws hindex h, ?_⟩
    intro hzero
    rw [draws_eq_iff, ← hindex, hzero] at h
    rw [(holds_sequence _).get, (holds_sequence _).get]
    exact h 0 (by decide)
  · intro h
    exact h.draws hindex 312
  · intro h n
    exact h.draws hindex n

/-- The twister of seed 0, but that the lowest bit of word 0 is set. -/
def nudgedTwister : Twister :=
  { ofSeed 0 with words := (Register.ofSeed 0).setIfInBounds 0 1 }

theorem nudgedTwister_words (k : Fin 312) :
    nudgedTwister.words.get k = if 0 = k.val then 1 else (ofSeed 0).words.get k :=
  Vector.getElem_setIfInBounds k.isLt

theorem agreeInSight_nudgedTwister : AgreeInSight (ofSeed 0) nudgedTwister := by
  refine ⟨⟨?_, ?_⟩, ?_⟩
  · have hzero : (ofSeed 0).words.get 0 = 0 := get_ofSeed 0 0
    rw [nudgedTwister_words, hzero]
    decide
  · intro k hk
    rw [nudgedTwister_words, if_neg (by omega)]
  · intro hindex
    cases hindex

/-- The law at two registers that differ in the lowest bit of word 0, with
their batches used up: no draw ever tells them apart, and the next batch is
the same. -/
theorem lowest_bit_of_a_drawn_word_is_out_of_sight :
    (ofSeed 0).index = nudgedTwister.index ∧
    (ofSeed 0).words.get 0 ≠ nudgedTwister.words.get 0 ∧
    (∀ n, (Steps.collect next n (ofSeed 0)).1 = (Steps.collect next n nudgedTwister).1) ∧
    (ofSeed 0).words.regenerate = nudgedTwister.words.regenerate := by
  have hindex : (ofSeed 0).index = nudgedTwister.index := rfl
  have hlaw := draws_agree_iff_the_bits_in_sight_do hindex
  refine ⟨hindex, ?_, hlaw.2.1 agreeInSight_nudgedTwister,
    hlaw.2.2.mpr agreeInSight_nudgedTwister.live⟩
  have hzero : (ofSeed 0).words.get 0 = 0 := get_ofSeed 0 0
  rw [nudgedTwister_words, hzero]
  decide

end SeededStreams.Twister
