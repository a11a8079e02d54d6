-- The live bits of the twister: the upper 33 bits of word 0 and all bits of
-- the other words. Two sequences of the recurrence that agree in the live
-- bits of one window agree in those of every window, later or earlier; so no
-- run kills a register with a live bit set, and every start from a seed or a
-- key has one.
import SeededStreams.Proofs.Twister.Run

namespace SeededStreams.Twister

/-! ## Sequences that agree -/

/-- From `place` on, the two sequences agree in the live bits of a window. -/
structure AgreeFrom (a b : Nat → Word) (place : Nat) : Prop where
  upper : a place &&& upperBits = b place &&& upperBits
  later : ∀ n, place < n → n < place + 312 → a n = b n

/-- Sequences that agree in the whole words of a window agree in its live bits. -/
theorem agreeFrom_of_window {a b : Nat → Word} {place : Nat}
    (h : ∀ j < 312, a (place + j) = b (place + j)) : AgreeFrom a b place := by
  have heq : ∀ n, place ≤ n → n < place + 312 → a n = b n := by
    intro n hle hlt
    have hn := h (n - place) (by omega)
    rw [Nat.add_sub_cancel' hle] at hn
    exact hn
  refine ⟨by rw [heq place (by omega) (by omega)], ?_⟩
  intro n hlt hle
  exact heq n (by omega) hle

section Agree

variable {a b : Nat → Word} (ha : Recurs a) (hb : Recurs b) {place : Nat}

include ha hb

/-- A window is carried on by one word: the recurrence reads live bits only. -/
theorem AgreeFrom.succ (h : AgreeFrom a b place) : AgreeFrom a b (place + 1) := by
  have hnext : a (place + 1) = b (place + 1) := h.later _ (by omega) (by omega)
  refine ⟨by rw [hnext], ?_⟩
  intro n hlt hle
  by_cases hn : n < place + 312
  · exact h.later n (by omega) hn
  · have hend : n = place + 312 := by omega
    have hmix : mix (a place) (a (place + 1)) = mix (b place) (b (place + 1)) :=
      (mix_eq_mix_iff _ _ _ _).mpr ⟨h.upper, by rw [hnext]⟩
    rw [hend, ha place, hb place, h.later (place + 156) (by omega) (by omega), hmix]

/-- A window is carried back by one word. The word behind it shows its upper
bits in the last word of the window; the lower bits of the first word show
there too, and its upper bits are known. -/
theorem AgreeFrom.pred (h : AgreeFrom a b (place + 1)) : AgreeFrom a b place := by
  have hmix : mix (a place) (a (place + 1)) = mix (b place) (b (place + 1)) := by
    have hlast := h.later (place + 312) (by omega) (by omega)
    rw [ha place, hb place, h.later (place + 156) (by omega) (by omega)] at hlast
    exact (UInt64.xor_right_inj _).mp hlast
  obtain ⟨hupper, hlower⟩ := (mix_eq_mix_iff _ _ _ _).mp hmix
  refine ⟨hupper, ?_⟩
  intro n hlt hle
  by_cases hn : n = place + 1
  · rw [hn]
    exact eq_of_upper_of_lower h.upper hlower
  · exact h.later n (by omega) (by omega)

theorem agreeFrom_iff_agreeFrom_zero : AgreeFrom a b place ↔ AgreeFrom a b 0 := by
  induction place with
  | zero => exact Iff.rfl
  | succ place ih =>
    rw [← ih]
    exact ⟨AgreeFrom.pred ha hb, AgreeFrom.succ ha hb⟩

/-- Sequences that agree in the live bits of one window have equal words
behind the first. -/
theorem AgreeFrom.eq (h : AgreeFrom a b 0) {n : Nat} (hn : 0 < n) : a n = b n := by
  have hbefore : AgreeFrom a b (n - 1) := (agreeFrom_iff_agreeFrom_zero ha hb).mpr h
  exact hbefore.later n (by omega) (by omega)

end Agree

/-! ## Registers with the same live bits -/

/-- The two registers agree in the live bits. -/
structure Register.AgreeLive (w v : Register) : Prop where
  upper : w.get 0 &&& upperBits = v.get 0 &&& upperBits
  later : ∀ k : Fin 312, 0 < k.val → w.get k = v.get k

theorem agreeLive_iff_agreeFrom {a b : Nat → Word} {start : Nat} {w v : Register}
    (hw : Holds a start w) (hv : Holds b start v) : w.AgreeLive v ↔ AgreeFrom a b start := by
  constructor
  · rintro ⟨hupper, hlater⟩
    rw [hw.get, hv.get] at hupper
    refine ⟨hupper, ?_⟩
    intro n hlt hle
    have hn := hlater ⟨n - start, by omega⟩ (Nat.sub_pos_of_lt hlt)
    rw [hw.get, hv.get] at hn
    simp only [Nat.add_sub_cancel' (Nat.le_of_lt hlt)] at hn
    exact hn
  · rintro ⟨hupper, hlater⟩
    refine ⟨?_, ?_⟩
    · rw [hw.get, hv.get]
      exact hupper
    · intro k hk
      rw [hw.get, hv.get]
      exact hlater _ (by omega) (by omega)

/-! ## Registers that live -/

/-- The sequence of zero words. -/
def still (_ : Nat) : Word := 0

theorem still_recurs : Recurs still := by
  intro n
  unfold still
  rw [mix_zero, UInt64.xor_self]

/-- Some live bit of the register is set. -/
def Register.Live (w : Register) : Prop :=
  w.get 0 &&& upperBits ≠ 0 ∨ ∃ k : Fin 312, 0 < k.val ∧ w.get k ≠ 0

instance : DecidablePred Register.Live := fun _ => inferInstanceAs (Decidable (_ ∨ _))

theorem Register.Live.nonzero {w : Register} (h : w.Live) : ∃ k : Fin 312, w.get k ≠ 0 := by
  rcases h with h | ⟨k, _, hk⟩
  · refine ⟨0, ?_⟩
    intro hzero
    exact h (by rw [hzero, UInt64.zero_and])
  · exact ⟨k, hk⟩

/-- A register without a live bit agrees with the zero register in its live bits. -/
theorem not_live_iff_agreeLive (w : Register) :
    ¬ w.Live ↔ w.AgreeLive (Vector.replicate 312 0) := by
  have hzero : ∀ k : Fin 312, (Vector.replicate 312 (0 : Word)).get k = 0 :=
    fun k => Vector.getElem_replicate k.isLt
  constructor
  · intro hdead
    simp only [Register.Live, not_or, not_exists, not_and, Decidable.not_not] at hdead
    obtain ⟨hfirst, hrest⟩ := hdead
    refine ⟨?_, ?_⟩
    · rw [hzero, UInt64.zero_and]
      exact hfirst
    · intro k hk
      rw [hzero]
      exact hrest k hk
  · rintro ⟨hupper, hlater⟩ (hfirst | ⟨k, hk, hne⟩)
    · rw [hzero, UInt64.zero_and] at hupper
      exact hfirst hupper
    · exact hne ((hlater k hk).trans (hzero k))

theorem not_live_iff {a : Nat → Word} {start : Nat} {w : Register} (h : Holds a start w) :
    ¬ w.Live ↔ AgreeFrom a still start := by
  have hstill : Holds still start (Vector.replicate 312 0) := fun _ hk => Vector.getElem_replicate hk
  rw [not_live_iff_agreeLive]
  exact agreeLive_iff_agreeFrom h hstill

/-- All windows of a sequence live, or none does. -/
theorem live_iff_of_holds {a : Nat → Word} (ha : Recurs a) {start start' : Nat} {w v : Register}
    (hw : Holds a start w) (hv : Holds a start' v) : w.Live ↔ v.Live := by
  rw [← Decidable.not_iff_not, not_live_iff hw, not_live_iff hv,
    agreeFrom_iff_agreeFrom_zero ha still_recurs]
  exact (agreeFrom_iff_agreeFrom_zero ha still_recurs).symm

/-! ## Runs that live -/

/-- A run neither kills a register nor brings one to life. -/
theorem advance_live_iff (t : Twister) (n : Nat) :
    (Steps.advance next n t).words.Live ↔ t.words.Live := by
  have hend := (follows_advance t n).holds
  exact live_iff_of_holds (sequence_recurs t.words) hend (holds_sequence t.words)

/-- As many zero draws in a row as the register has words show that no live
bit is set, wherever in a batch they begin. -/
theorem not_live_of_draws_zero (t : Twister) (h : ∀ d ∈ (Steps.collect next 312 t).1, d = 0) :
    ¬ t.words.Live := by
  have ha := sequence_recurs t.words
  have hzero : ∀ j < 312, sequence t.words (t.index + j) = 0 := by
    intro j hj
    apply (temper_eq_zero_iff _).mp
    apply h
    rw [(follows_sequence t).draws ha]
    exact List.mem_map_of_mem (List.mem_range.mpr hj)
  have hwindow : AgreeFrom (sequence t.words) still t.index := agreeFrom_of_window hzero
  rw [not_live_iff (holds_sequence t.words)]
  exact (agreeFrom_iff_agreeFrom_zero ha still_recurs).mp hwindow

/-! ## Seeded starts -/

theorem get_ofSeed (seed : Word) (k : Fin 312) :
    (Register.ofSeed seed).get k = Register.seedWord seed k :=
  Vector.getElem_ofFn k.isLt

/-- When word 1 of the register of a seed is zero, word 2 is two. -/
theorem live_ofSeed (seed : Word) : (Register.ofSeed seed).Live := by
  right
  by_cases h1 : Register.seedWord seed 1 = 0
  · refine ⟨2, by decide, ?_⟩
    rw [get_ofSeed, show (2 : Fin 312).val = 1 + 1 from rfl, Register.seedWord, h1]
    decide
  · refine ⟨1, by decide, ?_⟩
    rw [get_ofSeed]
    exact h1

/-- The bit that is set in word 0 at the end of a key start is a live one. -/
theorem live_ofKey (key : Array Word) (nonempty : 0 < key.size) :
    (Register.ofKey key nonempty).Live := by
  left
  have hfirst : (Register.ofKey key nonempty).get 0 = 0x8000000000000000 :=
    Vector.getElem_set_self (by decide)
  rw [hfirst]
  decide

/-! ## The law -/

/-- A twister that has not run dead: a live bit is set, the words of its
register are not all zero, and its next 312 draws are not all zero. -/
structure Alive (t : Twister) : Prop where
  live : t.words.Live
  nonzero : ∃ k : Fin 312, t.words.get k ≠ 0
  draws : ∃ d ∈ (Steps.collect next 312 t).1, d ≠ 0

theorem alive_advance {t : Twister} (h : t.words.Live) (n : Nat) :
    Alive (Steps.advance next n t) := by
  have hlive := (advance_live_iff t n).mpr h
  refine ⟨hlive, hlive.nonzero, ?_⟩
  by_cases hall : ∀ d ∈ (Steps.collect next 312 (Steps.advance next n t)).1, d = 0
  · exact absurd hlive (not_live_of_draws_zero _ hall)
  · simp only [Classical.not_forall] at hall
    obtain ⟨d, hd, hne⟩ := hall
    exact ⟨d, hd, hne⟩

/-- A twister that a seed or a key has started never runs dead: after any
number of draws a live bit is set, so the register is not all zero, and no
312 draws in a row are all zero. -/
theorem a_seeded_twister_never_runs_dead :
    (∀ (seed : Word) (n : Nat), Alive (Steps.advance next n (ofSeed seed))) ∧
    ∀ (word : Word) (rest : List Word), ∃ t, ofKey (word :: rest) = .ok t ∧
      ∀ n, Alive (Steps.advance next n t) := by
  refine ⟨?_, ?_⟩
  · intro seed n
    have hlive : (ofSeed seed).words.Live := live_ofSeed seed
    exact alive_advance hlive n
  · intro word rest
    obtain ⟨t, ht, _, _, hkey, hwords⟩ := ofKey_cons word rest
    refine ⟨t, ht, ?_⟩
    intro n
    exact alive_advance (by rw [hwords]; exact live_ofKey _ hkey) n

end SeededStreams.Twister
