-- Checkpoints taken later in a run. A checkpoint is accepted when some word
-- is not zero; but the lower 31 bits of word 0 are never read by a batch. So
-- the later checkpoints of an accepted one are all accepted exactly when a
-- live bit is set in it.
import SeededStreams.Twister.Json
import SeededStreams.Proofs.Json.Reading
import SeededStreams.Proofs.Twister.LiveBits

namespace SeededStreams.Twister

/-! ## What is accepted -/

theorem checkpoint_all_zero_iff (t : Twister) :
    t.checkpoint.words.all (· == 0) = true ↔ ∀ k : Fin 312, t.words.get k = 0 := by
  unfold checkpoint
  simp only [List.all_eq_true, beq_iff_eq]
  constructor
  · intro h k
    apply h
    exact Vector.mem_toList_iff.mpr (Vector.getElem_mem k.isLt)
  · intro h x hx
    obtain ⟨k, hk, rfl⟩ := Vector.getElem_of_mem (Vector.mem_toList_iff.mp hx)
    exact h ⟨k, hk⟩

theorem restore_checkpoint (t : Twister) :
    restore t.checkpoint = if ∀ k : Fin 312, t.words.get k = 0 then .error .allZero else .ok t := by
  have hlength : t.checkpoint.words.length = 312 := Vector.length_toList
  have hindex : t.checkpoint.index ≤ 312 := t.index_le
  unfold restore
  rw [dif_pos hlength, dif_pos hindex]
  simp only [checkpoint_all_zero_iff]
  rfl

/-- A twister is restored from its own checkpoint, when some word is not
zero, and from no other. -/
theorem restore_eq_ok_iff (c : Checkpoint) (t : Twister) :
    restore c = .ok t ↔ c = t.checkpoint ∧ ∃ k : Fin 312, t.words.get k ≠ 0 := by
  constructor
  · intro h
    have hc : c = t.checkpoint := by
      unfold restore at h
      split at h
      · split at h
        · split at h
          · cases h
          · cases h
            rfl
        · cases h
      · cases h
    rw [hc, restore_checkpoint] at h
    split at h
    · cases h
    · rename_i hnonzero
      exact ⟨hc, Classical.not_forall.mp hnonzero⟩
  · rintro ⟨rfl, k, hk⟩
    rw [restore_checkpoint, if_neg (fun hzero => hk (hzero k))]

/-- A twister is read from a text that holds a checkpoint it is restored from. -/
theorem read_eq_ok_iff (room : Nat) (s rest : List Char) (t : Twister) :
    read room s = .ok (t, rest) ↔
      ∃ c, Checkpoint.read room s = .ok (c, rest) ∧ restore c = .ok t := by
  unfold read
  rw [Json.bind_eq_ok_iff]
  constructor
  · rintro ⟨⟨c, rest'⟩, hread, h⟩
    simp only at h
    split at h
    · rename_i t' hrestore
      cases h
      exact ⟨c, hread, hrestore⟩
    · cases h
  · rintro ⟨c, hread, hrestore⟩
    refine ⟨(c, rest), hread, ?_⟩
    simp only [hrestore]
    rfl

/-- What a checkpoint or a text gives has a word that is not zero. -/
theorem nonzero_of_accepted {t : Twister}
    (h : (∃ c, restore c = .ok t) ∨ ∃ text, Json.parse read text = .ok t) :
    ∃ k : Fin 312, t.words.get k ≠ 0 := by
  rcases h with ⟨c, hc⟩ | ⟨text, htext⟩
  · exact ((restore_eq_ok_iff c t).mp hc).2
  · obtain ⟨rest, hread, _⟩ := (Json.parse_eq_ok_iff read text t).mp htext
    obtain ⟨c, _, hc⟩ := (read_eq_ok_iff _ _ _ _).mp hread
    exact ((restore_eq_ok_iff c t).mp hc).2

/-! ## Registers without a live bit -/

/-- Until a batch is made, a run keeps the register. -/
theorem advance_words_of_no_batch (t : Twister) (n : Nat) (h : t.batchesMade n = 0) :
    (Steps.advance next n t).words = t.words := by
  have hend := follows_advance t n
  rw [h] at hend
  exact hend.holds.unique (holds_sequence t.words)

/-- One batch of a register without a live bit is all zero, and so is every
later one. -/
theorem advance_words_zero (t : Twister) (n : Nat) (hdead : ¬ t.words.Live)
    (hbatch : t.batchesMade n ≠ 0) (k : Fin 312) : (Steps.advance next n t).words.get k = 0 := by
  have ha := sequence_recurs t.words
  have hagree := (not_live_iff (holds_sequence t.words)).mp hdead
  have hword := (follows_advance t n).holds k k.isLt
  rw [hagree.eq ha still_recurs (by omega)] at hword
  exact hword

/-- A register that was not all zero stays so as long as a live bit is set or
no batch is made. -/
theorem advance_nonzero_iff {t : Twister} (h : ∃ k : Fin 312, t.words.get k ≠ 0) (n : Nat) :
    (∃ k : Fin 312, (Steps.advance next n t).words.get k ≠ 0) ↔
      t.words.Live ∨ t.batchesMade n = 0 := by
  constructor
  · rintro ⟨k, hk⟩
    by_cases hlive : t.words.Live
    · exact Or.inl hlive
    · by_cases hbatch : t.batchesMade n = 0
      · exact Or.inr hbatch
      · exact absurd (advance_words_zero t n hlive hbatch k) hk
  · rintro (hlive | hbatch)
    · exact ((advance_live_iff t n).mpr hlive).nonzero
    · rw [advance_words_of_no_batch t n hbatch]
      exact h

/-- More draws than the register has words make a batch. -/
theorem batchesMade_ne_zero (t : Twister) {n : Nat} (hn : 312 < n) : t.batchesMade n ≠ 0 := by
  intro hnone
  have hplace := (follows_advance t n).index
  have hindex := (Steps.advance next n t).index_le
  rw [hnone] at hplace
  omega

/-! ## The law -/

/-- The later checkpoints of an accepted twister are all accepted, and its
register is never all zero, exactly when a live bit is set in it. Otherwise
its checkpoints are refused from the first batch on. -/
theorem later_checkpoints_are_accepted_iff_a_live_bit_is_set {t : Twister}
    (accepted : (∃ c, restore c = .ok t) ∨ ∃ text, Json.parse read text = .ok t) :
    ((∀ n, (∃ k : Fin 312, (Steps.advance next n t).words.get k ≠ 0) ∧
        restore (Steps.advance next n t).checkpoint = .ok (Steps.advance next n t)) ↔
      t.words.Live) ∧
    (¬ t.words.Live → ∀ n, restore (Steps.advance next n t).checkpoint =
      if t.batchesMade n = 0 then .ok (Steps.advance next n t) else .error .allZero) := by
  have hnonzero := advance_nonzero_iff (nonzero_of_accepted accepted)
  refine ⟨⟨?_, ?_⟩, ?_⟩
  · intro h
    -- After 313 draws a batch has been made, so only a live bit keeps the register from zero.
    rcases (hnonzero 313).mp (h 313).1 with hlive | hnone
    · exact hlive
    · exact absurd hnone (batchesMade_ne_zero t (by decide))
  · intro hlive n
    have hword := (hnonzero n).mpr (Or.inl hlive)
    exact ⟨hword, (restore_eq_ok_iff _ _).mpr ⟨rfl, hword⟩⟩
  · intro hdead n
    split
    · rename_i hnone
      exact (restore_eq_ok_iff _ _).mpr ⟨rfl, (hnonzero n).mpr (Or.inr hnone)⟩
    · rename_i hbatch
      rw [restore_checkpoint, if_pos (advance_words_zero t n hdead hbatch)]

/-- A checkpoint in which the only bit set is the lowest of word 0. -/
def lowBitAlone : Checkpoint := ⟨1 :: List.replicate 311 0, 312, 0⟩

/-- The twister that is restored from it: a fresh one, but for its words. -/
def lowBitTwister : Twister :=
  { ofSeed 0 with words := (Vector.replicate 312 0).setIfInBounds 0 1 }

theorem checkpoint_lowBitTwister : lowBitTwister.checkpoint = lowBitAlone := by
  unfold checkpoint lowBitTwister
  simp only [Vector.toList_setIfInBounds, Vector.toList_replicate]
  rfl

theorem lowBitTwister_words (k : Fin 312) :
    lowBitTwister.words.get k = if 0 = k.val then 1 else 0 := by
  unfold lowBitTwister
  calc ((Vector.replicate 312 (0 : Word)).setIfInBounds 0 1).get k
      = if 0 = k.val then 1 else (Vector.replicate 312 (0 : Word)).get k :=
        Vector.getElem_setIfInBounds k.isLt
    _ = if 0 = k.val then 1 else 0 := by
        rw [show (Vector.replicate 312 (0 : Word)).get k = 0 from Vector.getElem_replicate k.isLt]

theorem restore_lowBitAlone : restore lowBitAlone = .ok lowBitTwister :=
  (restore_eq_ok_iff _ _).mpr
    ⟨checkpoint_lowBitTwister.symm, 0, by rw [lowBitTwister_words]; decide⟩

theorem lowBitTwister_not_live : ¬ lowBitTwister.words.Live := by
  rintro (hfirst | ⟨k, hk, hne⟩)
  · apply hfirst
    rw [lowBitTwister_words]
    decide
  · apply hne
    rw [lowBitTwister_words, if_neg (by omega)]

/-- The law at a twister without a live bit: it is accepted, and after one
draw its checkpoint is refused. -/
theorem lowBitTwister_is_refused_after_a_draw :
    ((∃ c, restore c = .ok lowBitTwister) ∨ ∃ text, Json.parse read text = .ok lowBitTwister) ∧
    ¬ lowBitTwister.words.Live ∧
    restore (Steps.advance next 1 lowBitTwister).checkpoint = .error .allZero := by
  have accepted : (∃ c, restore c = .ok lowBitTwister) ∨
      ∃ text, Json.parse read text = .ok lowBitTwister :=
    Or.inl ⟨lowBitAlone, restore_lowBitAlone⟩
  have hlater := (later_checkpoints_are_accepted_iff_a_live_bit_is_set accepted).2
    lowBitTwister_not_live 1
  exact ⟨accepted, lowBitTwister_not_live, hlater⟩

/-- So it is not enough that a checkpoint is accepted: this one is, and one
draw later the register is all zero and the checkpoint is refused. -/
theorem an_accepted_twister_can_run_dead :
    restore lowBitAlone = .ok lowBitTwister ∧
    (∀ k : Fin 312, (Steps.advance next 1 lowBitTwister).words.get k = 0) ∧
    restore (Steps.advance next 1 lowBitTwister).checkpoint = .error .allZero := by
  have hbatch : lowBitTwister.batchesMade 1 ≠ 0 := by decide
  have hzero := advance_words_zero lowBitTwister 1 lowBitTwister_not_live hbatch
  refine ⟨restore_lowBitAlone, hzero, ?_⟩
  rw [restore_checkpoint, if_pos hzero]

end SeededStreams.Twister
