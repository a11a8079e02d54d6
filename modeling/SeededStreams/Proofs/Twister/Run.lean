-- Runs of the twister. At every point of a run the register is a window of
-- the sequence that the first register starts, and the index says how far
-- into the window the run has come. So draw after draw gives the next word
-- of the sequence, tempered, and no batch drops a word or repeats one.
import SeededStreams.Twister.Basic
import SeededStreams.Proofs.Twister.Sequence

namespace SeededStreams.Twister

/-! ## Batches of a run -/

/-- The batches that the next draw makes: one when the last is used up. -/
def batchDue (t : Twister) : Nat := if t.index < 312 then 0 else 1

/-- The batches that the next `n` draws make. -/
def batchesMade : Twister → Nat → Nat
  | _, 0 => 0
  | t, n + 1 => t.batchDue + batchesMade t.next.2 n

theorem next_of_lt (t : Twister) (h : t.index < 312) :
    t.next = (temper t.words[t.index], { t with index := t.index + 1, index_le := h }) := by
  unfold next
  rw [dif_pos h]

theorem next_of_spent (t : Twister) (h : ¬ t.index < 312) :
    t.next = (temper (t.words.regenerate.get 0),
      { words := t.words.regenerate, index := 1, batches := t.batches + 1 }) := by
  unfold next
  rw [dif_neg h]
  rfl

theorem next_batches (t : Twister) : t.next.2.batches = t.batches + UInt64.ofNat t.batchDue := by
  unfold batchDue
  by_cases h : t.index < 312
  · rw [next_of_lt t h, if_pos h]
    simp
  · rw [next_of_spent t h, if_neg h]
    rfl

theorem advance_batches (t : Twister) (n : Nat) :
    (Steps.advance next n t).batches = t.batches + UInt64.ofNat (t.batchesMade n) := by
  induction n generalizing t with
  | zero => simp [Steps.advance, batchesMade]
  | succ n ih =>
    rw [Steps.advance, ih, next_batches, batchesMade, UInt64.ofNat_add, UInt64.add_assoc]

/-! ## The place of a run in a sequence -/

/-- The twister stands at `place` of the sequence: its register is window
number `batch`, and its index leads from the start of the window there. -/
structure Follows (a : Nat → Word) (batch place : Nat) (t : Twister) : Prop where
  holds : Holds a (312 * batch) t.words
  index : 312 * batch + t.index = place

theorem follows_sequence (t : Twister) : Follows (sequence t.words) 0 t.index t where
  holds := holds_sequence t.words
  index := Nat.zero_add t.index

section Runs

variable {a : Nat → Word} {batch place : Nat} {t : Twister}

/-- One draw gives the word at the place, tempered, and moves to the next
place. -/
theorem Follows.next (ha : Recurs a) (h : Follows a batch place t) :
    t.next.1 = temper (a place) ∧ Follows a (batch + t.batchDue) (place + 1) t.next.2 := by
  obtain ⟨hholds, hindex⟩ := h
  unfold batchDue
  by_cases hlt : t.index < 312
  · rw [next_of_lt t hlt, if_pos hlt]
    refine ⟨?_, hholds, ?_⟩
    · rw [hholds t.index hlt, hindex]
    · simp only
      omega
  · have hbatch := regenerate_holds ha hholds
    have hspent := t.index_le
    have hplace : 312 * batch + 312 = place := by omega
    rw [next_of_spent t hlt, if_neg hlt]
    refine ⟨?_, hbatch, ?_⟩
    · rw [hbatch.get 0, ← hplace]
      rfl
    · simp only
      omega

theorem Follows.advance (ha : Recurs a) (h : Follows a batch place t) (n : Nat) :
    Follows a (batch + t.batchesMade n) (place + n) (Steps.advance Twister.next n t) := by
  induction n generalizing batch place t with
  | zero => exact h
  | succ n ih =>
    have hrest := ih (h.next ha).2
    rw [Nat.add_assoc, Nat.add_right_comm] at hrest
    exact hrest

/-- The next `n` draws are the next `n` words of the sequence, tempered. -/
theorem Follows.draws (ha : Recurs a) (h : Follows a batch place t) (n : Nat) :
    (Steps.collect Twister.next n t).1 = (List.range n).map (fun j => temper (a (place + j))) := by
  induction n generalizing batch place t with
  | zero => rfl
  | succ n ih =>
    obtain ⟨hdraw, hnext⟩ := h.next ha
    have hshift : ∀ j, place + 1 + j = place + (j + 1) := fun j => by omega
    rw [Steps.collect_succ, hdraw, ih hnext, List.range_succ_eq_map, List.map_cons, List.map_map]
    simp only [hshift]
    rfl

end Runs

/-- Where a run stands in the sequence that its first register starts. -/
theorem follows_advance (t : Twister) (n : Nat) :
    Follows (sequence t.words) (t.batchesMade n) (t.index + n) (Steps.advance next n t) := by
  have hend := (follows_sequence t).advance (sequence_recurs t.words) n
  rw [Nat.zero_add] at hend
  exact hend

/-! ## Seeded starts -/

/-- A key that holds a word starts a twister, with its batch used up. -/
theorem ofKey_cons (word : Word) (rest : List Word) :
    ∃ t, ofKey (word :: rest) = .ok t ∧ t.index = 312 ∧ t.batches = 0 ∧
      ∃ h, t.words = Register.ofKey (word :: rest).toArray h := by
  have hsize : 0 < (word :: rest).toArray.size := by simp
  unfold ofKey
  rw [dif_pos hsize]
  exact ⟨_, rfl, rfl, rfl, hsize, rfl⟩

/-! ## The law -/

/-- From any register and any index, draw after draw gives the words of the
sequence that the register starts, tempered; and after any number of draws
the register is the window of that sequence whose number is the number of
batches made. Seeds and keys start with the batch used up, so their first
draw is word 312. -/
theorem every_draw_is_the_next_word_of_the_sequence :
    (∀ (t : Twister) (n : Nat),
      (Steps.collect next n t).1 =
        (List.range n).map (fun j => temper (sequence t.words (t.index + j))) ∧
      (∀ k : Fin 312,
        (Steps.advance next n t).words.get k = sequence t.words (312 * t.batchesMade n + k)) ∧
      (Steps.advance next n t).batches = t.batches + UInt64.ofNat (t.batchesMade n)) ∧
    (∀ (seed : Word) (n : Nat),
      (Steps.collect next n (ofSeed seed)).1 =
        (List.range n).map (fun j => temper (sequence (Register.ofSeed seed) (312 + j)))) ∧
    (∀ (word : Word) (rest : List Word), ∃ t, ofKey (word :: rest) = .ok t ∧ ∀ n,
      (Steps.collect next n t).1 =
        (List.range n).map (fun j => temper (sequence t.words (312 + j)))) := by
  refine ⟨?_, ?_, ?_⟩
  · intro t n
    refine ⟨(follows_sequence t).draws (sequence_recurs _) n, ?_, advance_batches t n⟩
    intro k
    exact (follows_advance t n).holds.get k
  · intro seed n
    exact (follows_sequence (ofSeed seed)).draws (sequence_recurs _) n
  · intro word rest
    obtain ⟨t, ht, hindex, _⟩ := ofKey_cons word rest
    refine ⟨t, ht, ?_⟩
    intro n
    rw [(follows_sequence t).draws (sequence_recurs _) n, hindex]

end SeededStreams.Twister
