-- The words of the twister without end. A batch made in two halves is the
-- next window of one recurrence, and so is a batch made by the textbook loop;
-- so both loops leave the same register, whatever register they start from.
import SeededStreams.Steps
import SeededStreams.Proofs.Twister.Mixing

namespace SeededStreams.Twister

/-! ## The recurrence -/

/-- Every word hangs on the words 312, 311 and 156 places before it. -/
def Recurs (a : Nat → Word) : Prop :=
  ∀ n, a (n + 312) = a (n + 156) ^^^ mix (a n) (a (n + 1))

/-- The sequence that a register starts: its own words, and then each word
from the upper bits 312 places before it, the lower bits 311 places before
it and the word 156 places before it. -/
def sequence (w : Register) (n : Nat) : Word :=
  if h : n < 312 then w[n]
  else
    let u := sequence w (n - 312)
    let l := sequence w (n - 311)
    sequence w (n - 156) ^^^ ((joined u l >>> 1) ^^^ (if l % 2 = 1 then feedback else 0))
termination_by n

theorem sequence_of_lt (w : Register) {n : Nat} (h : n < 312) : sequence w n = w[n] := by
  rw [sequence, dif_pos h]

theorem sequence_recurs (w : Register) : Recurs (sequence w) := by
  intro n
  rw [sequence, dif_neg (by omega), mix_eq]
  simp only [show n + 312 - 312 = n by omega, show n + 312 - 311 = n + 1 by omega,
    show n + 312 - 156 = n + 156 by omega]

/-- A part of such a sequence is such a sequence. -/
theorem Recurs.shift {a : Nat → Word} (ha : Recurs a) (start : Nat) :
    Recurs (fun n => a (start + n)) := by
  intro n
  simpa only [Nat.add_assoc] using ha (start + n)

/-! ## Registers as windows of a sequence -/

/-- The register holds the 312 words of the sequence from `start` on. -/
def Holds (a : Nat → Word) (start : Nat) (w : Register) : Prop :=
  ∀ k (h : k < 312), w[k] = a (start + k)

theorem Holds.get {a : Nat → Word} {start : Nat} {w : Register} (h : Holds a start w)
    (k : Fin 312) : w.get k = a (start + k) := h k k.isLt

theorem holds_sequence (w : Register) : Holds (sequence w) 0 w := by
  intro k h
  rw [Nat.zero_add, sequence_of_lt w h]

theorem Holds.unique {a : Nat → Word} {start : Nat} {w v : Register} (hw : Holds a start w)
    (hv : Holds a start v) : w = v := by
  apply Vector.ext
  intro k h
  rw [hw k h, hv k h]

/-- A register while a batch is made from the first window of a sequence:
the words at the places `renewed` are of the next window, the others of the
first. -/
structure Renewing (a : Nat → Word) (renewed : Nat → Prop) (w : Register) : Prop where
  old : ∀ k (h : k < 312), ¬ renewed k → w[k] = a k
  new : ∀ k (h : k < 312), renewed k → w[k] = a (k + 312)

namespace Renewing

variable {a : Nat → Word} {renewed renewed' : Nat → Prop} {w : Register}

theorem of_holds (h : Holds a 0 w) (hnone : ∀ k, ¬ renewed k) : Renewing a renewed w where
  old k hk _ := by rw [h k hk, Nat.zero_add]
  new k _ hnew := absurd hnew (hnone k)

theorem holds (h : Renewing a renewed w) (hall : ∀ k < 312, renewed k) : Holds a 312 w := by
  intro k hk
  rw [h.new k hk (hall k hk), Nat.add_comm]

/-- One more word is renewed. -/
theorem set (h : Renewing a renewed w) {i : Nat} (hi : i < 312) {x : Word} (hx : x = a (i + 312))
    (hplaces : ∀ k < 312, renewed' k ↔ renewed k ∨ k = i) : Renewing a renewed' (w.set i x) where
  old k hk hold := by
    rw [hplaces k hk, not_or] at hold
    rw [Vector.getElem_set_ne _ _ (Ne.symm hold.2)]
    exact h.old k hk hold.1
  new k hk hnew := by
    by_cases hik : k = i
    · subst hik
      rw [Vector.getElem_set_self, hx]
    · rw [Vector.getElem_set_ne _ _ (Ne.symm hik)]
      rcases (hplaces k hk).mp hnew with h1 | h1
      · exact h.new k hk h1
      · exact absurd h1 hik

end Renewing

/-! ## The textbook loop -/

namespace Register

/-- One update of the loop as it is published: word `k` is replaced, and the
places after the last are those from the first on. All words are read as
they stand. -/
def textbookStep (w : Register) (k : Fin 312) : Register :=
  let x := joined w[k.val] w[(k.val + 1) % 312]
  w.set k (w[(k.val + 156) % 312] ^^^ (x >>> 1) ^^^ (if x % 2 = 1 then feedback else 0))

/-- The next batch, in one pass over the register. -/
def textbook (w : Register) : Register := Fin.foldl 312 textbookStep w

end Register

section Batches

variable {a : Nat → Word} (ha : Recurs a)

include ha

/-! ## The batch in two halves -/

/-- After `i` pairs, the first `i` words of each half are renewed. -/
theorem pairStep_renewing (i : Fin 155) (w : Register) (h : Renewing a (· % 156 < i) w) :
    Renewing a (· % 156 < i + 1) (w.pairStep i) := by
  have hi := i.isLt
  unfold Register.pairStep
  -- The low word reads the high half as it was; then the high word reads the new low word.
  have hlow : Renewing a (fun k => k % 156 < i ∨ k = i)
      (w.set i (w[i.val + 156] ^^^ mix w[i.val] w[i.val + 1])) := by
    apply h.set
    · rw [h.old i (by omega) (by omega), h.old (i + 156) (by omega) (by omega),
        h.old (i + 1) (by omega) (by omega)]
      exact (ha i).symm
    · intro k _
      exact Iff.rfl
  apply hlow.set
  · rw [hlow.new i (by omega) (Or.inr rfl), hlow.old (i + 156) (by omega) (by omega),
      hlow.old (i + 157) (by omega) (by omega)]
    exact (ha (i + 156)).symm
  · intro k hk
    omega

/-- When all pairs are renewed, the last word of each half is left. The low
one has its neighbour in the high half, which is renewed by then, so the
neighbour's old word was kept. -/
theorem regenerate_holds_of_pairs {w : Register} (hmiddle : w.get 156 = a 156)
    (hpairs : Renewing a (· % 156 < 155) (Fin.foldl 155 Register.pairStep w)) :
    Holds a 312 w.regenerate := by
  unfold Register.regenerate
  generalize Fin.foldl 155 Register.pairStep w = v at hpairs
  have hlow : Renewing a (fun k => k % 156 < 155 ∨ k = 155)
      (v.set 155 (v[311] ^^^ mix v[155] w[156])) := by
    apply hpairs.set
    · rw [hpairs.old 311 (by decide) (by decide), hpairs.old 155 (by decide) (by decide),
        show w[156] = a 156 from hmiddle]
      exact (ha 155).symm
    · intro k _
      exact Iff.rfl
  have hhigh : ∀ {u : Register}, Renewing a (fun k => k % 156 < 155 ∨ k = 155) u →
      Renewing a (fun _ => True) (u.set 311 (u[155] ^^^ mix u[311] u[0])) := by
    intro u hlow
    apply hlow.set
    · rw [hlow.new 155 (by decide) (by decide), hlow.old 311 (by decide) (by decide),
        hlow.new 0 (by decide) (by decide)]
      exact (ha 311).symm
    · intro k hk
      simp only [true_iff]
      omega
  exact (hhigh hlow).holds (fun _ _ => trivial)

/-- A batch of the first window of a sequence is the next window. -/
theorem regenerate_holds_first {w : Register} (h : Holds a 0 w) : Holds a 312 w.regenerate := by
  apply regenerate_holds_of_pairs ha (h.get 156)
  exact Steps.foldl_keeps Register.pairStep (fun i w => Renewing a (· % 156 < i) w)
    (Renewing.of_holds h (fun k => Nat.not_lt_zero (k % 156))) (pairStep_renewing ha)

/-- A batch of a window of a sequence is the window after it. -/
theorem regenerate_holds {start : Nat} {w : Register} (h : Holds a start w) :
    Holds a (start + 312) w.regenerate := by
  have hfirst : Holds (fun n => a (start + n)) 0 w := by
    intro k hk
    rw [h k hk, Nat.zero_add]
  intro k hk
  rw [regenerate_holds_first (ha.shift start) hfirst k hk, Nat.add_assoc]

/-! ## The batch in one pass -/

/-- After `i` updates of the textbook loop, the first `i` words are renewed. -/
theorem textbookStep_renewing (i : Fin 312) (w : Register) (h : Renewing a (· < i.val) w) :
    Renewing a (· < i.val + 1) (w.textbookStep i) := by
  have hi := i.isLt
  -- Past the last place the loop goes on with the first words, which are renewed by then.
  have hread : ∀ d, 0 < d → d < 312 → w[(i.val + d) % 312] = a (i + d) := by
    intro d hpos hlt
    by_cases hwrap : i.val + d < 312
    · rw [h.old _ (by omega) (by omega), Nat.mod_eq_of_lt hwrap]
    · rw [h.new _ (by omega) (by omega)]
      congr 1
      omega
  unfold Register.textbookStep
  apply h.set
  · rw [hread 1 (by decide) (by decide), hread 156 (by decide) (by decide),
      h.old i hi (by omega), ha i, mix_eq_turned, UInt64.xor_assoc]
    rfl
  · intro k _
    omega

theorem textbook_holds_first {w : Register} (h : Holds a 0 w) : Holds a 312 w.textbook := by
  have hloop : Renewing a (· < 312) w.textbook :=
    Steps.foldl_keeps Register.textbookStep (fun i w => Renewing a (· < i) w)
      (Renewing.of_holds h Nat.not_lt_zero) (textbookStep_renewing ha)
  exact hloop.holds (fun _ hk => hk)

end Batches

theorem regenerate_eq_textbook (w : Register) : w.regenerate = w.textbook :=
  (regenerate_holds_first (sequence_recurs w) (holds_sequence w)).unique
    (textbook_holds_first (sequence_recurs w) (holds_sequence w))

/-! ## The law -/

/-- Batch after batch, from any register, the two halves that advance
together leave the words that the textbook loop leaves. -/
theorem batches_are_those_of_the_textbook_loop (w : Register) (m : Nat) :
    Nat.repeat Register.regenerate m w = Nat.repeat Register.textbook m w := by
  induction m with
  | zero => rw [Nat.repeat, Nat.repeat]
  | succ m ih => rw [Nat.repeat, Nat.repeat, ih, regenerate_eq_textbook]

end SeededStreams.Twister
