-- The rounds of a key start. Both passes go round the words 1 to 311 of the
-- register as round a ring. In the order in which they are written, the words
-- make one sequence: each comes from the word that it replaces, written one
-- round before, and from the word that was written last. What a key start
-- leaves is the last round of its sequence.
import SeededStreams.Proofs.Twister.Seeds

namespace SeededStreams.Twister

/-! ## Words in the order in which they are written -/

/-- The number of the word that step `t` folds in: that of the word written
last, and 0 when none is written yet. -/
def foldedIn : Nat → Nat
  | 0 => 0
  | t + 1 => t + 312

theorem foldedIn_lt (t : Nat) : foldedIn t < t + 312 := by
  unfold foldedIn
  split <;> omega

/-- The 312 words of `w`, and behind them the words that are written when each
step `t` makes `change t` of the word it replaces and of the folded word
before it. So step `t` writes word `t + 312` over word `t + 1`. -/
def written (change : Nat → Word → Word → Word) (w : Register) (n : Nat) : Word :=
  if h : n < 312 then w[n]
  else
    change (n - 312) (written change w (n - 311)) (folded (written change w (foldedIn (n - 312))))
termination_by n
decreasing_by
  · omega
  · have := foldedIn_lt (n - 312)
    omega

section Written

variable (change : Nat → Word → Word → Word) (w : Register)

theorem written_of_lt {n : Nat} (h : n < 312) : written change w n = w[n] := by
  rw [written, dif_pos h]

theorem written_step (t : Nat) :
    written change w (t + 312) =
      change t (written change w (t + 1)) (folded (written change w (foldedIn t))) := by
  rw [written, dif_neg (by omega)]
  simp only [show t + 312 - 312 = t by omega, show t + 312 - 311 = t + 1 by omega]

end Written

/-! ## The ring -/

/-- The place at which word `n` stands: the places go round from 1 to 311. -/
def ringPlace (n : Nat) : Nat := 1 + (n - 1) % 311

/-- Before step `t`, the last 311 words of the sequence stand round the ring. -/
def Round (a : Nat → Word) (t : Nat) (w : Register) : Prop :=
  ∀ n, t < n → n ≤ t + 311 → ∀ k (h : k < 312), k = ringPlace n → w[k] = a n

/-- The word written takes the place of the oldest word of the round. -/
theorem Round.set {a : Nat → Word} {t place : Nat} {w : Register} (h : Round a t w)
    (hat : place = ringPlace (t + 1)) (hlt : place < 312) :
    Round a (t + 1) (w.set place (a (t + 312)) hlt) := by
  intro n hafter hle k hk hkn
  by_cases hnew : n = t + 312
  · have hkp : k = place := by
      unfold ringPlace at hat hkn
      omega
    subst hkp hnew
    exact Vector.getElem_set_self hlt
  · have hother : place ≠ k := by
      unfold ringPlace at hat hkn
      omega
    rw [Vector.getElem_set_ne hlt hk hother]
    exact h n (by omega) (by omega) k hk hkn

/-- After `t` steps: the place is that of the next word, round the ring stand
the last 311 words, and before the place stands the word to be folded in. -/
structure Shows (a : Nat → Word) (t : Nat) (s : Register.Stirring) : Prop where
  place : s.place = ringPlace (t + 1)
  ring : ∀ n, t < n → n ≤ t + 311 → ∀ k (h : k < 312), k = ringPlace n → s.words[k] = a n
  before : ∀ k (h : k < 312), k + 1 = s.place → s.words[k] = a (foldedIn t)

theorem shows_start (change : Nat → Word → Word → Word) {w : Register} {s : Register.Stirring}
    (hwords : s.words = w) (hplace : s.place = 1) : Shows (written change w) 0 s where
  place := hplace
  ring n hlt hle k hk hkn := by
    have hn : n < 312 := by omega
    have heq : k = n := by
      unfold ringPlace at hkn
      omega
    subst heq hwords
    exact (written_of_lt _ _ hn).symm
  before k hk hnext := by
    have hzero : k = 0 := by omega
    subst hzero hwords
    exact (written_of_lt _ _ hk).symm

section Steps

variable {a : Nat → Word} {t : Nat} {s : Register.Stirring}

/-- One word is written, and the place moves on. -/
theorem Shows.move (h : Shows a t s) :
    Shows a (t + 1)
      (Register.Stirring.move { s with words := s.words.set s.place (a (t + 312)) s.place_lt }) := by
  have hat := h.place
  have hround : Round a (t + 1) (s.words.set s.place (a (t + 312)) s.place_lt) :=
    Round.set h.ring hat s.place_lt
  unfold ringPlace at hat
  unfold Register.Stirring.move
  split
  · rename_i hnext
    simp only at hnext
    refine ⟨?_, ?_, ?_⟩
    · simp only
      unfold ringPlace
      omega
    · intro n hlt hle k hk hkn
      exact hround n hlt (by omega) k hk hkn
    · intro k hk hbefore
      have hkp : k = s.place := Nat.succ_inj.mp hbefore
      subst hkp
      exact Vector.getElem_set_self s.place_lt
  · -- The round is closed: word 0 becomes a copy of the word that has just been written.
    rename_i hlast
    simp only at hlast
    refine ⟨?_, ?_, ?_⟩
    · simp only
      unfold ringPlace
      omega
    · intro n hlt hle k hk hkn
      have hpos : 0 ≠ k := by
        unfold ringPlace at hkn
        omega
      rw [Vector.getElem_set_ne _ hk hpos]
      exact hround n hlt (by omega) k hk hkn
    · intro k hk hbefore
      have hzero : k = 0 := Nat.succ_inj.mp hbefore
      have hend : 311 = ringPlace (t + 312) := by
        unfold ringPlace
        omega
      subst hzero
      rw [Vector.getElem_set_self]
      exact hround (t + 312) (by omega) (by omega) 311 (by decide) hend

/-- A step that writes the next word of the sequence. -/
theorem Shows.stir (h : Shows a t s) {change : Word → Word → Word}
    (hword : a (t + 312) = change (a (t + 1)) (folded (a (foldedIn t)))) :
    Shows a (t + 1) (s.stir change) := by
  have hlt := s.place_lt
  have hpos := s.one_le_place
  have hnow : s.words[s.place] = a (t + 1) :=
    h.ring (t + 1) (by omega) (by omega) s.place hlt h.place
  have hbefore : s.words[s.place - 1] = a (foldedIn t) :=
    h.before (s.place - 1) (by omega) (by omega)
  have hmove := h.move
  rw [hword, ← hnow, ← hbefore] at hmove
  exact hmove

theorem Shows.takeIn (h : Shows a t s) {key : Word} {position : Nat}
    (hword : a (t + 312) =
      (a (t + 1) ^^^ (folded (a (foldedIn t)) * 3935559000370003845)) + key +
        UInt64.ofNat position) :
    Shows a (t + 1) (s.takeIn key position) :=
  h.stir hword

theorem Shows.settle (h : Shows a t s)
    (hword : a (t + 312) =
      (a (t + 1) ^^^ (folded (a (foldedIn t)) * 2862933555777941757)) -
        UInt64.ofNat (ringPlace (t + 1))) :
    Shows a (t + 1) s.settle := by
  rw [← h.place] at hword
  exact h.stir hword

end Steps

/-! ## The two passes -/

/-- The key word that step `t` takes in: the key is gone round too. -/
def keyWord (key : Array Word) (t : Nat) : Word := key[t % key.size]?.getD 0

/-- What step `t` of a key start makes of the word at its place and of the
folded word before it. The first pass takes in key words; in the second the
place is subtracted. -/
def keyChange (key : Array Word) (t : Nat) (word before : Word) : Word :=
  if t < max 312 key.size then
    (word ^^^ (before * 3935559000370003845)) + keyWord key t + UInt64.ofNat (t % key.size)
  else (word ^^^ (before * 2862933555777941757)) - UInt64.ofNat (ringPlace (t + 1))

/-- The words of a key start in the order in which they are written. -/
def keySequence (key : Array Word) : Nat → Word :=
  written (keyChange key) (Register.ofSeed 19650218)

theorem keySequence_step (key : Array Word) (t : Nat) :
    keySequence key (t + 312) =
      keyChange key t (keySequence key (t + 1)) (folded (keySequence key (foldedIn t))) :=
  written_step (keyChange key) (Register.ofSeed 19650218) t

theorem position_succ {t length position : Nat} (hlt : position < length)
    (h : position = t % length) :
    (if position + 1 < length then position + 1 else 0) = (t + 1) % length := by
  rw [← Nat.mod_add_mod, ← h]
  split
  · rename_i hnext
    exact (Nat.mod_eq_of_lt hnext).symm
  · have hend : position + 1 = length := by omega
    rw [hend, Nat.mod_self]

/-- The first pass: with step `t`, word `t` of the key that is gone round. -/
theorem firstPass_shows {key : Array Word} {p : Register.KeyPass key.size}
    (hstart : Shows (keySequence key) 0 p.stirring) (hposition : p.position = 0) {t : Nat}
    (ht : t ≤ max 312 key.size) :
    Shows (keySequence key) t (Nat.repeat (Register.KeyPass.step key) t p).stirring ∧
      (Nat.repeat (Register.KeyPass.step key) t p).position = t % key.size := by
  induction t with
  | zero => exact ⟨hstart, by rw [Nat.repeat, hposition, Nat.zero_mod]⟩
  | succ t ih =>
    obtain ⟨hshows, hat⟩ := ih (by omega)
    rw [Nat.repeat]
    generalize Nat.repeat (Register.KeyPass.step key) t p = q at hshows hat ⊢
    have hlt := q.position_lt
    refine ⟨hshows.takeIn ?_, position_succ hlt hat⟩
    have hkey : keyWord key t = key[q.position] := by
      unfold keyWord
      rw [← hat, Array.getElem?_eq_getElem hlt]
      rfl
    rw [keySequence_step, keyChange, if_pos (by omega), ← hat, hkey]

/-- The second pass goes on with the same sequence. -/
theorem secondPass_shows {key : Array Word} {s : Register.Stirring}
    (hstart : Shows (keySequence key) (max 312 key.size) s) (u : Nat) :
    Shows (keySequence key) (max 312 key.size + u) (Nat.repeat Register.Stirring.settle u s) := by
  induction u with
  | zero => exact hstart
  | succ u ih =>
    rw [Nat.repeat, ← Nat.add_assoc]
    apply ih.settle
    rw [keySequence_step, keyChange, if_neg (by omega)]

/-- A key start leaves the last round of its sequence behind word 0. -/
theorem get_ofKey (key : Array Word) (nonempty : 0 < key.size) {n : Nat}
    (hlt : max 312 key.size + 311 < n) (hle : n ≤ max 312 key.size + 622) (k : Fin 312)
    (hk : k.val = ringPlace n) : (Register.ofKey key nonempty).get k = keySequence key n := by
  have hstart : Shows (keySequence key) 0 { words := Register.ofSeed 19650218, place := 1 } :=
    shows_start (keyChange key) rfl rfl
  obtain ⟨hfirst, _⟩ :=
    firstPass_shows (p := ⟨_, 0, nonempty⟩) hstart rfl (Nat.le_refl (max 312 key.size))
  have hsecond := secondPass_shows hfirst 311
  have hpos : 0 ≠ k.val := by
    unfold ringPlace at hk
    omega
  have hset : ∀ w : Register, (w.set 0 0x8000000000000000).get k = w.get k :=
    fun w => Vector.getElem_set_ne (by decide) k.isLt hpos
  unfold Register.ofKey
  simp only [hset]
  generalize Nat.repeat Register.Stirring.settle 311 _ = s at hsecond ⊢
  exact hsecond.ring n hlt (by omega) k k.isLt hk

end SeededStreams.Twister
