-- Key starts by the number of the step alone. A key start keeps two cursors that
-- go round by themselves, and copies the last word to word 0 after each round; the
-- remainders of the step number say the same, without a copy. Both leave the same register.
import SeededStreams.Proofs.Twister.KeyRounds

namespace SeededStreams.Twister

namespace Register

/-! ## The steps by their numbers -/

/-- Step `t` on the ring of the words 1 to 311: the word at place `1 + t % 311` is replaced
by `change` of it and of the folded word before it. Before place 1 stands word 311,
but at the first step of all it is word 0. -/
def ringStep (w : Register) (t : Nat) (change : Word → Word → Word) : Register :=
  let turn := Fin.ofNat 311 t
  let before := if 0 < t ∧ turn = 0 then w.get (Fin.last 311) else w.get turn.castSucc
  w.setIfInBounds turn.succ (change (w.get turn.succ) (before ^^^ (before >>> 62)))

/-- Step `t` of the first pass: a key word and its position are added. -/
def ringTakeIn (key : Array Word) (nonempty : 0 < key.size) (w : Register) (t : Nat) : Register :=
  have := Nat.mod_lt t nonempty
  w.ringStep t fun word folded =>
    (word ^^^ (folded * 3935559000370003845)) + key[t % key.size] + UInt64.ofNat (t % key.size)

/-- Step `t`, in the second pass: the place is subtracted. -/
def ringSettle (w : Register) (t : Nat) : Register :=
  w.ringStep t fun word folded =>
    (word ^^^ (folded * 2862933555777941757)) - UInt64.ofNat (1 + t % 311)

/-- The register of a key: the first pass takes each key word in and stirs each place
at least once, and the second pass goes on from there for one round. -/
def ringOfKey (key : Array Word) (nonempty : 0 < key.size) : Register :=
  let length := max 312 key.size
  let taken := (List.range length).foldl (ringTakeIn key nonempty) (ofSeed 19650218)
  let settled := (List.range' length 311).foldl ringSettle taken
  settled.setIfInBounds 0 0x8000000000000000

end Register

/-! ## The words that they write -/

theorem setIfInBounds_eq_set (w : Register) {place : Nat} (h : place < 312) (word : Word) :
    w.setIfInBounds place word = w.set place word h :=
  Vector.ext fun _ hk =>
    (Vector.getElem_setIfInBounds hk).trans (Vector.getElem_set h hk).symm

/-- A step writes the next word of the sequence. -/
theorem Round.ringStep {a : Nat → Word} {t : Nat} {w : Register} (h : Round a t w)
    (hfirst : t = 0 → ∀ h : 0 < 312, w[0] = a 0) {change : Word → Word → Word}
    (hword : a (t + 312) = change (a (t + 1)) (folded (a (foldedIn t)))) :
    Round a (t + 1) (w.ringStep t change) := by
  have hturn : (Fin.ofNat 311 t).val = t % 311 := rfl
  have hplace : (Fin.ofNat 311 t).succ.val = ringPlace (t + 1) := Nat.add_comm _ _
  have hnow : w.get (Fin.ofNat 311 t).succ = a (t + 1) :=
    h (t + 1) (by omega) (by omega) _ (Fin.isLt _) hplace
  have hbefore : (if 0 < t ∧ Fin.ofNat 311 t = 0 then w.get (Fin.last 311)
      else w.get (Fin.ofNat 311 t).castSucc) = a (foldedIn t) := by
    cases t with
    | zero => exact hfirst rfl (by decide)
    | succ t =>
      split
      · rename_i hround
        have hend : (t + 1) % 311 = 0 := congrArg Fin.val hround.2
        refine h (t + 312) (by omega) (by omega) 311 (by decide) ?_
        unfold ringPlace
        omega
      · rename_i hinside
        have hne : (t + 1) % 311 ≠ 0 := fun hzero => hinside ⟨Nat.succ_pos t, Fin.ext hzero⟩
        refine h (t + 312) (by omega) (by omega) (Fin.ofNat 311 (t + 1)).castSucc.val
          (Fin.isLt _) ?_
        rw [Fin.val_castSucc, hturn]
        unfold ringPlace
        omega
  unfold Register.ringStep
  simp only [hnow, hbefore]
  rw [show change (a (t + 1)) (a (foldedIn t) ^^^ (a (foldedIn t) >>> 62)) = a (t + 312) from
    hword.symm, setIfInBounds_eq_set w (Fin.isLt (Fin.ofNat 311 t).succ)]
  exact h.set hplace _

section Passes

variable (key : Array Word) (nonempty : 0 < key.size)

theorem keyWord_of_nonempty (t : Nat) (ht : t % key.size < key.size) :
    keyWord key t = key[t % key.size] := by
  unfold keyWord
  rw [Array.getElem?_eq_getElem ht]
  rfl

/-- The first `t` steps of the first pass write the first `t` words. -/
theorem ringTakeIn_round {t : Nat} (ht : t ≤ max 312 key.size) :
    Round (keySequence key) t
      ((List.range t).foldl (Register.ringTakeIn key nonempty) (Register.ofSeed 19650218)) := by
  induction t with
  | zero => exact (shows_start (s := ⟨_, 1, by decide, by decide⟩) (keyChange key) rfl rfl).ring
  | succ t ih =>
    rw [List.range_succ, List.foldl_append, List.foldl_cons, List.foldl_nil]
    apply (ih (by omega)).ringStep
    · rintro rfl hpos
      exact (written_of_lt (keyChange key) (Register.ofSeed 19650218) hpos).symm
    · rw [keySequence_step, keyChange, if_pos (by omega), keyWord_of_nonempty]

/-- The second pass goes on with the same sequence. -/
theorem ringSettle_round {w : Register} (h : Round (keySequence key) (max 312 key.size) w) (u : Nat) :
    Round (keySequence key) (max 312 key.size + u)
      ((List.range' (max 312 key.size) u).foldl Register.ringSettle w) := by
  induction u with
  | zero => exact h
  | succ u ih =>
    rw [List.range'_1_concat, List.foldl_append, List.foldl_cons, List.foldl_nil, ← Nat.add_assoc]
    apply ih.ringStep
    · intro hzero _
      omega
    · rw [keySequence_step, keyChange, if_neg (by omega)]
      rfl

/-- Word 0 is set at the end of both; each other word is the one that was written at
its place in the last round. -/
theorem ofKey_eq_ringOfKey : Register.ofKey key nonempty = Register.ringOfKey key nonempty := by
  have hround := ringSettle_round key (ringTakeIn_round key nonempty (Nat.le_refl _)) 311
  apply Vector.ext
  intro k hk
  by_cases hzero : k = 0
  · subst hzero
    unfold Register.ofKey Register.ringOfKey
    rw [Vector.getElem_set_self, Vector.getElem_setIfInBounds_self]
  · obtain ⟨n, hlt, hle, hkn⟩ : ∃ n, max 312 key.size + 311 < n ∧ n ≤ max 312 key.size + 622 ∧
        k = ringPlace n := by
      refine ⟨max 312 key.size + 312 + (k + 310 - max 312 key.size % 311) % 311, ?_⟩
      unfold ringPlace
      omega
    have hkey : (Register.ofKey key nonempty)[k] = keySequence key n :=
      get_ofKey key nonempty hlt hle ⟨k, hk⟩ hkn
    rw [hkey]
    unfold Register.ringOfKey
    rw [Vector.getElem_setIfInBounds_ne hk (Ne.symm hzero)]
    exact (hround n hlt (by omega) k hk hkn).symm

/-! ## The cursors -/

/-- A key start begins with the register of one fixed seed, at place 1. -/
structure IsKeyStart (start : Register.Stirring) : Prop where
  words : start.words = Register.ofSeed 19650218
  place : start.place = 1

/-- The first pass when `t` steps have been made. -/
def takenIn (start : Register.Stirring) (t : Nat) : Register.KeyPass key.size :=
  Nat.repeat (Register.KeyPass.step key) t ⟨start, 0, nonempty⟩

/-- The cursors of a key start are remainders of the number of the step. So they never
leave the words 1 to 311 of the register and the words of the key. -/
structure CursorsGoRound : Prop where
  taking_in : ∀ start, IsKeyStart start → ∀ t ≤ max 312 key.size,
    (takenIn key nonempty start t).stirring.place = 1 + t % 311 ∧
      (takenIn key nonempty start t).position = t % key.size
  settling : ∀ start, IsKeyStart start → ∀ u,
    (Nat.repeat Register.Stirring.settle u
        (takenIn key nonempty start (max 312 key.size)).stirring).place =
      1 + (max 312 key.size + u) % 311

theorem cursorsGoRound : CursorsGoRound key nonempty := by
  have hfirst : ∀ start, IsKeyStart start → ∀ t ≤ max 312 key.size,
      Shows (keySequence key) t (takenIn key nonempty start t).stirring ∧
        (takenIn key nonempty start t).position = t % key.size := by
    intro start hstart t ht
    have hshows : Shows (keySequence key) 0 start :=
      shows_start (keyChange key) hstart.words hstart.place
    exact firstPass_shows (p := ⟨start, 0, nonempty⟩) hshows rfl ht
  refine ⟨?_, ?_⟩
  · intro start hstart t ht
    obtain ⟨hshows, hposition⟩ := hfirst start hstart t ht
    exact ⟨hshows.place, hposition⟩
  · intro start hstart u
    exact (secondPass_shows (hfirst start hstart _ (Nat.le_refl _)).1 u).place

end Passes

/-! ## The law -/

/-- A key of any length that holds a word starts a twister: its register is the one that
the steps by their numbers leave, with its batch used up and no batch counted, and
the cursors on the way to it stay inside the register and the key. -/
theorem a_key_start_is_told_by_step_numbers (word : Word) (rest : List Word) :
    ∃ t nonempty, ofKey (word :: rest) = .ok t ∧
      t.words = Register.ringOfKey (word :: rest).toArray nonempty ∧ t.index = 312 ∧
      t.batches = 0 ∧ CursorsGoRound (word :: rest).toArray nonempty := by
  obtain ⟨t, ht, hindex, hbatches, nonempty, hwords⟩ := ofKey_cons word rest
  refine ⟨t, nonempty, ht, ?_, hindex, hbatches, cursorsGoRound _ nonempty⟩
  rw [hwords, ofKey_eq_ringOfKey]

end SeededStreams.Twister
