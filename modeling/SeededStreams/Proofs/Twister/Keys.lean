-- Keys that can be told apart. A step of a key start can be undone when its
-- key word is known, so steps that take in the same words never make two
-- different rounds equal; and the key word of a step can be told from the
-- words that the step reads and writes. The last round shows in the draws.
import SeededStreams.Proofs.Twister.KeyRounds

namespace SeededStreams.Twister

/-! ## One step of two keys -/

theorem keyChange_injective (key : Array Word) (t : Nat) {x y before : Word}
    (h : keyChange key t x before = keyChange key t y before) : x = y := by
  unfold keyChange at h
  split at h
  · have hmixed := (UInt64.add_left_inj _).mp ((UInt64.add_left_inj _).mp h)
    exact (UInt64.xor_left_inj _).mp hmixed
  · have hmixed := (UInt64.sub_left_inj _).mp h
    exact (UInt64.xor_left_inj _).mp hmixed

theorem keySequence_of_lt (key key' : Array Word) {n : Nat} (h : n < 312) :
    keySequence key n = keySequence key' n :=
  (written_of_lt _ _ h).trans (written_of_lt _ _ h).symm

section TwoKeys

variable {key key' : Array Word} (hsize : key.size = key'.size) {t : Nat}

include hsize

theorem keyChange_congr (hkey : t < max 312 key.size → keyWord key t = keyWord key' t) :
    keyChange key t = keyChange key' t := by
  funext word before
  unfold keyChange
  rw [← hsize]
  split
  · rename_i ht
    rw [hkey ht]
  · rfl

/-- A word written, the word it replaced and the word before it settle the
key word that was taken in. -/
theorem keyWord_eq (ht : t < max 312 key.size)
    (hnew : keySequence key (t + 312) = keySequence key' (t + 312))
    (hold : keySequence key (t + 1) = keySequence key' (t + 1))
    (hbefore : keySequence key (foldedIn t) = keySequence key' (foldedIn t)) :
    keyWord key t = keyWord key' t := by
  rw [keySequence_step, keySequence_step, hold, hbefore, keyChange, keyChange, ← hsize, if_pos ht,
    if_pos ht] at hnew
  exact (UInt64.add_right_inj _).mp ((UInt64.add_left_inj _).mp hnew)

/-- A word written, the word it replaced and the key word settle the word
before it. -/
theorem before_eq (ht : t < max 312 key.size) (hkey : keyWord key t = keyWord key' t)
    (hnew : keySequence key (t + 312) = keySequence key' (t + 312))
    (hold : keySequence key (t + 1) = keySequence key' (t + 1)) :
    keySequence key (foldedIn t) = keySequence key' (foldedIn t) := by
  rw [keySequence_step, keySequence_step, hold, keyChange, keyChange, ← hsize, if_pos ht,
    if_pos ht, hkey] at hnew
  have hmixed := (UInt64.add_left_inj _).mp ((UInt64.add_left_inj _).mp hnew)
  have hproduct := (UInt64.xor_right_inj _).mp hmixed
  rw [UInt64.mul_comm, UInt64.mul_comm (folded _)] at hproduct
  exact folded_injective (Word.mul_left_cancel_of_odd (by decide) hproduct)

/-- As long as the key words are the same, the words written are. -/
theorem keySequence_eq (hkey : ∀ s < t, keyWord key s = keyWord key' s) {n : Nat}
    (hn : n < t + 312) : keySequence key n = keySequence key' n := by
  induction n using Nat.strongRecOn with
  | ind n ih =>
    by_cases hfirst : n < 312
    · exact keySequence_of_lt key key' hfirst
    · obtain ⟨s, rfl⟩ : ∃ s, n = s + 312 := ⟨n - 312, by omega⟩
      have hread := foldedIn_lt s
      have hsame := keyChange_congr hsize (fun _ => hkey s (by omega))
      rw [keySequence_step, keySequence_step, hsame, ih (s + 1) (by omega) (by omega),
        ih (foldedIn s) hread (by omega)]

end TwoKeys

/-! ## Rounds -/

/-- After `t` steps the same words stand round both rings. -/
def SameRound (key key' : Array Word) (t : Nat) : Prop :=
  ∀ n, t < n → n ≤ t + 311 → keySequence key n = keySequence key' n

section Rounds

variable {key key' : Array Word} {t : Nat}

/-- The word that a step replaced is told from the word that replaced it: the
word that was folded in still stands, but for the first step. -/
theorem SameRound.undo (hpos : 0 < t) (hchange : keyChange key t = keyChange key' t)
    (h : SameRound key key' (t + 1)) : SameRound key key' t := by
  have hlast : foldedIn t = t + 311 := by
    cases t with
    | zero => cases hpos
    | succ t => rfl
  intro n hlt hle
  by_cases hn : n = t + 1
  · have hnew := h (t + 312) (by omega) (by omega)
    have hbefore := h (t + 311) (by omega) (by omega)
    rw [keySequence_step, keySequence_step, hlast, hbefore, hchange] at hnew
    rw [hn]
    exact keyChange_injective key' t hnew
  · exact h n (by omega) (by omega)

theorem SameRound.undo_all (hpos : 0 < t) {m : Nat}
    (hchange : ∀ s, t ≤ s → s < t + m → keyChange key s = keyChange key' s)
    (h : SameRound key key' (t + m)) : SameRound key key' t := by
  induction m with
  | zero => exact h
  | succ m ih =>
    apply ih
    · intro s hle hlt
      exact hchange s hle (by omega)
    · exact h.undo (by omega) (hchange (t + m) (by omega) (by omega))

variable (hsize : key.size = key'.size)

include hsize

/-- The second pass takes in no key, so it is undone whatever the keys are. -/
theorem SameRound.undo_secondPass (h : SameRound key key' (max 312 key.size + 311)) :
    SameRound key key' (max 312 key.size) := by
  apply h.undo_all (by omega)
  intro s hle _
  exact keyChange_congr hsize (fun hlt => absurd hlt (by omega))

theorem sameRound_of_agreeLive {nonempty : 0 < key.size} {nonempty' : 0 < key'.size}
    (h : (Register.ofKey key nonempty).AgreeLive (Register.ofKey key' nonempty')) :
    SameRound key key' (max 312 key.size) := by
  apply SameRound.undo_secondPass hsize
  intro n hlt hle
  have hpos : 0 < ringPlace n := Nat.lt_add_right _ (by decide)
  have hplace : ringPlace n < 312 := by
    unfold ringPlace
    omega
  have hword := h.later ⟨ringPlace n, hplace⟩ hpos
  rw [get_ofKey key nonempty hlt hle _ rfl,
    get_ofKey key' nonempty' (by omega) (by omega) _ rfl] at hword
  exact hword

/-! ## Keys told from a round -/

theorem keyWord_eq_iff {i : Nat} (hi : i < key.size) :
    keyWord key i = keyWord key' i ↔ key[i]? = key'[i]? := by
  have hi' : i < key'.size := by omega
  unfold keyWord
  rw [Nat.mod_eq_of_lt hi, Nat.mod_eq_of_lt hi', Array.getElem?_eq_getElem hi,
    Array.getElem?_eq_getElem hi', Option.some_inj]
  rfl

theorem key_eq_of_keyWords (h : ∀ i < key.size, keyWord key i = keyWord key' i) : key = key' := by
  apply Array.ext_getElem?
  intro i
  by_cases hi : i < key.size
  · exact (keyWord_eq_iff hsize hi).mp (h i hi)
  · rw [Array.getElem?_eq_none (by omega), Array.getElem?_eq_none (by omega)]

/-- A short key is taken in within one round and a step, so the words of all
its steps are known but for the first, which only the last step replaces. -/
theorem key_eq_of_first (hshort : key.size ≤ 311) (h : SameRound key key' 312)
    (hfirst : keyWord key 0 = keyWord key' 0) : key = key' := by
  have hwords : ∀ n ≤ 623, keySequence key n = keySequence key' n := by
    intro n hn
    by_cases hold : n < 1 + 312
    · apply keySequence_eq hsize _ hold
      intro s hs
      have hzero : s = 0 := by omega
      rw [hzero]
      exact hfirst
    · exact h n (by omega) hn
  apply key_eq_of_keyWords hsize
  intro i hi
  have hread := foldedIn_lt i
  exact keyWord_eq hsize (by omega) (hwords (i + 312) (by omega)) (hwords (i + 1) (by omega))
    (hwords (foldedIn i) (by omega))

/-- Up to 310 words, some later step takes in the first key word again and
reads and writes words that stand in the last round. -/
theorem key_eq_of_short (hpos : 0 < key.size) (hshort : key.size ≤ 310)
    (h : SameRound key key' 312) : key = key' := by
  obtain ⟨t, hlow, hhigh, hround⟩ : ∃ t, 1 < t ∧ t < 311 ∧ t % key.size = 0 := by
    by_cases hone : key.size = 1
    · exact ⟨2, by omega, by omega, by rw [hone]⟩
    · exact ⟨key.size, by omega, by omega, Nat.mod_self _⟩
  obtain ⟨s, rfl⟩ : ∃ s, t = s + 1 := ⟨t - 1, by omega⟩
  have hagain : keyWord key (s + 1) = keyWord key' (s + 1) :=
    keyWord_eq hsize (by omega) (h (s + 1 + 312) (by omega) (by omega))
      (keySequence_of_lt _ _ (by omega)) (h (s + 312) (by omega) (by omega))
  have hfirst : keyWord key 0 = keyWord key' 0 := by
    unfold keyWord at hagain ⊢
    rw [← hsize, hround] at hagain
    rw [← hsize, Nat.zero_mod]
    exact hagain
  exact key_eq_of_first hsize (by omega) h hfirst

section OneWord

variable {j : Nat} (hothers : ∀ i < key.size, i ≠ j → keyWord key i = keyWord key' i)

include hothers

/-- A long key is taken in once. All steps after the one word are undone, and
the round that this leaves ends with the word that its step wrote. -/
theorem keyWord_eq_of_long (hlong : 312 ≤ key.size) (hj : j < key.size)
    (h : SameRound key key' key.size) : keyWord key j = keyWord key' j := by
  obtain ⟨m, hm⟩ := Nat.exists_eq_add_of_le hj
  rw [hm] at h
  have hround : SameRound key key' (j + 1) := by
    apply h.undo_all (by omega)
    intro s hle hlt
    exact keyChange_congr hsize (fun _ => hothers s (by omega) (by omega))
  have hread : ∀ n < j + 312, keySequence key n = keySequence key' n := by
    intro n hn
    apply keySequence_eq hsize _ hn
    intro s hs
    exact hothers s (by omega) (by omega)
  exact keyWord_eq hsize (by omega) (hround (j + 312) (by omega) (by omega)) (hread _ (by omega))
    (hread _ (foldedIn_lt j))

/-- With 311 words, the last step of the pass takes in the first key word
again, at the place where it was taken in first. When it is the one word, the
step behind it still shows what the first step wrote. -/
theorem key_eq_of_fitting (hfits : key.size = 311) (h : SameRound key key' 312) : key = key' := by
  by_cases hj : j = 0
  · have hnext : keyWord key 1 = keyWord key' 1 := hothers 1 (by omega) (by omega)
    have hwritten : keySequence key 312 = keySequence key' 312 :=
      before_eq hsize (by omega) hnext (h 313 (by omega) (by omega))
        (keySequence_of_lt _ _ (by omega))
    have hfirst : keyWord key 0 = keyWord key' 0 :=
      keyWord_eq hsize (by omega) hwritten (keySequence_of_lt _ _ (by omega))
        (keySequence_of_lt _ _ (by decide))
    exact key_eq_of_first hsize (by omega) h hfirst
  · exact key_eq_of_first hsize (by omega) h (hothers 0 (by omega) (by omega))

theorem key_eq_of_others (hpos : 0 < key.size) (h : SameRound key key' (max 312 key.size)) :
    key = key' := by
  by_cases hlong : 312 ≤ key.size
  · rw [Nat.max_eq_right hlong] at h
    apply key_eq_of_keyWords hsize
    intro i hi
    by_cases hij : i = j
    · subst hij
      exact keyWord_eq_of_long hsize hothers hlong hi h
    · exact hothers i hi hij
  · rw [Nat.max_eq_left (by omega)] at h
    by_cases hfits : key.size = 311
    · exact key_eq_of_fitting hsize hothers hfits h
    · exact key_eq_of_short hsize hpos (by omega) h

end OneWord

end Rounds

/-! ## The law -/

/-- Both keys start twisters, and these differ in their first 312 draws. -/
def ToldApart (key key' : List Word) : Prop :=
  ∃ t u, ofKey key = .ok t ∧ ofKey key' = .ok u ∧
    (Steps.collect next 312 t).1 ≠ (Steps.collect next 312 u).1

theorem toldApart_of_rounds {key key' : List Word} (hlength : key.length = key'.length)
    (hne : key ≠ key')
    (hround : 0 < key.toArray.size →
      SameRound key.toArray key'.toArray (max 312 key.toArray.size) →
        key.toArray = key'.toArray) :
    ToldApart key key' := by
  cases key with
  | nil => exact absurd (List.eq_nil_of_length_eq_zero hlength.symm).symm hne
  | cons word rest =>
    cases key' with
    | nil => cases hlength
    | cons word' rest' =>
      obtain ⟨t, ht, htindex, _, hpos, htwords⟩ := ofKey_cons word rest
      obtain ⟨u, hu, huindex, _, hpos', huwords⟩ := ofKey_cons word' rest'
      refine ⟨t, u, ht, hu, ?_⟩
      intro hdraws
      have hlive := agreeLive_of_draws (htindex.trans huindex.symm) hdraws
      rw [htwords, huwords] at hlive
      have hkeys := hround hpos (sameRound_of_agreeLive hlength hlive)
      exact hne (List.toArray_inj hkeys)

/-- Every key word counts. Two keys of one length, whatever it is, are told
apart by their first draws when they differ in one word; and when they have
no more than 310 words, however many of these differ. -/
theorem every_key_word_counts :
    (∀ key key' : List Word, key.length = key'.length → (∃! j : Nat, key[j]? ≠ key'[j]?) →
      ToldApart key key') ∧
    (∀ key key' : List Word, key.length = key'.length → key.length ≤ 310 → key ≠ key' →
      ToldApart key key') := by
  refine ⟨?_, ?_⟩
  · intro key key' hlength ⟨j, hj, hunique⟩
    have hne : key ≠ key' := by
      rintro rfl
      exact hj rfl
    apply toldApart_of_rounds hlength hne
    have hothers : ∀ i < key.toArray.size, i ≠ j →
        keyWord key.toArray i = keyWord key'.toArray i := by
      intro i hi hij
      rw [keyWord_eq_iff hlength hi, List.getElem?_toArray, List.getElem?_toArray]
      exact Decidable.not_not.mp fun hdiffer => hij (hunique i hdiffer)
    exact key_eq_of_others hlength hothers
  · intro key key' hlength hshort hne
    apply toldApart_of_rounds hlength hne
    intro hpos hround
    have hsize : key.toArray.size ≤ 310 := hshort
    rw [Nat.max_eq_left (by omega)] at hround
    exact key_eq_of_short hlength hpos hsize hround

/-- A key with more words than the register has. -/
def longKey : List Word := List.replicate 400 0

/-- The law at two long keys with one different word, which is taken in after
the ring has been gone round once, and at two short keys with two. -/
theorem long_and_short_keys_are_told_apart :
    (longKey.length = (longKey.set 350 1).length ∧
      (∃! j : Nat, longKey[j]? ≠ (longKey.set 350 1)[j]?) ∧
      ToldApart longKey (longKey.set 350 1)) ∧
    ([(1 : Word), 2].length = [(2 : Word), 1].length ∧ [(1 : Word), 2].length ≤ 310 ∧
      [(1 : Word), 2] ≠ [2, 1] ∧ ToldApart [1, 2] [2, 1]) := by
  have hlength : longKey.length = (longKey.set 350 1).length := List.length_set.symm
  have hone : ∃! j : Nat, longKey[j]? ≠ (longKey.set 350 1)[j]? := by
    have hbound : 350 < longKey.length := by
      rw [longKey, List.length_replicate]
      decide
    refine ⟨350, ?_, ?_⟩
    · show longKey[350]? ≠ (longKey.set 350 1)[350]?
      rw [List.getElem?_set_self hbound, longKey, List.getElem?_replicate]
      decide
    · intro j hj
      by_cases hne : j = 350
      · exact hne
      · exact absurd (List.getElem?_set_ne (Ne.symm hne)).symm hj
  refine ⟨⟨hlength, hone, every_key_word_counts.1 _ _ hlength hone⟩, rfl, by decide, by decide, ?_⟩
  exact every_key_word_counts.2 _ _ rfl (by decide) (by decide)

end SeededStreams.Twister
