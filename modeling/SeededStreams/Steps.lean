-- Runs of a step function: a generator is a state and a function that
-- gives the next value and the state after it.

namespace SeededStreams.Steps

variable {σ α : Type}

/-- `collect` with the values found so far, the last one first. -/
def collectOnto (step : σ → α × σ) : Nat → List α → σ → List α × σ
  | 0, found, s => (found.reverse, s)
  | n + 1, found, s =>
    let (a, s) := step s
    collectOnto step n (a :: found) s

/-- The next `n` values of `step` from the state `s`, in order, and the
state after them. -/
def collect (step : σ → α × σ) (n : Nat) (s : σ) : List α × σ := collectOnto step n [] s

/-- The state after `n` steps from `s`. -/
def advance (step : σ → α × σ) : Nat → σ → σ
  | 0, s => s
  | n + 1, s => advance step n (step s).2

/-! ## The equations of a run -/

theorem collectOnto_eq (step : σ → α × σ) (n : Nat) (found : List α) (s : σ) :
    collectOnto step n found s =
      (found.reverse ++ (collect step n s).1, (collect step n s).2) := by
  induction n generalizing found s with
  | zero => simp [collect, collectOnto]
  | succ n ih =>
    simp only [collect, collectOnto]
    rw [ih, ih [(step s).1]]
    simp

@[simp] theorem collect_zero (step : σ → α × σ) (s : σ) : collect step 0 s = ([], s) := rfl

theorem collect_succ (step : σ → α × σ) (n : Nat) (s : σ) :
    collect step (n + 1) s =
      ((step s).1 :: (collect step n (step s).2).1, (collect step n (step s).2).2) := by
  simp only [collect, collectOnto]
  rw [collectOnto_eq]
  simp [collect]

@[simp] theorem collect_length (step : σ → α × σ) (n : Nat) (s : σ) :
    (collect step n s).1.length = n := by
  induction n generalizing s with
  | zero => rfl
  | succ n ih => simp [collect_succ, ih]

/-- One step more at the end of a run. -/
theorem advance_succ (step : σ → α × σ) (n : Nat) (s : σ) :
    advance step (n + 1) s = (step (advance step n s)).2 := by
  induction n generalizing s with
  | zero => rfl
  | succ n ih => exact ih (step s).2

/-- What no step changes, no run changes. -/
theorem advance_keeps {β : Type} {step : σ → α × σ} (f : σ → β) (keep : ∀ s, f (step s).2 = f s)
    (n : Nat) (s : σ) : f (advance step n s) = f s := by
  induction n generalizing s with
  | zero => rfl
  | succ n ih => exact (ih (step s).2).trans (keep s)

/-! ## Loops over a range -/

/-- What holds before a loop, with no turn made, and is handed on by each
turn, holds after the loop. -/
theorem foldl_keeps {n : Nat} (turn : σ → Fin n → σ) (P : Nat → σ → Prop) {s : σ} (start : P 0 s)
    (keep : ∀ (i : Fin n) s, P i s → P (i + 1) (turn s i)) : P n (Fin.foldl n turn s) := by
  induction n with
  | zero => simpa using start
  | succ n ih =>
    rw [Fin.foldl_succ_last]
    apply keep (Fin.last n)
    apply ih
    intro i s h
    exact keep i.castSucc s h

end SeededStreams.Steps
