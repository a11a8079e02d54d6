-- Runs that are put aside and taken up again. A twister that a seed or a key
-- has started always has a live bit, so its checkpoint is always accepted, and
-- what a checkpoint or a text holds is the whole of it. So a run with pauses
-- in it gives the draws and ends in the twister of the run without them.
import SeededStreams.Draw.Kind
import SeededStreams.Proofs.Json.Records
import SeededStreams.Proofs.Twister.Checkpoints

namespace SeededStreams

/-! ## Checkpoints as texts -/

/-- A checkpoint is read back from its text, with room for the list of words
inside the object. -/
theorem Checkpoint.reads_write (room : Nat) (c : Checkpoint) (hindex : c.index < UInt64.size) :
    Json.Reads (Checkpoint.read (room + 2)) c.write c := by
  have hwords := (Json.reads_words room c.words).map
    (fun words => ({ words := some words } : Checkpoint.Draft))
  have hposition := (Json.reads_size (room + 1) hindex).map
    (fun index => ({ words := some c.words, index := some index } : Checkpoint.Draft))
  have hbatches := (Json.reads_word (room + 1) c.batches).map
    (fun batches =>
      ({ words := some c.words, index := some c.index, batches := some batches } : Checkpoint.Draft))
  have hmembers : Json.Gathers (Checkpoint.shape.member (room + 1)) Checkpoint.shape.start
      [("words", Json.writeList (c.words.map Json.writeWord)), ("index", Json.writeNat c.index),
        ("batches", Json.writeWord c.batches)]
      { words := some c.words, index := some c.index, batches := some c.batches } :=
    .cons (Json.Shape.member_fills rfl rfl hwords)
      (.cons (Json.Shape.member_fills rfl rfl hposition)
        (.cons (Json.Shape.member_fills rfl rfl hbatches) (.nil _)))
  exact Json.Shape.reads_object hmembers rfl

namespace Twister

theorem parse_write {t : Twister} (h : ∃ k : Fin 312, t.words.get k ≠ 0) :
    Json.parse read t.write = .ok t := by
  have hindex : t.checkpoint.index < UInt64.size :=
    Nat.lt_of_le_of_lt t.index_le (by decide)
  have hreads := Checkpoint.reads_write 125 t.checkpoint hindex
  have hread : read Json.depthLimit t.write = .ok (t, []) := by
    have hcheckpoint := hreads.reads [] Json.ended_nil
    rw [List.append_nil] at hcheckpoint
    exact (read_eq_ok_iff _ _ _ _).mpr ⟨t.checkpoint, hcheckpoint, (restore_eq_ok_iff _ _).mpr ⟨rfl, h⟩⟩
  exact (Json.parse_eq_ok_iff read t.write t).mpr ⟨[], hread, rfl⟩

/-! ## Runs with pauses -/

/-- What a twister is kept in while it is put aside. -/
inductive Keeping where
  | checkpoint
  | text

/-- What happens to a twister: a draw is taken, or it is put aside and taken
up again. -/
inductive Event where
  | draw (kind : Kind)
  | pause (keeping : Keeping)

/-- The twister that is taken up again, if it is accepted. -/
def takenUp (t : Twister) : Keeping → Option Twister
  | .checkpoint => (restore t.checkpoint).toOption
  | .text => (Json.parse read t.write).toOption

/-- The draws of a run and the twister at its end, if no pause ends it early. -/
def run : List Event → Twister → Option (List Draw × Twister)
  | [], t => some ([], t)
  | .draw kind :: events, t => do
    let (draws, last) ← run events t.next.2
    return (kind.draw t.next.1 :: draws, last)
  | .pause keeping :: events, t => do run events (← t.takenUp keeping)

/-- The draws of the given kinds in order, and the twister after them. -/
def drawEach : List Kind → Twister → List Draw × Twister
  | [], t => ([], t)
  | kind :: kinds, t =>
    let (draws, last) := drawEach kinds t.next.2
    (kind.draw t.next.1 :: draws, last)

/-- The kinds of the draws of a run, without its pauses. -/
def kindsOf (events : List Event) : List Kind :=
  events.filterMap fun event =>
    match event with
    | .draw kind => some kind
    | .pause _ => none

theorem drawEach_state (kinds : List Kind) (t : Twister) :
    (drawEach kinds t).2 = Steps.advance next kinds.length t := by
  induction kinds generalizing t with
  | nil => rfl
  | cons kind kinds ih => exact ih t.next.2

/-- A twister with a live bit is accepted again, as it was. -/
theorem takenUp_of_live {t : Twister} (h : t.words.Live) (keeping : Keeping) :
    t.takenUp keeping = some t := by
  cases keeping with
  | checkpoint =>
    have haccepted : restore t.checkpoint = .ok t := (restore_eq_ok_iff _ _).mpr ⟨rfl, h.nonzero⟩
    rw [takenUp, haccepted]
    rfl
  | text =>
    rw [takenUp, parse_write h.nonzero]
    rfl

theorem run_of_live {t : Twister} (h : t.words.Live) (events : List Event) :
    run events t = some (drawEach (kindsOf events) t) := by
  induction events generalizing t with
  | nil => rfl
  | cons event events ih =>
    cases event with
    | draw kind =>
      have hnext : t.next.2.words.Live := (advance_live_iff t 1).mpr h
      rw [run, ih hnext]
      rfl
    | pause keeping =>
      rw [run, takenUp_of_live h keeping]
      exact ih h

/-! ## The law -/

/-- The pauses of a run leave no trace: none of them ends it, it gives the
draws and ends in the twister of the run without them, and there too the
twister that is taken up again is the one that was put aside. -/
structure NoTrace (t : Twister) (events : List Event) : Prop where
  same_run : run events t = some (drawEach (kindsOf events) t)
  taken_up : ∀ keeping, (drawEach (kindsOf events) t).2.takenUp keeping =
    some (drawEach (kindsOf events) t).2

theorem noTrace_of_live {t : Twister} (h : t.words.Live) (events : List Event) :
    NoTrace t events where
  same_run := run_of_live h events
  taken_up keeping := by
    rw [drawEach_state]
    exact takenUp_of_live ((advance_live_iff t _).mpr h) keeping

/-- A twister that a seed or a key has started may be put aside and taken up
again at any points of a run, as a checkpoint or as a text. -/
theorem pauses_leave_no_trace :
    (∀ seed events, NoTrace (ofSeed seed) events) ∧
    (∀ events, NoTrace (ofSeed defaultSeed) events) ∧
    ∀ (word : Word) (rest : List Word), ∃ t, ofKey (word :: rest) = .ok t ∧
      ∀ events, NoTrace t events := by
  have hseed : ∀ seed events, NoTrace (ofSeed seed) events :=
    fun seed => noTrace_of_live (live_ofSeed seed)
  refine ⟨hseed, hseed defaultSeed, ?_⟩
  intro word rest
  obtain ⟨t, ht, _, _, hkey, hwords⟩ := ofKey_cons word rest
  refine ⟨t, ht, ?_⟩
  apply noTrace_of_live
  rw [hwords]
  exact live_ofKey _ hkey

end Twister

end SeededStreams
