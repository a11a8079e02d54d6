-- Checkpoints as documents: what each member of a checkpoint is, and that a checkpoint
-- is read as what its members are together.
import SeededStreams.Proofs.Json.Forms
import SeededStreams.Proofs.Json.Words
import SeededStreams.Twister.Json

namespace SeededStreams.Checkpoint

/-! ## Checkpoints -/

/-- What a document adds to what is known of a checkpoint, under the name of a member. -/
def fill (name : String) (known : Draft) (d : Json.Document) : Option Draft :=
  if name = "words" then
    (d.listOf? Json.Document.word?).map fun words => { known with words := some words }
  else if name = "index" then
    (d.word?.map UInt64.toNat).map fun index => { known with index := some index }
  else if name = "batches" then
    d.word?.map fun batches => { known with batches := some batches }
  else none

/-- The checkpoint that a document is. -/
def ofDocument : Json.Document → Option Checkpoint := shape.meaning fill

theorem fillsFrom_documents : Json.Shape.FillsFrom shape.slots 126 fill := by
  intro slot hslot known
  simp only [shape, List.mem_cons, List.not_mem_nil, or_false] at hslot
  rcases hslot with rfl | rfl | rfl
  · exact (Json.understands_listOf (Json.understands_word 125)).map
      fun words => { known with words := some words }
  · exact (Json.understands_size 126).map fun index => { known with index := some index }
  · exact (Json.understands_word 126).map fun batches => { known with batches := some batches }

/-- A text is read as the checkpoint that its document is. -/
theorem parse_eq_ok_iff {d : Json.Document} {s : List Char} (hs : d.Text s) (c : Checkpoint) :
    Json.parse read s = .ok c ↔ ofDocument d = some c :=
  (Json.Shape.understands_read fillsFrom_documents).parse_eq_ok_iff hs c

/-! ## Another number in a place of a checkpoint -/

theorem owns_words : shape.Owns fill "words" (Json.Document.listOf? Json.Document.word?)
    fun words known => { known with words := some words } := by
  constructor
  all_goals simp [shape, fill, Function.comp_def]

theorem owns_index : shape.Owns fill "index" (fun d => d.word?.map UInt64.toNat)
    fun index known => { known with index := some index } := by
  constructor
  all_goals simp [shape, fill, Function.comp_def]

theorem owns_batches : shape.Owns fill "batches" Json.Document.word?
    fun batches known => { known with batches := some batches } := by
  constructor
  all_goals simp [shape, fill, Function.comp_def]

theorem finish_eq_ok_iff (known : Draft) (c : Checkpoint) :
    shape.finish known = .ok c ↔ known.words = some c.words ∧ known.index = some c.index ∧
      known.batches.getD 0 = c.batches := by
  obtain ⟨words, index, batches⟩ := known
  cases words with
  | none => simp [shape, Json.require, bind, Except.bind]
  | some words =>
    cases index with
    | none => simp [shape, Json.require, bind, Except.bind]
    | some index =>
      constructor
      · intro h
        cases h
        exact ⟨rfl, rfl, rfl⟩
      · rintro ⟨hwords, hindex, hbatches⟩
        cases hwords
        cases hindex
        exact congrArg (fun batches => Except.ok { c with batches }) hbatches

/-- The names of the members of a checkpoint. -/
def memberNames : List String := ["words", "index", "batches"]

/-- The places where the document of a checkpoint has a number. With a place goes what
becomes of the checkpoint when another number stands there. -/
inductive Place : Checkpoint → (Nat → Checkpoint) → (Json.Document → Json.Document) → Prop where
  | word {c : Checkpoint} {i : Nat} {hole element : Json.Document → Json.Document} :
      Json.MemberHole memberNames "words" hole → Json.ElementHole i element →
      Place c (fun v => { c with words := c.words.set i (.ofNat v) }) fun d => hole (element d)
  | index {c : Checkpoint} {hole : Json.Document → Json.Document} :
      Json.MemberHole memberNames "index" hole → Place c (fun v => { c with index := v }) hole
  | batches {c : Checkpoint} {hole : Json.Document → Json.Document} :
      Json.MemberHole memberNames "batches" hole →
      Place c (fun v => { c with batches := .ofNat v }) hole

/-- In a place of a checkpoint that has been read once, a natural number that fits is read
as itself, and nothing else is read. -/
theorem Place.ofDocument_eq_some_iff {c₀ : Checkpoint} {put : Nat → Checkpoint}
    {hole : Json.Document → Json.Document} (h : Place c₀ put hole) {n₀ : Json.Numeral}
    (h₀ : ofDocument (hole (.number n₀)) = some c₀) (n : Json.Numeral) (c : Checkpoint) :
    ofDocument (hole (.number n)) = some c ↔
      ∃ v, v < UInt64.size ∧ n.IsNat v ∧ c = put v := by
  have hnodup : (shape.slots.map Json.Slot.name).Nodup := by decide
  cases h with
  | word hhole helement =>
    have hput := owns_words.meaning_hole_eq_some_iff (by decide) hnodup hhole
      (fun words c => { c with words }) (by simp +contextual [finish_eq_ok_iff]) h₀
    obtain ⟨words₀, hwords₀, hsame⟩ := (hput _ c₀).mp h₀
    have hwords := congrArg Checkpoint.words hsame
    dsimp only at hwords
    subst hwords
    have hnumber := Json.listOf?_hole helement hwords₀ (.number n)
    rw [← Json.Document.exists_word_iff n c fun w => { c₀ with words := c₀.words.set _ w }]
    refine (hput _ c).trans ?_
    constructor
    · rintro ⟨words, hread, rfl⟩
      obtain ⟨w, hw, rfl⟩ := (hnumber words).mp hread
      exact ⟨w, hw, rfl⟩
    · rintro ⟨w, hw, rfl⟩
      exact ⟨_, (hnumber _).mpr ⟨w, hw, rfl⟩, rfl⟩
  | index hhole =>
    have hput := owns_index.meaning_hole_eq_some_iff (by decide) hnodup hhole
      (fun index c => { c with index }) (by simp +contextual [finish_eq_ok_iff]) h₀
    exact (hput _ c).trans (Json.Document.exists_size_iff n c _)
  | batches hhole =>
    have hput := owns_batches.meaning_hole_eq_some_iff (by decide) hnodup hhole
      (fun batches c => { c with batches }) (by simp +contextual [finish_eq_ok_iff]) h₀
    exact (hput _ c).trans (Json.Document.exists_word_iff n c _)

end SeededStreams.Checkpoint
