-- Texts of values. Every value within the limits of the reader that has a text is
-- read from it, whatever is inside: in particular an object with any members in
-- any order.
import Mathlib.Data.List.Forall2
import SeededStreams.Proofs.Json.Objects
import SeededStreams.Proofs.Json.Records

namespace SeededStreams.Json

/-! ## Texts -/

namespace Value

/-- A member of an object and its key and text, when the texts of values are given. -/
def MemberText (text : Value → List Char → Prop) (m : List Char × Value)
    (t : String × List Char) : Prop :=
  m.1 = t.1.toList ∧ text m.2 t.2

/-- The texts of a value, when those of the values inside it are given. A number
may be spelled in any way, as long as it is in range. -/
inductive TextWith (inside : Option (Value → List Char → Prop)) : Value → List Char → Prop where
  | null : TextWith inside null "null".toList
  | yes : TextWith inside (boolean true) "true".toList
  | no : TextWith inside (boolean false) "false".toList
  | number {n : Numeral} {x : Number} {text : List Char} : n.Spells text → n.number = .ok x →
      TextWith inside (number x) text
  | text (s : List Char) : TextWith inside (text s) (Quoted.write s)
  | list {f : Value → List Char → Prop} {vs : List Value} {texts : List (List Char)} :
      inside = some f → List.Forall₂ f vs texts → TextWith inside (list vs) (writeList texts)
  | object {f : Value → List Char → Prop} {ms : List (List Char × Value)}
      {texts : List (String × List Char)} :
      inside = some f → List.Forall₂ (MemberText f) ms texts →
      TextWith inside (object ms) (writeObject texts)

/-- The texts of a value in which not more than `room` lists and objects are open
at the same time. -/
def Text : (room : Nat) → Value → List Char → Prop
  | 0 => TextWith none
  | room + 1 => TextWith (some (Text room))

/-! ## Reading -/

/-- The members of a written object are kept one by one. -/
theorem gathers_keep {inside : List Char → Except Fault (Value × List Char)}
    {ms : List (List Char × Value)} {texts : List (String × List Char)}
    (h : List.Forall₂ (MemberText fun v t => Reads inside t v) ms texts)
    (before : List (List Char × Value)) :
    Gathers (fun before key s => do
      let (v, s) ← inside (← colon s)
      return ((key, v) :: before, s)) before texts (ms.reverse ++ before) := by
  induction h generalizing before with
  | nil => exact .nil before
  | @cons m t ms texts hm _ ih =>
    obtain ⟨hkey, hread⟩ := hm
    rw [List.reverse_cons, List.append_assoc]
    refine .cons ?_ (ih (m :: before))
    intro rest hrest
    simp only [colon_cons, hread.reads rest hrest, ← hkey, bind, Except.bind, pure, Except.pure]

/-- The members of a written object are those that were written. -/
theorem membersOf_commas {inside : List Char → Except Fault (Value × List Char)}
    {ms : List (List Char × Value)} {texts : List (String × List Char)}
    (h : List.Forall₂ (MemberText fun v t => Reads inside t v) ms texts) (rest : List Char) :
    membersOf inside ((commas (texts.map writeMember) ++ '\x7d' :: rest).length + 1) true
      (commas (texts.map writeMember) ++ '\x7d' :: rest) = .ok (ms, rest) := by
  have hobject := object_commas (gathers_keep h []) rest
  obtain ⟨ms', hms, hfold⟩ := (object_eq_ok_iff (takes_keep inside) _ _ _ _).mp hobject
  rw [foldlM_keep, List.append_nil, List.append_nil, Except.ok.injEq, List.reverse_inj] at hfold
  rw [hms, hfold]

theorem reads_writeObject {room : Nat} {ms : List (List Char × Value)}
    {texts : List (String × List Char)}
    (h : List.Forall₂ (MemberText fun v t => Reads (read room) t v) ms texts) :
    Reads (read (room + 1)) (writeObject texts) (object ms) := by
  refine ⟨⟨'\x7b', _, rfl, by decide, by decide⟩, ?_⟩
  intro rest _
  unfold writeObject
  rw [List.cons_append, List.append_assoc, List.singleton_append]
  exact (readWith_eq_object_iff ms).mpr ⟨_, _, rfl, rfl, membersOf_commas h rest⟩

theorem TextWith.reads {room : Nat} {inside : Option (Value → List Char → Prop)} {v : Value}
    {text : List Char} (h : TextWith inside v text)
    (hinside : ∀ f, inside = some f →
      ∃ inner, room = inner + 1 ∧ ∀ v t, f v t → Reads (read inner) t v) :
    Reads (read room) text v := by
  cases h with
  | number hn hx => exact reads_numeral room hn hx
  | text s => exact reads_write room s
  | list hf hvs =>
    obtain ⟨inner, rfl, hread⟩ := hinside _ hf
    exact reads_writeList (hvs.imp hread).flip
  | object hf hms =>
    obtain ⟨inner, rfl, hread⟩ := hinside _ hf
    exact reads_writeObject (hms.imp fun m t hm => ⟨hm.1, hread _ _ hm.2⟩)
  | null =>
    refine ⟨⟨'n', _, rfl, by decide, by decide⟩, ?_⟩
    intro rest _
    cases room <;> rfl
  | yes =>
    refine ⟨⟨'t', _, rfl, by decide, by decide⟩, ?_⟩
    intro rest _
    cases room <;> rfl
  | no =>
    refine ⟨⟨'f', _, rfl, by decide, by decide⟩, ?_⟩
    intro rest _
    cases room <;> rfl

/-- A value is read from each of its texts. -/
theorem Text.reads {room : Nat} {v : Value} {text : List Char} (h : Text room v text) :
    Reads (read room) text v := by
  induction room generalizing v text with
  | zero => exact TextWith.reads h fun f hf => by cases hf
  | succ room ih =>
    apply TextWith.reads h
    intro f hf
    cases hf
    exact ⟨room, rfl, fun v t => ih⟩

end Value

end SeededStreams.Json
