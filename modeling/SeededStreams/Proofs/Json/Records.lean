-- Written values of a wanted sort, and written records. A record is read back
-- when each of its members fills a slot that is still free and reads back what
-- was written there.
import SeededStreams.Proofs.Json.Writing

namespace SeededStreams.Json

/-! ## Parts of readers -/

/-- What is made of a value that has been read. -/
theorem Reads.map {α β : Type} {element : List Char → Except Fault (α × List Char)}
    {text : List Char} {x : α} (h : Reads element text x) (f : α → β) :
    Reads (fun s => do let (x, s) ← element s; return (f x, s)) text (f x) where
  starts := h.starts
  reads rest hrest := by
    simp only [h.reads rest hrest, bind, Except.bind, pure, Except.pure]

/-! ## Values that are kept whole -/

theorem starts_number {c : Char} (hc : c = '-' ∨ c.isDigit = true) (s : List Char) :
    Starts (c :: s) := by
  refine ⟨c, s, rfl, isBlank_of_number hc, ?_⟩
  rintro rfl
  exact absurd hc (by decide)

theorem Value.read_eq (room : Nat) :
    ∃ inside, Value.read room = Value.readWith inside ∧
      ∀ outer, room = outer + 1 → inside = some (Value.read outer) := by
  cases room with
  | zero => exact ⟨none, rfl, fun _ h => by cases h⟩
  | succ room => exact ⟨some (Value.read room), rfl, fun _ h => by cases h; rfl⟩

theorem writeNat_head (n : Nat) : ∃ c s, writeNat n = c :: s ∧ c.isDigit = true := by
  have h := digits_toDigits n
  unfold writeNat
  cases htext : Nat.toDigits 10 n with
  | nil => exact absurd htext h.ne_nil
  | cons c s =>
    refine ⟨c, s, rfl, h.all c ?_⟩
    rw [htext]
    exact List.mem_cons_self

/-- Whatever may follow the text of a numeral, its number is read. -/
theorem Value.reads_numeral (room : Nat) {n : Numeral} {text : List Char} {x : Number}
    (h : n.Spells text) (hx : n.number = .ok x) : Reads (Value.read room) text (.number x) := by
  obtain ⟨c, s, htext, hc⟩ := h.head
  refine ⟨by rw [htext]; exact starts_number hc s, ?_⟩
  intro rest hrest
  have hread := Number.read_of_spells h hx hrest
  obtain ⟨inside, hinside, _⟩ := Value.read_eq room
  rw [htext, List.cons_append] at hread ⊢
  rw [hinside, Value.readWith_number inside hc, hread]
  rfl

theorem Value.reads_writeNat (room : Nat) {n : Nat} (hn : n < UInt64.size) :
    Reads (Value.read room) (writeNat n) (.number (.word (UInt64.ofNat n))) :=
  reads_numeral room (Numeral.spells_toDigits n) (Numeral.number_toDigits hn)

theorem Value.reads_writeWord (room : Nat) (w : Word) :
    Reads (Value.read room) (writeWord w) (.number (.word w)) := by
  have h := Value.reads_writeNat room w.toNat_lt
  rw [UInt64.ofNat_toNat] at h
  exact h

theorem Value.reads_write (room : Nat) (s : List Char) :
    Reads (Value.read room) (Quoted.write s) (.text s) := by
  refine ⟨⟨'"', _, rfl, by decide, by decide⟩, ?_⟩
  intro rest _
  obtain ⟨inside, hinside, _⟩ := Value.read_eq room
  have hstring : Value.readWith inside ('"' :: (s.flatMap Quoted.escape ++ '"' :: rest)) =
      Quoted.read (s.flatMap Quoted.escape ++ '"' :: rest) >>=
        fun p => .ok (.text p.1, p.2) := rfl
  unfold Quoted.write
  rw [hinside, List.cons_append, List.append_assoc, List.singleton_append, hstring,
    Quoted.read_write]
  rfl

theorem Value.reads_writeList {room : Nat} {texts : List (List Char)} {vs : List Value}
    (h : List.Forall₂ (Reads (Value.read room)) texts vs) :
    Reads (Value.read (room + 1)) (writeList texts) (.list vs) := by
  refine ⟨⟨'[', _, rfl, by decide, by decide⟩, ?_⟩
  intro rest _
  have hlist : Value.read (room + 1) ('[' :: (commas texts ++ ']' :: rest)) =
      Json.list (Value.read room) (commas texts ++ ']' :: rest) >>=
        fun p => .ok (.list p.1, p.2) := rfl
  unfold writeList
  rw [List.cons_append, List.append_assoc, List.singleton_append, hlist, list_commas h]
  rfl

/-! ## Values of a wanted sort -/

section Scalars

variable {α : Type} {wanted : String} {as : Value → Except Fault α}

/-- What is no list and no object is read as a value first. -/
theorem reads_scalar {text : List Char} {v : Value} {x : α} (h : Reads (Value.read 0) text v)
    (hsort : ∀ s, text ≠ '[' :: s ∧ text ≠ '\x7b' :: s) (has : as v = .ok x) (room : Nat) :
    Reads (scalar wanted as room) text x := by
  refine ⟨h.starts, ?_⟩
  intro rest hrest
  have hread := h.reads rest hrest
  have hdrop := h.starts.dropBlank rest
  obtain ⟨c, s, rfl, _, _⟩ := h.starts
  obtain ⟨hlist, hobject⟩ := hsort s
  unfold scalar
  rw [hdrop]
  split
  · rename_i heq
    cases heq
    exact absurd rfl hlist
  · rename_i heq
    cases heq
    exact absurd rfl hobject
  · simp only [hread, bind, Except.bind, has]
    rfl

theorem reads_scalar_writeNat {n : Nat} (hn : n < UInt64.size) {x : α}
    (has : as (.number (.word (UInt64.ofNat n))) = .ok x) (room : Nat) :
    Reads (scalar wanted as room) (writeNat n) x := by
  apply reads_scalar (Value.reads_writeNat 0 hn) _ has
  obtain ⟨c, s, htext, hc⟩ := writeNat_head n
  intro t
  rw [htext]
  constructor
  all_goals
    intro h
    cases h
    exact absurd hc (by decide)

end Scalars

theorem reads_word (room : Nat) (w : Word) : Reads (word room) (writeWord w) w := by
  apply reads_scalar_writeNat w.toNat_lt
  rw [UInt64.ofNat_toNat]
  rfl

theorem reads_size (room : Nat) {n : Nat} (hn : n < UInt64.size) :
    Reads (size room) (writeNat n) n := by
  apply reads_scalar_writeNat hn
  simp only [Value.word, bind, Except.bind, pure, Except.pure, Except.ok.injEq]
  exact UInt64.toNat_ofNat_of_lt hn

theorem reads_string (room : Nat) (s : List Char) : Reads (string room) (Quoted.write s) s := by
  have hstring : Value.string "a string" (.text s) = .ok s := rfl
  apply reads_scalar (Value.reads_write 0 s) _ hstring
  intro t
  constructor
  all_goals
    intro h
    cases h

theorem reads_listOf {α : Type} {element : Reader α} {room : Nat} {texts : List (List Char)}
    {xs : List α} (h : List.Forall₂ (Reads (element room)) texts xs) :
    Reads (listOf element (room + 1)) (writeList texts) xs := by
  refine ⟨⟨'[', _, rfl, by decide, by decide⟩, ?_⟩
  intro rest _
  have hlist : listOf element (room + 1) ('[' :: (commas texts ++ ']' :: rest)) =
      list (element room) (commas texts ++ ']' :: rest) := rfl
  unfold writeList
  rw [List.cons_append, List.append_assoc, List.singleton_append, hlist, list_commas h]

theorem forall₂_map {α : Type} {element : List Char → Except Fault (α × List Char)}
    {write : α → List Char} (h : ∀ x, Reads element (write x) x) (xs : List α) :
    List.Forall₂ (Reads element) (xs.map write) xs := by
  induction xs with
  | nil => exact .nil
  | cons x xs ih => exact .cons (h x) ih

theorem reads_words (room : Nat) (ws : List Word) :
    Reads (listOf word (room + 1)) (writeList (ws.map writeWord)) ws :=
  reads_listOf (forall₂_map (reads_word room) ws)

/-! ## Records -/

namespace Shape

variable {σ α : Type} {shape : Shape σ α} {room : Nat}

/-- A member fills the slot of its name. -/
theorem member_fills {slot : Slot σ} {state next : σ} {key : String} {text : List Char}
    (hslot : (shape.slots.find? fun slot => slot.name.toList == key.toList) = some slot)
    (hfree : slot.isFilled state = false) (hfill : Reads (slot.fill state room) text next)
    (rest : List Char) (hrest : Ended rest) :
    shape.member room state key.toList (':' :: (text ++ rest)) = .ok (next, rest) := by
  unfold member
  simp only [hslot, hfree, Bool.false_eq_true, if_false, colon_cons, bind, Except.bind]
  exact hfill.reads rest hrest

theorem reads_object {ms : List (String × List Char)} {state : σ} {x : α}
    (hms : Gathers (shape.member room) shape.start ms state) (hfinish : shape.finish state = .ok x) :
    Reads (shape.read (room + 1)) (writeObject ms) x := by
  refine ⟨⟨'\x7b', _, rfl, by decide, by decide⟩, ?_⟩
  intro rest _
  have hobject : shape.read (room + 1) ('\x7b' :: (commas (ms.map writeMember) ++ '\x7d' :: rest)) =
      object (shape.member room) shape.start (commas (ms.map writeMember) ++ '\x7d' :: rest) >>=
        fun p => shape.finish p.1 >>= fun x => .ok (x, p.2) := rfl
  unfold writeObject
  rw [List.cons_append, List.append_assoc, List.singleton_append, hobject, object_commas hms]
  simp only [bind, Except.bind, hfinish]

end Shape

end SeededStreams.Json
