-- Records as documents. A record means what its members make of it together,
-- whether they stand in an object or in a list; and each of them adds its own part,
-- so that one of them can be put in another's place without a change to the rest.
import SeededStreams.Json.Record
import SeededStreams.Proofs.Json.Meanings
import SeededStreams.Proofs.Json.Skipping

namespace SeededStreams.Json

namespace Shape

variable {σ α : Type}

/-! ## What documents mean to a record -/

/-- What is known of a record after a member of an object, when it is told what documents
add under the names of the slots. -/
def takeMember (shape : Shape σ α) (fill : String → σ → Document → Option σ) (state : σ)
    (m : List Char × Document) : Option σ :=
  match shape.slots.find? fun slot => slot.name.toList == m.1 with
  | some slot => if slot.isFilled state then none else fill slot.name state m.2
  | none => some state

/-- What is known of a record after the elements of a list, one for each slot, where the
last ones may be left out if they are optional. -/
def takeInOrder (fill : String → σ → Document → Option σ) :
    List (Slot σ) → σ → List Document → Option σ
  | [], state, [] => some state
  | [], _, _ :: _ => none
  | slot :: slots, state, [] => if slot.optional then takeInOrder fill slots state [] else none
  | slot :: slots, state, d :: ds =>
    (fill slot.name state d).bind fun next => takeInOrder fill slots next ds

/-- What is known of a record after all its members. -/
def known (shape : Shape σ α) (fill : String → σ → Document → Option σ) : Document → Option σ
  | .list ds => takeInOrder fill shape.slots shape.start ds
  | .object ms => ms.foldlM (shape.takeMember fill) shape.start
  | _ => none

/-- The record that a document is. -/
def meaning (shape : Shape σ α) (fill : String → σ → Document → Option σ) (d : Document) :
    Option α :=
  (shape.known fill d).bind fun state => (shape.finish state).toOption

/-! ## Reading -/

/-- Each slot takes up a document as is told under its name. -/
def FillsFrom (slots : List (Slot σ)) (room : Nat) (fill : String → σ → Document → Option σ) :
    Prop :=
  ∀ slot ∈ slots, ∀ state, Understands (slot.fill state room) (fill slot.name state)

section Reading

variable {shape : Shape σ α} {fill : String → σ → Document → Option σ} {room : Nat}

theorem endOfList_of_blanks {s t : List Char} (h : Blanks s (']' :: t)) : endOfList s = .ok t := by
  unfold endOfList
  rw [h.dropBlank_eq_cons rfl]
  rfl

/-- A list that goes on is no list that ends. -/
theorem endOfList_ne_ok {d : Document} {first : Bool} {s u v : List Char}
    (honward : Onward first s u) (hd : d.Stands u v) (rest : List Char) :
    endOfList s ≠ .ok rest := by
  obtain ⟨c, r, rfl, hblank, hclose⟩ := Document.stands_solid.begins _ _ _ hd
  have hnot : ∀ t, dropBlank s ≠ ']' :: t := by
    intro t ht
    cases honward with
    | first hfront =>
      rw [hfront.dropBlank_eq_cons hblank] at ht
      cases ht
      exact hclose rfl
    | comma hcomma _ =>
      rw [hcomma.dropBlank_eq_cons rfl] at ht
      cases ht
  unfold endOfList
  split
  case h_2 heq => exact absurd heq (hnot _)
  case h_3 =>
    split
    all_goals exact nofun
  all_goals exact nofun

theorem takesDocuments_member (hfill : FillsFrom shape.slots room fill) :
    TakesDocuments (shape.member room) (shape.takeMember fill) := by
  intro state key d s t u v hcolon hblanks hd next rest
  unfold member takeMember
  dsimp only
  cases hfind : shape.slots.find? fun slot => slot.name.toList == key with
  | none =>
    simp only [colon_of_blanks hcolon, bind_eq_ok_iff]
    constructor
    · rintro ⟨_, hc, _, hskip, h⟩
      cases hc
      rw [Skip.value_of_stands hblanks hd] at hskip
      cases hskip
      cases h
      exact ⟨rfl, rfl⟩
    · rintro ⟨h, rfl⟩
      cases h
      exact ⟨t, rfl, rest, Skip.value_of_stands hblanks hd, rfl⟩
  | some slot =>
    have hslot := hfill slot (List.mem_of_find?_eq_some hfind) state d t u v hblanks hd next rest
    dsimp only
    cases slot.isFilled state with
    | true => simp
    | false =>
      simp only [Bool.false_eq_true, if_false, colon_of_blanks hcolon, bind_eq_ok_iff]
      constructor
      · rintro ⟨_, hc, h⟩
        cases hc
        exact hslot.mp h
      · intro h
        exact ⟨t, rfl, hslot.mpr h⟩

theorem inOrder_eq_ok_iff {slots : List (Slot σ)} (hfill : FillsFrom slots room fill)
    {ds : List Document} (before : Nat) {s t : List Char}
    (hds : Elements Document.Stands (before == 0) ds s t) (state last : σ) (rest : List Char) :
    shape.inOrder room slots before state s = .ok (last, rest) ↔
      takeInOrder fill slots state ds = some last ∧ rest = t := by
  induction slots generalizing ds before s state with
  | nil =>
    unfold inOrder
    rw [bind_eq_ok_iff]
    cases hds with
    | done hclose =>
      rw [endOfList_of_blanks hclose]
      constructor
      · rintro ⟨_, hend, h⟩
        cases hend
        cases h
        exact ⟨rfl, rfl⟩
      · rintro ⟨h, rfl⟩
        cases h
        exact ⟨rest, rfl, rfl⟩
    | more honward hd _ =>
      constructor
      · rintro ⟨after, hend, _⟩
        exact absurd hend (endOfList_ne_ok honward hd after)
      · rintro ⟨h, _⟩
        cases h
  | cons slot slots ih =>
    obtain ⟨hslot, hslots⟩ := List.forall_mem_cons.mp hfill
    unfold inOrder
    rw [bind_eq_ok_iff]
    cases hds with
    | done hclose =>
      have hrest := ih hslots (before + 1) (.done hclose) state
      rw [nextElement_done _ hclose]
      unfold takeInOrder
      cases slot.optional with
      | true =>
        constructor
        · rintro ⟨_, hnext, h⟩
          cases hnext
          exact hrest.mp h
        · intro h
          exact ⟨_, rfl, hrest.mpr h⟩
      | false =>
        constructor
        · rintro ⟨_, hnext, h⟩
          cases hnext
          cases h
        · rintro ⟨h, _⟩
          cases h
    | @more _ d ds _ u v _ honward hd htail =>
      have hhead := hslot state d u u v (.none u) hd
      have hrest := fun next => ih hslots (before + 1) htail next
      rw [nextElement_more honward hd]
      simp only [takeInOrder, Option.bind_eq_some_iff]
      constructor
      · rintro ⟨_, hnext, h⟩
        cases hnext
        obtain ⟨⟨next, w⟩, hfilled, h⟩ := (bind_eq_ok_iff _ _ _).mp h
        obtain ⟨hnext, rfl⟩ := (hhead next w).mp hfilled
        obtain ⟨hlast, rfl⟩ := (hrest next).mp h
        exact ⟨⟨next, hnext, hlast⟩, rfl⟩
      · rintro ⟨⟨next, hnext, hlast⟩, rfl⟩
        refine ⟨_, rfl, (bind_eq_ok_iff _ _ _).mpr ⟨(next, v), (hhead next v).mpr ⟨hnext, rfl⟩, ?_⟩⟩
        exact (hrest next).mpr ⟨hlast, rfl⟩

/-- Once all members have been read, the record is finished. -/
theorem finish_eq_ok_iff {d : Document} {run : Except Fault (σ × List Char)} {t : List Char}
    (h : ∀ state rest, run = .ok (state, rest) ↔ shape.known fill d = some state ∧ rest = t) (x : α)
    (rest : List Char) :
    (run >>= fun p => shape.finish p.1 >>= fun x => .ok (x, p.2)) = .ok (x, rest) ↔
      shape.meaning fill d = some x ∧ rest = t := by
  simp only [bind_eq_ok_iff, Prod.exists, h, meaning, Option.bind_eq_some_iff, toOption_eq_some_iff]
  constructor
  · rintro ⟨state, _, ⟨hstate, rfl⟩, y, hy, hx⟩
    cases hx
    exact ⟨⟨state, hstate, hy⟩, rfl⟩
  · rintro ⟨⟨state, hstate, hx⟩, rfl⟩
    exact ⟨state, rest, ⟨hstate, rfl⟩, x, hx, rfl⟩

/-- A record is read from a document as the record that it is. -/
theorem understands_read (hfill : FillsFrom shape.slots room fill) :
    Understands (shape.read (room + 1)) (shape.meaning fill) := by
  apply understands_of_brackets
  · intro s
    unfold read
    rw [dropBlank_dropBlank]
  · intro ds s t hds x rest
    exact finish_eq_ok_iff (inOrder_eq_ok_iff hfill 0 hds shape.start) x rest
  · intro ms s t _ hms x rest
    exact finish_eq_ok_iff ((takesDocuments_member hfill).object_eq_ok_iff hms shape.start) x rest
  · intro s hbracket hbrace p h
    unfold read at h
    dsimp only at h
    split at h
    · rename_i heq
      exact hbracket _ heq
    · rename_i heq
      exact hbrace _ heq
    · cases h
  · intro d hlist hobject
    cases d with
    | list ds => exact absurd rfl (hlist ds)
    | object ms => exact absurd rfl (hobject ms)
    | _ => rfl

end Reading

/-! ## One member in the place of another -/

/-- Under a name, a document sets a part of what is known of a record, and what other
documents add does not depend on that part. -/
structure Owns {β : Type} (shape : Shape σ α) (fill : String → σ → Document → Option σ)
    (name : String) (part : Document → Option β) (set : β → σ → σ) : Prop where
  fills : ∀ state d, fill name state d = (part d).map fun x => set x state
  filled : ∀ slot ∈ shape.slots, slot.name = name → ∀ x state, slot.isFilled (set x state) = true
  fills_other : ∀ slot ∈ shape.slots, slot.name ≠ name → ∀ x state d,
    fill slot.name (set x state) d = (fill slot.name state d).map (set x)
  filled_other : ∀ slot ∈ shape.slots, slot.name ≠ name → ∀ x state,
    slot.isFilled (set x state) = slot.isFilled state

section Holes

variable {β : Type} {shape : Shape σ α} {fill : String → σ → Document → Option σ} {name : String}
  {part : Document → Option β} {set : β → σ → σ}

/-- The member takes its own slot, if that is free. -/
theorem Owns.takeMember_own (h : Owns shape fill name part set)
    (hname : name ∈ shape.slots.map Slot.name) (state : σ) :
    ∃ free : Bool, ∀ d, shape.takeMember fill state (name.toList, d) =
      if free then (part d).map (fun x => set x state) else none := by
  unfold takeMember
  cases hfind : shape.slots.find? fun slot => slot.name.toList == name.toList with
  | none =>
    obtain ⟨slot, hslot, rfl⟩ := List.mem_map.mp hname
    exact absurd (beq_self_eq_true slot.name.toList) (List.find?_eq_none.mp hfind slot hslot)
  | some slot =>
    have hmatch := List.find?_some hfind
    have hslot : slot.name = name := String.toList_inj.mp (eq_of_beq hmatch)
    refine ⟨!slot.isFilled state, fun d => ?_⟩
    dsimp only
    rw [hfind]
    dsimp only
    rw [hslot, h.fills]
    cases slot.isFilled state <;> rfl

/-- Behind the member, every other one adds the same whatever the part is. -/
theorem Owns.takeMember_after (h : Owns shape fill name part set) (state : σ)
    (m : List Char × Document) :
    ∃ next : Option σ, ∀ x, shape.takeMember fill (set x state) m = next.map (set x) := by
  unfold takeMember
  cases hfind : shape.slots.find? fun slot => slot.name.toList == m.1 with
  | none => exact ⟨some state, fun x => rfl⟩
  | some slot =>
    have hmem := List.mem_of_find?_eq_some hfind
    dsimp only
    by_cases hname : slot.name = name
    · refine ⟨none, fun x => ?_⟩
      rw [h.filled slot hmem hname x state]
      rfl
    · refine ⟨if slot.isFilled state then none else fill slot.name state m.2, fun x => ?_⟩
      rw [h.filled_other slot hmem hname x state, h.fills_other slot hmem hname x state]
      cases slot.isFilled state <;> rfl

theorem Owns.foldlM_after (h : Owns shape fill name part set) (ms : List (List Char × Document))
    (state : σ) :
    ∃ last : Option σ, ∀ x, ms.foldlM (shape.takeMember fill) (set x state) = last.map (set x) := by
  induction ms generalizing state with
  | nil => exact ⟨some state, fun x => rfl⟩
  | cons m ms ih =>
    obtain ⟨next, hnext⟩ := h.takeMember_after state m
    cases next with
    | none =>
      refine ⟨none, fun x => ?_⟩
      rw [List.foldlM_cons, hnext]
      rfl
    | some next =>
      obtain ⟨last, hlast⟩ := ih next
      refine ⟨last, fun x => ?_⟩
      rw [List.foldlM_cons, hnext]
      exact hlast x

theorem Owns.takeInOrder_after (h : Owns shape fill name part set) {slots : List (Slot σ)}
    (hslots : ∀ slot ∈ slots, slot ∈ shape.slots ∧ slot.name ≠ name) (ds : List Document)
    (state : σ) :
    ∃ last : Option σ, ∀ x, takeInOrder fill slots (set x state) ds = last.map (set x) := by
  induction slots generalizing ds state with
  | nil =>
    cases ds with
    | nil => exact ⟨some state, fun x => rfl⟩
    | cons d ds => exact ⟨none, fun x => rfl⟩
  | cons slot slots ih =>
    rw [List.forall_mem_cons] at hslots
    obtain ⟨⟨hmem, hname⟩, hslots⟩ := hslots
    cases ds with
    | nil =>
      obtain ⟨last, hlast⟩ := ih hslots [] state
      refine ⟨if slot.optional then last else none, fun x => ?_⟩
      unfold takeInOrder
      rw [hlast]
      cases slot.optional <;> rfl
    | cons d ds =>
      unfold takeInOrder
      cases hnext : fill slot.name state d with
      | none =>
        refine ⟨none, fun x => ?_⟩
        rw [h.fills_other slot hmem hname, hnext]
        rfl
      | some next =>
        obtain ⟨last, hlast⟩ := ih hslots ds next
        refine ⟨last, fun x => ?_⟩
        rw [h.fills_other slot hmem hname, hnext]
        exact hlast x

/-- A record in which one member is left open is what the others add, with the part that
the member sets. -/
theorem Owns.foldlM_hole (h : Owns shape fill name part set)
    (hname : name ∈ shape.slots.map Slot.name) (before after : List (List Char × Document))
    (state : σ) :
    ∃ last : Option σ, ∀ d,
      (before ++ (name.toList, d) :: after).foldlM (shape.takeMember fill) state =
        (part d).bind fun x => last.map (set x) := by
  cases hbefore : before.foldlM (shape.takeMember fill) state with
  | none =>
    refine ⟨none, fun d => ?_⟩
    rw [List.foldlM_append, hbefore]
    cases part d <;> rfl
  | some middle =>
    obtain ⟨free, hown⟩ := h.takeMember_own hname middle
    obtain ⟨last, hlast⟩ := h.foldlM_after after middle
    refine ⟨if free then last else none, fun d => ?_⟩
    have hstep : (before ++ (name.toList, d) :: after).foldlM (shape.takeMember fill) state =
        (shape.takeMember fill middle (name.toList, d)).bind
          fun next => after.foldlM (shape.takeMember fill) next := by
      rw [List.foldlM_append, hbefore]
      rfl
    rw [hstep, hown]
    cases part d with
    | none => cases free <;> rfl
    | some x =>
      cases free with
      | true => exact hlast x
      | false => rfl

theorem Owns.takeInOrder_hole (h : Owns shape fill name part set) {slots : List (Slot σ)}
    (hslots : ∀ slot ∈ slots, slot ∈ shape.slots) (hnodup : (slots.map Slot.name).Nodup)
    {before : List Document} (hplace : (slots.map Slot.name)[before.length]? = some name)
    (after : List Document) (state : σ) :
    ∃ last : Option σ, ∀ d, takeInOrder fill slots state (before ++ d :: after) =
      (part d).bind fun x => last.map (set x) := by
  induction before generalizing slots state with
  | nil =>
    cases slots with
    | nil => cases hplace
    | cons slot slots =>
      rw [List.map_cons, List.length_nil, List.getElem?_cons_zero, Option.some_inj] at hplace
      rw [List.map_cons, List.nodup_cons, hplace] at hnodup
      rw [List.forall_mem_cons] at hslots
      have hother : ∀ other ∈ slots, other ∈ shape.slots ∧ other.name ≠ name := by
        intro other hmem
        refine ⟨hslots.2 other hmem, ?_⟩
        rintro rfl
        exact hnodup.1 (List.mem_map_of_mem hmem)
      obtain ⟨last, hlast⟩ := h.takeInOrder_after hother after state
      refine ⟨last, fun d => ?_⟩
      rw [List.nil_append, takeInOrder, hplace, h.fills]
      cases part d with
      | none => rfl
      | some x => exact hlast x
  | cons b before ih =>
    cases slots with
    | nil => cases hplace
    | cons slot slots =>
      rw [List.map_cons, List.length_cons, List.getElem?_cons_succ] at hplace
      rw [List.map_cons, List.nodup_cons] at hnodup
      rw [List.forall_mem_cons] at hslots
      cases hnext : fill slot.name state b with
      | none =>
        refine ⟨none, fun d => ?_⟩
        rw [List.cons_append, takeInOrder, hnext]
        cases part d <;> rfl
      | some next =>
        obtain ⟨last, hlast⟩ := ih hslots.2 hnodup.2 hplace next
        refine ⟨last, fun d => ?_⟩
        rw [List.cons_append, takeInOrder, hnext]
        exact hlast d

/-- A record with one member left open means what that member adds to all the others. -/
theorem Owns.meaning_hole (h : Owns shape fill name part set)
    (hname : name ∈ shape.slots.map Slot.name) (hnodup : (shape.slots.map Slot.name).Nodup)
    {hole : Document → Document} (hhole : MemberHole (shape.slots.map Slot.name) name hole) :
    ∃ rest : Option σ, ∀ d, shape.meaning fill (hole d) =
      (part d).bind fun x => rest.bind fun state => (shape.finish (set x state)).toOption := by
  have hknown : ∃ rest : Option σ, ∀ d, shape.known fill (hole d) =
      (part d).bind fun x => rest.map (set x) := by
    cases hhole with
    | object before after => exact h.foldlM_hole hname before after shape.start
    | list after hplace =>
      exact h.takeInOrder_hole (fun _ hmem => hmem) hnodup hplace after shape.start
  obtain ⟨rest, hrest⟩ := hknown
  refine ⟨rest, fun d => ?_⟩
  unfold meaning
  rw [hrest]
  cases part d with
  | none => rfl
  | some x => cases rest <;> rfl

/-- In the place of a member of a record that has been read once, a document is read as the
part that it sets, and the record is the same apart from it. -/
theorem Owns.meaning_hole_eq_some_iff (h : Owns shape fill name part set)
    (hname : name ∈ shape.slots.map Slot.name) (hnodup : (shape.slots.map Slot.name).Nodup)
    {hole : Document → Document} (hhole : MemberHole (shape.slots.map Slot.name) name hole)
    (put : β → α → α) (hput : ∀ x₀ x state a, shape.finish (set x₀ state) = .ok a →
      shape.finish (set x state) = .ok (put x a))
    {d₀ : Document} {a₀ : α} (h₀ : shape.meaning fill (hole d₀) = some a₀) (d : Document) (a : α) :
    shape.meaning fill (hole d) = some a ↔ ∃ x, part d = some x ∧ a = put x a₀ := by
  obtain ⟨rest, hrest⟩ := h.meaning_hole hname hnodup hhole
  simp only [hrest, Option.bind_eq_some_iff, toOption_eq_some_iff] at h₀ ⊢
  obtain ⟨x₀, _, state, hstate, hfinish⟩ := h₀
  constructor
  · rintro ⟨x, hx, state', hstate', ha⟩
    rw [hstate] at hstate'
    cases hstate'
    rw [hput x₀ x state a₀ hfinish] at ha
    cases ha
    exact ⟨x, hx, rfl⟩
  · rintro ⟨x, hx, rfl⟩
    exact ⟨x, hx, state, hstate, hput x₀ x state a₀ hfinish⟩

end Holes

end Shape

end SeededStreams.Json
