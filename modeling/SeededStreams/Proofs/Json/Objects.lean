-- Objects as lists of members. Readers differ in what they do with a member, but
-- those that read every value whole go through the same members of the same
-- texts; what they make of an object is a fold over its list of members.
import Mathlib.Data.List.DropRight
import SeededStreams.Proofs.Json.Reading

namespace SeededStreams.Json

/-! ## The members of a text -/

/-- The members of an object, from behind its brace or behind a member of it. -/
def membersOf (inside : List Char → Except Fault (Value × List Char)) :
    (fuel : Nat) → (first : Bool) → List Char → Except Fault (List (List Char × Value) × List Char)
  | 0, _, _ => .error .objectCutShort
  | fuel + 1, first, s => do
    match ← nextMember first s with
    | .done rest => return ([], rest)
    | .more s =>
      let (key, s) ← Quoted.read s
      let (v, s) ← colon s >>= inside
      let (ms, s) ← membersOf inside fuel false s
      return ((key, v) :: ms, s)

/-- A reader of members takes the value of a member whole, and decides by key
and value alone what becomes of it. -/
def Takes {σ : Type} (inside : List Char → Except Fault (Value × List Char))
    (take : σ → List Char × Value → Except Fault σ)
    (member : σ → List Char → List Char → Except Fault (σ × List Char)) : Prop :=
  ∀ state key s next rest, member state key s = .ok (next, rest) ↔
    ∃ v, (colon s >>= inside) = .ok (v, rest) ∧ take state (key, v) = .ok next

section Takes

variable {σ : Type} {inside : List Char → Except Fault (Value × List Char)}
  {take : σ → List Char × Value → Except Fault σ}
  {member : σ → List Char → List Char → Except Fault (σ × List Char)}

theorem members_succ_eq_ok_iff (fuel : Nat) (first : Bool) (state : σ) (s : List Char) (last : σ)
    (rest : List Char) :
    members member (fuel + 1) first state s = .ok (last, rest) ↔
      (nextMember first s = .ok (.done rest) ∧ last = state) ∨
      ∃ t key u next v, nextMember first s = .ok (.more t) ∧ Quoted.read t = .ok (key, u) ∧
        member state key u = .ok (next, v) ∧ members member fuel false next v = .ok (last, rest) := by
  simp only [members, bind_eq_ok_iff]
  constructor
  · rintro ⟨next, hnext, h⟩
    cases next with
    | done after =>
      cases h
      exact Or.inl ⟨hnext, rfl⟩
    | more t =>
      simp only [bind_eq_ok_iff, Prod.exists] at h
      obtain ⟨key, u, hkey, next, v, hmember, htail⟩ := h
      exact Or.inr ⟨t, key, u, next, v, hnext, hkey, hmember, htail⟩
  · rintro (⟨hnext, rfl⟩ | ⟨t, key, u, next, v, hnext, hkey, hmember, htail⟩)
    · exact ⟨_, hnext, rfl⟩
    · refine ⟨_, hnext, ?_⟩
      simp only [bind_eq_ok_iff, Prod.exists]
      exact ⟨key, u, hkey, next, v, hmember, htail⟩

theorem membersOf_succ_eq_ok_iff (fuel : Nat) (first : Bool) (s : List Char)
    (ms : List (List Char × Value)) (rest : List Char) :
    membersOf inside (fuel + 1) first s = .ok (ms, rest) ↔
      (nextMember first s = .ok (.done rest) ∧ ms = []) ∨
      ∃ t key u v w tail, nextMember first s = .ok (.more t) ∧ Quoted.read t = .ok (key, u) ∧
        (colon u >>= inside) = .ok (v, w) ∧ membersOf inside fuel false w = .ok (tail, rest) ∧
        ms = (key, v) :: tail := by
  simp only [membersOf, bind_eq_ok_iff]
  constructor
  · rintro ⟨next, hnext, h⟩
    cases next with
    | done after =>
      cases h
      exact Or.inl ⟨hnext, rfl⟩
    | more t =>
      simp only [bind_eq_ok_iff, Prod.exists] at h
      obtain ⟨key, u, hkey, v, w, hvalue, tail, _, htail, h⟩ := h
      cases h
      exact Or.inr ⟨t, key, u, v, w, tail, hnext, hkey, hvalue, htail, rfl⟩
  · rintro (⟨hnext, rfl⟩ | ⟨t, key, u, v, w, tail, hnext, hkey, hvalue, htail, rfl⟩)
    · exact ⟨_, hnext, rfl⟩
    · refine ⟨_, hnext, ?_⟩
      simp only [bind_eq_ok_iff, Prod.exists]
      exact ⟨key, u, hkey, v, w, hvalue, tail, rest, htail, rfl⟩

/-- What such a reader makes of an object is a fold over the members. -/
theorem members_eq_ok_iff (h : Takes inside take member) (fuel : Nat) (first : Bool) (state : σ)
    (s : List Char) (last : σ) (rest : List Char) :
    members member fuel first state s = .ok (last, rest) ↔
      ∃ ms, membersOf inside fuel first s = .ok (ms, rest) ∧ ms.foldlM take state = .ok last := by
  induction fuel generalizing first state s with
  | zero => simp [members, membersOf]
  | succ fuel ih =>
    simp only [members_succ_eq_ok_iff, membersOf_succ_eq_ok_iff]
    constructor
    · rintro (⟨hnext, rfl⟩ | ⟨t, key, u, next, w, hnext, hkey, hmember, htail⟩)
      · exact ⟨[], Or.inl ⟨hnext, rfl⟩, rfl⟩
      · obtain ⟨v, hvalue, htake⟩ := (h _ _ _ _ _).mp hmember
        obtain ⟨tail, hms, hfold⟩ := (ih _ _ _).mp htail
        refine ⟨(key, v) :: tail, Or.inr ⟨t, key, u, v, w, tail, hnext, hkey, hvalue, hms, rfl⟩, ?_⟩
        rw [List.foldlM_cons, htake]
        exact hfold
    · rintro ⟨ms, ⟨hnext, rfl⟩ | ⟨t, key, u, v, w, tail, hnext, hkey, hvalue, hms, rfl⟩, hfold⟩
      · cases hfold
        exact Or.inl ⟨hnext, rfl⟩
      · rw [List.foldlM_cons, bind_eq_ok_iff] at hfold
        obtain ⟨next, htake, hfold⟩ := hfold
        have hmember := (h state key u next w).mpr ⟨v, hvalue, htake⟩
        have htail := (ih false next w).mpr ⟨tail, hms, hfold⟩
        exact Or.inr ⟨t, key, u, next, w, hnext, hkey, hmember, htail⟩

theorem object_eq_ok_iff (h : Takes inside take member) (start : σ) (s : List Char) (last : σ)
    (rest : List Char) :
    object member start s = .ok (last, rest) ↔
      ∃ ms, membersOf inside (s.length + 1) true s = .ok (ms, rest) ∧
        ms.foldlM take start = .ok last :=
  members_eq_ok_iff h _ _ _ _ _ _

end Takes

namespace Value

/-! ## Objects that are kept whole -/

/-- The member that is read is put before the others. -/
def keep (before : List (List Char × Value)) (m : List Char × Value) :
    Except Fault (List (List Char × Value)) := .ok (m :: before)

theorem foldlM_keep (ms before : List (List Char × Value)) :
    ms.foldlM keep before = .ok (ms.reverse ++ before) := by
  induction ms generalizing before with
  | nil => rfl
  | cons m ms ih =>
    rw [List.foldlM_cons, List.reverse_cons, List.append_assoc]
    exact ih (m :: before)

theorem takes_keep (inside : List Char → Except Fault (Value × List Char)) :
    Takes inside keep fun before key s => do
      let (v, s) ← inside (← colon s)
      return ((key, v) :: before, s) := by
  intro before key s next rest
  simp only [bind_eq_ok_iff, Prod.exists]
  constructor
  · rintro ⟨t, hcolon, v, u, hinside, h⟩
    cases h
    exact ⟨v, ⟨t, hcolon, hinside⟩, rfl⟩
  · rintro ⟨v, ⟨t, hcolon, hinside⟩, h⟩
    cases h
    exact ⟨t, hcolon, v, rest, hinside, rfl⟩

variable {inside : Option (List Char → Except Fault (Value × List Char))} {s t rest : List Char}
  {v : Value}

/-! ## What begins with a bracket, with a brace, and with neither -/

theorem readWith_eq_ok_of_list (hs : dropBlank s = '[' :: t) (h : readWith inside s = .ok (v, rest)) :
    ∃ f xs, inside = some f ∧ Json.list f t = .ok (xs, rest) ∧ v = .list xs := by
  unfold readWith at h
  rw [hs] at h
  cases inside with
  | none => cases h
  | some f =>
    simp only [bind_eq_ok_iff, Prod.exists] at h
    obtain ⟨xs, _, hxs, h⟩ := h
    cases h
    exact ⟨f, xs, rfl, hxs, rfl⟩

theorem readWith_eq_ok_of_object (hs : dropBlank s = '\x7b' :: t)
    (h : readWith inside s = .ok (v, rest)) :
    ∃ f ms, inside = some f ∧ membersOf f (t.length + 1) true t = .ok (ms, rest) ∧ v = .object ms := by
  unfold readWith at h
  rw [hs] at h
  cases inside with
  | none => cases h
  | some f =>
    simp only [bind_eq_ok_iff, Prod.exists] at h
    obtain ⟨kept, _, hkept, h⟩ := h
    obtain ⟨ms, hms, hfold⟩ := (object_eq_ok_iff (takes_keep f) _ _ _ _).mp hkept
    rw [foldlM_keep] at hfold
    cases hfold
    cases h
    refine ⟨f, ms, rfl, hms, ?_⟩
    rw [List.append_nil, List.reverse_reverse]

theorem readWith_dropBlank (inside : Option (List Char → Except Fault (Value × List Char)))
    (s : List Char) : readWith inside (dropBlank s) = readWith inside s := by
  unfold readWith dropBlank
  rw [List.dropWhile_idempotent isBlank]

/-- Without a bracket or a brace nothing is read inside the value. -/
theorem readWith_congr (hlist : ∀ t, dropBlank s ≠ '[' :: t) (hobject : ∀ t, dropBlank s ≠ '\x7b' :: t)
    (other : Option (List Char → Except Fault (Value × List Char))) :
    readWith inside s = readWith other s := by
  unfold readWith
  split
  case h_6 heq => exact absurd heq (hlist _)
  case h_7 heq => exact absurd heq (hobject _)
  all_goals rfl

/-- A value with nothing inside it. -/
def Plain : Value → Prop
  | list _ => False
  | object _ => False
  | _ => True

theorem plain_of_readWith (hlist : ∀ t, dropBlank s ≠ '[' :: t)
    (hobject : ∀ t, dropBlank s ≠ '\x7b' :: t) (h : readWith inside s = .ok (v, rest)) : v.Plain := by
  unfold readWith at h
  split at h
  case h_1 => cases h
  case h_6 heq => exact absurd heq (hlist _)
  case h_7 heq => exact absurd heq (hobject _)
  case h_8 =>
    split at h
    · simp only [bind_eq_ok_iff] at h
      obtain ⟨_, _, h⟩ := h
      cases h
      trivial
    · cases h
  all_goals
    simp only [bind_eq_ok_iff] at h
    obtain ⟨_, _, h⟩ := h
    cases h
    trivial
theorem readWith_eq_object_iff (ms : List (List Char × Value)) :
    readWith inside s = .ok (.object ms, rest) ↔
      ∃ f t, inside = some f ∧ dropBlank s = '\x7b' :: t ∧
        membersOf f (t.length + 1) true t = .ok (ms, rest) := by
  constructor
  · intro h
    by_cases hlist : ∃ t, dropBlank s = '[' :: t
    · obtain ⟨t, hs⟩ := hlist
      obtain ⟨_, _, _, _, hv⟩ := readWith_eq_ok_of_list hs h
      cases hv
    · by_cases hobject : ∃ t, dropBlank s = '\x7b' :: t
      · obtain ⟨t, hs⟩ := hobject
        obtain ⟨f, ms', hf, hms, hv⟩ := readWith_eq_ok_of_object hs h
        cases hv
        exact ⟨f, t, hf, hs, hms⟩
      · exact (plain_of_readWith (not_exists.mp hlist) (not_exists.mp hobject) h).elim
  · rintro ⟨f, t, rfl, hs, hms⟩
    have hkept := (object_eq_ok_iff (takes_keep f) [] t _ rest).mpr ⟨ms, hms, foldlM_keep ms []⟩
    unfold readWith
    simp only [hs, bind_eq_ok_iff, Prod.exists]
    refine ⟨_, _, hkept, ?_⟩
    rw [List.append_nil, List.reverse_reverse]
    rfl

theorem read_eq_object_iff (room : Nat) (ms : List (List Char × Value)) :
    read room s = .ok (.object ms, rest) ↔
      ∃ inner t, room = inner + 1 ∧ dropBlank s = '\x7b' :: t ∧
        membersOf (read inner) (t.length + 1) true t = .ok (ms, rest) := by
  cases room with
  | zero =>
    constructor
    · intro h
      obtain ⟨_, _, hf, _⟩ := (readWith_eq_object_iff ms).mp h
      cases hf
    · rintro ⟨_, _, h, _⟩
      cases h
  | succ room =>
    constructor
    · intro h
      obtain ⟨_, t, hf, hs, hms⟩ := (readWith_eq_object_iff ms).mp h
      cases hf
      exact ⟨room, t, rfl, hs, hms⟩
    · rintro ⟨_, t, h, hs, hms⟩
      cases h
      exact (readWith_eq_object_iff ms).mpr ⟨_, t, rfl, hs, hms⟩

end Value

/-! ## Values of a wanted sort -/

theorem Value.word_eq_ok_iff (wanted : String) (v : Value) (w : Word) :
    word wanted v = .ok w ↔ v = .number (.word w) := by
  cases v with
  | number x => cases x <;> simp [word]
  | _ => simp [word]

/-- A reader of values that have nothing inside them reads them as they are
read in general, and takes them as the wanted sort. -/
theorem scalar_eq_ok_iff {α : Type} {wanted : String} {as : Value → Except Fault α} {x : α}
    (hplain : ∀ v, as v = .ok x → v.Plain) (room : Nat)
    (inside : Option (List Char → Except Fault (Value × List Char))) (s rest : List Char) :
    scalar wanted as room s = .ok (x, rest) ↔
      ∃ v, Value.readWith inside s = .ok (v, rest) ∧ as v = .ok x := by
  unfold scalar
  split
  · rename_i t hs
    constructor
    · intro h
      cases h
    · rintro ⟨v, hread, has⟩
      obtain ⟨_, _, _, _, rfl⟩ := Value.readWith_eq_ok_of_list hs hread
      exact (hplain _ has).elim
  · rename_i t hs
    constructor
    · intro h
      cases h
    · rintro ⟨v, hread, has⟩
      obtain ⟨_, _, _, _, rfl⟩ := Value.readWith_eq_ok_of_object hs hread
      exact (hplain _ has).elim
  · rename_i hlist hobject
    have hread : Value.read 0 (dropBlank s) = Value.readWith inside s :=
      (Value.readWith_dropBlank none s).trans (Value.readWith_congr hlist hobject inside)
    simp only [hread, bind_eq_ok_iff, Prod.exists]
    constructor
    · rintro ⟨v, t, hv, y, has, h⟩
      cases h
      exact ⟨v, hv, has⟩
    · rintro ⟨v, hv, has⟩
      exact ⟨v, rest, hv, x, has, rfl⟩

/-- A name is read as the choice that has it, when no two choices share one. -/
theorem choice_eq_ok_iff {α : Type} {choices : List α} {name : α → String}
    (hname : ∀ a ∈ choices, ∀ b ∈ choices, name a = name b → a = b) {a : α} (ha : a ∈ choices)
    (key : List Char) : choice choices name key = .ok a ↔ key = (name a).toList := by
  unfold choice
  split
  · rename_i b hb
    have hmatch := List.find?_some hb
    have hkey : (name b).toList = key := eq_of_beq hmatch
    constructor
    · intro h
      cases h
      exact hkey.symm
    · intro h
      have hab : name b = name a := String.toList_inj.mp (hkey.trans h)
      rw [hname b (List.mem_of_find?_eq_some hb) a ha hab]
  · rename_i hnone
    constructor
    · intro h
      cases h
    · intro h
      exact absurd (beq_iff_eq.mpr h.symm) (List.find?_eq_none.mp hnone a ha)

end SeededStreams.Json
