-- Reading back what has been written. A written value is read up to its end,
-- whatever may follow it there; so lists and objects are read back when each
-- of their parts is, and a record when its members are gathered one by one.
import SeededStreams.Json.Record
import SeededStreams.Proofs.Json.Numbers
import SeededStreams.Proofs.Json.Reading
import SeededStreams.Proofs.Json.Strings

namespace SeededStreams.Json

/-! ## Texts that are read back -/

/-- The text begins a value and not the end of a list. -/
def Starts (text : List Char) : Prop :=
  ∃ c s, text = c :: s ∧ isBlank c = false ∧ c ≠ ']'

/-- The text is read as `x`, and not past its end. -/
structure Reads {α : Type} (element : List Char → Except Fault (α × List Char)) (text : List Char)
    (x : α) : Prop where
  starts : Starts text
  reads : ∀ rest, Ended rest → element (text ++ rest) = .ok (x, rest)

theorem parse_of_reads {α : Type} {reader : Reader α} {text : List Char} {x : α}
    (h : Reads (reader depthLimit) text x) : parse reader text = .ok x := by
  have hread := h.reads [] ended_nil
  rw [List.append_nil] at hread
  exact (parse_eq_ok_iff reader text x).mpr ⟨[], hread, rfl⟩

theorem Starts.dropBlank {text : List Char} (h : Starts text) (rest : List Char) :
    dropBlank (text ++ rest) = text ++ rest := by
  obtain ⟨c, s, rfl, hblank, _⟩ := h
  exact dropBlank_cons _ hblank

theorem Starts.length_pos {text : List Char} (h : Starts text) : 0 < text.length := by
  obtain ⟨c, s, rfl, _, _⟩ := h
  exact Nat.zero_lt_succ _

/-! ## Texts with commas between them -/

/-- The texts behind the first one, each with its comma. -/
def followers (texts : List (List Char)) : List Char := texts.flatMap (',' :: ·)

theorem commas_cons (text : List Char) (texts : List (List Char)) :
    commas (text :: texts) = text ++ followers texts := by
  induction texts generalizing text with
  | nil => exact (List.append_nil text).symm
  | cons next texts ih =>
    rw [commas, ih]
    · rfl
    · exact List.cons_ne_nil _ _

/-- Behind a value stands a comma or the bracket that closes its list. -/
theorem ended_followers (texts : List (List Char)) {close : List Char} (hclose : Ended close) :
    Ended (followers texts ++ close) := by
  cases texts with
  | nil => exact hclose
  | cons text texts => exact ended_comma _

theorem length_le_followers (texts : List (List Char)) : texts.length ≤ (followers texts).length := by
  induction texts with
  | nil => exact Nat.le_refl 0
  | cons text texts ih =>
    rw [followers, List.flatMap_cons, List.length_append]
    simp only [List.length_cons]
    unfold followers at ih
    omega

theorem length_le_commas {texts : List (List Char)} (h : ∀ text ∈ texts, 0 < text.length) :
    texts.length ≤ (commas texts).length := by
  cases texts with
  | nil => exact Nat.le_refl 0
  | cons text texts =>
    have htext := h text List.mem_cons_self
    have hrest := length_le_followers texts
    rw [commas_cons, List.length_append, List.length_cons]
    omega

/-! ## Lists -/

theorem nextElement_first {text : List Char} (h : Starts text) (rest : List Char) :
    nextElement true (text ++ rest) = .ok (.more (text ++ rest)) := by
  have hdrop := h.dropBlank rest
  obtain ⟨c, s, rfl, _, hclose⟩ := h
  unfold nextElement
  rw [hdrop, List.cons_append]
  split
  · rename_i heq
    cases heq
  · rename_i heq
    cases heq
    exact absurd rfl hclose
  · rename_i heq
    cases heq
    rfl

theorem nextElement_comma {text : List Char} (h : Starts text) (rest : List Char) :
    nextElement false (',' :: (text ++ rest)) = .ok (.more (text ++ rest)) := by
  have hdrop := h.dropBlank rest
  have hcomma : dropBlank (',' :: (text ++ rest)) = ',' :: (text ++ rest) := dropBlank_cons _ rfl
  obtain ⟨c, s, rfl, _, hclose⟩ := h
  unfold nextElement
  rw [hcomma]
  split
  · rename_i heq
    cases heq
  · rename_i heq
    cases heq
  · rename_i heq
    cases heq
    rw [if_neg (by decide), if_pos rfl, hdrop]
    split
    · rename_i heq
      cases heq
    · rename_i heq
      cases heq
      exact absurd rfl hclose
    · rfl

section Lists

variable {α : Type} {element : List Char → Except Fault (α × List Char)}

theorem starts_of_mem {texts : List (List Char)} {xs : List α}
    (h : List.Forall₂ (Reads element) texts xs) {text : List Char} (htext : text ∈ texts) :
    Starts text := by
  induction h with
  | nil => cases htext
  | cons hhead _ ih =>
    rcases List.mem_cons.mp htext with rfl | htail
    · exact hhead.starts
    · exact ih htail

/-- The elements behind the first one. Each takes a unit of fuel, and the end
of the list takes one more. -/
theorem elements_followers {texts : List (List Char)} {xs : List α}
    (h : List.Forall₂ (Reads element) texts xs) {fuel : Nat} (hfuel : texts.length < fuel)
    (rest : List Char) :
    elements element fuel false (followers texts ++ ']' :: rest) = .ok (xs, rest) := by
  induction h generalizing fuel with
  | nil =>
    obtain ⟨fuel, rfl⟩ := Nat.exists_eq_succ_of_ne_zero (Nat.ne_zero_of_lt hfuel)
    rfl
  | @cons text x texts xs hhead _ ih =>
    obtain ⟨fuel, rfl⟩ := Nat.exists_eq_succ_of_ne_zero (Nat.ne_zero_of_lt hfuel)
    have htail := ih (Nat.lt_of_succ_lt_succ hfuel)
    have hread := hhead.reads _ (ended_followers texts (ended_bracket rest))
    rw [followers, List.flatMap_cons, List.append_assoc, List.cons_append, elements,
      nextElement_comma hhead.starts]
    simp only [bind, Except.bind]
    unfold followers at hread htail
    rw [hread]
    simp only
    rw [htail]
    rfl

theorem elements_commas {texts : List (List Char)} {xs : List α}
    (h : List.Forall₂ (Reads element) texts xs) {fuel : Nat} (hfuel : texts.length < fuel)
    (rest : List Char) :
    elements element fuel true (commas texts ++ ']' :: rest) = .ok (xs, rest) := by
  obtain ⟨fuel, rfl⟩ := Nat.exists_eq_succ_of_ne_zero (Nat.ne_zero_of_lt hfuel)
  cases h with
  | nil => rfl
  | @cons text x texts xs hhead htail =>
    have hread := hhead.reads _ (ended_followers texts (ended_bracket rest))
    have hrest := elements_followers htail (Nat.lt_of_succ_lt_succ hfuel) rest
    rw [commas_cons, List.append_assoc, elements, nextElement_first hhead.starts]
    simp only [bind, Except.bind]
    rw [hread]
    simp only
    rw [hrest]
    rfl

/-- A list is read from behind its bracket, with fuel from the length of the text. -/
theorem list_commas {texts : List (List Char)} {xs : List α}
    (h : List.Forall₂ (Reads element) texts xs) (rest : List Char) :
    list element (commas texts ++ ']' :: rest) = .ok (xs, rest) := by
  have hlength := length_le_commas (fun text htext => (starts_of_mem h htext).length_pos)
  apply elements_commas h
  rw [List.length_append]
  omega

/-- As many elements as are wanted, behind at least one other element. -/
theorem exactly_followers {texts : List (List Char)} {xs : List α}
    (h : List.Forall₂ (Reads element) texts xs) (wanted : String) (before : Nat) (rest : List Char) :
    exactly wanted element texts.length (before + 1) (followers texts ++ ']' :: rest) =
      .ok (xs, rest) := by
  induction h generalizing before with
  | nil => rfl
  | @cons text x texts xs hhead _ ih =>
    have htail := ih (before + 1)
    have hread := hhead.reads _ (ended_followers texts (ended_bracket rest))
    rw [followers, List.flatMap_cons, List.append_assoc, List.cons_append, List.length_cons, exactly,
      beq_eq_false_iff_ne.mpr (Nat.succ_ne_zero before), nextElement_comma hhead.starts]
    simp only [bind, Except.bind]
    unfold followers at hread htail
    rw [hread]
    simp only
    rw [htail]
    rfl

/-- A list of a wanted length is read from behind its bracket. -/
theorem exactly_commas {texts : List (List Char)} {xs : List α}
    (h : List.Forall₂ (Reads element) texts xs) (wanted : String) (rest : List Char) :
    exactly wanted element texts.length 0 (commas texts ++ ']' :: rest) = .ok (xs, rest) := by
  cases h with
  | nil => rfl
  | @cons text x texts xs hhead htail =>
    have hread := hhead.reads _ (ended_followers texts (ended_bracket rest))
    have hrest := exactly_followers htail wanted 0 rest
    rw [commas_cons, List.append_assoc, List.length_cons, exactly, beq_self_eq_true,
      nextElement_first hhead.starts]
    simp only [bind, Except.bind]
    rw [hread]
    simp only
    rw [hrest]
    rfl

end Lists

/-! ## Objects -/

section Objects

variable {σ : Type} {member : σ → List Char → List Char → Except Fault (σ × List Char)}

/-- Written members lead from one state to another when each of them, read
from the colon behind its key, leads to the next. -/
inductive Gathers (member : σ → List Char → List Char → Except Fault (σ × List Char)) :
    σ → List (String × List Char) → σ → Prop where
  | nil (state : σ) : Gathers member state [] state
  | cons {state next last : σ} {key : String} {text : List Char} {ms : List (String × List Char)} :
      (∀ rest, Ended rest → member state key.toList (':' :: (text ++ rest)) = .ok (next, rest)) →
      Gathers member next ms last → Gathers member state ((key, text) :: ms) last

/-- Members that each carry a state on by their own name are gathered in any
order, as long as none comes twice. -/
theorem gathers_of_names {state : List String → σ} {ms : List (String × List Char)}
    (hfill : ∀ m ∈ ms, ∀ names, m.1 ∉ names → ∀ rest, Ended rest →
      member (state names) m.1.toList (':' :: (m.2 ++ rest)) = .ok (state (m.1 :: names), rest))
    (hnodup : (ms.map Prod.fst).Nodup) {names : List String} (hnew : ∀ m ∈ ms, m.1 ∉ names) :
    Gathers member (state names) ms (state ((ms.map Prod.fst).reverse ++ names)) := by
  induction ms generalizing names with
  | nil => exact .nil _
  | cons m ms ih =>
    rw [List.forall_mem_cons] at hfill hnew
    rw [List.map_cons, List.nodup_cons] at hnodup
    rw [List.map_cons, List.reverse_cons, List.append_assoc]
    refine .cons (hfill.1 names hnew.1) (ih hfill.2 hnodup.2 ?_)
    intro other hother
    rw [List.mem_cons, not_or]
    refine ⟨?_, hnew.2 other hother⟩
    intro hsame
    exact hnodup.1 (hsame ▸ List.mem_map_of_mem hother)

theorem nextMember_first (rest : List Char) : nextMember true ('"' :: rest) = .ok (.more rest) := rfl

theorem nextMember_comma (rest : List Char) :
    nextMember false (',' :: '"' :: rest) = .ok (.more rest) := rfl

theorem colon_cons (rest : List Char) : colon (':' :: rest) = .ok rest := rfl

theorem writeMember_append (key : String) (text rest : List Char) :
    writeMember (key, text) ++ rest =
      '"' :: (key.toList.flatMap Quoted.escape ++ '"' :: (':' :: (text ++ rest))) := by
  unfold writeMember Quoted.write
  simp only [List.cons_append, List.append_assoc, List.nil_append]

/-- One member has been opened; the others follow. -/
theorem members_followers {state last : σ} {ms : List (String × List Char)}
    (h : Gathers member state ms last) {fuel : Nat} (hfuel : ms.length < fuel) (rest : List Char) :
    members member fuel false state (followers (ms.map writeMember) ++ '\x7d' :: rest) =
      .ok (last, rest) := by
  induction h generalizing fuel with
  | nil state =>
    obtain ⟨fuel, rfl⟩ := Nat.exists_eq_succ_of_ne_zero (Nat.ne_zero_of_lt hfuel)
    rfl
  | @cons state next last key text ms hhead _ ih =>
    obtain ⟨fuel, rfl⟩ := Nat.exists_eq_succ_of_ne_zero (Nat.ne_zero_of_lt hfuel)
    have htail := ih (Nat.lt_of_succ_lt_succ hfuel)
    have hread := hhead _ (ended_followers (ms.map writeMember) (ended_brace rest))
    rw [List.map_cons, followers, List.flatMap_cons, List.append_assoc, List.cons_append,
      writeMember_append, members, nextMember_comma]
    simp only [bind, Except.bind, Quoted.read_write]
    unfold followers at hread htail
    rw [hread]
    exact htail

theorem object_commas {state last : σ} {ms : List (String × List Char)}
    (h : Gathers member state ms last) (rest : List Char) :
    object member state (commas (ms.map writeMember) ++ '\x7d' :: rest) = .ok (last, rest) := by
  have hlength : (ms.map writeMember).length ≤ (commas (ms.map writeMember)).length := by
    apply length_le_commas
    intro text htext
    obtain ⟨m, _, rfl⟩ := List.mem_map.mp htext
    exact Nat.zero_lt_succ _
  rw [List.length_map] at hlength
  unfold object
  generalize hfuel : (commas (ms.map writeMember) ++ '\x7d' :: rest).length + 1 = fuel
  rw [List.length_append] at hfuel
  obtain ⟨fuel, rfl⟩ := Nat.exists_eq_succ_of_ne_zero (by omega : fuel ≠ 0)
  cases h with
  | nil => rfl
  | @cons _ next _ key text ms hhead htail =>
    have hread := hhead _ (ended_followers (ms.map writeMember) (ended_brace rest))
    have hcount : ms.length < fuel := by
      rw [List.length_cons] at hlength
      omega
    have hrest := members_followers htail hcount rest
    rw [List.map_cons, commas_cons, List.append_assoc, writeMember_append, members,
      nextMember_first]
    simp only [bind, Except.bind, Quoted.read_write]
    rw [hread]
    exact hrest

end Objects

end SeededStreams.Json
