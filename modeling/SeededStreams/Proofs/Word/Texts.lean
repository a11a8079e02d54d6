-- Texts of words. A word may be written in decimal, or in hexadecimal with letters
-- of either case, and with any zeros before it; each of these texts is read as it.
import Mathlib.Data.List.Forall2
import Mathlib.Data.Nat.Digits.Defs
import Mathlib.Tactic.IntervalCases
import Mathlib.Tactic.Ring
import SeededStreams.Word.Text

namespace SeededStreams.Word

/-! ## Digits -/

/-- The character is a digit of the base, with its letter in either case. -/
structure IsDigit (base : Nat) (c : Char) (d : Nat) : Prop where
  lt : d < base
  char : c = Nat.digitChar d ∨ c = (Nat.digitChar d).toUpper

instance (base : Nat) (c : Char) (d : Nat) : Decidable (IsDigit base c d) :=
  decidable_of_iff (d < base ∧ (c = Nat.digitChar d ∨ c = (Nat.digitChar d).toUpper))
    ⟨fun h => ⟨h.1, h.2⟩, fun h => ⟨h.lt, h.char⟩⟩

/-- The text is one or more digits of the base, and `n` is what they are worth by their places. -/
def Denotes (base : Nat) (s : List Char) (n : Nat) : Prop :=
  s ≠ [] ∧ ∃ ds, List.Forall₂ (IsDigit base) s ds ∧ n = Nat.ofDigits base ds.reverse

/-- The texts of a word: decimal, or hexadecimal behind 0x or 0X. -/
inductive Text : List Char → Word → Prop where
  | decimal {s : List Char} {w : Word} : Denotes 10 s w.toNat → Text s w
  | hexadecimal {s : List Char} {w : Word} {x : Char} : x = 'x' ∨ x = 'X' → Denotes 16 s w.toNat →
      Text ('0' :: x :: s) w

/-! ## Writing -/

section Writing

variable {base : Nat}

/-- A digit behind a text counts once, and what stands before it `base` times as much. -/
theorem Denotes.append {s : List Char} {n : Nat} (h : Denotes base s n) {c : Char} {d : Nat}
    (hd : IsDigit base c d) : Denotes base (s ++ [c]) (n * base + d) := by
  obtain ⟨_, ds, hds, rfl⟩ := h
  refine ⟨List.append_ne_nil_of_right_ne_nil s (List.cons_ne_nil c []), ds ++ [d],
    List.rel_append hds (.cons hd .nil), ?_⟩
  rw [List.reverse_append, List.reverse_singleton, List.singleton_append, Nat.ofDigits_cons]
  ring

/-- Each number has a text. -/
theorem denotes_toDigits (hbase : 1 < base) (n : Nat) : Denotes base (Nat.toDigits base n) n := by
  induction n using Nat.strongRecOn with
  | ind n ih =>
    by_cases hlt : n < base
    · rw [Nat.toDigits_of_lt_base hlt]
      exact ⟨List.cons_ne_nil _ _, [n], .cons ⟨hlt, .inl rfl⟩ .nil, Nat.ofDigits_singleton.symm⟩
    · have hquotient := ih (n / base) (Nat.div_lt_self (by omega) hbase)
      have hdigit : IsDigit base (Nat.digitChar (n % base)) (n % base) :=
        ⟨Nat.mod_lt n (by omega), .inl rfl⟩
      have hall := hquotient.append hdigit
      rw [Nat.div_add_mod'] at hall
      rw [Nat.toDigits_of_base_le hbase (Nat.not_lt.mp hlt)]
      exact hall

/-- Each word has a text. -/
theorem text_toDigits (w : Word) : Text (Nat.toDigits 10 w.toNat) w :=
  .decimal (denotes_toDigits (by decide) w.toNat)

end Writing

section Digits

variable {base : Nat} (hbase : base ≤ 16)

include hbase

theorem IsDigit.digitValue? {c : Char} {d : Nat} (h : IsDigit base c d) : digitValue? c = some d := by
  obtain ⟨hlt, hchar⟩ := h
  have hd : d < 16 := by omega
  interval_cases d <;> rcases hchar with rfl | rfl <;> decide

theorem IsDigit.isAlphanum {c : Char} {d : Nat} (h : IsDigit base c d) :
    c.isAlphanum = true ∧ c ≠ 'x' ∧ c ≠ 'X' := by
  obtain ⟨hlt, hchar⟩ := h
  have hd : d < 16 := by omega
  interval_cases d <;> rcases hchar with rfl | rfl <;> decide

theorem Denotes.isAlphanum {s : List Char} {n : Nat} (h : Denotes base s n) :
    ∀ c ∈ s, c.isAlphanum = true ∧ c ≠ 'x' ∧ c ≠ 'X' := by
  obtain ⟨_, ds, hds, _⟩ := h
  clear * - hbase hds
  induction hds with
  | nil => exact List.forall_mem_nil _
  | cons hd _ ih => exact List.forall_mem_cons.mpr ⟨hd.isAlphanum hbase, ih⟩

/-! ## Reading -/

/-- No digit before the last makes the value too large when the last does not. -/
theorem digitsOnto_eq {s : List Char} {ds : List Nat} (h : List.Forall₂ (IsDigit base) s ds) (v : Nat)
    (hfits : v * base ^ ds.length + Nat.ofDigits base ds.reverse < UInt64.size) :
    digitsOnto base v s = .ok (v * base ^ ds.length + Nat.ofDigits base ds.reverse) := by
  induction h generalizing v with
  | nil => simp [digitsOnto]
  | @cons c d s ds hd hds ih =>
    have hvalue : v * base ^ (d :: ds).length + Nat.ofDigits base (d :: ds).reverse =
        (v * base + d) * base ^ ds.length + Nat.ofDigits base ds.reverse := by
      rw [List.reverse_cons, Nat.ofDigits_append, Nat.ofDigits_singleton, List.length_reverse,
        List.length_cons]
      ring
    rw [hvalue] at hfits ⊢
    have hpos : 0 < base ^ ds.length := Nat.pow_pos (Nat.zero_lt_of_lt hd.lt)
    have hle : v * base + d ≤ (v * base + d) * base ^ ds.length := Nat.le_mul_of_pos_right _ hpos
    simp only [digitsOnto, hd.digitValue? hbase]
    rw [if_neg (Nat.not_le.mpr hd.lt), if_pos (by omega)]
    exact ih (v * base + d) hfits

theorem natOfText_of_denotes {s : List Char} {n : Nat} (h : Denotes base s n) (hn : n < UInt64.size) :
    natOfText base s = .ok n := by
  have hchars := h.isAlphanum hbase
  obtain ⟨hne, ds, hds, rfl⟩ := h
  have hread : digitsOnto base 0 s = .ok (Nat.ofDigits base ds.reverse) := by
    have hall := digitsOnto_eq hbase hds 0
    rw [Nat.zero_mul, Nat.zero_add] at hall
    exact hall hn
  cases s with
  | nil => exact absurd rfl hne
  | cons c s =>
    have hplus : c ≠ '+' := by
      rintro rfl
      exact absurd (hchars '+' List.mem_cons_self).1 (by decide)
    unfold natOfText
    split
    · rename_i h
      cases h
    · rename_i h
      cases h
      exact absurd rfl hplus
    · rename_i h
      cases h
      exact absurd rfl hplus
    · exact hread

end Digits

/-- The text of a word is made of letters and digits. -/
theorem Text.isAlphanum {s : List Char} {w : Word} (h : Text s w) :
    s ≠ [] ∧ ∀ c ∈ s, c.isAlphanum = true := by
  cases h with
  | decimal h => exact ⟨h.1, fun c hc => (h.isAlphanum (by decide) c hc).1⟩
  | hexadecimal hx h =>
    refine ⟨List.cons_ne_nil _ _, List.forall_mem_cons.mpr ⟨rfl, List.forall_mem_cons.mpr ⟨?_, ?_⟩⟩⟩
    · rcases hx with rfl | rfl <;> rfl
    · exact fun c hc => (h.isAlphanum (by decide) c hc).1

theorem ofText_of_text {s : List Char} {w : Word} (h : Text s w) : ofText s = .ok w := by
  have hread {n : Except TextFault Nat} (hn : n = .ok w.toNat) :
      (do let n ← n; return UInt64.ofNat n) = Except.ok w := by
    rw [hn]
    exact congrArg Except.ok (UInt64.ofNat_toNat)
  cases h with
  | decimal h =>
    have hchars := h.isAlphanum (by decide)
    have hten := natOfText_of_denotes (by decide) h w.toNat_lt
    unfold ofText
    dsimp only
    split
    · exact absurd rfl (hchars 'x' (by simp)).2.1
    · exact absurd rfl (hchars 'X' (by simp)).2.2
    · exact hread hten
  | hexadecimal hx h =>
    have hsixteen := natOfText_of_denotes (by decide) h w.toNat_lt
    rcases hx with rfl | rfl
    · exact hread hsixteen
    · exact hread hsixteen

end SeededStreams.Word
