-- Which texts are words. The texts of a word form a small grammar: a mark of the
-- base or none, a plus sign or none, and digits, of which there is one at least;
-- and a text is read as a word only if the grammar says so.
import SeededStreams.Proofs.Word.Texts

namespace SeededStreams.Word

/-! ## The grammar -/

/-- Digits of a base, with one plus sign before them or none. -/
inductive Signed (base : Nat) : List Char → Nat → Prop where
  | bare {s : List Char} {n : Nat} : Denotes base s n → Signed base s n
  | plus {s : List Char} {n : Nat} : Denotes base s n → Signed base ('+' :: s) n

/-- The text begins with the mark of a hexadecimal number. -/
def Marked (s : List Char) : Prop := ∃ x rest, s = '0' :: x :: rest ∧ (x = 'x' ∨ x = 'X')

/-- The texts that are words: hexadecimal behind a mark, and decimal without one. -/
inductive Written : List Char → Word → Prop where
  | hexadecimal {x : Char} {s : List Char} {w : Word} : x = 'x' ∨ x = 'X' → Signed 16 s w.toNat →
      Written ('0' :: x :: s) w
  | decimal {s : List Char} {w : Word} : ¬ Marked s → Signed 10 s w.toNat → Written s w

/-! ## Digits -/

/-- Where every character of a range is a digit, each worth its distance from one
place, so is one that is found to lie in the range. -/
theorem digitChar_of_range {first last : Char} (place : Nat)
    (hall : ∀ k, first.toNat ≤ k → k ≤ last.toNat → Char.ofNat k = Nat.digitChar (k - place) ∨
      Char.ofNat k = (Nat.digitChar (k - place)).toUpper)
    {c : Char} (h : first ≤ c ∧ c ≤ last) :
    c = Nat.digitChar (c.toNat - place) ∨ c = (Nat.digitChar (c.toNat - place)).toUpper := by
  have hdigit := hall c.toNat h.1 h.2
  rwa [Char.ofNat_toNat] at hdigit

/-- What has the value of a digit is that digit, with its letter in either case. -/
theorem isDigit_of_digitValue? {base : Nat} {c : Char} {d : Nat} (h : digitValue? c = some d)
    (hd : d < base) : IsDigit base c d := by
  refine ⟨hd, ?_⟩
  unfold digitValue? at h
  split_ifs at h with hdecimal hlower hupper
  · cases h
    exact digitChar_of_range 48 (by decide) hdecimal
  · cases h
    exact digitChar_of_range 87 (by decide) hlower
  · cases h
    exact digitChar_of_range 55 (by decide) hupper

section Digits

variable {base : Nat} (hbase : base ≤ 16)

include hbase

/-- Digits are taken onto a value when all of them are digits and all of it fits a word. -/
theorem digitsOnto_eq_ok_iff {v : Nat} (hv : v < UInt64.size) (s : List Char) (n : Nat) :
    digitsOnto base v s = .ok n ↔
      n < UInt64.size ∧ ∃ ds, List.Forall₂ (IsDigit base) s ds ∧
        n = v * base ^ ds.length + Nat.ofDigits base ds.reverse := by
  constructor
  · intro h
    induction s generalizing v with
    | nil =>
      cases h
      exact ⟨hv, [], .nil, by simp⟩
    | cons c s ih =>
      rw [digitsOnto] at h
      split at h
      · cases h
      · rename_i d hvalue
        split at h
        · cases h
        · rename_i hdigit
          split at h
          · rename_i hfits
            obtain ⟨hn, ds, hds, rfl⟩ := ih hfits h
            have hc := isDigit_of_digitValue? hvalue (Nat.not_le.mp hdigit)
            refine ⟨hn, d :: ds, .cons hc hds, ?_⟩
            rw [List.reverse_cons, Nat.ofDigits_append, Nat.ofDigits_singleton, List.length_reverse,
              List.length_cons]
            ring
          · cases h
  · rintro ⟨hn, ds, hds, rfl⟩
    exact digitsOnto_eq hbase hds v hn

theorem digitsOnto_zero_eq_ok_iff {s : List Char} (hs : s ≠ []) (n : Nat) :
    digitsOnto base 0 s = .ok n ↔ Denotes base s n ∧ n < UInt64.size := by
  rw [digitsOnto_eq_ok_iff hbase (by decide)]
  simp only [Nat.zero_mul, Nat.zero_add]
  constructor
  · rintro ⟨hn, ds, hds, h⟩
    exact ⟨⟨hs, ds, hds, h⟩, hn⟩
  · rintro ⟨⟨_, ds, hds, h⟩, hn⟩
    exact ⟨hn, ds, hds, h⟩

/-- A plus sign is no digit. -/
theorem not_denotes_plus (s : List Char) (n : Nat) : ¬ Denotes base ('+' :: s) n := by
  intro h
  exact absurd (h.isAlphanum hbase '+' List.mem_cons_self).1 (by decide)

theorem signed_plus_iff (s : List Char) (n : Nat) : Signed base ('+' :: s) n ↔ Denotes base s n := by
  constructor
  · intro h
    cases h with
    | bare h => exact absurd h (not_denotes_plus hbase s n)
    | plus h => exact h
  · exact .plus

theorem natOfText_eq_ok_iff (s : List Char) (n : Nat) :
    natOfText base s = .ok n ↔ Signed base s n ∧ n < UInt64.size := by
  have hempty : ¬ Denotes base [] n := fun h => h.1 rfl
  unfold natOfText
  split
  case h_1 =>
    constructor
    · intro h
      cases h
    · rintro ⟨h, _⟩
      cases h with
      | bare h => exact absurd h hempty
  case h_2 =>
    rw [signed_plus_iff hbase]
    constructor
    · intro h
      cases h
    · rintro ⟨h, _⟩
      exact absurd h hempty
  case h_3 rest hrest =>
    rw [signed_plus_iff hbase]
    exact digitsOnto_zero_eq_ok_iff hbase (fun h => hrest (by rw [h])) n
  case h_4 hne _ hplus =>
    have hsigned : Signed base s n ↔ Denotes base s n := by
      constructor
      · intro h
        cases h with
        | bare h => exact h
        | plus h => exact absurd rfl (hplus _)
      · exact .bare
    rw [hsigned]
    exact digitsOnto_zero_eq_ok_iff hbase hne n

end Digits

/-! ## Words -/

/-- A word that is made of a number is the number if that fits. -/
theorem bind_ofNat_eq_ok_iff {n : Except TextFault Nat} (w : Word)
    (hn : ∀ v, n = .ok v → v < UInt64.size) :
    (do let n ← n; return UInt64.ofNat n) = .ok w ↔ n = .ok w.toNat := by
  cases n with
  | error fault =>
    constructor
    · intro h
      cases h
    · intro h
      cases h
  | ok v =>
    have hv : (UInt64.ofNat v).toNat = v := UInt64.toNat_ofNat_of_lt (hn v rfl)
    constructor
    · intro h
      cases h
      rw [hv]
    · intro h
      cases h
      exact congrArg Except.ok UInt64.ofNat_toNat

theorem bind_natOfText_eq_ok_iff {base : Nat} (hbase : base ≤ 16) (s : List Char) (w : Word) :
    (do let n ← natOfText base s; return UInt64.ofNat n) = .ok w ↔ Signed base s w.toNat := by
  rw [bind_ofNat_eq_ok_iff w fun v hv => ((natOfText_eq_ok_iff hbase s v).mp hv).2,
    natOfText_eq_ok_iff hbase]
  exact and_iff_left w.toNat_lt

theorem written_marked_iff {x : Char} (hx : x = 'x' ∨ x = 'X') (s : List Char) (w : Word) :
    Written ('0' :: x :: s) w ↔ Signed 16 s w.toNat := by
  constructor
  · intro h
    cases h with
    | hexadecimal _ h => exact h
    | decimal hunmarked _ => exact absurd ⟨x, s, rfl, hx⟩ hunmarked
  · exact .hexadecimal hx

theorem written_unmarked_iff {s : List Char} (hs : ¬ Marked s) (w : Word) :
    Written s w ↔ Signed 10 s w.toNat := by
  constructor
  · intro h
    cases h with
    | hexadecimal hx _ => exact absurd ⟨_, _, rfl, hx⟩ hs
    | decimal _ h => exact h
  · exact .decimal hs

theorem ofText_eq_ok_iff (s : List Char) (w : Word) : ofText s = .ok w ↔ Written s w := by
  unfold ofText
  dsimp only
  split
  case h_1 s =>
    rw [written_marked_iff (.inl rfl)]
    exact bind_natOfText_eq_ok_iff (by decide) s w
  case h_2 s =>
    rw [written_marked_iff (.inr rfl)]
    exact bind_natOfText_eq_ok_iff (by decide) s w
  case h_3 hlower hupper =>
    have hunmarked : ¬ Marked s := by
      rintro ⟨x, rest, rfl, rfl | rfl⟩
      · exact hlower rest rfl
      · exact hupper rest rfl
    rw [written_unmarked_iff hunmarked]
    exact bind_natOfText_eq_ok_iff (by decide) s w

/-! ## The law -/

/-- A text is read as a word when it is 0x or 0X, a plus sign or none, and one or
more hexadecimal digits that are worth that word; or when it has no such mark and
is a plus sign or none and one or more decimal digits that are worth it. Every
other text is refused. -/
theorem a_text_is_a_word_iff_the_grammar_says_so :
    (∀ s w, ofText s = .ok w ↔ Written s w) ∧
    ∀ s, (∃ fault, ofText s = .error fault) ↔ ¬ ∃ w, Written s w := by
  refine ⟨ofText_eq_ok_iff, ?_⟩
  intro s
  simp only [← ofText_eq_ok_iff]
  cases ofText s with
  | ok w => simp
  | error fault => simp

/-- A sign behind the mark, zeros before the digits, and letters of both cases. -/
example : ofText "0X+00fF".toList = .ok 255 := by decide

end SeededStreams.Word
