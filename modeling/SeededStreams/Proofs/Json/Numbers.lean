-- Numbers in JSON texts. A text that spells a numeral is read as that
-- numeral, up to the character that ends it; the digits of a whole number that
-- fits a word are read as that word.
import Mathlib.Data.List.TakeDrop
import SeededStreams.Json.Reader
import SeededStreams.Json.Write

namespace SeededStreams.Json

/-! ## Where a value ends -/

/-- A text with which no number goes on: it is empty, or begins with a
character that no number has behind its first one. -/
def Ended (s : List Char) : Prop :=
  ∀ c rest, s = c :: rest → c.isDigit = false ∧ c ≠ '.' ∧ c ≠ 'e' ∧ c ≠ 'E'

theorem ended_nil : Ended [] := by
  intro c rest h
  cases h

theorem ended_comma (s : List Char) : Ended (',' :: s) := by
  intro c rest h
  cases h
  decide

theorem ended_bracket (s : List Char) : Ended (']' :: s) := by
  intro c rest h
  cases h
  decide

theorem ended_brace (s : List Char) : Ended ('\x7d' :: s) := by
  intro c rest h
  cases h
  decide

/-! ## Digits -/

/-- One digit at least, and nothing else. -/
structure Digits (ds : List Char) : Prop where
  ne_nil : ds ≠ []
  all : ∀ c ∈ ds, c.isDigit = true

theorem digits_toDigits (n : Nat) : Digits (Nat.toDigits 10 n) where
  ne_nil := Nat.toDigits_ne_nil
  all _ hc := Nat.isDigit_of_mem_toDigits (by decide) (by decide) hc

/-- A text with which a run of digits does not go on. -/
def NoDigit (s : List Char) : Prop := ∀ c rest, s = c :: rest → c.isDigit = false

theorem Ended.noDigit {s : List Char} (h : Ended s) : NoDigit s :=
  fun c rest hs => (h c rest hs).1

namespace Numeral

theorem digits_append {ds rest : List Char} (hds : ∀ c ∈ ds, c.isDigit = true)
    (hrest : NoDigit rest) : digits (ds ++ rest) = (ds, rest) := by
  have htake : rest.takeWhile Char.isDigit = [] := by
    cases rest with
    | nil => rfl
    | cons c rest => rw [List.takeWhile_cons_of_neg (by rw [hrest c rest rfl]; decide)]
  have hdrop : rest.dropWhile Char.isDigit = rest := by
    cases rest with
    | nil => rfl
    | cons c rest => rw [List.dropWhile_cons_of_neg (by rw [hrest c rest rfl]; decide)]
  unfold digits
  rw [List.span_eq_takeWhile_dropWhile, List.takeWhile_append_of_pos hds,
    List.dropWhile_append_of_pos hds, htake, hdrop, List.append_nil]

theorem someDigits_append (short : Fault) {ds rest : List Char} (hds : Digits ds)
    (hrest : NoDigit rest) : someDigits short (ds ++ rest) = .ok (ds, rest) := by
  have hsplit := digits_append hds.all hrest
  obtain ⟨hne, hall⟩ := hds
  cases ds with
  | nil => exact absurd rfl hne
  | cons d ds =>
    rw [List.cons_append] at hsplit ⊢
    simp only [someDigits]
    rw [if_pos (hall d List.mem_cons_self), hsplit]

/-! ## Texts that spell a numeral -/

/-- Digits that may stand before the point: a zero stands alone. -/
structure Whole (ds : List Char) : Prop extends Digits ds where
  zero_alone : ∀ rest, ds = '0' :: rest → rest = []

/-- The texts of the digits behind the point. -/
inductive FractionText : List Char → List Char → Prop where
  | none : FractionText [] []
  | some {ds : List Char} : Digits ds → FractionText ds ('.' :: ds)

/-- The texts of a power of ten. -/
inductive PowerText : Option (Bool × List Char) → List Char → Prop where
  | none : PowerText none []
  | bare {e : Char} {ds : List Char} : e = 'e' ∨ e = 'E' → Digits ds →
      PowerText (some (false, ds)) (e :: ds)
  | plus {e : Char} {ds : List Char} : e = 'e' ∨ e = 'E' → Digits ds →
      PowerText (some (false, ds)) (e :: '+' :: ds)
  | minus {e : Char} {ds : List Char} : e = 'e' ∨ e = 'E' → Digits ds →
      PowerText (some (true, ds)) (e :: '-' :: ds)

/-- The texts of a numeral. -/
inductive Spells : Numeral → List Char → Prop where
  | intro {negative : Bool} {whole fraction f : List Char} {power : Option (Bool × List Char)}
      {p : List Char} : Whole whole → FractionText fraction f → PowerText power p →
      Spells ⟨negative, whole, fraction, power⟩
        ((if negative then ['-'] else []) ++ (whole ++ (f ++ p)))

/-! ## Reading such a text -/

theorem wholeDigits_append (short : Fault) {ds rest : List Char} (hds : Whole ds)
    (hrest : NoDigit rest) : wholeDigits short (ds ++ rest) = .ok (ds, rest) := by
  by_cases hzero : ds.head? = some '0'
  · obtain ⟨tail, rfl⟩ : ∃ tail, ds = '0' :: tail := by
      cases ds with
      | nil => cases hzero
      | cons d tail =>
        rw [List.head?_cons, Option.some_inj] at hzero
        exact ⟨tail, by rw [hzero]⟩
    rw [hds.zero_alone tail rfl]
    cases rest with
    | nil => rfl
    | cons c rest =>
      have hc := hrest c rest rfl
      simp [wholeDigits, hc]
  · have hsome := someDigits_append short hds.toDigits hrest
    unfold wholeDigits
    split
    · rename_i tail htext
      cases ds with
      | nil => exact absurd rfl hds.ne_nil
      | cons d ds =>
        rw [List.cons_append, List.cons.injEq] at htext
        exact absurd (by rw [List.head?_cons, htext.1]) hzero
    · exact hsome

theorem noDigit_cons {c : Char} (s : List Char) (hc : c.isDigit = false) : NoDigit (c :: s) := by
  intro d rest h
  cases h
  exact hc

theorem fractionDigits_append (short : Fault) {ds f rest : List Char} (hf : FractionText ds f)
    (hrest : NoDigit rest) (hpoint : ∀ s, rest ≠ '.' :: s) :
    fractionDigits short (f ++ rest) = .ok (ds, rest) := by
  cases hf with
  | none =>
    rw [List.nil_append]
    unfold fractionDigits
    split
    · exact absurd rfl (hpoint _)
    · rfl
  | some hds => exact someDigits_append short hds hrest

/-- A letter before a power of ten is no sign, so the sign is what comes after it. -/
theorem powerDigits_append (short : Fault) {power : Option (Bool × List Char)} {p rest : List Char}
    (hp : PowerText power p) (hrest : Ended rest) :
    powerDigits short (p ++ rest) = .ok (power, rest) := by
  cases hp with
  | none =>
    cases rest with
    | nil => rfl
    | cons c rest =>
      obtain ⟨_, _, hlower, hupper⟩ := hrest c rest rfl
      simp [powerDigits, hlower, hupper]
  | @bare e ds he hds =>
    have hread := someDigits_append short hds hrest.noDigit
    obtain ⟨hne, hall⟩ := hds
    cases ds with
    | nil => exact absurd rfl hne
    | cons d ds =>
      have hd := hall d List.mem_cons_self
      have hminus : d ≠ '-' := by
        rintro rfl
        exact absurd hd (by decide)
      have hplus : d ≠ '+' := by
        rintro rfl
        exact absurd hd (by decide)
      rw [List.cons_append] at hread
      simp [powerDigits, he, hread, hminus, hplus]
  | plus he hds =>
    have hread := someDigits_append short hds hrest.noDigit
    simp [powerDigits, he, hread]
  | minus he hds =>
    have hread := someDigits_append short hds hrest.noDigit
    simp [powerDigits, he, hread]

theorem PowerText.noDigit {power : Option (Bool × List Char)} {p : List Char}
    (hp : PowerText power p) {rest : List Char} (hrest : Ended rest) :
    NoDigit (p ++ rest) ∧ ∀ s, p ++ rest ≠ '.' :: s := by
  have hletter : ∀ {e : Char} (s : List Char), e = 'e' ∨ e = 'E' →
      NoDigit (e :: s) ∧ ∀ t, e :: s ≠ '.' :: t := by
    rintro e s (rfl | rfl)
    all_goals exact ⟨noDigit_cons s (by decide), fun t h => by simp at h⟩
  cases hp with
  | none =>
    refine ⟨hrest.noDigit, ?_⟩
    intro s hs
    exact (hrest '.' s hs).2.1 rfl
  | bare he _ => exact hletter _ he
  | plus he _ => exact hletter _ he
  | minus he _ => exact hletter _ he

theorem readUnsigned_append (short : Fault) (negative : Bool) {whole fraction f : List Char}
    {power : Option (Bool × List Char)} {p rest : List Char} (hw : Whole whole)
    (hf : FractionText fraction f) (hp : PowerText power p) (hrest : Ended rest) :
    readUnsigned short negative (whole ++ (f ++ p) ++ rest) =
      .ok (⟨negative, whole, fraction, power⟩, rest) := by
  obtain ⟨hdigit, hpoint⟩ := hp.noDigit hrest
  have hafter : NoDigit (f ++ (p ++ rest)) := by
    cases hf with
    | none => exact hdigit
    | some _ => exact noDigit_cons _ (by decide)
  unfold readUnsigned
  rw [List.append_assoc, List.append_assoc, wholeDigits_append short hw hafter]
  simp only [bind, Except.bind, pure, Except.pure, fractionDigits_append short hf hdigit hpoint,
    powerDigits_append short hp hrest]

theorem Whole.head {ds : List Char} (h : Whole ds) : ∃ d rest, ds = d :: rest ∧ d.isDigit = true := by
  cases ds with
  | nil => exact absurd rfl h.ne_nil
  | cons d rest => exact ⟨d, rest, rfl, h.all d List.mem_cons_self⟩

/-- A text that spells a numeral is read as that numeral. -/
theorem read_of_spells (short : Fault) {n : Numeral} {text rest : List Char} (h : Spells n text)
    (hrest : Ended rest) : read short (text ++ rest) = .ok (n, rest) := by
  obtain @⟨negative, whole, fraction, f, power, p, hw, hf, hp⟩ := h
  have hread := readUnsigned_append short negative hw hf hp hrest
  cases negative with
  | true => exact hread
  | false =>
    obtain ⟨d, tail, rfl, hd⟩ := hw.head
    unfold read
    split
    · rename_i s hs
      simp only [Bool.false_eq_true, if_false, List.nil_append, List.cons_append,
        List.cons.injEq] at hs
      rw [hs.1] at hd
      exact absurd hd (by decide)
    · exact hread

/-- A numeral begins with a digit or with a minus sign. -/
theorem Spells.head {n : Numeral} {text : List Char} (h : Spells n text) :
    ∃ c s, text = c :: s ∧ (c = '-' ∨ c.isDigit = true) := by
  obtain @⟨negative, whole, fraction, f, power, p, hw, _, _⟩ := h
  cases negative with
  | true => exact ⟨'-', _, rfl, Or.inl rfl⟩
  | false =>
    obtain ⟨d, tail, rfl, hd⟩ := hw.head
    exact ⟨d, _, rfl, Or.inr hd⟩

end Numeral

/-! ## Where a value begins -/

theorem dropBlank_cons {c : Char} (s : List Char) (hc : isBlank c = false) :
    dropBlank (c :: s) = c :: s :=
  List.dropWhile_cons_of_neg (by rw [hc]; decide)

/-- A number begins with a digit or with a minus sign. -/
theorem isBlank_of_number {c : Char} (hc : c = '-' ∨ c.isDigit = true) : isBlank c = false := by
  rw [Bool.eq_false_iff]
  intro hblank
  simp only [isBlank, Bool.or_eq_true, beq_iff_eq] at hblank
  rcases hblank with ((rfl | rfl) | rfl) | rfl
  all_goals exact absurd hc (by decide)

theorem Value.readWith_number (inside : Option (List Char → Except Fault (Value × List Char)))
    {c : Char} (hc : c = '-' ∨ c.isDigit = true) (s : List Char) :
    Value.readWith inside (c :: s) =
      Number.read (c :: s) >>= fun p => .ok (.number p.1, p.2) := by
  unfold Value.readWith
  rw [dropBlank_cons s (isBlank_of_number hc)]
  split
  case h_1 heq => cases heq
  case h_8 heq =>
    cases heq
    rw [if_pos hc]
    rfl
  all_goals
    rename_i heq
    cases heq
    exact absurd hc (by decide)

theorem Number.read_of_spells {n : Numeral} {text : List Char} {x : Number} (h : n.Spells text)
    (hx : n.number = .ok x) {rest : List Char} (hrest : Ended rest) :
    Number.read (text ++ rest) = .ok (x, rest) := by
  unfold Number.read
  rw [Numeral.read_of_spells .valueCutShort h hrest]
  simp only [bind, Except.bind, hx]
  rfl

/-! ## Whole numbers -/

theorem toDigits_ne_zero_cons {n : Nat} (hn : 0 < n) (rest : List Char) :
    Nat.toDigits 10 n ≠ '0' :: rest := by
  induction n using Nat.strongRecOn generalizing rest with
  | ind n ih =>
    intro h
    by_cases hlt : n < 10
    · rw [Nat.toDigits_of_lt_base hlt, List.cons.injEq, Nat.digitChar_eq_zero] at h
      omega
    · rw [Nat.toDigits_of_base_le (by decide) (by omega)] at h
      cases hfirst : Nat.toDigits 10 (n / 10) with
      | nil => exact Nat.toDigits_ne_nil hfirst
      | cons d ds =>
        rw [hfirst, List.cons_append, List.cons.injEq] at h
        exact ih (n / 10) (by omega) (by omega) ds (by rw [hfirst, h.1])

theorem Numeral.whole_toDigits (n : Nat) : Numeral.Whole (Nat.toDigits 10 n) where
  toDigits := digits_toDigits n
  zero_alone rest h := by
    rcases Nat.eq_zero_or_pos n with rfl | hn
    · exact (List.cons.inj h).2.symm
    · exact absurd h (toDigits_ne_zero_cons hn rest)

theorem Numeral.spells_signed (negative : Bool) (n : Nat) :
    Numeral.Spells ⟨negative, Nat.toDigits 10 n, [], none⟩
      ((if negative then ['-'] else []) ++ Nat.toDigits 10 n) := by
  have h : Spells ⟨negative, Nat.toDigits 10 n, [], none⟩
      ((if negative then ['-'] else []) ++ (Nat.toDigits 10 n ++ ([] ++ []))) :=
    .intro (whole_toDigits n) .none .none
  rw [List.append_nil, List.append_nil] at h
  exact h

theorem Numeral.spells_toDigits (n : Nat) :
    Numeral.Spells ⟨false, Nat.toDigits 10 n, [], none⟩ (Nat.toDigits 10 n) :=
  spells_signed false n

theorem Numeral.number_toDigits {n : Nat} (hn : n < UInt64.size) :
    Numeral.number ⟨false, Nat.toDigits 10 n, [], none⟩ = .ok (.word (UInt64.ofNat n)) := by
  unfold Numeral.number Numeral.digitsValue
  simp [Nat.ofDigitChars_ten_toDigits, hn]

/-- Digits behind a minus sign are a negative integer, down to -2^63. -/
theorem Numeral.number_minus {n : Nat} (hpos : 0 < n) (hn : n ≤ 0x8000000000000000) :
    Numeral.number ⟨true, Nat.toDigits 10 n, [], none⟩ = .ok (.negative (Int64.ofInt (-n))) := by
  unfold Numeral.number Numeral.digitsValue
  simp [Nat.ofDigitChars_ten_toDigits, hpos, hn]

end SeededStreams.Json
