-- Numerals of decimals below 1. However such a decimal is laid out, its digits
-- are gathered into one word, and the real that is read is their quotient by a
-- power of ten: first both are rounded, then the quotient.
import SeededStreams.Proofs.Decimal.Shortest
import SeededStreams.Proofs.Json.Numbers

namespace SeededStreams.Json

namespace Numeral

/-! ## Digits -/

theorem digitsValue_append (ds es : List Char) :
    digitsValue (ds ++ es) = Nat.ofDigitChars 10 es (digitsValue ds) :=
  Nat.ofDigitChars_append 0

theorem le_ofDigitChars (ds : List Char) (n : Nat) : n ≤ Nat.ofDigitChars 10 ds n := by
  rw [Nat.ofDigitChars_eq_ofDigitChars_zero]
  exact (Nat.le_mul_of_pos_left n (Nat.pow_pos (by decide))).trans (Nat.le_add_right _ _)

/-- As long as the whole of it fits a word, nothing is left over. -/
theorem gather_of_lt {n : Nat} {ds : List Char} (h : Nat.ofDigitChars 10 ds n < UInt64.size) :
    gather n ds = (Nat.ofDigitChars 10 ds n, []) := by
  induction ds generalizing n with
  | nil => rfl
  | cons c ds ih =>
    have hzero : '0'.toNat = 48 := rfl
    rw [Nat.ofDigitChars_cons, hzero] at h ⊢
    have hgrown := (le_ofDigitChars ds _).trans_lt h
    unfold gather
    simp only
    rw [if_pos hgrown]
    exact ih h

theorem gather_both {whole fraction : List Char}
    (h : digitsValue (whole ++ fraction) < UInt64.size) :
    gather 0 whole = (digitsValue whole, []) ∧
      gather (digitsValue whole) fraction = (digitsValue (whole ++ fraction), []) := by
  rw [digitsValue_append] at h ⊢
  exact ⟨gather_of_lt ((le_ofDigitChars fraction _).trans_lt h), gather_of_lt h⟩

/-! ## The real of a numeral -/

/-- The digits over a power of ten, each of them rounded first. -/
def divided (digits places : Nat) : Binary64 :=
  (Binary64.ofNat digits).quotient (Binary64.ofNat (10 ^ places))

theorem scale_neg (steps : Nat) (x : Binary64) {n : Nat} (hpos : 0 < n) (hn : n ≤ 308) :
    scale (steps + 1) x (-(n : Int)) = .ok (x.quotient (Binary64.ofNat (10 ^ n))) := by
  have habs : (-(n : Int)).natAbs = n := by omega
  unfold scale
  rw [habs, if_pos hn]
  simp only
  rw [if_neg (by omega), Nat.pow_eq]

theorem magnitude_of_fraction {negative : Bool} {whole fraction : List Char}
    (h : digitsValue (whole ++ fraction) < UInt64.size) (hpos : 0 < fraction.length)
    (hlength : fraction.length ≤ 308) :
    magnitude ⟨negative, whole, fraction, none⟩ =
      .ok (divided (digitsValue (whole ++ fraction)) fraction.length) := by
  obtain ⟨hwhole, hfraction⟩ := gather_both h
  have hshift : (([] : List Char).length : Int) - (fraction.length - ([] : List Char).length : Nat) =
      -(fraction.length : Int) := by
    simp only [List.length_nil]
    omega
  unfold magnitude
  simp only [hwhole, hfraction, hshift]
  exact scale_neg _ _ hpos hlength

theorem magnitude_of_power {negative : Bool} {whole fraction ds : List Char}
    (h : digitsValue (whole ++ fraction) < UInt64.size) (hpos : 0 < digitsValue ds)
    (hpower : fraction.length + digitsValue ds ≤ 308) :
    magnitude ⟨negative, whole, fraction, some (true, ds)⟩ =
      .ok (divided (digitsValue (whole ++ fraction)) (fraction.length + digitsValue ds)) := by
  obtain ⟨hwhole, hfraction⟩ := gather_both h
  have hshift : (([] : List Char).length : Int) - (fraction.length - ([] : List Char).length : Nat) -
      digitsValue ds = -((fraction.length + digitsValue ds : Nat) : Int) := by
    simp only [List.length_nil]
    omega
  have hlimit : ¬powerLimit < digitsValue ds := by
    unfold powerLimit
    omega
  unfold magnitude
  simp only [hwhole, hfraction, if_true]
  rw [if_neg hlimit, hshift]
  exact scale_neg _ _ (by omega) hpower

/-- A numeral with a point or a power is no integer. -/
theorem number_of_magnitude {n : Numeral} (hreal : n.fraction ≠ [] ∨ n.power ≠ none)
    (hsign : n.negative = false) {x : Binary64} (hx : n.magnitude = .ok x) :
    n.number = .ok (.real x) := by
  have hno : ∀ P : Prop, ¬(n.fraction = [] ∧ n.power = none ∧ P) := by
    rintro P ⟨hfraction, hpower, _⟩
    rcases hreal with h | h
    · exact h hfraction
    · exact h hpower
  unfold number
  simp only
  rw [if_neg (hno _), if_neg (hno _), hx]
  simp only [hsign]
  rfl

/-! ## The exact value -/

/-- The power of ten behind the digits. -/
def exponentOf : Option (Bool × List Char) → Int
  | none => 0
  | some (negative, ds) => if negative then -digitsValue ds else digitsValue ds

/-- What a numeral stands for, before any rounding. -/
def toRat (n : Numeral) : Rat :=
  let value := digitsValue (n.whole ++ n.fraction) * (10 : Rat) ^ (exponentOf n.power - n.fraction.length)
  if n.negative then -value else value

theorem toRat_eq_div {whole fraction : List Char} {power : Option (Bool × List Char)}
    {digits places : Nat} (hvalue : digitsValue (whole ++ fraction) = digits)
    (hplaces : exponentOf power - fraction.length = -places) :
    toRat ⟨false, whole, fraction, power⟩ = (digits : Rat) / 10 ^ places := by
  unfold toRat
  simp only [Bool.false_eq_true, if_false]
  rw [hvalue, hplaces, zpow_neg, zpow_natCast, div_eq_mul_inv]

end Numeral

/-! ## The texts -/

/-- A text of digits over a power of ten, which is read as the real of both. -/
def SpellsOver (text : List Char) (digits places : Nat) : Prop :=
  ∃ n : Numeral, n.Spells text ∧ n.toRat = (digits : Rat) / 10 ^ places ∧
    n.number = .ok (.real (Numeral.divided digits places))

theorem whole_digit {c : Char} (hc : c.isDigit = true) : Numeral.Whole [c] where
  ne_nil := List.cons_ne_nil _ _
  all d hd := by
    rw [List.mem_singleton.mp hd]
    exact hc
  zero_alone rest h := (List.cons.inj h).2.symm

/-- The zeros behind the point count as places. -/
theorem plain_spellsOver {n : Nat} {power : Int} (hn : n < UInt64.size) (hpower : power < 0)
    {places : Nat} (hplaces : (places : Int) = Decimal.digitCount n - power - 1) (hle : places ≤ 308) :
    SpellsOver (Decimal.plain (Nat.toDigits 10 n) power) n places := by
  have hpos := Decimal.digitCount_pos n
  have hdigits := digits_toDigits n
  have hlength : (List.replicate (-power - 1).toNat '0' ++ Nat.toDigits 10 n).length = places := by
    rw [List.length_append, List.length_replicate]
    unfold Decimal.digitCount at hplaces
    omega
  have hvalue : Numeral.digitsValue (['0'] ++ (List.replicate (-power - 1).toNat '0' ++
      Nat.toDigits 10 n)) = n := by
    have hzero : Numeral.digitsValue ['0'] = 0 := rfl
    rw [Numeral.digitsValue_append, hzero, Nat.ofDigitChars_append, Nat.ofDigitChars_replicate_zero,
      Nat.mul_zero, Nat.ofDigitChars_ten_toDigits]
  have hfraction : Digits (List.replicate (-power - 1).toNat '0' ++ Nat.toDigits 10 n) := by
    refine ⟨List.append_ne_nil_of_right_ne_nil _ hdigits.ne_nil, ?_⟩
    intro c hc
    rcases List.mem_append.mp hc with hc | hc
    · rw [List.eq_of_mem_replicate hc]
      rfl
    · exact hdigits.all c hc
  unfold Decimal.plain
  rw [if_pos hpower]
  generalize List.replicate (-power - 1).toNat '0' ++ Nat.toDigits 10 n = fraction at *
  refine ⟨⟨false, ['0'], fraction, none⟩, ?_, ?_, ?_⟩
  · have h : Numeral.Spells ⟨false, ['0'], fraction, none⟩ ([] ++ (['0'] ++ ('.' :: fraction ++ []))) :=
      .intro (whole_digit rfl) (.some hfraction) .none
    rw [List.append_nil] at h
    exact h
  · apply Numeral.toRat_eq_div hvalue
    rw [hlength]
    exact zero_sub _
  · apply Numeral.number_of_magnitude (Or.inl hfraction.ne_nil) rfl
    rw [Numeral.magnitude_of_fraction (by rw [hvalue]; exact hn) (by omega) (by omega), hvalue, hlength]

/-- The zero behind the point of a whole number counts as a place. -/
theorem pointZero_spellsOver {c : Char} (hc : c.isDigit = true) :
    SpellsOver [c, '.', '0'] (Numeral.digitsValue [c, '0']) 1 := by
  have hvalue : Numeral.digitsValue [c, '0'] = 10 * (c.toNat - 48) := by
    change 10 * (10 * 0 + (c.toNat - 48)) + 0 = _
    omega
  have hlt : Numeral.digitsValue ([c] ++ ['0']) < UInt64.size := by
    have hnine : c.toNat ≤ 57 := by
      simp only [Char.isDigit, Bool.and_eq_true, decide_eq_true_eq] at hc
      exact hc.2
    have hsize : 100 < UInt64.size := by decide
    rw [List.singleton_append, hvalue]
    omega
  have hzero : Numeral.Whole ['0'] := whole_digit rfl
  exact ⟨⟨false, [c], ['0'], none⟩, .intro (whole_digit hc) (.some hzero.toDigits) .none,
    Numeral.toRat_eq_div rfl rfl, Numeral.number_of_magnitude (Or.inl (List.cons_ne_nil _ _)) rfl
      (Numeral.magnitude_of_fraction hlt (by decide) (by decide))⟩

/-- A single digit has no point behind it. -/
theorem withPower_spellsOver (plusSign : Bool) {n : Nat} {power : Int} (hn : n < UInt64.size)
    (hpower : power < 0) {places : Nat} (hplaces : (places : Int) = Decimal.digitCount n - power - 1)
    (hle : places ≤ 308) :
    SpellsOver (Decimal.withPower plusSign (Nat.toDigits 10 n) power) n places := by
  have hdigits := digits_toDigits n
  have hvalue : Numeral.digitsValue (Nat.toDigits 10 n) = n := Nat.ofDigitChars_ten_toDigits
  have hpowerDigits := digits_toDigits power.natAbs
  have hpowerValue : Numeral.digitsValue (Nat.toDigits 10 power.natAbs) = power.natAbs :=
    Nat.ofDigitChars_ten_toDigits
  unfold Decimal.digitCount at hplaces
  unfold Decimal.withPower
  simp only
  rw [if_pos hpower]
  generalize Nat.toDigits 10 power.natAbs = powerText at *
  generalize Nat.toDigits 10 n = text at *
  have hp : Numeral.PowerText (some (true, powerText)) ('e' :: (['-'] ++ powerText)) :=
    .minus (Or.inl rfl) hpowerDigits
  match text, hdigits with
  | [], hdigits => exact absurd rfl hdigits.ne_nil
  | first :: rest, hdigits =>
    have hsum : rest.length + power.natAbs = places := by
      rw [List.length_cons] at hplaces
      omega
    refine ⟨⟨false, [first], rest, some (true, powerText)⟩, ?_, ?_, ?_⟩
    · have hfirst := whole_digit (hdigits.all first List.mem_cons_self)
      cases rest with
      | nil => exact Numeral.Spells.intro hfirst .none hp
      | cons second rest =>
        have hrest : Digits (second :: rest) :=
          ⟨List.cons_ne_nil _ _, fun c hc => hdigits.all c (List.mem_cons_of_mem _ hc)⟩
        exact Numeral.Spells.intro hfirst (.some hrest) hp
    · apply Numeral.toRat_eq_div hvalue
      unfold Numeral.exponentOf
      simp only [if_true]
      rw [hpowerValue]
      omega
    · have hmagnitude : Numeral.magnitude ⟨false, [first], rest, some (true, powerText)⟩ =
          .ok (Numeral.divided (Numeral.digitsValue ([first] ++ rest))
            (rest.length + Numeral.digitsValue powerText)) := by
        apply Numeral.magnitude_of_power
        · rw [List.singleton_append, hvalue]
          exact hn
        · rw [hpowerValue]
          omega
        · rw [hpowerValue, hsum]
          exact hle
      rw [hpowerValue, hsum, List.singleton_append, hvalue] at hmagnitude
      exact Numeral.number_of_magnitude (Or.inr (Option.some_ne_none _)) rfl hmagnitude

end SeededStreams.Json
