-- Real draws in JSON. A real is written with its shortest decimal; what is read
-- back is the quotient of the digits and a power of ten, of which each is
-- rounded. With few digits and places nothing is lost by that.
import SeededStreams.Proofs.Draw.Integers
import SeededStreams.Proofs.Draw.Reals
import SeededStreams.Proofs.Json.Fractions
import SeededStreams.Proofs.Word.Lossless

namespace SeededStreams

/-- What becomes of a real when its text in JSON is read. -/
def Binary64.reread (x : Binary64) : Binary64 :=
  let d := Decimal.shortest .toEven x.rank
  Json.Numeral.divided d.digits (-d.exponent).toNat

namespace Kind.UnitReal

open Binary64

variable {x : Binary64} (tie : Decimal.Tie) (layout : Decimal.Layout)

/-! ## The decimal of such a real -/

/-- The decimal of a real below 1 is below 1, or it would not read back. -/
theorem toRat_shortest_lt_one (h : UnitReal x) (hpos : 0 < x.rank) (hone : x.rank < 1023 * binade) :
    (Decimal.shortest tie x.rank).toRat < 1 := by
  have hreads := (Decimal.shortest_faithful tie hpos h.rank_lt_infinityRank).readsBack
  by_contra hge
  have hranks := nearestRank_mono (not_lt.mp hge)
  rw [hreads, nearestRank_one] at hranks
  omega

/-- The leading digit of a decimal below 1 stands behind the point. -/
theorem power_neg (h : UnitReal x) (hpos : 0 < x.rank) (hone : x.rank < 1023 * binade) :
    (Decimal.shortest tie x.rank).exponent +
      Decimal.digitCount (Decimal.shortest tie x.rank).digits - 1 < 0 := by
  have hdigits := (Decimal.shortest_faithful tie hpos h.rank_lt_infinityRank).digits_pos
  have hlt := h.toRat_shortest_lt_one tie hpos hone
  rw [Decimal.toRat_eq] at hlt
  generalize Decimal.shortest tie x.rank = d at *
  have hleading := (Decimal.digitCount_spec hdigits).1
  have hpower : (10 : Rat) ^ (d.exponent + Decimal.digitCount d.digits - 1) < 10 ^ (0 : Int) := by
    have hsplit : d.exponent + (Decimal.digitCount d.digits : Int) - 1 =
        (Decimal.digitCount d.digits - 1) + d.exponent := by ring
    rw [hsplit, zpow_add₀ (by norm_num), zpow_zero]
    refine lt_of_le_of_lt ?_ hlt
    gcongr
  exact (zpow_lt_zpow_iff_right₀ (by norm_num)).mp hpower

/-- From 2^-53 on, the leading digit is one of the first 16 behind the point,
so all digits are among the first 32. -/
theorem le_exponent (h : UnitReal x) (hpos : 0 < x.rank) :
    -32 ≤ (Decimal.shortest tie x.rank).exponent := by
  have hexponent := (Decimal.shortest_faithful tie hpos h.rank_lt_infinityRank).le_exponent
  have hvalue := valueAt_pos hpos
  have hfine : (2 : Rat) ^ (-53 : Int) ≤ valueAt x.rank := by
    rw [← toRat_of_nonneg h.isNegative]
    refine h.zero_or_le.resolve_left ?_
    rw [toRat_of_nonneg h.isNegative]
    exact hvalue.ne'
  have hplace : (10 : Rat) ^ (-16 : Int) < 10 ^ Decimal.leadingPlace (valueAt x.rank) := by
    have hten : (10 : Rat) ^ (-16 : Int) < 2 ^ (-53 : Int) := by norm_num
    exact (hten.trans_le hfine).trans (Decimal.leadingPlace_spec hvalue).2
  have := (zpow_lt_zpow_iff_right₀ (by norm_num)).mp hplace
  omega

/-- So the decimal is a quotient by the power of ten of the places behind the point. -/
theorem toRat_shortest_eq_div (h : UnitReal x) (hpos : 0 < x.rank) (hone : x.rank < 1023 * binade) :
    (Decimal.shortest tie x.rank).toRat = ((Decimal.shortest tie x.rank).digits : Rat) /
      10 ^ (-(Decimal.shortest tie x.rank).exponent).toNat := by
  have hpower := h.power_neg tie hpos hone
  have hcount := Decimal.digitCount_pos (Decimal.shortest tie x.rank).digits
  obtain ⟨places, hplaces⟩ : ∃ n : Nat, (Decimal.shortest tie x.rank).exponent = -(n : Int) :=
    ⟨(-(Decimal.shortest tie x.rank).exponent).toNat, by omega⟩
  rw [Decimal.toRat_eq, hplaces, neg_neg, Int.toNat_natCast, zpow_neg, zpow_natCast, div_eq_mul_inv]

/-! ## Its text -/

theorem finite_eq (h : UnitReal x) : layout.finite x = layout.magnitude x.rank := by
  unfold Decimal.Layout.finite
  rw [h.isNegative, if_neg (by decide)]

theorem spellsOver_of_lt_one (h : UnitReal x) (hpos : 0 < x.rank) (hone : x.rank < 1023 * binade) :
    Json.SpellsOver (layout.finite x) (Decimal.shortest layout.tie x.rank).digits
      (-(Decimal.shortest layout.tie x.rank).exponent).toNat := by
  have hfaithful := Decimal.shortest_faithful layout.tie hpos h.rank_lt_infinityRank
  have hpower := h.power_neg layout.tie hpos hone
  have hexponent := h.le_exponent layout.tie hpos
  rw [h.finite_eq]
  unfold Decimal.Layout.magnitude
  simp only
  rw [if_neg hpos.ne']
  obtain ⟨_, hdigits, hdigitsLe, _⟩ := hfaithful
  generalize Decimal.shortest layout.tie x.rank = d at *
  have hsize : d.digits < UInt64.size := hdigitsLe.trans_lt (by decide)
  have hcount := Decimal.digitCount_pos d.digits
  have hlength : ((Nat.toDigits 10 d.digits).length : Int) = Decimal.digitCount d.digits := rfl
  rw [hlength]
  -- In both layouts as many places stand behind the point as the exponent says.
  split
  · exact Json.plain_spellsOver hsize hpower (by omega) (by omega)
  · exact Json.withPower_spellsOver _ hsize hpower (by omega) (by omega)

theorem magnitude_one :
    Decimal.jsonLayout.magnitude (1023 * binade) = ['1', '.', '0'] ∧
      Decimal.lineLayout.magnitude (1023 * binade) = ['1', '.', '0'] := by
  decide +kernel

/-- Zero and one are written with a zero behind the point, and that zero is a place. -/
theorem spellsOver (h : UnitReal x) :
    ∃ digits places, Json.SpellsOver (Decimal.jsonLayout.finite x) digits places ∧
      Json.Numeral.divided digits places = x.reread := by
  rcases Nat.eq_zero_or_pos x.rank with hzero | hpos
  · refine ⟨Json.Numeral.digitsValue ['0', '0'], 1, ?_, ?_⟩
    · rw [h.finite_eq, hzero]
      exact Json.pointZero_spellsOver rfl
    · unfold reread
      rw [hzero]
      decide +kernel
  · rcases Nat.lt_or_eq_of_le h.rank_le with hlt | hone
    · exact ⟨_, _, h.spellsOver_of_lt_one _ hpos hlt, rfl⟩
    · refine ⟨Json.Numeral.digitsValue ['1', '0'], 1, ?_, ?_⟩
      · rw [h.finite_eq, hone, magnitude_one.1]
        exact Json.pointZero_spellsOver rfl
      · unfold reread
        rw [hone]
        decide +kernel

/-! ## What is lost -/

/-- Zero and one are read back. -/
theorem reread_eq_of_end (h : UnitReal x) (hend : x.rank = 0 ∨ x.rank = 1023 * binade) :
    x.reread = x := by
  rw [← ofRank_rank h.isNegative]
  unfold reread
  rcases hend with hend | hend
  all_goals
    rw [hend]
    decide +kernel

/-- Any other real is read as a quotient: the digits of its decimal, over the
power of ten of the places behind the point. -/
structure AsQuotient (x : Binary64) (digits places : Nat) : Prop where
  digits_eq : (Decimal.shortest .toEven x.rank).digits = digits
  exponent_eq : (Decimal.shortest .toEven x.rank).exponent = -(places : Int)
  digits_pos : 0 < digits
  digits_le : digits ≤ 10 ^ 17
  places_le : places ≤ 32
  reread_eq : x.reread = Json.Numeral.divided digits places
  readsBack : nearestRank ((digits : Rat) / (10 ^ places : Nat)) = x.rank

theorem exists_quotient (h : UnitReal x) (hpos : 0 < x.rank) (hone : x.rank < 1023 * binade) :
    ∃ digits places, AsQuotient x digits places := by
  have hfaithful := Decimal.shortest_faithful .toEven hpos h.rank_lt_infinityRank
  have hpower := h.power_neg .toEven hpos hone
  have hexponent := h.le_exponent .toEven hpos
  have hvalue := h.toRat_shortest_eq_div .toEven hpos hone
  have hcount := Decimal.digitCount_pos (Decimal.shortest .toEven x.rank).digits
  refine ⟨(Decimal.shortest .toEven x.rank).digits,
    (-(Decimal.shortest .toEven x.rank).exponent).toNat, ?_⟩
  exact
    { digits_eq := rfl
      exponent_eq := by omega
      digits_pos := hfaithful.digits_pos
      digits_le := hfaithful.digits_le
      places_le := by omega
      reread_eq := rfl
      readsBack := by rw [Nat.cast_pow, Nat.cast_ofNat, ← hvalue, hfaithful.readsBack] }

theorem reread_eq_or_asQuotient (h : UnitReal x) :
    x.reread = x ∨ ∃ digits places, AsQuotient x digits places := by
  rcases Nat.eq_zero_or_pos x.rank with hzero | hpos
  · exact Or.inl (h.reread_eq_of_end (Or.inl hzero))
  · rcases Nat.lt_or_eq_of_le h.rank_le with hlt | hone
    · exact Or.inr (h.exists_quotient hpos hlt)
    · exact Or.inl (h.reread_eq_of_end (Or.inr hone))

/-- Digits of at most 53 bits and a power of ten up to the 22nd are exact, and
the only rounding left is that of the decimal. -/
theorem reread_eq_of_few_digits (h : UnitReal x)
    (hdigits : (Decimal.shortest .toEven x.rank).digits ≤ 2 * binade)
    (hplaces : -22 ≤ (Decimal.shortest .toEven x.rank).exponent) : x.reread = x := by
  rcases h.reread_eq_or_asQuotient with hsame | ⟨digits, places, hx⟩
  · exact hsame
  · rw [hx.digits_eq] at hdigits
    rw [hx.exponent_eq] at hplaces
    rw [hx.reread_eq, Json.Numeral.divided, quotient, toRat_ofNat hdigits,
      toRat_ofNat_ten_pow (by omega), nearest_of_nonneg (by positivity), hx.readsBack,
      ofRank_rank h.isNegative]

/-- The roundings of the digits, of the power, of their quotient and of the
decimal move a real by the 2^-50th part of it at most. -/
theorem AsQuotient.near {digits places : Nat} (h : AsQuotient x digits places) :
    |(Json.Numeral.divided digits places).toRat - valueAt x.rank| ≤ valueAt x.rank * 2 ^ (-50 : Int) := by
  have hten : 0 < 10 ^ places := Nat.pow_pos (by decide)
  have htenLe : 10 ^ places ≤ 10 ^ 32 := Nat.pow_le_pow_right (by decide) h.places_le
  have hdigitsLe : digits ≤ 10 ^ 32 := h.digits_le.trans (by decide)
  have hdigitsOne : (1 : Rat) ≤ digits := by exact_mod_cast h.digits_pos
  have hdigitsBound : (digits : Rat) ≤ 10 ^ 32 := by exact_mod_cast hdigitsLe
  have htenOne : (1 : Rat) ≤ (10 ^ places : Nat) := by exact_mod_cast hten
  have htenBound : ((10 ^ places : Nat) : Rat) ≤ 10 ^ 32 := by exact_mod_cast htenLe
  obtain ⟨hhigh, hlow⟩ := Near.div (by linarith) (by linarith) (near_ofNat h.digits_pos hdigitsLe)
    (near_ofNat hten htenLe)
  have hqhigh : (digits : Rat) / (10 ^ places : Nat) ≤ 10 ^ 32 :=
    (div_le_self (by linarith) htenOne).trans hdigitsBound
  rw [← h.readsBack]
  exact nearest_near (by gcongr) hqhigh hhigh hlow

theorem toRat_reread_near (h : UnitReal x) :
    |x.reread.toRat - x.toRat| ≤ x.toRat * 2 ^ (-50 : Int) := by
  rcases h.reread_eq_or_asQuotient with hsame | ⟨digits, places, hx⟩
  · rw [hsame, sub_self, abs_zero, toRat_of_nonneg h.isNegative]
    exact mul_nonneg (valueAt_nonneg _) (by positivity)
  · rw [hx.reread_eq, toRat_of_nonneg h.isNegative]
    exact hx.near

end Kind.UnitReal

/-! ## Reading the text of a draw -/

namespace Draw

open Kind

theorem write_real {x : Binary64} (h : UnitReal x) :
    write (.real x) = Decimal.jsonLayout.finite x := by
  have hfinite : x.isFinite = true := decide_eq_true h.rank_lt_infinityRank
  unfold write
  simp only
  rw [if_pos hfinite]

/-- Whatever may follow the text, the real is read as the quotient. -/
theorem reads_real (room : Nat) {x : Binary64} (h : UnitReal x) :
    Json.Reads (read room) (write (.real x)) (.real x.reread) := by
  obtain ⟨digits, places, ⟨n, hspells, _, hnumber⟩, hdivided⟩ := h.spellsOver
  rw [write_real h]
  apply reads_of_value (Json.Value.reads_numeral room hspells hnumber)
  rw [hdivided]
  rfl

/-- What becomes of a draw when its text in JSON is read. Only reals change. -/
def reread : Draw → Draw
  | real x => real x.reread
  | d => d

theorem reread_told {d : Draw} (h : d.isInteger = true) : d.told.reread = d.told := by
  cases d with
  | word w => rfl
  | signed v =>
    unfold told
    simp only
    split <;> rfl
  | real x => cases h

/-- The draw of any kind is read back: an integer as the draw that its number tells, and a
real as the quotient. -/
theorem reads_draw (room : Nat) (kind : Kind) (w : Word) :
    Json.Reads (read room) (kind.draw w).write (kind.draw w).told.reread := by
  by_cases hinteger : (kind.draw w).isInteger = true
  · rw [reread_told hinteger]
    exact reads_integer room hinteger
  · cases hdraw : kind.draw w with
    | real x => exact reads_real room (unitReal_of_draw hdraw)
    | _ =>
      rw [hdraw] at hinteger
      exact absurd rfl hinteger

theorem bytes_real_eq_iff (x y : Binary64) : (real x).bytes = (real y).bytes ↔ x = y := by
  cases x
  cases y
  simp [bytes, bits, Word.bytes_inj]

end Draw

end SeededStreams
