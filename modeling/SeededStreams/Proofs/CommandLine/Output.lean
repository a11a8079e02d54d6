-- What is printed of draws. No text of a draw holds a line end, so there is a line for
-- each draw, and the line tells it: an integer is read back, and the decimal of a real is
-- rounded to that real. As JSON the draws are one line with a list that is read, and as a
-- fingerprint one line with the digits of a hash.
import SeededStreams.CommandLine.Command
import SeededStreams.Proofs.Binary64.Nearest
import SeededStreams.Proofs.Draw.Digest
import SeededStreams.Proofs.Draw.Rereading

namespace SeededStreams

/-! ## Texts without a line end -/

theorem not_mem_toDigits {c : Char} (hc : c.isDigit = false) (n : Nat) : c ∉ Nat.toDigits 10 n := by
  intro hmem
  have hdigit := (Json.digits_toDigits n).all c hmem
  rw [hc] at hdigit
  cases hdigit

namespace Decimal

theorem lineEnd_not_mem_plain {digits : List Char} (h : '\n' ∉ digits) (power : Int) :
    '\n' ∉ plain digits power := by
  have htake : '\n' ∉ digits.take (power.toNat + 1) := fun hmem => h (List.mem_of_mem_take hmem)
  have hdrop : '\n' ∉ digits.drop (power.toNat + 1) := fun hmem => h (List.mem_of_mem_drop hmem)
  unfold plain
  split
  · simp [h, List.mem_replicate]
  · simp only
    split <;> simp [htake, hdrop, List.mem_replicate]

theorem lineEnd_not_mem_withPower (plusSign : Bool) {digits : List Char} (h : '\n' ∉ digits)
    (power : Int) : '\n' ∉ withPower plusSign digits power := by
  have hpower := not_mem_toDigits (c := '\n') rfl power.natAbs
  have hsign : '\n' ∉ (if power < 0 then ['-'] else if plusSign then ['+'] else []) := by
    split
    · decide
    · split <;> decide
  unfold withPower
  simp only [List.mem_append, List.mem_cons, not_or]
  refine ⟨?_, by decide, hsign, hpower⟩
  cases digits with
  | nil => exact h
  | cons first rest =>
    cases rest with
    | nil => exact h
    | cons second rest => simpa using h

theorem lineEnd_not_mem_finite (layout : Layout) (x : Binary64) : '\n' ∉ layout.finite x := by
  have hmagnitude : '\n' ∉ layout.magnitude x.rank := by
    have hdigits := not_mem_toDigits (c := '\n') rfl (shortest layout.tie x.rank).digits
    unfold Layout.magnitude
    simp only
    split
    · decide
    · split
      · exact lineEnd_not_mem_plain hdigits _
      · exact lineEnd_not_mem_withPower _ hdigits _
  unfold Layout.finite
  split
  · simp [hmagnitude]
  · exact hmagnitude

end Decimal

namespace Draw

theorem lineEnd_not_mem_integerText (v : Int) : '\n' ∉ integerText v := by
  have hdigits := not_mem_toDigits (c := '\n') rfl v.natAbs
  unfold integerText
  split <;> simp [hdigits]

theorem lineEnd_not_mem_text (d : Draw) : '\n' ∉ d.text := by
  cases d with
  | word w => exact not_mem_toDigits rfl w.toNat
  | signed v => exact lineEnd_not_mem_integerText v.toInt
  | real x =>
    unfold text
    simp only
    split
    · decide
    · split
      · split <;> decide
      · exact Decimal.lineEnd_not_mem_finite _ x

theorem lineEnd_not_mem_write (d : Draw) : '\n' ∉ d.write := by
  cases d with
  | word w => exact not_mem_toDigits rfl w.toNat
  | signed v => exact lineEnd_not_mem_integerText v.toInt
  | real x =>
    unfold write
    simp only
    split
    · exact Decimal.lineEnd_not_mem_finite _ x
    · decide

theorem lineEnd_not_mem_writeAll (draws : List Draw) : '\n' ∉ writeAll draws := by
  have hcommas : '\n' ∉ Json.commas (draws.map write) := by
    cases draws with
    | nil => decide
    | cons d draws =>
      rw [List.map_cons, Json.commas_cons]
      simp [Json.followers, lineEnd_not_mem_write]
  unfold writeAll Json.writeList
  simp [hcommas]

end Draw

theorem lineEnd_not_mem_hexText (bytes : List UInt8) : '\n' ∉ hexText bytes := by
  have hdigit : ∀ d : Fin 16, '\n' ≠ Nat.digitChar d := by decide
  induction bytes with
  | nil => exact List.not_mem_nil
  | cons b bytes ih =>
    have hb := b.toNat_lt
    have hupper := hdigit ⟨b.toNat / 16, by omega⟩
    have hlower := hdigit ⟨b.toNat % 16, by omega⟩
    rw [hexText_cons]
    simp only [List.mem_cons, not_or]
    exact ⟨hupper, hlower, ih⟩

/-! ## Lines that tell a draw -/

namespace Kind.UnitReal

open Binary64

variable {x : Binary64}

theorem nearest_shortest (tie : Decimal.Tie) (h : UnitReal x) (hpos : 0 < x.rank)
    (hone : x.rank < 1023 * binade) : nearest (Decimal.shortest tie x.rank).toRat = x := by
  have hreads := (Decimal.shortest_faithful tie hpos h.rank_lt_infinityRank).readsBack
  rw [nearest_of_nonneg, hreads, ofRank_rank h.isNegative]
  rw [h.toRat_shortest_eq_div tie hpos hone]
  positivity

/-- The decimal on the line of a real is rounded to that real. -/
theorem exists_spells_line (h : UnitReal x) :
    ∃ n : Json.Numeral, n.Spells (Decimal.lineLayout.finite x) ∧ Rounds n.toRat x := by
  have hfinite : x.isFinite = true := decide_eq_true h.rank_lt_infinityRank
  have htold : ∀ digits places, Json.SpellsOver (Decimal.lineLayout.finite x) digits places →
      nearest ((digits : Rat) / 10 ^ places) = x →
      ∃ n : Json.Numeral, n.Spells (Decimal.lineLayout.finite x) ∧ Rounds n.toRat x := by
    rintro digits places ⟨n, hspells, hvalue, _⟩ hnearest
    have hrounds := rounds_nearest (v := n.toRat) (by rw [hvalue]; positivity)
    rw [hvalue, hnearest] at hrounds
    exact ⟨n, hspells, by rw [hvalue]; exact hrounds hfinite⟩
  rcases Nat.eq_zero_or_pos x.rank with hzero | hpos
  · apply htold (Json.Numeral.digitsValue ['0', '0']) 1
    · rw [h.finite_eq, hzero]
      exact Json.pointZero_spellsOver rfl
    · rw [← ofRank_rank h.isNegative, hzero]
      decide +kernel
  · rcases Nat.lt_or_eq_of_le h.rank_le with hlt | hone
    · apply htold _ _ (h.spellsOver_of_lt_one Decimal.lineLayout hpos hlt)
      rw [← h.toRat_shortest_eq_div _ hpos hlt, h.nearest_shortest _ hpos hlt]
    · apply htold (Json.Numeral.digitsValue ['1', '0']) 1
      · rw [h.finite_eq, hone, magnitude_one.2]
        exact Json.pointZero_spellsOver rfl
      · rw [← ofRank_rank h.isNegative, hone]
        decide +kernel

end Kind.UnitReal

namespace Draw

open Kind

/-- A line that tells a draw: a text of an integer from which the draw is told, or a
decimal that is rounded to the real. -/
inductive Line : Draw → List Char → Prop where
  | integer {d : Draw} {s : List Char} : d.isInteger = true → Json.parse read s = .ok d.told →
      Line d s
  | real {x : Binary64} {n : Json.Numeral} {s : List Char} : n.Spells s →
      Binary64.Rounds n.toRat x → Line (.real x) s

theorem text_real {x : Binary64} (h : UnitReal x) :
    text (.real x) = Decimal.lineLayout.finite x := by
  have hfinite := h.rank_lt_infinityRank
  have hnan : x.isNaN = false := decide_eq_false (Nat.not_lt.mpr hfinite.le)
  have hinfinite : x.isInfinite = false := beq_eq_false_iff_ne.mpr hfinite.ne
  simp [text, hnan, hinfinite]

theorem line_text (kind : Kind) (w : Word) : Line (kind.draw w) (kind.draw w).text := by
  cases hdraw : kind.draw w with
  | word v => exact .integer rfl (Json.parse_of_reads (reads_integer _ (d := .word v) rfl))
  | signed v => exact .integer rfl (Json.parse_of_reads (reads_integer _ (d := .signed v) rfl))
  | real x =>
    have hreal := unitReal_of_draw hdraw
    obtain ⟨n, hspells, hrounds⟩ := hreal.exists_spells_line
    rw [text_real hreal]
    exact .real hspells hrounds

end Draw

/-! ## What the styles print -/

namespace CommandLine

/-- The output on draws: a line for each of them, one line with a list in JSON from which
they are read, or one line with the digits of the hash of their bytes. -/
inductive Style.Prints (draws : List Draw) : Style → List Char → Prop where
  | lines {s : List Char} {texts : List (List Char)} : s.splitOn '\n' = texts ++ [[]] →
      List.Forall₂ Draw.Line draws texts → Prints draws .lines s
  | json {s : List Char} : '\n' ∉ s →
      Json.parse (Json.listOf Draw.read) s = .ok (draws.map fun d => d.told.reread) →
      Prints draws .json (s ++ ['\n'])
  | digest {s : List Char} : '\n' ∉ s → SpellsHex (Sha256.hash (draws.flatMap Draw.bytes)) s →
      Prints draws .digest (s ++ ['\n'])

/-- Texts without a line end are found again among the lines. -/
theorem splitOn_lines {texts : List (List Char)} (h : ∀ s ∈ texts, '\n' ∉ s) :
    (texts.flatMap line).splitOn '\n' = texts ++ [[]] := by
  induction texts with
  | nil => simp
  | cons s texts ih =>
    obtain ⟨hs, hrest⟩ := List.forall_mem_cons.mp h
    rw [List.flatMap_cons, line, List.append_assoc, List.singleton_append,
      List.splitOn_append_cons_self_of_not_mem hs, ih hrest, List.cons_append]

theorem splitOn_print_lines (draws : List Draw) :
    (Style.lines.print draws).splitOn '\n' = draws.map Draw.text ++ [[]] := by
  have htexts : ∀ s ∈ draws.map Draw.text, '\n' ∉ s := by
    intro s hs
    obtain ⟨d, _, rfl⟩ := List.mem_map.mp hs
    exact d.lineEnd_not_mem_text
  have hlines : Style.lines.print draws = (draws.map Draw.text).flatMap line :=
    (List.flatMap_map ..).symm
  rw [hlines, splitOn_lines htexts]

/-- Each style prints the draws of a kind in its way. -/
theorem prints_print (style : Style) (kind : Kind) (ws : List Word) :
    style.Prints (ws.map kind.draw) (style.print (ws.map kind.draw)) := by
  cases style with
  | lines =>
    apply Style.Prints.lines (splitOn_print_lines _)
    simp [List.forall₂_map_right_iff, List.forall₂_same, Draw.line_text]
  | json =>
    refine .json (Draw.lineEnd_not_mem_writeAll _) (Json.parse_of_reads ?_)
    apply Json.reads_listOf
    simp [List.forall₂_map_left_iff, List.forall₂_map_right_iff, List.forall₂_same,
      Draw.reads_draw]
  | digest => exact .digest (lineEnd_not_mem_hexText _) (hexText_spells _)

end CommandLine

end SeededStreams
