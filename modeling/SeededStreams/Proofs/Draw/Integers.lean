-- Integers as texts. The number alone tells of which sort a draw is, so a signed
-- integer that is not negative is read back as a word, with the same 8 bytes.
import SeededStreams.Draw.Json
import SeededStreams.Proofs.Json.Records

namespace SeededStreams.Draw

/-- A draw is read from the text of a value that is one. -/
theorem reads_of_value {room : Nat} {text : List Char} {v : Json.Value} {d : Draw}
    (h : Json.Reads (Json.Value.read room) text v) (hv : ofValue v = .ok d) :
    Json.Reads (read room) text d := by
  refine ⟨h.starts, ?_⟩
  intro rest hrest
  unfold read
  simp only [h.reads rest hrest, bind, Except.bind, hv]
  rfl

/-- A word or a signed integer. -/
def isInteger : Draw → Bool
  | real _ => false
  | _ => true

/-- The draw that is told from the number of a draw: an integer that is not
negative is a word. -/
def told : Draw → Draw
  | signed v => if v.toInt < 0 then signed v else word v.toUInt64
  | d => d

theorem bits_told (d : Draw) : d.told.bits = d.bits := by
  cases d with
  | signed v =>
    unfold told
    simp only
    split <;> rfl
  | _ => rfl

theorem bytes_told (d : Draw) : d.told.bytes = d.bytes := by
  unfold bytes
  rw [bits_told]

/-! ## Reading -/

theorem reads_of_neg (room : Nat) {v : Int64} (hv : v.toInt < 0) :
    Json.Reads (read room) (write (signed v)) (signed v) := by
  have htext : write (signed v) = ['-'] ++ Nat.toDigits 10 v.toInt.natAbs := if_pos hv
  have hnumber : Json.Numeral.number ⟨true, Nat.toDigits 10 v.toInt.natAbs, [], none⟩ =
      .ok (.negative v) := by
    have hlow := v.le_toInt
    have hvalue : -(v.toInt.natAbs : Int) = v.toInt := by omega
    rw [Json.Numeral.number_minus (by omega) (by omega), hvalue, Int64.ofInt_toInt]
  rw [htext]
  exact reads_of_value
    (Json.Value.reads_numeral room (Json.Numeral.spells_signed true _) hnumber) rfl

theorem reads_of_nonneg (room : Nat) {v : Int64} (hv : 0 ≤ v.toInt) :
    Json.Reads (read room) (write (signed v)) (word v.toUInt64) := by
  have hvalue : v.toUInt64.toNat = v.toInt.natAbs := by
    have hword := Int64.toNat_toUInt64_of_le (Int64.le_iff_toInt_le.mpr hv)
    rw [← v.toNat_toInt] at hword
    omega
  have htext : write (signed v) = Json.writeWord v.toUInt64 := by
    unfold Json.writeWord Json.writeNat
    rw [hvalue]
    exact if_neg (Int.not_lt.mpr hv)
  rw [htext]
  exact reads_of_value (Json.Value.reads_writeWord room v.toUInt64) rfl

/-- An integer is read back as the draw that its number tells. -/
theorem reads_integer (room : Nat) {d : Draw} (h : d.isInteger = true) :
    Json.Reads (read room) d.write d.told := by
  cases d with
  | word w => exact reads_of_value (Json.Value.reads_writeWord room w) rfl
  | signed v =>
    unfold told
    simp only
    split
    · exact reads_of_neg room ‹_›
    · exact reads_of_nonneg room (Int.not_lt.mp ‹_›)
  | real x => cases h

end SeededStreams.Draw
