-- Strings in JSON texts: what is written between quotes is read back, whatever
-- characters it has.
import SeededStreams.Json.Quoted

namespace SeededStreams.Json.Quoted

theorem hexDigit?_digitChar (d : Fin 16) : hexDigit? (Nat.digitChar d) = some d.val := by
  revert d
  decide

/-- A control character is written by its code unit. -/
theorem codeUnit?_of_lt {n : Nat} (hn : n < 0x20) :
    codeUnit? '0' '0' (Nat.digitChar (n / 16)) (Nat.digitChar (n % 16)) = some n := by
  have hhigh := hexDigit?_digitChar ⟨n / 16, by omega⟩
  have hlow := hexDigit?_digitChar ⟨n % 16, by omega⟩
  have hzero : hexDigit? '0' = some 0 := rfl
  simp only at hhigh hlow
  simp only [codeUnit?, hzero, hhigh, hlow, Option.bind_eq_bind, Option.bind_some]
  change some (4096 * 0 + 256 * 0 + 16 * (n / 16) + n % 16) = some n
  congr 1
  omega

theorem read_escape (c : Char) (s : List Char) : read (escape c ++ s) = push c (read s) := by
  unfold escape
  split
  case h_8 hquote hbackslash _ _ _ _ _ =>
    split
    · rename_i hcontrol
      have hunit := codeUnit?_of_lt hcontrol
      have hsecond : isSecondHalf c.toNat = false := by simp [isSecondHalf]; omega
      have hfirst : isFirstHalf c.toNat = false := by simp [isFirstHalf]; omega
      simp [read, hunit, hsecond, hfirst, Char.ofNat_toNat]
    · rename_i hplain
      rw [List.singleton_append, read.eq_def]
      split
      case h_1 heq => cases heq
      case h_7 heq =>
        cases heq
        exact if_neg hplain
      all_goals
        rename_i heq
        cases heq
        contradiction
  all_goals rfl

/-- A string that has been written is read back. -/
theorem read_write (s rest : List Char) : read (s.flatMap escape ++ '"' :: rest) = .ok (s, rest) := by
  induction s with
  | nil => rfl
  | cons c s ih => 
    rw [List.flatMap_cons, List.append_assoc, read_escape, ih]
    rfl

end SeededStreams.Json.Quoted
