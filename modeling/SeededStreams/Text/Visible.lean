-- A text between quotes, with what cannot be seen in it spelled out. It is
-- how a fault shows a text that it met.
import SeededStreams.Text.Unseen

namespace SeededStreams.Text

/-- A character as it stands between the quotes. -/
def spell (c : Char) : List Char :=
  match c with
  | '\x00' => ['\\', '0']
  | '\t' => ['\\', 't']
  | '\n' => ['\\', 'n']
  | '\r' => ['\\', 'r']
  | '"' => ['\\', '"']
  | '\\' => ['\\', '\\']
  | c =>
    if isUnseen c then '\\' :: 'u' :: '\x7b' :: (Nat.toDigits 16 c.toNat ++ ['\x7d'])
    else [c]

/-- The text between quotes. -/
def visible (s : List Char) : List Char := '"' :: (s.flatMap spell ++ ['"'])

end SeededStreams.Text
