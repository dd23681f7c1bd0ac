import Egress.Text.Blank

/-!
# Quoted text

Text in double quotes as it is shown in messages: quotes, backslashes and line breaks are written
with a backslash, and characters that would not be seen by their number.
-/
namespace Egress.Text

/-- How one character is written in quoted text. -/
def escape (c : Char) : List Char :=
  match c with
  | '"' => ['\\', '"']
  | '\\' => ['\\', '\\']
  | '\n' => ['\\', 'n']
  | '\r' => ['\\', 'r']
  | '\t' => ['\\', 't']
  | '\x00' => ['\\', '0']
  | c =>
    if isHidden c then ['\\', 'u', '\x7b'] ++ Nat.toDigits 16 c.toNat ++ ['\x7d'] else [c]

def quoted (s : String) : String := .ofList ('"' :: s.toList.flatMap escape ++ ['"'])

end Egress.Text
