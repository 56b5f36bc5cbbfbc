import Flowrun.Text.Hidden

/-!
# Texts in quotes

`quoted` shows a text between quotes, so that its ends and the characters that cannot be seen are
visible: the quote, the backslash, the line breaks, the tab and the null character have short
escapes, and any other hidden character is shown by its number in hexadecimal.
-/

namespace Flowrun.Text

/-- A number in hexadecimal, with lower case letters. -/
def hexText (n : Nat) : List Char := Nat.toDigits 16 n

def escaped (c : Char) : List Char :=
  match c with
  | '"' => ['\\', '"']
  | '\\' => ['\\', '\\']
  | '\n' => ['\\', 'n']
  | '\r' => ['\\', 'r']
  | '\t' => ['\\', 't']
  | '\x00' => ['\\', '0']
  | c => if isHidden c then '\\' :: 'u' :: '\x7b' :: (hexText c.toNat ++ ['\x7d']) else [c]

def quoted (s : String) : String := String.ofList ('"' :: (s.toList.flatMap escaped ++ ['"']))

end Flowrun.Text
