import Flowrun.Json.Tree

/-!
# Writing JSON documents

`Tree.text` writes a document on one line without spaces. `Tree.pretty` spreads it over lines, with
two more spaces at each level; an empty container stays on its line.

In a string the quote, the backslash and the control characters are escaped, with the short form
where there is one; everything else is written as it is.
-/

namespace Flowrun.Json

def hexDigit (n : Nat) : Char := if n < 10 then Char.ofNat (48 + n) else Char.ofNat (87 + n)

def quotedChar (c : Char) : List Char :=
  match c with
  | '"' => ['\\', '"']
  | '\\' => ['\\', '\\']
  | '\x08' => ['\\', 'b']
  | '\x0c' => ['\\', 'f']
  | '\n' => ['\\', 'n']
  | '\r' => ['\\', 'r']
  | '\t' => ['\\', 't']
  | c =>
    if c.toNat < 0x20 then
      ['\\', 'u', '0', '0', hexDigit (c.toNat / 16), hexDigit (c.toNat % 16)]
    else [c]

def quotedText (s : String) : List Char := '"' :: (s.toList.flatMap quotedChar ++ ['"'])

namespace Tree

mutual

/-- The document on one line. -/
def chars : Tree → List Char
  | .null => "null".toList
  | .bool true => "true".toList
  | .bool false => "false".toList
  | .number n => n.text.toList
  | .string s => quotedText s
  | .array items => '[' :: itemChars items
  | .object fields => '\x7b' :: fieldChars fields
  | .void => "null".toList

/-- The items of an array and its end. -/
def itemChars : List Tree → List Char
  | [] => [']']
  | [t] => chars t ++ [']']
  | t :: ts => chars t ++ ',' :: itemChars ts

/-- The fields of an object and its end. -/
def fieldChars : List (String × Tree) → List Char
  | [] => ['\x7d']
  | [(k, t)] => quotedText k ++ ':' :: (chars t ++ ['\x7d'])
  | (k, t) :: fs => quotedText k ++ ':' :: (chars t ++ ',' :: fieldChars fs)

end

/-- The document on one line. -/
def text (t : Tree) : String := String.ofList t.chars

/-- The start of a line at a level. -/
def newline (level : Nat) : List Char := '\n' :: List.replicate (2 * level) ' '

mutual

/-- The document over lines, at a level. -/
def prettyChars (level : Nat) : Tree → List Char
  | .array [] => ['[', ']']
  | .array items => '[' :: prettyItems (level + 1) items ++ newline level ++ [']']
  | .object [] => ['\x7b', '\x7d']
  | .object fields => '\x7b' :: prettyFields (level + 1) fields ++ newline level ++ ['\x7d']
  | t => chars t

/-- The items of an array, each on a line of its own. -/
def prettyItems (level : Nat) : List Tree → List Char
  | [] => []
  | [t] => newline level ++ prettyChars level t
  | t :: ts => newline level ++ prettyChars level t ++ ',' :: prettyItems level ts

/-- The fields of an object, each on a line of its own. -/
def prettyFields (level : Nat) : List (String × Tree) → List Char
  | [] => []
  | [(k, t)] => newline level ++ quotedText k ++ ':' :: ' ' :: prettyChars level t
  | (k, t) :: fs =>
    newline level ++ quotedText k ++ ':' :: ' ' :: prettyChars level t ++
      ',' :: prettyFields level fs

end

/-- The document over lines. -/
def pretty (t : Tree) : String := String.ofList (prettyChars 0 t)

end Tree
end Flowrun.Json
