/-!
# Places in a YAML text

A `Cursor` is what is left of a text together with its `Mark`: the line and the column at which it
stands, and how far into the line that is in UTF-8. Columns decide the structure of a YAML text, so
every step over a character goes through the functions here.

A line ends with LF, CR, CR LF, or one of the line breaks of Unicode; the last two of those, the
line separator and the paragraph separator, keep their own character when they are read, and the
others are read as LF.
-/

namespace Flowrun.Yaml

/-- A position in a text. -/
structure Mark where
  line : Nat
  /-- How many characters stand before it on its line. -/
  column : Nat
  /-- How many octets these characters take in UTF-8. -/
  octets : Nat
  deriving DecidableEq, Repr, Inhabited

/-- The position after a character of the same line. -/
def Mark.past (m : Mark) (c : Char) : Mark := ⟨m.line, m.column + 1, m.octets + c.utf8Size⟩

/-- The position after `n` characters of ASCII on the same line. -/
def Mark.right (m : Mark) (n : Nat) : Mark := ⟨m.line, m.column + n, m.octets + n⟩

/-- The beginning of the next line. -/
def Mark.down (m : Mark) : Mark := ⟨m.line + 1, 0, 0⟩

/-- What is left of a text, and where it starts. -/
structure Cursor where
  rest : List Char
  mark : Mark
  deriving Repr, Inhabited

/-! ### Classes of characters -/

def isBlank (c : Char) : Bool := c == ' ' || c == '\t'

/-- A line break that keeps its character. -/
def isSeparator (c : Char) : Bool := c == '\u2028' || c == '\u2029'

def isBreak (c : Char) : Bool := c == '\n' || c == '\r' || c == '\u0085' || isSeparator c

/-- The character as which a line break is read. -/
def breakChar (c : Char) : Char := if isSeparator c then c else '\n'

/-- A character of the name of an anchor, a directive or the handle of a tag. -/
def isNameChar (c : Char) : Bool := c.isAlphanum || c == '_' || c == '-'

/-- A character that opens, closes or separates flow collections. -/
def isFlowIndicator (c : Char) : Bool :=
  c == ',' || c == '[' || c == ']' || c == '\x7b' || c == '\x7d'

/-- A character that may stand in a YAML text at all. -/
def isAllowed (c : Char) : Bool :=
  c == '\t' || c == '\n' || c == '\r' || (' ' ≤ c && c ≤ '~') || c == '\u0085' ||
    ('\u00a0' ≤ c && c ≤ '\ufffd') || 0x10000 ≤ c.toNat

/-- Whether a text starts with the end of a word: a blank, a line break, or nothing at all. -/
def endsWord : List Char → Bool
  | [] => true
  | c :: _ => isBlank c || isBreak c

/-- Whether a text starts with the end of a line. -/
def endsLine : List Char → Bool
  | [] => true
  | c :: _ => isBreak c

/-- Whether a text starts with the marker of the end or the beginning of a document. -/
def startsMarker : List Char → Bool
  | '-' :: '-' :: '-' :: rest => endsWord rest
  | '.' :: '.' :: '.' :: rest => endsWord rest
  | _ => false

namespace Cursor

def ofChars (cs : List Char) : Cursor := ⟨cs, ⟨0, 0, 0⟩⟩

def column (c : Cursor) : Nat := c.mark.column

/-- Go over `n` characters of the line. -/
def skip (c : Cursor) (n : Nat) : Cursor :=
  ⟨c.rest.drop n, (c.rest.take n).foldl Mark.past c.mark⟩

/-- The characters at the front that satisfy `p`, and what follows them. -/
def run (c : Cursor) (p : Char → Bool) : List Char × Cursor :=
  let cs := c.rest.takeWhile p
  (cs, c.skip cs.length)

/-- Go over the blanks of the line. -/
def skipBlanks (c : Cursor) : Cursor := (c.run isBlank).2

/-- Go over a line break, if there is one. -/
def skipBreak (c : Cursor) : Cursor := match c.rest with
  | '\r' :: '\n' :: cs => ⟨cs, c.mark.down⟩
  | b :: cs => if isBreak b then ⟨cs, c.mark.down⟩ else c
  | [] => c

/-- Go over the rest of a line that holds no more than blanks and a comment. -/
def skipLine? (c : Cursor) : Option Cursor :=
  let c := c.skipBlanks
  let c := match c.rest with
    | '#' :: _ => (c.run (!isBreak ·)).2
    | _ => c
  if endsLine c.rest then some c.skipBreak else none

/-- Whether the marker of a document stands here. -/
def atMarker (c : Cursor) : Bool := c.column == 0 && startsMarker c.rest

end Cursor
end Flowrun.Yaml
