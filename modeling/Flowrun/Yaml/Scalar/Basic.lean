import Flowrun.Yaml.Cursor

/-!
# Scalars

A scalar is written in one of five styles. The three that stand on the same line as their
neighbours, plain, in single quotes and in double quotes, may go on over several lines; the white
space between two of their words is a `Gap`, and `Gap.text` is what it contributes: blanks inside a
line stay, a line break becomes a space, and a line break with empty lines behind it becomes those
empty lines.
-/

namespace Flowrun.Yaml

/-- How a scalar is written. -/
inductive Style
  | plain
  | singleQuoted
  | doubleQuoted
  | literal
  | folded
  deriving DecidableEq, Repr, Inhabited

/-- A scalar that was read. -/
structure Scanned where
  text : String
  /-- A line break follows the last word. -/
  broken : Bool
  /-- What follows. -/
  cursor : Cursor
  deriving Inhabited

/-- White space between two words, the last character first. -/
structure Gap where
  blanks : List Char := []
  breaks : List Char := []
  /-- The first line break was escaped. -/
  joined : Bool := false
  deriving Repr, Inhabited

namespace Gap

/-- Whether the gap goes over a line break. -/
def isBroken (g : Gap) : Bool := g.joined || g.breaks ≠ []

/-- Blanks count only up to the first line break. -/
def addBlank (g : Gap) (c : Char) : Gap :=
  if g.isBroken then g else { g with blanks := c :: g.blanks }

def addBreak (g : Gap) (c : Char) : Gap := { g with breaks := breakChar c :: g.breaks }

/-- Line breaks, in order, with the first of them folded. -/
def foldFirst : List Char → List Char
  | ['\n'] => [' ']
  | '\n' :: more => more
  | breaks => breaks

/-- What the gap contributes to the text. -/
def text (g : Gap) : List Char :=
  if g.joined then g.breaks.reverse
  else if g.breaks = [] then g.blanks.reverse
  else foldFirst g.breaks.reverse

/-- Append the gap to a text whose last character comes first. -/
def onto (g : Gap) (done : List Char) : List Char := g.text.reverse ++ done

end Gap
end Flowrun.Yaml
