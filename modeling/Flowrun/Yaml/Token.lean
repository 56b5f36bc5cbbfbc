import Flowrun.Yaml.Scalar.Basic
import Flowrun.Yaml.Tag

/-!
# Tokens of a YAML text

    text (List Char) ──Layout──▶ tokens (List Token) ──Node.ofTokens?──▶ Node

A token is a scalar, a mark on a node, an indicator, or the beginning or the end of a block, which
the text shows by its indentation alone.
-/

namespace Flowrun.Yaml

/-- A statement about the document that follows. -/
inductive Directive
  | version (major minor : Nat)
  | tagPrefix (handle : String) (text : Tag)
  deriving DecidableEq, Repr

/-- A token of a YAML text. -/
inductive Token
  | directive (d : Directive)
  | documentStart
  | documentEnd
  | blockSequenceStart
  | blockMappingStart
  | blockEnd
  | flowSequenceStart
  | flowSequenceEnd
  | flowMappingStart
  | flowMappingEnd
  | blockEntry
  | flowEntry
  | key
  | value
  | alias (name : String)
  | anchor (name : String)
  | tag (t : TagName)
  | scalar (style : Style) (text : String)
  deriving DecidableEq, Repr, Inhabited

/-! ### Reading single tokens -/

/-- A character that may stand right behind the name of an anchor. -/
def followsAnchor (c : Char) : Bool :=
  ['?', ':', ',', ']', '\x7d', '%', '@', '\x60'].contains c

/-- The name of an anchor or alias behind its indicator. -/
def scanAnchorName (c : Cursor) : Option (String × Cursor) := do
  let (name, c) := (c.skip 1).run isNameChar
  guard (name ≠ [] && (endsWord c.rest || c.rest.head?.any followsAnchor))
  return (String.ofList name, c)

/-- A part of a version: at most nine digits. -/
def scanVersionPart (c : Cursor) : Option (Nat × Cursor) := do
  let (digits, c) := c.run Char.isDigit
  guard (digits ≠ [] ∧ digits.length ≤ 9)
  return (digits.foldl (fun n d => n * 10 + (d.toNat - 48)) 0, c)

def scanVersion (c : Cursor) : Option (Directive × Cursor) := do
  let (major, c) ← scanVersionPart c.skipBlanks
  guard (c.rest.head? = some '.')
  let (minor, c) ← scanVersionPart (c.skip 1)
  return (.version major minor, c)

/-- The handle and the prefix of a tag directive. -/
def scanTagPrefix (c : Cursor) : Option (Directive × Cursor) := do
  let (handle, c) ← scanHandle c.skipBlanks
  guard (handle = ['!'] ∨ isHandle handle)
  guard (c.rest.head?.any isBlank)
  let (text, c) := c.skipBlanks.run isFullTagChar
  guard (text ≠ [] ∧ endsWord c.rest)
  return (.tagPrefix (String.ofList handle) (← decodeTag? text), c)

/-- The directive that starts here, up to the end of its line. -/
def Directive.scan (c : Cursor) : Option (Directive × Cursor) := do
  let (name, c) := (c.skip 1).run isNameChar
  guard (endsWord c.rest)
  let (d, c) ← match String.ofList name with
    | "YAML" => scanVersion c
    | "TAG" => scanTagPrefix c
    | _ => none
  return (d, ← c.skipLine?)

end Flowrun.Yaml
