import Flowrun.Yaml.Scalar.Block
import Flowrun.Yaml.Scalar.Plain
import Flowrun.Yaml.Scalar.Quoted
import Flowrun.Yaml.Token

/-!
# From text to tokens

Two things in a YAML text are known only later than they are read. A block ends where a line is
indented less than the block, so a `Layout` keeps the columns of the open blocks. And a node turns
out to be a key when the colon behind it is read, so a `Layout` keeps the place of the last node
that could be one, for every flow collection around it; the tokens of the key are put in at that
place.

A possible key has to end on its line and within 1024 octets of UTF-8. It is required where the text
cannot go on in another way: at the column of the block around it.
-/

namespace Flowrun.Yaml

/-- A node that is a key if a colon follows it. -/
structure PossibleKey where
  /-- How many tokens stand before it. -/
  number : Nat
  /-- The text is malformed if it is no key. -/
  required : Bool
  mark : Mark
  deriving Repr

/-- How many octets a key may take. -/
def keyReach : Nat := 1024

/-- Whether a colon at this position comes too late. -/
def PossibleKey.isStale (k : PossibleKey) (m : Mark) : Bool :=
  k.mark.line < m.line || k.mark.octets + keyReach < m.octets

/-- Drop a possible key; one that is required is missing then. -/
def PossibleKey.drop? : Option PossibleKey → Option (Option PossibleKey)
  | none => some none
  | some k => if k.required then none else some none

/-- Drop a possible key that is stale. -/
def PossibleKey.refresh? (m : Mark) (key : Option PossibleKey) : Option (Option PossibleKey) :=
  if key.any (·.isStale m) then drop? key else some key

/-- A text that has been read up to a cursor. -/
structure Layout where
  cursor : Cursor
  tokens : Array Token := #[]
  /-- The columns of the open blocks, the innermost first. -/
  blocks : List Nat := []
  /-- The last node that could be a key. -/
  key : Option PossibleKey := none
  /-- The same for each flow collection around, from the inside. -/
  outer : List (Option PossibleKey) := []
  /-- Whether a key may start here. -/
  keyAllowed : Bool := true

namespace Layout

def ofChars (cs : List Char) : Layout := { cursor := .ofChars cs }

def column (l : Layout) : Nat := l.cursor.column

/-- Whether the cursor is inside a flow collection. -/
def inFlow (l : Layout) : Bool := !l.outer.isEmpty

/-- The least column of what belongs to the innermost block. -/
def leastColumn (l : Layout) : Nat := match l.blocks with
  | [] => 0
  | column :: _ => column + 1

def push (l : Layout) (t : Token) : Layout := { l with tokens := l.tokens.push t }

/-- Append a token and go over the `n` characters of its indicator. -/
def take (l : Layout) (n : Nat) (t : Token) : Layout :=
  { l with tokens := l.tokens.push t, cursor := l.cursor.skip n }

/-! ### White space -/

/-- Go over white space and comments. A tab counts as white space only where no key may start, a byte
order mark only at the beginning of a line, where it takes a column, and a new line allows a key
again, unless a flow collection is open. -/
def spaceFrom (inFlow : Bool) : List Char → Mark → (keyAllowed inComment : Bool) → Cursor × Bool
  | [], m, keyAllowed, _ => (⟨[], m⟩, keyAllowed)
  | '\r' :: '\n' :: cs, m, keyAllowed, _ =>
    spaceFrom inFlow cs m.down (keyAllowed || !inFlow) false
  | c :: cs, m, keyAllowed, inComment =>
    if isBreak c then spaceFrom inFlow cs m.down (keyAllowed || !inFlow) false
    else if inComment then spaceFrom inFlow cs (m.past c) keyAllowed true
    else if c = ' ' ∨ (c = '\t' ∧ (inFlow ∨ keyAllowed = false)) ∨
        (c = '\ufeff' ∧ m.column = 0) then
      spaceFrom inFlow cs (m.past c) keyAllowed false
    else if c = '#' then spaceFrom inFlow cs (m.past c) keyAllowed true
    else (⟨c :: cs, m⟩, keyAllowed)

/-- Go on to the next token. -/
def skipSpace (l : Layout) : Layout :=
  let (cursor, keyAllowed) := spaceFrom l.inFlow l.cursor.rest l.cursor.mark l.keyAllowed false
  { l with cursor, keyAllowed }

/-! ### Blocks -/

/-- End the blocks that are indented deeper than a column. -/
def closeBlocks (l : Layout) (column : Nat) : Layout :=
  if l.inFlow then l
  else
    let ended := l.blocks.takeWhile (column < ·)
    { l with
      blocks := l.blocks.drop ended.length
      tokens := l.tokens ++ (ended.map fun _ => Token.blockEnd).toArray }

def closeAll (l : Layout) : Layout :=
  if l.inFlow then l
  else { l with blocks := [], tokens := l.tokens ++ (l.blocks.map fun _ => Token.blockEnd).toArray }

/-- Begin a block at a column, before the token with a number, if the column is deeper than that of
the innermost block. -/
def openBlock (l : Layout) (column number : Nat) (start : Token) : Layout :=
  if l.inFlow || column < l.leastColumn then l
  else { l with
    blocks := column :: l.blocks
    tokens := l.tokens.insertIdxIfInBounds number start }

/-- Begin a block here. -/
def openBlockHere (l : Layout) (start : Token) : Layout :=
  l.openBlock l.column l.tokens.size start

/-! ### Keys -/

def dropKey (l : Layout) : Option Layout :=
  (PossibleKey.drop? l.key).map fun key => { l with key }

/-- Drop the possible keys that are stale. -/
def refreshKeys (l : Layout) : Option Layout := do
  let key ← PossibleKey.refresh? l.cursor.mark l.key
  let outer ← l.outer.mapM (PossibleKey.refresh? l.cursor.mark)
  return { l with key, outer }

/-- Whether a node that starts here and is no key leaves the text malformed. -/
def needsKey (l : Layout) : Bool := !l.inFlow && l.blocks.head? == some l.column

/-- Note the place of a node. -/
def noteKey (l : Layout) : Option Layout :=
  if l.keyAllowed then
    l.dropKey.map fun dropped =>
      { dropped with key := some ⟨l.tokens.size, l.needsKey, l.cursor.mark⟩ }
  else some l

def allowKey (l : Layout) (allowed : Bool) : Layout := { l with keyAllowed := allowed }

/-! ### Tokens -/

/-- A directive at the beginning of a line. -/
def directive (l : Layout) : Option Layout := do
  let l ← l.closeAll.dropKey
  let (d, cursor) ← Directive.scan l.cursor
  return { (l.push (.directive d)).allowKey false with cursor }

/-- The beginning or the end of a document. -/
def marker (l : Layout) : Option Layout :=
  l.closeAll.dropKey.map fun l =>
    (l.take 3 (if l.cursor.rest.head? = some '-' then .documentStart else .documentEnd)).allowKey
      false

def openFlow (l : Layout) (start : Token) : Option Layout :=
  l.noteKey.map fun l =>
    ({ l with key := none, outer := l.key :: l.outer }.allowKey true).take 1 start

def closeFlow (l : Layout) (finish : Token) : Option Layout :=
  l.dropKey.map fun l =>
    let l := match l.outer with
      | [] => l
      | key :: outer => { l with key, outer }
    (l.allowKey false).take 1 finish

def flowEntry (l : Layout) : Option Layout :=
  l.dropKey.map fun l => (l.allowKey true).take 1 .flowEntry

def blockEntry (l : Layout) : Option Layout := do
  guard (l.inFlow || l.keyAllowed)
  let l ← (l.openBlockHere .blockSequenceStart).dropKey
  return (l.allowKey true).take 1 .blockEntry

def explicitKey (l : Layout) : Option Layout := do
  guard (l.inFlow || l.keyAllowed)
  let l ← (l.openBlockHere .blockMappingStart).dropKey
  return (l.allowKey !l.inFlow).take 1 .key

def value (l : Layout) : Option Layout := match l.key with
  | some k =>
    let l := { l with tokens := l.tokens.insertIdxIfInBounds k.number .key, key := none }
    let l := l.openBlock k.mark.column k.number .blockMappingStart
    some ((l.allowKey false).take 1 .value)
  | none => do
    guard (l.inFlow || l.keyAllowed)
    let l := l.openBlockHere .blockMappingStart
    return (l.allowKey !l.inFlow).take 1 .value

def named (l : Layout) (token : String → Token) : Option Layout := do
  let l ← l.noteKey
  let (name, cursor) ← scanAnchorName l.cursor
  return { (l.push (token name)).allowKey false with cursor }

def tag (l : Layout) : Option Layout := do
  let l ← l.noteKey
  let (t, cursor) ← TagName.scan l.inFlow l.cursor
  return { (l.push (.tag t)).allowKey false with cursor }

/-- A scalar that could be a key. A key may follow it if it ended with a line break. -/
def keyScalar (l : Layout) (style : Style) (scan : Cursor → Option Scanned) : Option Layout := do
  let l ← l.noteKey
  let s ← scan l.cursor
  return { (l.push (.scalar style s.text)).allowKey s.broken with cursor := s.cursor }

def blockScalar (l : Layout) (style : Style) : Option Layout := do
  let l ← l.dropKey
  let s ← scanBlock (style == .folded) (l.blocks.headD 0) l.leastColumn l.cursor
  return { (l.push (.scalar style s.text)).allowKey true with cursor := s.cursor }

def plainScalar (l : Layout) : Option Layout :=
  l.keyScalar .plain (PlainPlace.scan ⟨l.inFlow, l.leastColumn⟩)

/-- The token that starts with `c`, before the text `rest`. -/
def scanAt (l : Layout) (c : Char) (rest : List Char) : Option Layout :=
  if c = '-' ∧ endsWord rest then l.blockEntry
  else if c = '?' ∧ (l.inFlow ∨ endsWord rest) then l.explicitKey
  else if c = ':' ∧ (l.inFlow ∨ endsWord rest) then l.value
  else match c with
    | '[' => l.openFlow .flowSequenceStart
    | '\x7b' => l.openFlow .flowMappingStart
    | ']' => l.closeFlow .flowSequenceEnd
    | '\x7d' => l.closeFlow .flowMappingEnd
    | ',' => l.flowEntry
    | '*' => l.named .alias
    | '&' => l.named .anchor
    | '!' => l.tag
    | '|' => if l.inFlow then none else l.blockScalar .literal
    | '>' => if l.inFlow then none else l.blockScalar .folded
    | '\'' => l.keyScalar .singleQuoted scanSingleQuoted
    | '"' => l.keyScalar .doubleQuoted scanDoubleQuoted
    | '%' => none
    | '@' => none
    | '\x60' => none
    | '\t' => none
    | _ => l.plainScalar

/-- Read the token at the cursor, if there is one. -/
def scan (l : Layout) : Option Layout := match l.cursor.rest with
  | [] => l.closeAll.dropKey
  | c :: rest =>
    if c = '%' ∧ l.column = 0 then l.directive
    else if l.cursor.atMarker then l.marker
    else l.scanAt c rest

/-- Go to the next token and read it. -/
def step (l : Layout) : Option Layout := do
  let l ← l.skipSpace.refreshKeys
  (l.closeBlocks l.column).scan

/-- Read at most `n` tokens, up to the end of the text. -/
def stepUpTo : Nat → Layout → Option Layout
  | 0, _ => none
  | n + 1, l => do
    let l ← l.step
    if l.cursor.rest = [] then
      -- blocks may still be open after the last token
      l.step
    else stepUpTo n l

end Layout

/-- The tokens of a text. Every token but the last takes a character of it. -/
def tokens? (cs : List Char) : Option (List Token) := do
  guard (cs.all isAllowed)
  let l ← Layout.stepUpTo (cs.length + 1) (.ofChars cs)
  return l.tokens.toList

end Flowrun.Yaml
