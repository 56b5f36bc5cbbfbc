import Flowrun.Json.Token
import Flowrun.Yaml.Cursor

/-!
# Tags

A tag names the type of a node. It is written in full between angle brackets, or as a handle and a
suffix, and then the handle stands for a prefix that a directive gives or that is known anyway. The
tags of the standard types start with `coreTag`; one that starts with an exclamation mark is local
to its document.

A tag is a run of octets: a percent sign and two digits stand for any octet, as long as the octets
are laid out as UTF-8 is, in groups of a first octet and further ones. What such a group stands for
need not be a character. A null octet ends a tag.
-/

namespace Flowrun.Yaml

open Json (hexValue?)

/-- A tag, by its octets. -/
abbrev Tag := List UInt8

namespace Tag

def ofText (s : String) : Tag := s.toUTF8.toList

/-- The octet of the exclamation mark. -/
def mark : UInt8 := 0x21

/-- Whether a tag starts with an exclamation mark. -/
def isMarked (t : Tag) : Bool := t.head? == some mark

/-- The name of a local tag. What is no text names nothing. -/
def localName? (t : Tag) : Option String :=
  if t.isMarked then String.fromUTF8? (ByteArray.mk t.tail.toArray) else none

end Tag

/-- A tag as written. -/
inductive TagName
  /-- The tag itself. -/
  | full (tag : Tag)
  /-- A suffix under a handle. -/
  | short (handle : String) (suffix : Tag)
  deriving DecidableEq, Repr, Inhabited

/-- The prefixes of handles. -/
abbrev TagPrefixes := List (String × Tag)

/-- What the tags of the standard types start with. -/
def coreTag : Tag := .ofText "tag:yaml.org,2002:"

/-- The handles that need no directive. -/
def knownPrefixes : TagPrefixes := [("!", [Tag.mark]), ("!!", coreTag)]

/-- The tag that is meant, unless its handle is unknown. -/
def TagName.resolve? (prefixes : TagPrefixes) : TagName → Option Tag
  | .full tag => some tag
  | .short handle suffix =>
    ((prefixes ++ knownPrefixes).lookup handle).map fun start => start ++ suffix

/-! ### Reading a tag -/

/-- A character of a tag that is written in short. -/
def isTagChar (c : Char) : Bool :=
  isNameChar c || [';', '/', '?', ':', '@', '&', '=', '+', '$', '.', '%', '!', '~', '*', '\'', '(',
    ')'].contains c

/-- A character of a tag that is written in full, or of a prefix. -/
def isFullTagChar (c : Char) : Bool := isTagChar c || c == ',' || c == '[' || c == ']'

def octets? : List Char → Option (List UInt8)
  | [] => some []
  | '%' :: a :: b :: cs => do
    let a ← hexValue? a
    let b ← hexValue? b
    return UInt8.ofNat (a * 16 + b) :: (← octets? cs)
  | c :: cs => if c = '%' then none else (octets? cs).map (UInt8.ofNat c.toNat :: ·)

/-- The number of further octets that a first octet asks for. -/
def furtherOctets? (o : UInt8) : Option Nat :=
  if o < 0x80 then some 0
  else if o < 0xC0 then none
  else if o < 0xE0 then some 1
  else if o < 0xF0 then some 2
  else if o < 0xF8 then some 3
  else none

/-- Whether octets stand in groups, where the first group misses `n` further octets. -/
def inGroups : Nat → List UInt8 → Bool
  | n, [] => n == 0
  | 0, o :: os => match furtherOctets? o with
    | some n => inGroups n os
    | none => false
  | n + 1, o :: os => 0x80 ≤ o && o < 0xC0 && inGroups n os

def decodeTag? (cs : List Char) : Option Tag :=
  ((octets? cs).filter (inGroups 0)).map fun os => os.takeWhile (· ≠ 0)

/-- The handle that starts here: an exclamation mark, a name, and an exclamation mark again if there
is one. -/
def scanHandle (c : Cursor) : Option (List Char × Cursor) := match c.rest with
  | '!' :: _ =>
    let (name, c) := (c.skip 1).run isNameChar
    match c.rest with
    | '!' :: _ => some ('!' :: (name ++ ['!']), c.skip 1)
    | _ => some ('!' :: name, c)
  | _ => none

/-- Whether this is a handle, and not the beginning of a suffix. -/
def isHandle (cs : List Char) : Bool := 1 < cs.length && cs.getLast? == some '!'

/-- The tag in full whose opening bracket stands before the cursor. -/
def scanFullTag (c : Cursor) : Option (TagName × Cursor) := do
  let (cs, c) := c.run isFullTagChar
  guard (cs ≠ [])
  match c.rest with
  | '>' :: _ => return (.full (← decodeTag? cs), c.skip 1)
  | _ => none

/-- The tag in short that starts here. The exclamation mark alone is a tag of its own. -/
def scanShortTag (c : Cursor) : Option (TagName × Cursor) := do
  let (handle, c) ← scanHandle c
  let (cs, c) := c.run isTagChar
  if isHandle handle then
    guard (cs ≠ [])
    return (.short (String.ofList handle) (← decodeTag? cs), c)
  else
    let suffix := Tag.ofText (String.ofList (handle.drop 1)) ++ (← decodeTag? cs)
    return (if suffix = [] then .full [Tag.mark] else .short "!" suffix, c)

/-- The tag that starts here. White space has to follow it, or a comma inside a flow collection. -/
def TagName.scan (inFlow : Bool) (c : Cursor) : Option (TagName × Cursor) := do
  let (tag, c) ← match c.rest with
    | '!' :: '<' :: _ => scanFullTag (c.skip 2)
    | _ => scanShortTag c
  guard (endsWord c.rest || (inFlow && c.rest.head? == some ','))
  return (tag, c)

end Flowrun.Yaml
