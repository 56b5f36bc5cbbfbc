import Flowrun.Yaml.Scalar.Basic

/-!
# Block scalars

A block scalar is a run of indented lines under a header. The header tells whether the lines are
kept apart (`|`) or folded into one another (`>`), what becomes of the line breaks at the end, and,
if it has a digit, how deep the lines are indented; otherwise the first line that is not empty
tells.

Of two folded lines the break between them becomes a space, unless one of the two starts with a
blank or empty lines lie between.
-/

namespace Flowrun.Yaml

/-- What becomes of the line breaks at the end of a block scalar. -/
inductive Chomp
  /-- All go. -/
  | strip
  /-- The first stays. -/
  | clip
  /-- All stay. -/
  | keep
  deriving DecidableEq, Repr, Inhabited

/-- The header of a block scalar. -/
structure BlockHeader where
  chomp : Chomp
  /-- How much deeper than the node around it the lines are indented. -/
  deeper : Option Nat
  deriving Repr

/-- The indicator of a chomping, and what follows it. -/
def Chomp.scan? (c : Cursor) : Option (Chomp × Cursor) := match c.rest with
  | '+' :: _ => some (.keep, c.skip 1)
  | '-' :: _ => some (.strip, c.skip 1)
  | _ => none

/-- The digit of an indentation, and what follows it; a zero is refused. -/
def scanDeeper (c : Cursor) : Option (Option Nat × Cursor) := match c.rest with
  | d :: _ =>
    if d = '0' then none
    else if d.isDigit then some (some (d.toNat - 48), c.skip 1)
    else some (none, c)
  | [] => some (none, c)

/-- The header that starts here, without the indicator of the style. Its two parts may stand in
either order. -/
def BlockHeader.scan (c : Cursor) : Option (BlockHeader × Cursor) := do
  match Chomp.scan? c with
  | some (chomp, c) =>
    let (deeper, c) ← scanDeeper c
    return (⟨chomp, deeper⟩, ← c.skipLine?)
  | none =>
    let (deeper, c) ← scanDeeper c
    match deeper, Chomp.scan? c with
    | some n, some (chomp, c) => return (⟨chomp, some n⟩, ← c.skipLine?)
    | _, _ => return (⟨.clip, deeper⟩, ← c.skipLine?)

/-- The deepest indentation of the empty lines at the front and the line after them, where `column`
is that of the first character. A tab is refused there. -/
def deepestIndent : List Char → (column deepest : Nat) → Option Nat
  | ' ' :: cs, column, deepest => deepestIndent cs (column + 1) (max deepest (column + 1))
  | '\t' :: _, _, _ => none
  | c :: cs, _, deepest => if isBreak c then deepestIndent cs 0 deepest else some deepest
  | [], _, deepest => some deepest

/-- The lines of a block scalar while they are read. -/
structure BlockText where
  /-- The characters of the lines so far, the last one first. -/
  done : List Char := []
  /-- The break after the last line. -/
  ended : Option Char := none
  /-- The breaks of empty lines since then, the last one first. -/
  empty : List Char := []
  /-- The last line starts with a blank. -/
  startsBlank : Bool := false
  deriving Inhabited

namespace BlockText

/-- Go on with a line that starts with `c`. -/
def startLine (t : BlockText) (fold : Bool) (c : Char) : BlockText :=
  let before :=
    if fold && t.ended == some '\n' && !t.startsBlank && !isBlank c then
      if t.empty = [] then [' '] else []
    else t.ended.toList
  ⟨c :: (t.empty ++ (before ++ t.done)), none, [], isBlank c⟩

def finish (t : BlockText) (chomp : Chomp) : String :=
  String.ofList <| List.reverse <| match chomp with
    | .strip => t.done
    | .clip => t.ended.toList ++ t.done
    | .keep => t.empty ++ (t.ended.toList ++ t.done)

end BlockText

/-- Read the lines that are indented to a column. `inLine` tells that the cursor is inside one. -/
def blockLines (fold : Bool) (chomp : Chomp) (indent : Nat) :
    List Char → Mark → Bool → BlockText → Option Scanned
  | [], m, _, t => some ⟨t.finish chomp, true, ⟨[], m⟩⟩
  | '\r' :: '\n' :: cs, m, inLine, t =>
    blockLines fold chomp indent cs m.down false
      (if inLine then { t with ended := some '\n' } else { t with empty := '\n' :: t.empty })
  | c :: cs, m, inLine, t =>
    if isBreak c then
      blockLines fold chomp indent cs m.down false
        (if inLine then { t with ended := some (breakChar c) }
          else { t with empty := breakChar c :: t.empty })
    else if inLine then
      blockLines fold chomp indent cs (m.past c) true { t with done := c :: t.done }
    else if m.column < indent then
      if c = ' ' then blockLines fold chomp indent cs (m.past c) false t
      else if c = '\t' then none
      else some ⟨t.finish chomp, true, ⟨c :: cs, m⟩⟩
    else blockLines fold chomp indent cs (m.past c) true (t.startLine fold c)

/-- The block scalar that starts here; the least column of its lines is `least`, and an indentation
in the header counts from `base`. -/
def scanBlock (fold : Bool) (base least : Nat) (c : Cursor) : Option Scanned := do
  let (header, c) ← BlockHeader.scan (c.skip 1)
  let indent ← match header.deeper with
    | some n => some (base + n)
    | none => (deepestIndent c.rest 0 0).map fun n => max (max n least) 1
  blockLines fold header.chomp indent c.rest c.mark false {}

end Flowrun.Yaml
