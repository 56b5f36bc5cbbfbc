import Flowrun.Yaml.Scalar.Basic

/-!
# Plain scalars

A plain scalar has no quotes. It ends before a colon that ends a word, before a comment, before the
marker of a document and, in a block, before a line that is indented less than its content has to
be; in a flow collection, before the next flow indicator.
-/

namespace Flowrun.Yaml

/-- Where a plain scalar stands. -/
structure PlainPlace where
  /-- Inside a flow collection. -/
  inFlow : Bool
  /-- The least column of a further line. -/
  indent : Nat

namespace PlainPlace

/-- A plain scalar does not go on with this text, whose first character is no white space. -/
def stops (p : PlainPlace) : List Char → Bool
  | [] => true
  | ':' :: rest => endsWord rest
  | c :: _ => p.inFlow && isFlowIndicator c

/-- A further word of a plain scalar may not begin here. -/
def stopsWord (p : PlainPlace) (cs : List Char) (m : Mark) : Bool :=
  (m.column == 0 && startsMarker cs) || cs.head? == some '#' ||
    (!p.inFlow && m.column < p.indent)

/-- A colon before a flow indicator or a question mark, which a flow collection refuses. -/
def refuses (p : PlainPlace) : List Char → Bool
  | ':' :: c :: _ => p.inFlow && (isFlowIndicator c || c == '?')
  | _ => false

/-- Read on: `done` are the characters so far, the last one first; `gap` is the white space since. -/
def scanFrom (p : PlainPlace) : List Char → Mark → Gap → List Char → Option Scanned
  | [], m, gap, done => some ⟨String.ofList done.reverse, gap.isBroken, ⟨[], m⟩⟩
  | '\r' :: '\n' :: cs, m, gap, done => p.scanFrom cs m.down (gap.addBreak '\n') done
  | c :: cs, m, gap, done =>
    if isBreak c then p.scanFrom cs m.down (gap.addBreak c) done
    else if isBlank c then
      if c = '\t' ∧ gap.isBroken ∧ m.column < p.indent then none
      else p.scanFrom cs (m.past c) (gap.addBlank c) done
    else
      let atWord := gap.isBroken || gap.blanks ≠ []
      if atWord && p.stopsWord (c :: cs) m then
        some ⟨String.ofList done.reverse, gap.isBroken, ⟨c :: cs, m⟩⟩
      else if p.refuses (c :: cs) then none
      else if p.stops (c :: cs) then
        some ⟨String.ofList done.reverse, gap.isBroken, ⟨c :: cs, m⟩⟩
      else p.scanFrom cs (m.past c) {} (c :: gap.onto done)

/-- The plain scalar that starts here. -/
def scan (p : PlainPlace) (c : Cursor) : Option Scanned := p.scanFrom c.rest c.mark {} []

end PlainPlace
end Flowrun.Yaml
