import Flowrun.Source
import Flowrun.Yaml.Anchor
import Flowrun.Yaml.Node.Grammar
import Flowrun.Yaml.Schema

/-!
# Reading typed objects from YAML

`Spot` is a part of a document, and makes a document a `Source`. A text field takes the text of any
scalar, whatever it looks like and whatever its tag. A collection that is left out is empty. Free
values have the value that their scalars look like, or that the tag of a standard type asks for;
a local tag is refused there.
-/

namespace Flowrun.Yaml

open Json (Value)

/-- A document whose aliases all mean something. -/
structure Document where
  root : Node Nat
  anchors : Anchors

namespace Document

/-- The document of a root, unless an alias means nothing. -/
def ofNode? (root : Node String) : Option Document :=
  (root.number? []).map fun (root, _) => ⟨root, root.anchored⟩

def ofText? (s : String) : Option Document := (Node.ofText? s).bind ofNode?

/-- Whether a reader may follow all aliases that it comes to. -/
def mayFollow (d : Document) (o : Outline) : Bool :=
  (d.anchors.follow? (Anchors.depthLimit + 1) o d.root (100 * d.root.steps)).isSome

end Document

def localName? (p : Properties Nat) : Option String := p.tag.bind Tag.localName?

/-- Whether the tag is that of a standard type. -/
def Properties.hasCore (p : Properties Nat) (type : String) : Bool :=
  p.tag == some (coreTag ++ Tag.ofText type)

def scalarValue? (p : Properties Nat) (style : Style) (text : String) : Option Value :=
  if (localName? p).isSome then none
  else if p.hasCore "bool" then (flagOf? text).map .bool
  else if p.hasCore "int" then integerValue? text
  else if p.hasCore "float" then realOf? text.toList
  else if p.hasCore "null" then if isNullWord text then some .null else none
  else if p.tag.all Tag.isMarked ∧ style = .plain then plainValue? text
  else some (.string text)

/-- A part of a document, and how many containers may be opened inside each other from here on. -/
structure Spot where
  node : Node Nat
  anchors : Anchors
  room : Nat

namespace Spot

/-- The node that stands here, or that the alias here stands for. -/
def here (s : Spot) : Node Nat := s.anchors.target s.node

def text? (s : Spot) : Option String := s.anchors.text? s.node

def flag? (s : Spot) : Option Bool := match s.here with
  | .scalar p style text =>
    if style = .plain ∨ (style = .literal ∧ p.hasCore "bool") then flagOf? text else none
  | _ => none

/-- A case is named by a scalar, or by the local tag of a scalar that says nothing. -/
def word? (s : Spot) : Option String := match s.here with
  | .scalar p style text => match localName? p with
    | some name => if style = .plain ∧ (text = "" ∨ isNullWord text) then some name else none
    | none => some text
  | _ => none

/-- Whether a collection is left out here. -/
def isLeftOut (s : Spot) : Bool := match s.here with
  | .scalar _ style text => style == .plain && text == ""
  | _ => false

def enter (s : Spot) (f : (Node Nat → Spot) → Option α) : Option α :=
  match s.room with
  | 0 => none
  | room + 1 => f fun n => ⟨n, s.anchors, room⟩

def items? (s : Spot) : Option (List Spot) := match s.here with
  | .sequence _ items => s.enter fun spot => some (items.map spot)
  | _ => if s.isLeftOut then some [] else none

/-- The keys of a mapping are scalars. -/
def pairs? (s : Spot) : Option (List (String × Spot)) := match s.here with
  | .mapping _ entries => s.enter fun spot =>
    entries.mapM fun e => ((spot e.1).text?).map fun key => (key, spot e.2)
  | _ => if s.isLeftOut then some [] else none

def fields? (names : List FieldName) (s : Spot) : Option (Fields Spot) :=
  s.pairs?.bind (Fields.ofPairs? names)

/-- A free value; of two entries with one key the later one counts. -/
def valueIn? (anchors : Anchors) (room : Nat) (n : Node Nat) : Option Value :=
  match anchors.target n, room with
  | .scalar p style text, _ => scalarValue? p style text
  | .sequence p items, room + 1 =>
    if (localName? p).isSome then none
    else (items.mapM (valueIn? anchors room)).map .array
  | .mapping p entries, room + 1 =>
    if (localName? p).isSome then none
    else
      let field (e : Node Nat × Node Nat) : Option (String × Value) := do
        let key ← anchors.text? e.1
        return (key, ← valueIn? anchors room e.2)
      (entries.mapM field).map fun fs => .object (Dict.ofEntries fs)
  | _, _ => none

/-- Nothing stands where a plain scalar is empty or spells null. The tag of null may stand at a
scalar that spells it, and at no other. -/
def absent? (s : Spot) : Option Bool := match s.here with
  | .scalar p .plain text =>
    if p.hasCore "null" then if isNullWord text then some true else none
    else if p.tag.isSome then some false
    else some (text == "" || isNullWord text)
  | _ => some false

instance : Source Spot where
  text? := text?
  flag? := flag?
  word? := word?
  items? := items?
  fields? := fields?
  value? s := valueIn? s.anchors s.room s.node
  absent? := absent?

end Spot

/-- Read a typed object from a text; its outline tells what of the text is looked at. -/
def readText? (o : Outline) (read : Spot → Option α) (s : String) : Option α := do
  let d ← Document.ofText? s
  guard (d.mayFollow o)
  read ⟨d.root, d.anchors, Anchors.depthLimit⟩

end Flowrun.Yaml
