import Flowrun.Source
import Flowrun.Yaml.Node.Basic

/-!
# Anchors

An alias stands for the node whose anchor it names. An anchor is given the number of names that
were known before it, a name may be given again and then means the new anchor, and of two nodes
with one number the later one counts: since an alias may stand inside of the node that it means,
a document keeps the numbers, and a reader looks the node up when it comes to the alias.

How often aliases may be followed is limited by the size of the document. What the reader skips does
not count.
-/

namespace Flowrun.Yaml

/-- The numbers of the names that are known. -/
abbrev AnchorNames := Dict Nat

def Properties.number (p : Properties String) (names : AnchorNames) :
    Properties Nat × AnchorNames :=
  match p.anchor with
  | none => (⟨none, p.tag⟩, names)
  | some name => (⟨some names.length, p.tag⟩, names.put name names.length)

namespace Node

mutual

/-- Number the anchors of a node; `none` if an alias names no anchor before it. -/
def number? : Node String → AnchorNames → Option (Node Nat × AnchorNames)
  | .alias name, names => (names.at? name).map fun id => (.alias id, names)
  | .scalar p style text, names =>
    let (p, names) := p.number names
    some (.scalar p style text, names)
  | .sequence p items, names => do
    let (p, names) := p.number names
    let (items, names) ← numberItems? items names
    return (.sequence p items, names)
  | .mapping p entries, names => do
    let (p, names) := p.number names
    let (entries, names) ← numberEntries? entries names
    return (.mapping p entries, names)

/-- Number the anchors of the items of a sequence. -/
def numberItems? : List (Node String) → AnchorNames → Option (List (Node Nat) × AnchorNames)
  | [], names => some ([], names)
  | item :: items, names => do
    let (item, names) ← item.number? names
    let (items, names) ← numberItems? items names
    return (item :: items, names)

/-- Number the anchors of the entries of a mapping. -/
def numberEntries? : List (Node String × Node String) → AnchorNames →
    Option (List (Node Nat × Node Nat) × AnchorNames)
  | [], names => some ([], names)
  | (k, v) :: entries, names => do
    let (k, names) ← k.number? names
    let (v, names) ← v.number? names
    let (entries, names) ← numberEntries? entries names
    return ((k, v) :: entries, names)

end

def properties? : Node Nat → Option (Properties Nat)
  | .scalar p .. => some p
  | .sequence p _ => some p
  | .mapping p _ => some p
  | .alias _ => none

/-- The number of the anchor at a node, with the node. -/
def own (n : Node Nat) : List (Nat × Node Nat) :=
  ((n.properties?.bind Properties.anchor).map fun id => (id, n)).toList

mutual

/-- The nodes with an anchor, the later ones first. -/
def anchored : Node Nat → List (Nat × Node Nat)
  | .scalar p style text => own (.scalar p style text)
  | .sequence p items => anchoredItems items ++ own (.sequence p items)
  | .mapping p entries => anchoredEntries entries ++ own (.mapping p entries)
  | .alias _ => []

/-- The nodes with an anchor in the items of a sequence. -/
def anchoredItems : List (Node Nat) → List (Nat × Node Nat)
  | [] => []
  | item :: items => anchoredItems items ++ item.anchored

/-- The nodes with an anchor in the entries of a mapping. -/
def anchoredEntries : List (Node Nat × Node Nat) → List (Nat × Node Nat)
  | [] => []
  | (k, v) :: entries => anchoredEntries entries ++ (v.anchored ++ k.anchored)

end
end Node

/-- The nodes that aliases stand for. -/
abbrev Anchors := List (Nat × Node Nat)

namespace Anchors

/-- How many containers may be open at once, and so the number of aliases that may be followed
inside each other. -/
def depthLimit : Nat := 128

/-- A node, or what it stands for if it is an alias. -/
def target (anchors : Anchors) : Node Nat → Node Nat
  | .alias id => (List.lookup id anchors).getD .missing
  | n => n

/-- The text of a scalar, or of one that an alias stands for. -/
def text? (anchors : Anchors) (n : Node Nat) : Option String := match anchors.target n with
  | .scalar _ _ text => some text
  | _ => none

mutual

/-- What is left of a number of aliases after those that a reader comes to in a node were followed;
`none` if they do not suffice. -/
def follow? (anchors : Anchors) (depth : Nat) (o : Outline) : Node Nat → Nat → Option Nat
  | .scalar .., left => some left
  | .sequence _ items, left => followItems? anchors depth o items left
  | .mapping _ entries, left => followEntries? anchors depth o entries left
  | .alias id, left => match depth, left, List.lookup id anchors with
    | depth + 1, left + 1, some target => follow? anchors depth o target left
    | 0, left + 1, _ => some left
    | _, left + 1, none => some left
    | _, 0, _ => none
termination_by n => (depth, sizeOf n)

/-- The same for the items of a sequence. -/
def followItems? (anchors : Anchors) (depth : Nat) (o : Outline) :
    List (Node Nat) → Nat → Option Nat
  | [], left => some left
  | item :: items, left => do
    let left ← follow? anchors depth o item left
    followItems? anchors depth o items left
termination_by items => (depth, sizeOf items)

/-- The same for the entries of a mapping. All keys are read, to see which values are. -/
def followEntries? (anchors : Anchors) (depth : Nat) (o : Outline) :
    List (Node Nat × Node Nat) → Nat → Option Nat
  | [], left => some left
  | (k, v) :: entries, left => do
    let left ← follow? anchors depth .all k left
    let left ← match (anchors.text? k).bind o.under? with
      | some inner => follow? anchors depth inner v left
      | none => some left
    followEntries? anchors depth o entries left
termination_by entries => (depth, sizeOf entries)

end
end Anchors
end Flowrun.Yaml
