import Flowrun.Yaml.Scalar.Basic
import Flowrun.Yaml.Tag

/-!
# Nodes of a YAML document

A node is a scalar, a sequence or a mapping, with an anchor under which it may be named again, or
an alias that names an anchor. `ρ` is what anchors are named by: a text as they are read, a number
once it is known which anchor an alias means.
-/

namespace Flowrun.Yaml

/-- What may stand before the content of a node. -/
structure Properties (ρ : Type) where
  anchor : Option ρ := none
  tag : Option Tag := none
  deriving DecidableEq, Repr, Inhabited

/-- A node of a document. -/
inductive Node (ρ : Type)
  | scalar (properties : Properties ρ) (style : Style) (text : String)
  | sequence (properties : Properties ρ) (items : List (Node ρ))
  | mapping (properties : Properties ρ) (entries : List (Node ρ × Node ρ))
  | alias (anchor : ρ)
  deriving Repr, Inhabited

namespace Node

variable {ρ : Type}

/-- A plain scalar without text stands where a node is left out. -/
def missing : Node ρ := .scalar {} .plain ""

mutual

/-- The number of steps it takes to walk over a node: one for a scalar or an alias, and two around
the parts of a collection. -/
def steps : Node ρ → Nat
  | .scalar .. => 1
  | .alias _ => 1
  | .sequence _ items => stepsOfItems items + 2
  | .mapping _ entries => stepsOfEntries entries + 2

/-- The steps over the items of a sequence. -/
def stepsOfItems : List (Node ρ) → Nat
  | [] => 0
  | item :: items => item.steps + stepsOfItems items

/-- The steps over the entries of a mapping. -/
def stepsOfEntries : List (Node ρ × Node ρ) → Nat
  | [] => 0
  | (k, v) :: entries => k.steps + v.steps + stepsOfEntries entries

end

end Node
end Flowrun.Yaml
