import Flowrun.Graph.Basic
import Flowrun.Selector.Occurrence

/-!
# References that a node holds

An input that refers takes its value from one selector. Every other text in a node's configuration
may hold references anywhere: literal inputs and the node's own parameter.
-/

namespace Flowrun

open Json

/-- A reference, and the field of the configuration that holds it. -/
structure FoundReference where
  selector : Selector
  field : String
  deriving DecidableEq, Repr, Inhabited

/-- The selectors of the references that an input holds. -/
def InputParam.selectors (p : InputParam) : List Selector :=
  match p.valueFrom, p.value with
  | _, none => []
  | .refer, some (.string s) => (Selector.read? s).toList
  | .refer, some _ => []
  | .input, some v => Selector.occurrencesIn v

def InputParam.references (p : InputParam) : List FoundReference :=
  p.selectors.map fun s => ⟨s, "input_params." ++ p.key⟩

/-- The references that a node's own parameter holds. -/
def Node.paramReferences (n : Node) : List FoundReference :=
  (Selector.occurrencesIn n.config.param).map fun s => ⟨s, "node_param"⟩

def Node.references (n : Node) : List FoundReference :=
  n.config.inputs.flatMap InputParam.references ++ n.paramReferences

end Flowrun
