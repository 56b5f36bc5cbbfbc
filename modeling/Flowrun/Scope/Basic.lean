import Flowrun.Graph.Ancestry
import Flowrun.Scope.Diagnostic
import Flowrun.Scope.Reference

/-!
# Scopes

A node may refer to the declared outputs of its ancestors and to the global variables.
`available` lists what a node may refer to; `checkReference` decides on one selector and says why
it is refused. An edit of the graph may leave references out of scope: they are reported and stay
as they are.
-/

namespace Flowrun

open Json

/-- A variable that a node may refer to. -/
structure VariableRef where
  node : String
  key : String
  type : String
  /-- The name to show. -/
  label : String
  deriving DecidableEq, Repr, Inhabited

namespace VariableRef

def selector (x : VariableRef) : Selector := ⟨x.node, x.key, []⟩

def read? (v : Spot) : Option VariableRef := do
  let fs ← Source.fields? ["node_id", "key", "type", "label"] v
  return {
    node := ← fs.required "node_id" Source.text?
    key := ← fs.required "key" Source.text?
    type := ← fs.required "type" Source.text?
    label := ← fs.required "label" Source.text? }

def tree (x : VariableRef) : Tree := .object [
  ("node_id", .string x.node), ("key", .string x.key), ("type", .string x.type),
  ("label", .string x.label)]

end VariableRef

/-- The outputs that a node declares, as others may refer to them. -/
def Node.offers (n : Node) : List VariableRef :=
  n.config.outputs.map fun p => ⟨n.id, p.key, p.type, n.name ++ "." ++ p.key⟩

/-- A global variable, as nodes may refer to it. -/
def GlobalVariable.offer (x : GlobalVariable) : VariableRef :=
  ⟨x.namespaceName, x.key, x.type, x.namespaceName ++ "." ++ x.key⟩

namespace Graph

/-- What a node may refer to: the outputs of its ancestors, by id and then as declared, and
the global variables. -/
def available (g : Graph) (id : String) : List VariableRef :=
  (g.ancestorNodes id).flatMap Node.offers ++ g.globals.map GlobalVariable.offer

def declaresGlobal (g : Graph) (namespaceName key : String) : Bool :=
  g.globals.any fun x => x.namespaceName == namespaceName && x.key == key

/-- Whether a node may refer to a selector, or why not. -/
def checkReference (g : Graph) (id : String) (s : Selector) : Except ScopeFault Unit :=
  if s.isGlobal then
    if g.declaresGlobal s.owner s.key then .ok () else .error .undeclaredGlobal
  else match g.node? s.owner with
    | none => .error .unknownNode
    | some owner =>
      if owner.id = id then .error .ownOutput
      else if !g.isAncestor owner.id id then .error .notAncestor
      else if owner.config.outputs.any (·.key == s.key) then .ok ()
      else .error (.undeclaredOutput s.key)

/-- A warning if a reference of a node is out of scope. -/
def diagnose? (g : Graph) (id : String) (r : FoundReference) : Option Diagnostic :=
  match g.checkReference id r.selector with
  | .ok _ => none
  | .error fault => some (.dangling id r.selector (some r.field) fault.message)

/-- Warnings for all references of a node that are out of scope. -/
def checkReferences (g : Graph) (id : String) : List Diagnostic := match g.node? id with
  | none => []
  | some n => n.references.filterMap (g.diagnose? id)

/-- The warnings for all nodes, by id. -/
def checkAll (g : Graph) : List Diagnostic :=
  (sortNodes g.nodes).flatMap fun n => g.checkReferences n.id

end Graph
end Flowrun
