import Flowrun.Graph.Kind
import Flowrun.Selector.Basic

/-!
# Nodes, edges and global variables

The parts of a graph. A `Node` has its kind worked out; an `Edge` that leaves a node with branches
is bound to one of them; a `GlobalVariable` may be used by every node.
-/

namespace Flowrun

open Json

/-- A node of a graph. -/
structure Node where
  id : String
  name : String
  kind : NodeKind
  /-- The type as authored. -/
  type : String
  config : NodeConfig
  deriving DecidableEq, Repr, Inhabited

def Node.ofSpec (n : NodeSpec) : Node :=
  ⟨n.id, n.displayName, .of n.type n.config.param, n.type, n.config⟩

/-- A directed edge. -/
structure Edge where
  id : String
  source : String
  target : String
  sourceHandle : Option String := none
  targetHandle : Option String := none
  /-- The branch it belongs to, if its source has branches. -/
  branch : Option BranchHandle := none
  deriving DecidableEq, Repr, Inhabited

namespace Edge

def new (id source target : String) : Edge := { id, source, target }

/-- The edge of an authored one, not yet bound to a branch. -/
def ofSpec (e : EdgeSpec) : Edge :=
  { id := e.id, source := e.source, target := e.target, sourceHandle := e.sourceHandle
    targetHandle := e.targetHandle }

/-- Bind an edge to a branch of its source. An edge without a handle that can be read belongs to
`default`. -/
def bind (e : Edge) (source : NodeKind) : Edge :=
  let named := e.sourceHandle.bind (BranchHandle.ofText? e.source)
  { e with branch := if source.isBranching then some (named.getD (.defaultOf e.source)) else none }

end Edge

/-- A variable that every node may use. -/
structure GlobalVariable where
  namespaceName : String
  key : String
  type : String
  description : String := ""
  default : Value := .null
  deriving DecidableEq, Repr, Inhabited

namespace GlobalVariable

def selector (g : GlobalVariable) : Selector := ⟨g.namespaceName, g.key, []⟩

/-- The key of the text that the user starts a task with. -/
def queryKey : String := "query"

/-- The user's query, which every workflow has. -/
def userQuery : GlobalVariable :=
  { namespaceName := sysNamespace, key := queryKey, type := "String", description := "user query" }

/-- The user's query and all variables that a workflow declares. -/
def collect (w : Workflow) : List GlobalVariable :=
  let system := (w.systemVariables.filter (·.name ≠ queryKey)).map fun x =>
    { namespaceName := sysNamespace, key := x.name, type := x.type, description := x.description }
  let environment := w.environmentVariables.map fun x =>
    { namespaceName := envNamespace, key := x.name, type := x.type, default := x.value }
  let conversation := w.conversationVariables.map fun x =>
    { namespaceName := conversationNamespace, key := x.name, type := x.type
      default := x.default.getD .null }
  userQuery :: system ++ environment ++ conversation

end GlobalVariable
end Flowrun
