import Flowrun.Json.Value

/-!
# Workflows as authored

A `Workflow` is a list of nodes, a list of edges between them, and the variables that every node
may use. A node says under which keys it takes inputs, which outputs it declares, and carries a free
value whose meaning belongs to its type.
-/

namespace Flowrun

open Json

/-- Where an input takes its value from. -/
inductive ValueFrom
  /-- The value is a reference to another node's output. -/
  | refer
  /-- The value is meant as it stands. -/
  | input
  deriving DecidableEq, Repr, Inhabited

structure InputParam where
  key : String
  type : Option String := none
  valueFrom : ValueFrom := .input
  value : Option Value := none
  deriving DecidableEq, Repr, Inhabited

/-- A variable that a node makes available to the nodes after it. -/
structure OutputParam where
  key : String
  type : String := "String"
  description : String := ""
  /-- Whether the user has to supply it; only nodes that take input from the user ask. -/
  required : Bool := false
  deriving DecidableEq, Repr, Inhabited

structure NodeConfig where
  inputs : List InputParam := []
  outputs : List OutputParam := []
  /-- Free, except that the types with branches declare them here. -/
  param : Value := .null
  deriving DecidableEq, Repr, Inhabited

/-- A node as authored. -/
structure NodeSpec where
  id : String
  type : String
  name : String := ""
  config : NodeConfig := {}
  deriving DecidableEq, Repr, Inhabited

/-- An edge as authored. The source handle says which branch of the source it leaves. -/
structure EdgeSpec where
  id : String := ""
  source : String
  sourceHandle : Option String := none
  target : String
  targetHandle : Option String := none
  deriving DecidableEq, Repr, Inhabited

/-- A variable that the caller supplies at the start. -/
structure SystemVariable where
  name : String
  type : String := "String"
  description : String := ""
  deriving DecidableEq, Repr, Inhabited

structure EnvironmentVariable where
  name : String
  type : String := "String"
  value : Value := .null
  deriving DecidableEq, Repr, Inhabited

structure ConversationVariable where
  name : String
  type : String := "String"
  default : Option Value := none
  deriving DecidableEq, Repr, Inhabited

/-- The version of the format that is taken when a workflow names none. -/
def currentVersion : String := "0.1.0"

structure Workflow where
  version : String := currentVersion
  nodes : List NodeSpec := []
  edges : List EdgeSpec := []
  systemVariables : List SystemVariable := []
  environmentVariables : List EnvironmentVariable := []
  conversationVariables : List ConversationVariable := []
  deriving DecidableEq, Repr, Inhabited

namespace NodeSpec

/-- A node that is named after its id. -/
def new (id type : String) : NodeSpec := { id, type, name := id }

def withOutput (n : NodeSpec) (key type : String) : NodeSpec :=
  { n with config := { n.config with outputs := n.config.outputs ++ [{ key, type }] } }

/-- Take one more input from a reference. -/
def withReference (n : NodeSpec) (key reference : String) : NodeSpec :=
  let param : InputParam := { key, valueFrom := .refer, value := some (.string reference) }
  { n with config := { n.config with inputs := n.config.inputs ++ [param] } }

def withParam (n : NodeSpec) (param : Value) : NodeSpec :=
  { n with config := { n.config with param } }

/-- The name to show; the id where none is given. -/
def displayName (n : NodeSpec) : String := if n.name = "" then n.id else n.name

end NodeSpec

namespace EdgeSpec

def new (id source target : String) : EdgeSpec := { id, source, target }

def withSourceHandle (e : EdgeSpec) (handle : String) : EdgeSpec :=
  { e with sourceHandle := some handle }

end EdgeSpec

def Workflow.node? (w : Workflow) (id : String) : Option NodeSpec :=
  w.nodes.find? fun n => n.id == id

end Flowrun
