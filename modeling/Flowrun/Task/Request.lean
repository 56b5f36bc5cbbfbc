import Flowrun.Task.Snapshot
import Flowrun.Workflow.Document

/-!
# Requests

What a caller sends to start a task, to start a selected part of a workflow, or to resume a paused
task, and what is answered.
-/

namespace Flowrun

open Json

/-- Whether a parameter comes from the user or from the system. -/
inductive ParamSource
  | user
  | sys
  deriving DecidableEq, Repr, Inhabited

namespace ParamSource

def names : List (String × ParamSource) := [("user", .user), ("sys", .sys)]

def read? (v : Spot) : Option ParamSource := Source.case? names v

def tree : ParamSource → Tree
  | .user => .string "user"
  | .sys => .string "sys"

end ParamSource

/-- A value that is given when a task starts or resumes. -/
structure RunParam where
  key : String
  source : ParamSource := .user
  type : Option String := none
  value : Value := .null
  deriving DecidableEq, Repr, Inhabited

namespace RunParam

def user (key : String) (value : Value) : RunParam := { key, value }

def sys (key : String) (value : Value) : RunParam := { key, source := .sys, value }

def read? (v : Spot) : Option RunParam := do
  let fs ← Source.fields? ["key", "source", "type", "value"] v
  return {
    key := ← fs.required "key" Source.text?
    source := ← fs.defaulted "source" ParamSource.read? .user
    type := ← fs.optional "type" Source.text?
    value := ← fs.defaulted "value" Source.value? .null }

def tree (p : RunParam) : Tree := .object (
  [("key", .string p.key), ("source", p.source.tree)] ++
  Tree.field? "type" (p.type.map .string) ++ [("value", .ofValue p.value)])

end RunParam

/-- A parameter that should be asked for before a trial run. -/
structure DebugParam where
  key : String
  type : String
  description : String := ""
  source : ParamSource
  required : Bool
  deriving DecidableEq, Repr, Inhabited

namespace DebugParam

def read? (v : Spot) : Option DebugParam := do
  let fs ← Source.fields? ["key", "type", "description", "source", "required"] v
  return {
    key := ← fs.required "key" Source.text?
    type := ← fs.required "type" Source.text?
    description := ← fs.defaulted "description" Source.text? ""
    source := ← fs.required "source" ParamSource.read?
    required := ← fs.required "required" Source.flag? }

def tree (p : DebugParam) : Tree := .object [
  ("key", .string p.key), ("type", .string p.type), ("description", .string p.description),
  ("source", p.source.tree), ("required", .bool p.required)]

end DebugParam

/-- Start a task on a published app. -/
structure CreateRequest where
  app : String
  version : Option String := none
  conversation : Option String := none
  inputs : List RunParam := []
  deriving DecidableEq, Repr, Inhabited

namespace CreateRequest

def read? (v : Spot) : Option CreateRequest := do
  let fs ← Source.fields? ["app_id", "version", "conversation_id", "inputs"] v
  return {
    app := ← fs.required "app_id" Source.text?
    version := ← fs.optional "version" Source.text?
    conversation := ← fs.optional "conversation_id" Source.text?
    inputs := ← fs.defaulted "inputs" (Source.list? RunParam.read?) [] }

def tree (r : CreateRequest) : Tree := .object [
  ("app_id", .string r.app), ("version", .optional r.version),
  ("conversation_id", .optional r.conversation), ("inputs", .array (r.inputs.map RunParam.tree))]

end CreateRequest

/-- The ids of a task that was started. -/
structure CreateResponse where
  task : String
  conversation : String
  request : String
  deriving DecidableEq, Repr, Inhabited

namespace CreateResponse

def read? (v : Spot) : Option CreateResponse := do
  let fs ← Source.fields? ["task_id", "conversation_id", "request_id"] v
  return {
    task := ← fs.required "task_id" Source.text?
    conversation := ← fs.required "conversation_id" Source.text?
    request := ← fs.required "request_id" Source.text? }

def tree (r : CreateResponse) : Tree := .object [
  ("task_id", .string r.task), ("conversation_id", .string r.conversation),
  ("request_id", .string r.request)]

end CreateResponse

/-- Start a task on the given nodes and edges alone. -/
structure PartRequest where
  app : String
  nodes : List NodeSpec
  edges : List EdgeSpec := []
  params : List RunParam := []
  deriving DecidableEq, Repr, Inhabited

namespace PartRequest

def read? (v : Spot) : Option PartRequest := do
  let fs ← Source.fields? ["app_id", "nodes", "edges", "input_params"] v
  return {
    app := ← fs.required "app_id" Source.text?
    nodes := ← fs.required "nodes" (Source.list? NodeSpec.read?)
    edges := ← fs.defaulted "edges" (Source.list? EdgeSpec.read?) []
    params := ← fs.defaulted "input_params" (Source.list? RunParam.read?) [] }

def tree (r : PartRequest) : Tree := .object [
  ("app_id", .string r.app), ("nodes", .array (r.nodes.map NodeSpec.tree)),
  ("edges", .array (r.edges.map EdgeSpec.tree)),
  ("input_params", .array (r.params.map RunParam.tree))]

end PartRequest

/-- The ids of a partial task that was started. -/
structure PartResponse where
  task : String
  request : String
  deriving DecidableEq, Repr, Inhabited

namespace PartResponse

def read? (v : Spot) : Option PartResponse := do
  let fs ← Source.fields? ["task_id", "request_id"] v
  return {
    task := ← fs.required "task_id" Source.text?
    request := ← fs.required "request_id" Source.text? }

def tree (r : PartResponse) : Tree := .object [
  ("task_id", .string r.task), ("request_id", .string r.request)]

end PartResponse

/-- Give a paused task the input it waits for. -/
structure ResumeRequest where
  app : String := ""
  task : String
  node : String
  parent : Option String := none
  params : List RunParam := []
  deriving DecidableEq, Repr, Inhabited

namespace ResumeRequest

/-- The point that is to be resumed. -/
def target (r : ResumeRequest) : ResumeTarget := .new r.node r.parent

/-- The inputs that are delivered; of two parameters with one key the later one counts. -/
def inputs (r : ResumeRequest) : Dict Value :=
  Dict.ofEntries (r.params.map fun p => (p.key, p.value))

def read? (v : Spot) : Option ResumeRequest := do
  let fs ← Source.fields? ["app_id", "task_id", "resume_node_id", "resume_parent_id",
    "input_params"] v
  return {
    app := ← fs.defaulted "app_id" Source.text? ""
    task := ← fs.required "task_id" Source.text?
    node := ← fs.required "resume_node_id" Source.text?
    parent := ← fs.optional "resume_parent_id" Source.text?
    params := ← fs.defaulted "input_params" (Source.list? RunParam.read?) [] }

def tree (r : ResumeRequest) : Tree := .object [
  ("app_id", .string r.app), ("task_id", .string r.task), ("resume_node_id", .string r.node),
  ("resume_parent_id", .optional r.parent), ("input_params", .array (r.params.map RunParam.tree))]

end ResumeRequest
end Flowrun
