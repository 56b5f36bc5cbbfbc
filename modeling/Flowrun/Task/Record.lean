import Flowrun.Error

/-!
# Execution records

One entry in the history of a task: which node, with which inputs, how far it got, and what came
out. A record that is nested names its container.
-/

namespace Flowrun

open Json

/-- The failure of a node, as it is kept on its record. -/
structure ErrorInfo where
  code : String
  message : String
  deriving DecidableEq, Repr, Inhabited

namespace ErrorInfo

def ofError (e : NodeError) : ErrorInfo := ⟨e.code, e.message⟩

def read? (v : Spot) : Option ErrorInfo := do
  let fs ← Source.fields? ["code", "message"] v
  return { code := ← fs.required "code" Source.text?
           message := ← fs.required "message" Source.text? }

def tree (e : ErrorInfo) : Tree := .object [
  ("code", .string e.code), ("message", .string e.message)]

end ErrorInfo

/-- One entry in the history of a task. -/
structure Record where
  node : String
  name : String := ""
  type : String
  /-- The container of a nested node. -/
  parent : Option String := none
  status : NodeStatus
  input : Value := .null
  output : Value := .null
  error : Option ErrorInfo := none
  /-- The branches that a node with branches chose. -/
  branches : List String := []
  execTimeMs : Nat := 0
  /-- The revision of the task at the latest change of the record. -/
  revision : Nat := 0
  deriving DecidableEq, Repr, Inhabited

namespace Record

/-- The record of a node that starts. -/
def executing (node name type : String) (input : Value) : Record :=
  { node, name, type, status := .executing, input }

/-- The record of a node that will not run. -/
def skipped (node name type : String) : Record := { node, name, type, status := .skip }

def withParent (r : Record) (parent : Option String) : Record := { r with parent }

def read? (v : Spot) : Option Record := do
  let fs ← Source.fields? ["node_id", "node_name", "node_type", "parent_node_id", "status",
    "input", "output", "error_info", "selected_branches", "exec_time_ms", "revision"] v
  return {
    node := ← fs.required "node_id" Source.text?
    name := ← fs.defaulted "node_name" Source.text? ""
    type := ← fs.required "node_type" Source.text?
    parent := ← fs.optional "parent_node_id" Source.text?
    status := ← fs.required "status" NodeStatus.read?
    input := ← fs.defaulted "input" Source.value? .null
    output := ← fs.defaulted "output" Source.value? .null
    error := ← fs.optional "error_info" ErrorInfo.read?
    branches := ← fs.defaulted "selected_branches" (Source.list? Source.text?) []
    execTimeMs := ← fs.defaulted "exec_time_ms" Spot.count? 0
    revision := ← fs.defaulted "revision" Spot.count? 0 }

def tree (r : Record) : Tree := .object (
  [("node_id", .string r.node), ("node_name", .string r.name), ("node_type", .string r.type)] ++
  Tree.field? "parent_node_id" (r.parent.map .string) ++
  [("status", r.status.tree), ("input", .ofValue r.input), ("output", .ofValue r.output)] ++
  Tree.field? "error_info" (r.error.map ErrorInfo.tree) ++
  Tree.field? "selected_branches" (if r.branches = [] then none else some (.strings r.branches)) ++
  [("exec_time_ms", .count r.execTimeMs), ("revision", .count r.revision)])

end Record
end Flowrun
