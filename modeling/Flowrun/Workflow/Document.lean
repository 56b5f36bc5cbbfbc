import Flowrun.Source
import Flowrun.Workflow.Basic

/-!
# Workflow documents

How a workflow and its parts are read from a document and written to one. Reading goes through
`Source`, so it serves every format; what is skipped on the way is told by the `Outline` of a type.
Writing makes a JSON document whose fields stand in the order of their declaration and which names
every field.
-/

namespace Flowrun

open Json

variable {ν : Type} [Source ν]

/-! ### Parameters -/

/-- The names of the places an input may take its value from. -/
def ValueFrom.names : List (String × ValueFrom) := [("refer", .refer), ("input", .input)]

def ValueFrom.read? (v : ν) : Option ValueFrom := Source.case? ValueFrom.names v

def ValueFrom.tree : ValueFrom → Tree
  | .refer => .string "refer"
  | .input => .string "input"

def InputParam.outline : Outline := .ofNames ["key", "type", "value_from", "value"]

def InputParam.read? (v : ν) : Option InputParam := do
  let fs ← Source.fields? outline.names v
  return {
    key := ← fs.required "key" Source.text?
    type := ← fs.optional "type" Source.text?
    valueFrom := ← fs.defaulted "value_from" ValueFrom.read? .input
    value := ← fs.optional "value" Source.value? }

def InputParam.tree (p : InputParam) : Tree := .object [
  ("key", .string p.key), ("type", .optional p.type), ("value_from", p.valueFrom.tree),
  ("value", match p.value with | some v => .ofValue v | none => .null)]

def OutputParam.outline : Outline :=
  .ofNames ["key", "type", ⟨"description", "desc"⟩, "required"]

def OutputParam.read? (v : ν) : Option OutputParam := do
  let fs ← Source.fields? outline.names v
  return {
    key := ← fs.required "key" Source.text?
    type := ← fs.defaulted "type" Source.text? "String"
    description := ← fs.defaulted "description" Source.text? ""
    required := ← fs.defaulted "required" Source.flag? false }

def OutputParam.tree (p : OutputParam) : Tree := .object [
  ("key", .string p.key), ("type", .string p.type), ("description", .string p.description),
  ("required", .bool p.required)]

/-! ### Nodes and edges -/

def NodeConfig.outline : Outline := .object [("input_params", InputParam.outline),
  ("output_params", OutputParam.outline), ("node_param", .all)]

def NodeConfig.read? (v : ν) : Option NodeConfig := do
  let fs ← Source.fields? outline.names v
  return {
    inputs := ← fs.defaulted "input_params" (Source.list? InputParam.read?) []
    outputs := ← fs.defaulted "output_params" (Source.list? OutputParam.read?) []
    param := ← fs.defaulted "node_param" Source.value? .null }

def NodeConfig.tree (c : NodeConfig) : Tree := .object [
  ("input_params", .array (c.inputs.map InputParam.tree)),
  ("output_params", .array (c.outputs.map OutputParam.tree)),
  ("node_param", .ofValue c.param)]

def NodeSpec.outline : Outline := .object [("id", .all), ("type", .all), ("name", .all),
  ("config", NodeConfig.outline)]

def NodeSpec.read? (v : ν) : Option NodeSpec := do
  let fs ← Source.fields? outline.names v
  return {
    id := ← fs.required "id" Source.text?
    type := ← fs.required "type" Source.text?
    name := ← fs.defaulted "name" Source.text? ""
    config := ← fs.defaulted "config" NodeConfig.read? {} }

def NodeSpec.tree (n : NodeSpec) : Tree := .object [
  ("id", .string n.id), ("type", .string n.type), ("name", .string n.name),
  ("config", n.config.tree)]

def EdgeSpec.outline : Outline := .ofNames ["id", "source",
  ⟨"source_handle", "sourceHandle"⟩, "target", ⟨"target_handle", "targetHandle"⟩]

def EdgeSpec.read? (v : ν) : Option EdgeSpec := do
  let fs ← Source.fields? outline.names v
  return {
    id := ← fs.defaulted "id" Source.text? ""
    source := ← fs.required "source" Source.text?
    sourceHandle := ← fs.optional "source_handle" Source.text?
    target := ← fs.required "target" Source.text?
    targetHandle := ← fs.optional "target_handle" Source.text? }

def EdgeSpec.tree (e : EdgeSpec) : Tree := .object [
  ("id", .string e.id), ("source", .string e.source), ("source_handle", .optional e.sourceHandle),
  ("target", .string e.target), ("target_handle", .optional e.targetHandle)]

/-! ### Variables -/

def SystemVariable.outline : Outline := .ofNames ["name", "type", ⟨"description", "desc"⟩]

def SystemVariable.read? (v : ν) : Option SystemVariable := do
  let fs ← Source.fields? outline.names v
  return {
    name := ← fs.required "name" Source.text?
    type := ← fs.defaulted "type" Source.text? "String"
    description := ← fs.defaulted "description" Source.text? "" }

def SystemVariable.tree (x : SystemVariable) : Tree := .object [
  ("name", .string x.name), ("type", .string x.type), ("description", .string x.description)]

def EnvironmentVariable.outline : Outline := .ofNames ["name", "type", "value"]

def EnvironmentVariable.read? (v : ν) : Option EnvironmentVariable := do
  let fs ← Source.fields? outline.names v
  return {
    name := ← fs.required "name" Source.text?
    type := ← fs.defaulted "type" Source.text? "String"
    value := ← fs.defaulted "value" Source.value? .null }

def EnvironmentVariable.tree (x : EnvironmentVariable) : Tree := .object [
  ("name", .string x.name), ("type", .string x.type), ("value", .ofValue x.value)]

def ConversationVariable.outline : Outline := .ofNames ["name", "type", "default"]

def ConversationVariable.read? (v : ν) : Option ConversationVariable := do
  let fs ← Source.fields? outline.names v
  return {
    name := ← fs.required "name" Source.text?
    type := ← fs.defaulted "type" Source.text? "String"
    default := ← fs.optional "default" Source.value? }

def ConversationVariable.tree (x : ConversationVariable) : Tree := .object [
  ("name", .string x.name), ("type", .string x.type),
  ("default", match x.default with | some v => .ofValue v | none => .null)]

/-! ### Workflows -/

def Workflow.outline : Outline := .object [("version", .all), ("nodes", NodeSpec.outline),
  ("edges", EdgeSpec.outline), ("system_variables", SystemVariable.outline),
  ("environment_variables", EnvironmentVariable.outline),
  ("conversation_variables", ConversationVariable.outline)]

def Workflow.read? (v : ν) : Option Workflow := do
  let fs ← Source.fields? outline.names v
  return {
    version := ← fs.defaulted "version" Source.text? currentVersion
    nodes := ← fs.defaulted "nodes" (Source.list? NodeSpec.read?) []
    edges := ← fs.defaulted "edges" (Source.list? EdgeSpec.read?) []
    systemVariables :=
      ← fs.defaulted "system_variables" (Source.list? SystemVariable.read?) []
    environmentVariables :=
      ← fs.defaulted "environment_variables" (Source.list? EnvironmentVariable.read?) []
    conversationVariables :=
      ← fs.defaulted "conversation_variables" (Source.list? ConversationVariable.read?) [] }

def Workflow.tree (w : Workflow) : Tree := .object [
  ("version", .string w.version),
  ("nodes", .array (w.nodes.map NodeSpec.tree)),
  ("edges", .array (w.edges.map EdgeSpec.tree)),
  ("system_variables", .array (w.systemVariables.map SystemVariable.tree)),
  ("environment_variables", .array (w.environmentVariables.map EnvironmentVariable.tree)),
  ("conversation_variables", .array (w.conversationVariables.map ConversationVariable.tree))]

end Flowrun
