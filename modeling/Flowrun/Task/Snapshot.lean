import Flowrun.Instant
import Flowrun.Task.Record

/-!
# Snapshots

A `Snapshot` is all that can be read about a task: its status, the point at which it waits if it is
paused, its history in order, and its outputs or its error. The revision counts the changes.
-/

namespace Flowrun

open Json

/-- All that can be read about a task. -/
structure Snapshot where
  task : String
  app : String
  version : Option String := none
  conversation : String
  request : String
  status : TaskStatus
  resumeTarget : Option ResumeTarget := none
  records : List Record
  error : Option String := none
  outputs : Value := .null
  revision : Nat
  createdAt : Instant
  updatedAt : Instant
  deriving DecidableEq, Repr, Inhabited

namespace Snapshot

/-- The records that are shown to users; skipped nodes are hidden. -/
def visible (p : Snapshot) : List Record := p.records.filter (·.status ≠ .skip)

def record? (p : Snapshot) (node : String) : Option Record :=
  p.records.reverse.find? fun r => r.node == node

def isTerminal (p : Snapshot) : Bool := p.status.isTerminal

def readInstant? (v : Spot) : Option Instant := v.text?.bind Instant.ofText?

def read? (v : Spot) : Option Snapshot := do
  let fs ← Source.fields? ["task_id", "app_id", "version", "conversation_id", "request_id",
    "status", "resume_target", "records", "error_info", "outputs", "revision", "created_at",
    "updated_at"] v
  return {
    task := ← fs.required "task_id" Source.text?
    app := ← fs.required "app_id" Source.text?
    version := ← fs.optional "version" Source.text?
    conversation := ← fs.required "conversation_id" Source.text?
    request := ← fs.required "request_id" Source.text?
    status := ← fs.required "status" TaskStatus.read?
    resumeTarget := ← fs.optional "resume_target" ResumeTarget.read?
    records := ← fs.required "records" (Source.list? Record.read?)
    error := ← fs.optional "error_info" Source.text?
    outputs := ← fs.defaulted "outputs" Source.value? .null
    revision := ← fs.required "revision" Spot.count?
    createdAt := ← fs.required "created_at" readInstant?
    updatedAt := ← fs.required "updated_at" readInstant? }

def tree (p : Snapshot) : Tree := .object (
  [("task_id", .string p.task), ("app_id", .string p.app)] ++
  Tree.field? "version" (p.version.map .string) ++
  [("conversation_id", .string p.conversation), ("request_id", .string p.request),
    ("status", p.status.tree)] ++
  Tree.field? "resume_target" (p.resumeTarget.map ResumeTarget.tree) ++
  [("records", .array (p.records.map Record.tree))] ++
  Tree.field? "error_info" (p.error.map .string) ++
  [("outputs", .ofValue p.outputs), ("revision", .count p.revision),
    ("created_at", .string p.createdAt.text), ("updated_at", .string p.updatedAt.text)])

end Snapshot
end Flowrun
