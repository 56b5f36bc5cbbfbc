import Flowrun.Json.Printer
import Flowrun.Simulation.Basic
import Flowrun.Workflow.Format

/-!
# The command line

The command line names the file of a workflow, and may name a file of inputs and a file with the
configuration of the engine. The command publishes the workflow, runs it once with stubs for the
nodes that need an executor from outside, and prints what became of the task.

`Command.run` is all of it but the reading of files: it is given what every file holds, and answers
the lines to print and the last state of the task, or the reason why there is none. Lines that were
printed before a failure stay.
-/

namespace Flowrun

open Json

/-- What can be read: the text of a file, or why it cannot be read. -/
abbrev Files := String → Except String String

namespace Command

/-- The files that the command line names. -/
structure Invocation where
  workflow : String
  inputs : Option String
  config : Option String
  deriving DecidableEq, Repr

/-- The files that the arguments name; whatever follows the third argument is skipped. -/
def Invocation.ofArgs? : List String → Option Invocation
  | [] => none
  | workflow :: rest => some ⟨workflow, rest[0]?, rest[1]?⟩

/-- All files that the command line names. -/
def Invocation.paths (i : Invocation) : List String :=
  i.workflow :: (i.inputs.toList ++ i.config.toList)

/-- Why a command failed. -/
inductive Failure
  | usage
  | unreadable (reason : String)
  /-- The inputs or the configuration are not what they should be. -/
  | malformed
  | refused (e : TaskError)
  deriving DecidableEq, Repr

def Failure.message : Failure → String
  | .usage => "usage: flowtask <workflow> [inputs.json] [engine-config.json]"
  | .unreadable reason => reason
  | .malformed => "malformed JSON"
  | .refused e => e.message

/-- A command while it runs: it prints lines, and may fail. -/
abbrev Session := ExceptT Failure (StateM (List String))

namespace Session

def say (line : String) : Session Unit := modify (· ++ [line])

/-- What an operation of the service answers. -/
def ofAnswer : Except TaskError α → Session α
  | .ok x => pure x
  | .error e => throw (.refused e)

/-- What was read, which has to be well formed. -/
def wellFormed (failure : Failure) : Option α → Session α
  | some x => pure x
  | none => throw failure

def readFile (files : Files) (path : String) : Session String := match files path with
  | .ok s => pure s
  | .error reason => throw (.unreadable reason)

end Session

open Session

/-- The app under which the workflow is published, and its version. -/
def app : String := "cli"
def version : String := "1"

def readWorkflow (files : Files) (path : String) : Session Workflow := do
  let s ← readFile files path
  let w ← wellFormed (.refused (.malformedWorkflow "")) (Workflow.parse? (.ofPath path) s)
  say ("[OK] DSL parsed (" ++ toString w.nodes.length ++ " nodes, " ++ toString w.edges.length ++
    " edges)")
  return w

def readConfig (files : Files) : Option String → Session Config
  | none => return {}
  | some path => do wellFormed .malformed (readText? Config.read? (← readFile files path))

/-- The inputs that an object names, in the order of their keys. -/
def inputsOf? : Value → Option (List RunParam)
  | .object fields => some (fields.map fun f => .user f.1 f.2)
  | _ => none

def readInputs (files : Files) : Option String → Session (List RunParam)
  | none => return []
  | some path => do
    wellFormed .malformed ((Value.ofText (← readFile files path)).bind inputsOf?)

/-- A service without any app, with stubs for all that it has no executors for. -/
def freshService (config : Config) (ids : Ids) (now : Instant) : Service Builtin :=
  { registry := .withStubs id, config, ids, now }

def session (files : Files) (ids : Ids) (now : Instant) (args : List String) :
    Session Snapshot := do
  let invocation ← wellFormed .usage (Invocation.ofArgs? args)
  let workflow ← readWorkflow files invocation.workflow
  let config ← readConfig files invocation.config
  let inputs ← readInputs files invocation.inputs
  let (published, service) := (freshService config ids now).publish app version workflow
  let graph ← ofAnswer published
  graph.checkAll.forM fun d => say ("[WARN] " ++ d.message)
  let (created, service) := service.create { app, inputs }
  let created ← ofAnswer created
  ofAnswer (({ service } : Simulation Builtin).settle created.task).1

/-- What a command printed, and what came of it. -/
structure Outcome where
  lines : List String
  result : Except Failure Snapshot

def run (files : Files) (ids : Ids) (now : Instant) (args : List String) : Outcome :=
  let (result, lines) := (session files ids now args).run.run []
  ⟨lines, result⟩

namespace Outcome

/-- The line above the state of a task. -/
def title (p : Snapshot) : String := "=== Task " ++ p.task ++ " (" ++ p.status.name ++ ") ==="

/-- All that goes to the standard output. -/
def stdout (o : Outcome) : String :=
  let shown := match o.result with
    | .ok p => ["", title p, p.tree.pretty]
    | .error _ => []
  String.join ((o.lines ++ shown).map (· ++ "\n"))

/-- All that goes to the standard error. -/
def stderr (o : Outcome) : String := match o.result with
  | .ok _ => ""
  | .error e => "error: " ++ e.message ++ "\n"

/-- A command that failed ends with 1. -/
def exitCode (o : Outcome) : UInt32 := match o.result with
  | .ok _ => 0
  | .error _ => 1

end Outcome
end Command
end Flowrun
