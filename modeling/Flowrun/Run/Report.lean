import Flowrun.Run.Advance

/-!
# Reports about executions

An execution in flight reports once. If it succeeded, its output is published and the run moves on;
if it failed, the run halts; if it waits for user input, its pause is shown or queued. While the
run stops, every report just closes its record.
-/

namespace Flowrun.Run

open Json

/-! ### Pauses -/

/-- Show a pause: on the record of the node itself, or on a new record for a node inside it. -/
def activate (r : Run) (p : Pause) : Run :=
  match p.inner with
  | some inner =>
    let record : Record :=
      { Record.executing inner.id inner.name inner.type .null with
        status := .pause, parent := some p.node }
    { (r.pushRecord record).setStatus .paused (some p.target) with
      active := some { p with record := some r.nextIndex } }
  | none => match r.recordOf.at? p.node with
    | none => r
    | some index =>
      { (r.updateRecord index fun x => { x with status := .pause }).setStatus .paused
          (some p.target) with
        active := some { p with record := some index } }

/-- The point at which a node waits. -/
def pauseTarget (id : String) : Option InnerNode → ResumeTarget
  | some inner => .new inner.id (some id)
  | none => .new id none

/-- Let a node wait for user input: show its pause if no other is shown, and else queue it. After a
failure the node is stopped instead. -/
def suspend (r : Run) (id : String) (index : Nat) (inner : Option InnerNode) : Run :=
  if r.failure.isSome then r.close id index .stop .null 0
  else
    let p : Pause := { target := pauseTarget id inner, node := id, inner }
    let r := r.setStanding id .suspended
    if r.active.isNone then r.activate p else { r with queued := r.queued ++ [p] }

/-! ### Failures -/

/-- Record the failure of a node. The first failure is the one the task ends with. -/
def fail (r : Run) (id : String) (index : Nat) (e : NodeError) (elapsed : Nat) : Run :=
  let r := r.updateRecord index fun x =>
    { x with status := .fail, error := some (.ofError e), execTimeMs := elapsed }
  { r.setStanding id (.done .fail) with
    failure := r.failure.or (some ("Node '" ++ id ++ "' failed: " ++ e.message)) }

/-! ### Successes -/

/-- The branches that a node chose: none for a node without branches, `default` if it did not say,
and only declared ones. -/
def checkBranches (r : Run) (id : String) (selected : List String) :
    Except NodeError (List String) :=
  match (r.graph.node? id).bind fun n => n.kind.branches? with
  | none => .ok []
  | some declared =>
    if selected = [] then .ok [defaultBranch]
    else match selected.find? (· ∉ declared) with
      | some branch => .error (.execution
          ("node '" ++ id ++ "' selected unknown branch '" ++ branch ++ "'"))
      | none => .ok (distinct selected)

/-- Record the success of a node, publish its output and move on. -/
def succeed (r : Run) (id : String) (index : Nat) (output : Value) (branches : List String)
    (elapsed : Nat) : Run :=
  let r := { r with pool := r.pool.publish id output }
  let r := r.updateRecord index fun x =>
    { x with status := .success, output, branches, execTimeMs := elapsed }
  let r := r.setStanding id (.done .success)
  let r := if branches = [] then r else { r with chosen := r.chosen.put id branches }
  if r.halting then r else r.advance id

/-! ### All reports -/

def reportedOutput : NodeReport → Value
  | .ok (.success output _) => output
  | _ => .null

def take (r : Run) (id : String) (result : NodeReport) (elapsed : Nat) : Run :=
  match r.recordOf.at? id with
  | none => r
  | some index =>
    if r.stopping then r.close id index .stop (reportedOutput result) elapsed
    else match result with
      | .ok (.success output selected) => match r.checkBranches id selected with
        | .ok branches => r.succeed id index output branches elapsed
        | .error e => r.fail id index e elapsed
      | .ok (.paused inner) => r.suspend id index inner
      | .error e => r.fail id index e elapsed

/-- Take the report of an execution in flight. -/
def report (r : Run) (serial : Nat) (result : NodeReport) (elapsed : Nat) : Run :=
  match r.inFlight.find? (·.serial == serial) with
  | none => r
  | some x =>
    { r with inFlight := r.inFlight.filter (·.serial != serial) }.take x.request.node.id result
      elapsed

end Flowrun.Run
