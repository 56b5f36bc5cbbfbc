import Flowrun.Run.Report

/-!
# The end of a run

A run ends when nothing is in flight and nothing can be started or resumed. Pauses that were not
answered are stopped. The task fails if a node failed, is stopped if that was asked for, and
succeeds otherwise; then its outputs are those of the nodes that no edge leaves.
-/

namespace Flowrun.Run

open Json

/-- Stop a pause that was not answered. -/
def closePause (r : Run) (p : Pause) : Run :=
  let r := match p.record with
    | some index =>
      if p.target.isNested then r.updateRecord index fun x => { x with status := .stop } else r
    | none => r
  match r.recordOf.at? p.node with
  | some index => r.close p.node index .stop .null 0
  | none => r

/-- Stop all pauses that were not answered. -/
def closePauses (r : Run) : Run :=
  (r.active.toList ++ r.queued).foldl closePause { r with active := none, queued := [] }

/-- The nodes that no edge leaves and that succeeded, by id. -/
def finishedSinks (r : Run) : List Node :=
  Graph.sortNodes (r.graph.sinks.filter fun n => r.succeeded n.id)

/-- Add the output of a node to the outputs of the task: the fields of an object, or any other
value under the id of the node. -/
def addOutput (out : Dict Value) (id : String) : Value → Dict Value
  | .object fields => out.putAll fields
  | .null => out
  | v => out.put id v

def outputs (r : Run) : Value :=
  .object (r.finishedSinks.foldl (fun out n =>
    match (r.recordOf.at? n.id).bind r.feed.record? with
    | some x => addOutput out n.id x.output
    | none => out) [])

/-- The status with which a run ends. -/
def finalStatus (r : Run) : TaskStatus :=
  if r.failure.isSome then .fail else if r.stopping then .stop else .success

def finish (r : Run) : Run :=
  let r := r.closePauses
  let outputs := if r.finalStatus = .success then r.outputs else .null
  { r with feed := (r.feed.finish r.finalStatus outputs r.failure r.now).1 }

end Flowrun.Run
