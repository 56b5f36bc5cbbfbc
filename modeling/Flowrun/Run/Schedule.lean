import Flowrun.Run.Basic

/-!
# Starting nodes

Of the nodes that are ready, those that come first in the order of the graph are started, as many
as the limit leaves room for. A start node is given the inputs of the task; every other node takes
its inputs from the pool at the moment it is started.
-/

namespace Flowrun.Run

open Json

/-- The inputs with which a node is started. -/
def inputsFor (r : Run) (n : Node) : Dict Value :=
  if n.kind = .start then r.startInputs else r.pool.inputs n

/-- Open the record of a node that is started with the given inputs. -/
def openRecord (r : Run) (n : Node) (inputs : Dict Value) : Run :=
  { r.pushRecord (.executing n.id n.name n.type (.object inputs)) with
    recordOf := r.recordOf.put n.id r.nextIndex
    inputsOf := r.inputsOf.put n.id inputs }

/-- Put an execution of a node in flight. -/
def launch (r : Run) (n : Node) (inputs : Dict Value) (resume : Option ResumePayload) : Run :=
  let request : NodeRequest := { task := r.feed.snapshot.task, node := n, inputs, resume }
  { r with
    standings := r.standings.put n.id .running
    inFlight := r.inFlight ++ [⟨r.started, request⟩]
    started := r.started + 1 }

/-- Start a node, or go on with one that was started before and is given a payload. -/
def execute (r : Run) (id : String) (resume : Option ResumePayload) : Run :=
  match r.graph.node? id with
  | none => { r with failure := some (TaskError.nodeNotFound id).message }
  | some n => match resume, r.inputsOf.at? id with
    | some _, some inputs => r.launch n inputs resume
    | _, _ => (r.openRecord n (r.inputsFor n)).launch n (r.inputsFor n) resume

/-- The place of a node in the order. -/
def rank (r : Run) (id : String) : Nat := r.order.idxOf id

def sortedReady (r : Run) : List String := r.ready.mergeSort fun a b => r.rank a ≤ r.rank b

/-- How many of the ready nodes may be started now. -/
def room (r : Run) : Nat := if r.limit = 0 then r.ready.length else r.limit - r.inFlight.length

/-- Start the ready nodes for which there is room, unless the run halts. -/
def schedule (r : Run) : Run :=
  if r.halting then r
  else (r.sortedReady.take r.room).foldl (fun r id => r.execute id none)
    { r with ready := r.sortedReady.drop r.room }

end Flowrun.Run
