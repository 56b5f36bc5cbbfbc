import Flowrun.Executor.Basic
import Flowrun.Feed.Basic
import Flowrun.Graph.Order
import Flowrun.Pool

/-!
# Runs

A `Run` is a task on its way through a graph. Every node of the graph stands somewhere: it has not
been reached, it runs, it waits for user input, or it is done. A node that can be started waits in
the list of ready nodes until there is room; the executions that were started and have not reported
are in flight.

Only one pause is shown at a time. Further pauses are queued behind it.

A run halts when a node fails or a stop is asked for: nothing is started any more, and what is in
flight is waited for.
-/

namespace Flowrun

open Json

/-- Where a node stands that was reached. -/
inductive Standing
  | running
  | suspended
  | done (status : NodeStatus)
  deriving DecidableEq, Repr, Inhabited

/-- A node that waits for user input. -/
structure Pause where
  target : ResumeTarget
  /-- The node of the graph that is suspended. -/
  node : String
  /-- The node inside it that asked for the input. -/
  inner : Option InnerNode := none
  /-- The record that shows the pause, once it is shown. -/
  record : Option Nat := none
  deriving DecidableEq, Repr, Inhabited

/-- An execution in flight. -/
structure Execution where
  /-- Executions are numbered in the order in which they are started. -/
  serial : Nat
  request : NodeRequest
  deriving DecidableEq, Repr, Inhabited

/-- A task on its way through a graph. -/
structure Run where
  graph : Graph
  /-- The ids of all nodes in an order in which every edge leads forward. -/
  order : List String
  /-- How many executions may be in flight; 0 for no limit. -/
  limit : Nat
  /-- What start nodes publish. -/
  startInputs : Dict Value
  now : Instant
  feed : Feed
  pool : Pool
  standings : Dict Standing := []
  /-- The index of the record of each node that was reached. -/
  recordOf : Dict Nat := []
  /-- The inputs with which each node was started. -/
  inputsOf : Dict (Dict Value) := []
  /-- The branches that were chosen. -/
  chosen : Dict (List String) := []
  ready : List String := []
  active : Option Pause := none
  queued : List Pause := []
  inFlight : List Execution := []
  /-- How many executions were started. -/
  started : Nat := 0
  stopping : Bool := false
  failure : Option String := none
  deriving Repr, Inhabited

namespace Run

/-- Whether nothing may be started any more. -/
def halting (r : Run) : Bool := r.stopping || r.failure.isSome

/-- Whether the run waits for user input and would go on with it. -/
def awaitsInput (r : Run) : Bool := r.active.isSome && !r.halting

/-- A run at its beginning, in which the nodes that no edge leads to are ready. A graph with a cycle
is refused. -/
def begin (graph : Graph) (limit : Nat) (startInputs : Dict Value) (pool : Pool) (feed : Feed)
    (now : Instant) : Except TaskError Run := do
  let order ← graph.order
  return { graph, order, limit, startInputs, now, feed, pool, ready := graph.entries.map Node.id }

def standing? (r : Run) (id : String) : Option Standing := r.standings.at? id

def setStanding (r : Run) (id : String) (s : Standing) : Run :=
  { r with standings := r.standings.put id s }

def stop (r : Run) : Run := { r with stopping := true }

/-! ### Records -/

def nextIndex (r : Run) : Nat := r.feed.snapshot.records.length

def pushRecord (r : Run) (x : Record) : Run := { r with feed := r.feed.push x r.now }

def updateRecord (r : Run) (index : Nat) (change : Record → Record) : Run :=
  { r with feed := r.feed.update index change r.now }

def setStatus (r : Run) (s : TaskStatus) (target : Option ResumeTarget) : Run :=
  { r with feed := r.feed.setStatus s target r.now }

/-- A record with its final status. An output of `null` and a time of 0 leave what is there. -/
def closed (status : NodeStatus) (output : Value) (elapsed : Nat) (x : Record) : Record :=
  { x with
    status
    output := if output.isNull then x.output else output
    execTimeMs := if elapsed = 0 then x.execTimeMs else elapsed }

def close (r : Run) (id : String) (index : Nat) (status : NodeStatus) (output : Value)
    (elapsed : Nat) : Run :=
  (r.updateRecord index (closed status output elapsed)).setStanding id (.done status)

end Run
end Flowrun
