import Flowrun.Proofs.Run.Action

/-!
# Moves

An action of a run may do a lot: a report can skip half of the graph. A `Move` is a smallest change
after which the run is in order again, and every action is a sequence of moves (`Run.moves_act`, in
the module on steadiness). So what every move keeps, every history keeps, and a fact about runs
needs one case for each move below.

A move says everything that is known when it is made. The moves that take up a report also say that
the world admits it.
-/

namespace Flowrun.Run

open Json

/-! ### Parts of actions -/

/-- A run without one of its executions in flight. -/
def landed (r : Run) (x : Execution) : Run :=
  { r with inFlight := r.inFlight.filter (·.serial != x.serial) }

/-- Record the success of a node and publish its output. -/
def complete (r : Run) (id : String) (index : Nat) (output : Value) (branches : List String)
    (elapsed : Nat) : Run :=
  let r := { r with pool := r.pool.publish id output }
  let r := r.updateRecord index fun x =>
    { x with status := .success, output, branches, execTimeMs := elapsed }
  let r := r.setStanding id (.done .success)
  if branches = [] then r else { r with chosen := r.chosen.put id branches }

theorem succeed_eq (r : Run) (id : String) (index : Nat) (output : Value) (branches : List String)
    (elapsed : Nat) :
    r.succeed id index output branches elapsed =
      if (r.complete id index output branches elapsed).halting then
        r.complete id index output branches elapsed
      else (r.complete id index output branches elapsed).advance id := rfl

/-- Finish a node that waits with the output that the user gave. -/
def answer (r : Run) (p : Pause) (index : Nat) (output : Value) : Run :=
  let r := { r with pool := r.pool.publish p.node output }
  let r := r.updateRecord index (answered output)
  let r := r.setStanding p.node (.done .success)
  r.setStatus .executing none

/-- Give a node inside a container its input and go on with the container. -/
def reenter (r : Run) (p : Pause) (index : Nat) (n : Node) (given inputs : Dict Value) : Run :=
  let r := r.updateRecord index (answered (.object inputs))
  let r := r.setStatus .executing none
  r.launch n given (some ⟨p.target, inputs⟩)

/-- The pause of a node that is suspended and not yet shown. -/
def waitingPause (id : String) (inner : Option InnerNode) : Pause :=
  { target := pauseTarget id inner, node := id, inner }

/-- Let a node wait behind the pauses that are there. -/
def enqueuePause (r : Run) (id : String) (inner : Option InnerNode) : Run :=
  { r.setStanding id .suspended with queued := r.queued ++ [waitingPause id inner] }

/-- Show a pause of a node itself on its record. -/
def showOwn (r : Run) (p : Pause) (index : Nat) : Run :=
  { (r.updateRecord index fun x => { x with status := .pause }).setStatus .paused
      (some p.target) with
    active := some { p with record := some index } }

/-- Show a pause of a node inside on a new record. -/
def showInner (r : Run) (p : Pause) (inner : InnerNode) : Run :=
  let record : Record :=
    { Record.executing inner.id inner.name inner.type .null with
      status := .pause, parent := some p.node }
  { (r.pushRecord record).setStatus .paused (some p.target) with
    active := some { p with record := some r.nextIndex } }

theorem activate_of_inner_eq_none {r : Run} {p : Pause} {index : Nat} (hp : p.inner = none)
    (hi : r.recordOf.at? p.node = some index) : r.activate p = r.showOwn p index := by
  obtain ⟨target, node, inner, record⟩ := p
  subst hp
  simp only [activate, hi]
  rfl

theorem activate_of_inner_eq_some {r : Run} {p : Pause} {inner : InnerNode}
    (hp : p.inner = some inner) : r.activate p = r.showInner p inner := by
  obtain ⟨target, node, i, record⟩ := p
  subst hp
  rfl

/-- Write down how the task ends. -/
def conclude (r : Run) : Run :=
  let outputs := if r.finalStatus = .success then r.outputs else .null
  { r with feed := (r.feed.finish r.finalStatus outputs r.failure r.now).1 }

theorem finish_eq (r : Run) : r.finish = r.closePauses.conclude := rfl

/-- Why a node fails: its execution failed, or it chose a branch that it does not have. -/
def FailsWith (r : Run) (id : String) (result : NodeReport) (e : NodeError) : Prop :=
  result = .error e ∨
    ∃ output selected, result = .ok (.success output selected) ∧
      r.checkBranches id selected = .error e

/-! ### The moves -/

/-- A smallest change of a run. -/
inductive Move (w : World) (r : Run) : Run → Prop
  | clock (now : Instant) : Move w r { r with now }
  | stop : w.stops → Move w r r.stop
  /-- The ready nodes are put in order. -/
  | sort : Move w r { r with ready := r.sortedReady }
  /-- The first ready node is started. -/
  | start {n : Node} {rest : List String} :
      r.halting = false → r.ready = n.id :: rest → r.graph.node? n.id = some n →
      (r.limit = 0 ∨ r.inFlight.length < r.limit) →
      Move w r (({ r with ready := rest }.openRecord n (r.inputsFor n)).launch n (r.inputsFor n)
        none)
  /-- A node becomes ready. -/
  | enqueue {id : String} : r.settle id = .ready → Move w r { r with ready := r.ready ++ [id] }
  | skip {id : String} {n : Node} : r.settle id = .skip n → Move w r (r.skip n)
  /-- An execution reports while the run halts, and its record is just closed. -/
  | close {x : Execution} {index : Nat} (output : Value) (elapsed : Nat) :
      x ∈ r.inFlight → r.recordOf.at? x.request.node.id = some index →
      (r.stopping = true ∨
        r.failure.isSome = true ∧ ∃ inner, w.reports x (.ok (.paused inner))) →
      Move w r ((r.landed x).close x.request.node.id index .stop output elapsed)
  /-- An execution reports a failure, or a success with an unknown branch. -/
  | fail {x : Execution} {index : Nat} {result : NodeReport} {e : NodeError} (elapsed : Nat) :
      x ∈ r.inFlight → r.recordOf.at? x.request.node.id = some index → w.reports x result →
      r.FailsWith x.request.node.id result e →
      Move w r ((r.landed x).fail x.request.node.id index e elapsed)
  /-- An execution reports a success. -/
  | complete {x : Execution} {index : Nat} {output : Value} {selected branches : List String}
      (elapsed : Nat) :
      x ∈ r.inFlight → r.recordOf.at? x.request.node.id = some index →
      w.reports x (.ok (.success output selected)) →
      r.checkBranches x.request.node.id selected = .ok branches →
      Move w r ((r.landed x).complete x.request.node.id index output branches elapsed)
  /-- An execution reports that it waits for the user. -/
  | wait {x : Execution} {inner : Option InnerNode} :
      x ∈ r.inFlight → r.halting = false → w.reports x (.ok (.paused inner)) →
      Move w r ((r.landed x).enqueuePause x.request.node.id inner)
  /-- The first pause in the queue is shown, on the record of its node. -/
  | showOwn {p : Pause} {rest : List Pause} {index : Nat} :
      r.active = none → r.queued = p :: rest → p.inner = none →
      r.recordOf.at? p.node = some index →
      Move w r ({ r with queued := rest }.showOwn p index)
  /-- The first pause in the queue is shown, on a new record. -/
  | showInner {p : Pause} {rest : List Pause} {inner : InnerNode} :
      r.active = none → r.queued = p :: rest → p.inner = some inner →
      Move w r ({ r with queued := rest }.showInner p inner)
  /-- A node inside a container is given its input. -/
  | reenter {p : Pause} {index : Nat} {n : Node} {given : Dict Value} (inputs : Dict Value) :
      r.halting = false → r.active = some p → p.record = some index → p.target.isNested = true →
      r.graph.node? p.node = some n → r.inputsOf.at? p.node = some given →
      Move w r ({ r with active := none }.reenter p index n given inputs)
  /-- A node is given its output by the user. -/
  | answer {p : Pause} {index : Nat} {inputs : Dict Value} {output : Value} :
      r.halting = false → r.active = some p → p.record = some index → p.target.isNested = false →
      r.resumeOutput p.node inputs = .ok output →
      Move w r ({ r with active := none }.answer p index output)
  /-- The record of a node inside a container is stopped. -/
  | stopInner {p : Pause} {index : Nat} :
      r.halting = true → r.active = some p → p.record = some index → p.target.isNested = true →
      Move w r (r.updateRecord index fun x => { x with status := .stop })
  /-- The pause that is shown is given up. -/
  | dropActive {p : Pause} {index : Nat} :
      r.halting = true → r.active = some p → r.recordOf.at? p.node = some index →
      Move w r ({ r with active := none }.close p.node index .stop .null 0)
  /-- The first pause in the queue is given up. -/
  | dropQueued {p : Pause} {rest : List Pause} {index : Nat} :
      r.halting = true → r.active = none → r.queued = p :: rest →
      r.recordOf.at? p.node = some index →
      Move w r ({ r with queued := rest }.close p.node index .stop .null 0)

end Flowrun.Run
