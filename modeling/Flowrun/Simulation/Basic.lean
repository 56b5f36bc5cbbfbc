import Flowrun.Service.Control
import Flowrun.Service.Read
import Flowrun.Service.Start

/-!
# Running tasks to rest

A `Simulation` is a service together with executors whose behaviour is known, on a clock of its own.
An executor says what it will report and how long it takes; nothing else takes time.

Executions are performed in the order in which they were started, and a report is taken in full
before the next one is looked at. The simulation is at rest when everything that is left has to
wait for the clock or for a caller.
-/

namespace Flowrun

open Json

/-- What an executor does with a request: it reports after a while, in milliseconds. -/
structure Performance where
  wait : Nat := 0
  report : NodeReport

/-- An execution that takes longer than the limit fails at that moment. -/
def Performance.within (p : Performance) : Option Nat → Performance
  | none => p
  | some secs => if secs * 1000 < p.wait then ⟨secs * 1000, .error (.timeout secs)⟩ else p

/-- Executors whose behaviour is known. -/
class Performer (ε : Type) where
  /-- What an executor does with a request, by the number of calls for the node before. -/
  perform : ε → Nat → NodeRequest → Performance
  /-- Whether the executor counts its calls. -/
  counts : ε → Bool

/-- The engine's own executors take no time and do not count. -/
instance : Performer Builtin where
  perform b _ request := { report := b.perform request }
  counts _ := false

/-- An execution that has been performed and whose report is due later. -/
structure Sleeper where
  due : Nat
  task : String
  arrival : Arrival

/-- A service with executors whose behaviour is known, on a clock of its own. -/
structure Simulation (ε : Type) where
  service : Service ε
  /-- Milliseconds since the start. -/
  clock : Nat := 0
  /-- How often each node was executed by an executor that counts. -/
  calls : Dict Nat := []
  /-- Executions that were started and not yet performed, the oldest first. -/
  queue : List (String × Execution) := []
  /-- How many executions of each task were put into the queue. -/
  queued : Dict Nat := []
  /-- The oldest first. -/
  sleepers : List Sleeper := []
  /-- What tasks looked like when they were released. -/
  released : Dict Feed := []

namespace Simulation

variable {ε : Type}

/-! ### Steps -/

/-- Put the executions of a task that were started since the last look into the queue. -/
def enqueue (x : Simulation ε) (task : String) (l : Live) : Simulation ε :=
  let known := (x.queued.at? task).getD 0
  let fresh := l.run.inFlight.filter fun e => known ≤ e.serial
  { x with
    queue := x.queue ++ fresh.map fun e => (task, e)
    queued := x.queued.put task l.run.started }

/-- One step of a task, if it does not have to wait. -/
def stepTask? (x : Simulation ε) (task : String) : Option (Simulation ε) :=
  match x.service.live? task, x.service.stepTask? task with
  | some before, some service =>
    let x := { x with service }
    match service.live? task with
    | some l => some (x.enqueue task l)
    | none => some { x with released := x.released.put task before.feed }
  | _, _ => none

/-- One step of the first task that does not have to wait. -/
def stepAny? (x : Simulation ε) : Option (Simulation ε) :=
  x.service.tasks.keys.findSome? x.stepTask?

def deliver (x : Simulation ε) (task : String) (a : Arrival) : Simulation ε :=
  { x with service := x.service.deliver task a }

/-- What happens to an execution: what its executor does, within the time limit. -/
def performance [Performer ε] (x : Simulation ε) (e : Execution) : Performance :=
  match x.service.registry.resolve e.request.node.kind with
  | .error err => { report := .error err }
  | .ok executor =>
    let before := (x.calls.at? e.request.node.id).getD 0
    (Performer.perform executor before e.request).within x.service.config.nodeTimeoutSecs

/-- Count an execution, if its executor counts. -/
def count [Performer ε] (x : Simulation ε) (e : Execution) : Simulation ε :=
  match x.service.registry.resolve e.request.node.kind with
  | .error _ => x
  | .ok executor =>
    if Performer.counts executor then
      let id := e.request.node.id
      { x with calls := x.calls.put id ((x.calls.at? id).getD 0 + 1) }
    else x

/-- Perform an execution: it reports now, or later. -/
def perform [Performer ε] (x : Simulation ε) (task : String) (e : Execution) : Simulation ε :=
  let p := x.performance e
  let x := x.count e
  let arrival : Arrival := { serial := e.serial, report := p.report }
  if p.wait = 0 then x.deliver task arrival
  else { x with sleepers := x.sleepers ++ [⟨x.clock + p.wait, task, arrival⟩] }

/-- One step of the simulation at the present moment; `none` if it is at rest. -/
def step? [Performer ε] (x : Simulation ε) : Option (Simulation ε) :=
  match x.stepAny? with
  | some x => some x
  | none => match x.queue with
    | [] => none
    | (task, e) :: rest => some ({ x with queue := rest }.perform task e)

/-! ### Time -/

/-- More steps than a live task can still take: every node and every command makes one execution,
and every execution a few steps. -/
def stepsLeft (l : Live) : Nat :=
  8 * (l.run.graph.nodes.length + l.run.inFlight.length + l.commands.length) + 16

/-- More steps than the simulation can still take without a caller. -/
def patience (x : Simulation ε) : Nat :=
  x.service.tasks.foldl (fun n t => n + stepsLeft t.2) (x.queue.length + x.sleepers.length + 1)

/-- Take up to a number of steps. -/
def stepFor [Performer ε] : Nat → Simulation ε → Simulation ε
  | 0, x => x
  | n + 1, x => match x.step? with
    | some x => stepFor n x
    | none => x

/-- Go on at the present moment until everything is at rest. -/
def rest [Performer ε] (x : Simulation ε) : Simulation ε := stepFor x.patience x

def nextSleeper? (x : Simulation ε) : Option Sleeper :=
  x.sleepers.foldl (fun first s => match first with
    | none => some s
    | some f => if s.due < f.due then some s else some f) none

/-- Let the clock go on to the report that is due first, if it is due by a moment. -/
def wake? [Performer ε] (x : Simulation ε) (limit : Option Nat) : Option (Simulation ε) :=
  match x.nextSleeper? with
  | none => none
  | some s =>
    if (limit.map fun m => decide (m < s.due)).getD false then none
    else
      let others := x.sleepers.filter fun o =>
        !(o.task == s.task && o.arrival.serial == s.arrival.serial)
      some ({ x with clock := max x.clock s.due, sleepers := others }.deliver s.task s.arrival).rest

/-- Wake up to a number of reports that are due by a moment. -/
def wakeFor [Performer ε] (limit : Option Nat) (until_ : Simulation ε → Bool) :
    Nat → Simulation ε → Simulation ε
  | 0, x => x
  | n + 1, x =>
    if until_ x then x
    else match x.wake? limit with
      | some x => wakeFor limit until_ n x
      | none => x

def pass [Performer ε] (x : Simulation ε) (ms : Nat) : Simulation ε :=
  let x := x.rest
  let moment := x.clock + ms
  { wakeFor (some moment) (fun _ => false) x.patience x with clock := moment }

/-! ### Callers -/

/-- The feed of a task, also after it was released. -/
def feed? (x : Simulation ε) (task : String) : Option Feed := match x.service.live? task with
  | some l => some l.feed
  | none => x.released.at? task

/-- Let the clock go on until a task is terminal or paused, and read it. -/
def settle [Performer ε] (x : Simulation ε) (task : String) :
    Except TaskError Snapshot × Simulation ε :=
  match x.service.live? task with
  | none => (x.service.snapshot task, x)
  | some _ =>
    let x := x.rest
    let isSettled (x : Simulation ε) : Bool :=
      ((x.feed? task).map fun f => f.status.isSettled).getD true
    let x := wakeFor none isSettled x.patience x
    match x.feed? task with
    | some f => (.ok f.snapshot, x)
    | none => (.error (.taskNotFound task), x)

/-- Resume a live task, and wait for the answer. A task that has ended since then answers
as one that is not paused. -/
def resumeLive [Performer ε] (x : Simulation ε) (q : ResumeRequest) :
    Except TaskError Unit × Simulation ε :=
  match x.service.live? q.task with
  | none => match x.feed? q.task with
    | some f => (Service.checkResume f q, x)
    | none => (.error (.taskNotFound q.task), x)
  | some l => match x.service.sendResume? l q 0 with
    | none => (Live.dropped, x)
    | some (.error e, service) => (.error e, { x with service })
    | some (.ok (), service) =>
      let x := { x with service }.rest
      match x.service.collectAnswer? q.task 0 with
      | some (answer, service) => (answer, { x with service })
      | none => (.ok (), x)

/-- Resume a task and wait for the answer. -/
def resume [Performer ε] (x : Simulation ε) (q : ResumeRequest) :
    Except TaskError Unit × Simulation ε :=
  match x.service.resumable q with
  | .error e => (.error e, x)
  | .ok _ => x.resumeLive q

/-- Resume several times at once: all tasks are looked up first, and then the callers have their
turns. -/
def resumeAll [Performer ε] (x : Simulation ε) (qs : List ResumeRequest) :
    List (Except TaskError Unit) × Simulation ε :=
  let found := qs.map fun q => (q, x.service.resumable q)
  found.foldl (fun (answers, x) (q, l) => match l with
    | .error e => (answers ++ [.error e], x)
    | .ok _ =>
      let (answer, x) := x.resumeLive q
      (answers ++ [answer], x)) ([], x)

end Simulation
end Flowrun
