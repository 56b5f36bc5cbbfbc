import Flowrun.Proofs.Graph.WellFormed
import Flowrun.Run.Finish
import Flowrun.Run.Resume
import Mathlib.Data.List.Permutation

/-!
# Histories of runs

A run does nothing of its own accord. An `Action` is one thing that it does or that happens to it,
and a history is a list of actions: they may come in any order, reports and resumes may be about
anything, and what is out of place changes nothing. So a statement about every history is a
statement about every order in which executions report, callers resume, stops arrive and the run
gets to schedule.

`Launched` says how a run starts out. A run that has ended takes no more actions.
-/

namespace Flowrun

open Json

/-- One thing that a run does, or that happens to it. -/
inductive Action
  /-- The run starts what it has room for. -/
  | schedule
  /-- The execution with a serial number reports. -/
  | report (serial : Nat) (result : NodeReport) (elapsed : Nat)
  /-- A caller resumes the task. -/
  | resume (target : ResumeTarget) (inputs : Dict Value)
  /-- A stop arrives. -/
  | stop
  /-- Time goes on. -/
  | clock (now : Instant)
  /-- The run ends, if it is spent. -/
  | finish

namespace Run

/-- Whether there is nothing left to wait for and nothing to start. -/
def isSpent (r : Run) : Bool :=
  r.inFlight.isEmpty && !r.awaitsInput && (r.ready.isEmpty || r.halting)

/-- What an action does to a run that has not ended. -/
def perform (r : Run) : Action → Run
  | .schedule => r.schedule
  | .report serial result elapsed => r.report serial result elapsed
  | .resume target inputs => (r.resume target inputs).2
  | .stop => r.stop
  | .clock now => { r with now }
  | .finish => if r.isSpent then r.finish else r

/-- The run after an action. -/
def act (r : Run) (a : Action) : Run := if r.feed.isTerminal then r else r.perform a

/-- The run after a history. -/
def acts (r : Run) (as : List Action) : Run := as.foldl act r

@[simp] theorem acts_nil (r : Run) : r.acts [] = r := rfl

@[simp] theorem acts_cons (r : Run) (a : Action) (as : List Action) :
    r.acts (a :: as) = (r.act a).acts as := rfl

theorem acts_append (r : Run) (as bs : List Action) : r.acts (as ++ bs) = (r.acts as).acts bs :=
  List.foldl_append

/-- A run that has ended stays as it is. -/
theorem act_of_isTerminal {r : Run} (h : r.feed.isTerminal = true) (a : Action) : r.act a = r := by
  simp [act, h]

theorem acts_of_isTerminal {r : Run} (h : r.feed.isTerminal = true) (as : List Action) :
    r.acts as = r := by
  induction as with
  | nil => rfl
  | cons a as ih => rw [acts_cons, act_of_isTerminal h, ih]

/-! ### What a history started and accepted -/

/-- The executions that an action puts in flight. Those that were there before have lower serial
numbers. -/
def launches (r : Run) (a : Action) : List Execution :=
  (r.act a).inFlight.filter fun x => r.started ≤ x.serial

/-- How often a node is started in a history. -/
def starts (r : Run) (id : String) : List Action → Nat
  | [] => 0
  | a :: as => (r.launches a).countP (·.request.node.id = id) + (r.act a).starts id as

/-- Whether an action is a resume that is accepted. -/
def accepts (r : Run) : Action → Bool
  | .resume target inputs => (r.resume target inputs).1.isOk
  | _ => false

/-- Whether an action is an accepted resume of a node inside the container `id`. -/
def acceptsInside (r : Run) (id : String) (a : Action) : Bool := match a with
  | .resume target _ => r.accepts a && target.parent == some id
  | _ => false

/-- How many resumes of nodes inside the container `id` a history has accepted. -/
def reentries (r : Run) (id : String) : List Action → Nat
  | [] => 0
  | a :: as => (if r.acceptsInside id a then 1 else 0) + (r.act a).reentries id as

/-! ### How a run starts out -/

/-- A run at its beginning: on a graph that was made by edits, with a feed without records, and with
the task set to executing. -/
structure Launched (g : Graph) (limit : Nat) (startInputs : Dict Value) (pool : Pool) (r : Run) :
    Prop where
  built : g.Built
  begun : ∃ (feed : Feed) (now : Instant) (r₀ : Run), feed.status = .created ∧
    feed.snapshot.records = [] ∧ begin g limit startInputs pool feed now = .ok r₀ ∧
    r = r₀.setStatus .executing none

/-- The records of executions of a node of the graph itself; those of nodes inside it name it as
their parent. -/
def ownRecords (r : Run) (id : String) : List Record :=
  r.feed.snapshot.records.filter fun x => x.node = id ∧ x.parent = none

end Run

/-! ### What may reach a run -/

/-- What may reach a run from outside: which reports may come of an execution, and whether stops may
arrive. -/
structure World where
  reports : Execution → NodeReport → Prop
  stops : Prop

namespace World

/-- Anything may come. -/
def any : World := ⟨fun _ _ => True, True⟩

/-- No stop arrives, and what an execution reports is determined by its node and inputs. -/
def computing (f : Node → Dict Value → NodeReport) : World :=
  ⟨fun x result => result = f x.request.node x.request.inputs, False⟩

/-- Whether an action may come next. -/
def Admits (w : World) (r : Run) : Action → Prop
  | .report serial result _ => ∀ x ∈ r.inFlight, x.serial = serial → w.reports x result
  | .stop => w.stops
  | _ => True

/-- Whether a history may come. -/
def AdmitsAll (w : World) (r : Run) : List Action → Prop
  | [] => True
  | a :: as => w.Admits r a ∧ w.AdmitsAll (r.act a) as

theorem any_admitsAll (r : Run) (as : List Action) : any.AdmitsAll r as := by
  induction as generalizing r with
  | nil => trivial
  | cons a as ih =>
    refine ⟨?_, ih (r.act a)⟩
    cases a <;> simp [Admits, any]

instance decidableAdmits (f : Node → Dict Value → NodeReport) (r : Run) :
    (a : Action) → Decidable ((computing f).Admits r a)
  | .report serial result _ =>
    inferInstanceAs (Decidable (∀ x ∈ r.inFlight, x.serial = serial →
      result = f x.request.node x.request.inputs))
  | .stop => .isFalse id
  | .schedule => .isTrue trivial
  | .resume _ _ => .isTrue trivial
  | .clock _ => .isTrue trivial
  | .finish => .isTrue trivial

instance decidableAdmitsAll (f : Node → Dict Value → NodeReport) :
    (r : Run) → (as : List Action) → Decidable ((computing f).AdmitsAll r as)
  | _, [] => .isTrue trivial
  | r, a :: as =>
    have := decidableAdmitsAll f (r.act a) as
    inferInstanceAs (Decidable ((computing f).Admits r a ∧ (computing f).AdmitsAll (r.act a) as))

end World

/-! ### A small run

A container and a script can start at once. A judge then decides whether the output, which takes its
input from the script, is made at once or a repair is run first. -/

namespace Sample

def batch : Node := ⟨"batch", "batch", .iterator, "iterator", {}⟩

def fetch : Node := ⟨"fetch", "fetch", .script, "script", { outputs := [{ key := "rows" }] }⟩

def check : Node := ⟨"check", "check", .judge ["yes", "no"], "judge", {}⟩

def repair : Node := ⟨"repair", "repair", .script, "script", {}⟩

def report : Node :=
  let rows : InputParam :=
    { key := "rows", valueFrom := .refer, value := some (.string "fetch.rows") }
  ⟨"report", "report", .output, "output", { inputs := [rows] }⟩

/-- The edge that leaves the judge with a branch. -/
def exit (id branch target : String) : Edge :=
  { Edge.new id "check" target with sourceHandle := some ("check_" ++ branch) }

/-- The edge as it is bound to its branch. -/
def boundExit (id branch target : String) : Edge :=
  { exit id branch target with branch := some ⟨"check", branch⟩ }

def graph : Graph where
  nodeSlots := ⟨[(4, report), (3, repair), (2, check), (1, batch), (0, fetch)], 5, []⟩
  edgeSlots := ⟨[(4, .new "e5" "repair" "report"), (3, boundExit "e4" "no" "repair"),
    (2, boundExit "e3" "yes" "report"), (1, .new "e2" "fetch" "check"),
    (0, .new "e1" "batch" "report")], 5, []⟩
  revision := 10

theorem built : graph.Built := by
  refine Graph.Built.empty.addAll [fetch, batch, check, repair, report]
    [.new "e1" "batch" "report", .new "e2" "fetch" "check", exit "e3" "yes" "report",
      exit "e4" "no" "repair", .new "e5" "repair" "report"] ?_
  cbv

theorem mem_nodes {n : Node} :
    n ∈ graph.nodes ↔ n = report ∨ n = repair ∨ n = check ∨ n = batch ∨ n = fetch := by
  rw [Graph.mem_nodes]
  simp [Slots.newest, graph]

theorem id_ne_empty : ∀ n ∈ graph.nodes, n.id ≠ "" := by
  intro n hn
  rcases mem_nodes.1 hn with rfl | rfl | rfl | rfl | rfl <;> decide

/-- The feed of a task that was just created. -/
def feed : Feed where
  snapshot := {
    task := "task", app := "app", conversation := "conversation", request := "request"
    status := .created, records := [], revision := 0, createdAt := default, updatedAt := default }

def run (limit : Nat) : Run where
  graph := graph
  order := ["batch", "fetch", "check", "repair", "report"]
  limit := limit
  startInputs := []
  now := default
  feed := feed.setStatus .executing none default
  pool := {}
  ready := ["batch", "fetch"]

theorem order_graph : graph.order = .ok ["batch", "fetch", "check", "repair", "report"] := by
  have hvisited : graph.digraph.visited = ["batch", "fetch", "check", "repair", "report"] := by cbv
  unfold Graph.order Digraph.order
  rw [hvisited]
  rfl

theorem entries_graph : graph.entries.map Node.id = ["batch", "fetch"] := by
  have hfree : (graph.nodes.filter fun n => graph.incoming n.id == []) = [fetch, batch] := by cbv
  unfold Graph.entries
  rw [hfree]
  simp [Graph.sortNodes, fetch, batch, List.mergeSort, List.MergeSort.Internal.splitInTwo]

theorem launched (limit : Nat) : Run.Launched graph limit [] {} (run limit) where
  built := built
  begun := by
    refine ⟨feed, default, { run limit with feed := feed }, rfl, rfl, ?_, rfl⟩
    unfold Run.begin
    rw [order_graph]
    show Except.ok _ = _
    rw [entries_graph]
    rfl

/-- A history in which a node inside the container waits, and then the script does. -/
def bothWait : List Action := [.schedule,
  .report 0 (.ok (.paused (some (.new "step" "script")))) 0, .report 1 (.ok (.paused none)) 0]

end Sample
end Flowrun
