import Flowrun.Graph.Selection
import Flowrun.Service.Basic
import Flowrun.Task.Request

/-!
# Starting tasks

A task is started on a published app or on a part of a workflow that is sent along. Everything that
can be wrong with the request is looked for before an id is drawn.

The parameters of a request are routed by their keys: a dotted key that reads as a selector is
written to the pool, a parameter of the system is written to the pool under `sys`, and any other
one becomes an input of the start node. The user's query stands in for `sys.query` if that was not
given.
-/

namespace Flowrun

open Json

/-! ### Parameters -/

/-- Where a parameter goes. -/
inductive ParamRoute
  | pool (s : Selector)
  | input (key : String)
  deriving DecidableEq, Repr

namespace RunParam

/-- The selector of a dotted key. -/
def dotted? (p : RunParam) : Option Selector :=
  if '.' ∈ p.key.toList then Selector.ofText? p.key else none

def route (p : RunParam) : ParamRoute := match p.dotted?, p.source with
  | some s, _ => .pool s
  | none, .sys => .pool ⟨sysNamespace, p.key, []⟩
  | none, .user => .input p.key

end RunParam

/-- The pool and the inputs of the start node, while parameters are routed. -/
structure Seed where
  pool : Pool
  inputs : Dict Value := []
  deriving DecidableEq, Repr

namespace Seed

def add (s : Seed) (p : RunParam) : Seed := match p.route with
  | .pool selector => { s with pool := s.pool.set selector p.value }
  | .input key => { s with inputs := s.inputs.put key p.value }

/-- The address of the user's query. -/
def querySelector : Selector := ⟨sysNamespace, GlobalVariable.queryKey, []⟩

/-- Let the user's query stand in for `sys.query` if there is none. -/
def withQuery (s : Seed) : Seed :=
  if ((s.pool.get? querySelector).getD .null).isNull then
    match s.inputs.at? GlobalVariable.queryKey with
    | some query => { s with pool := s.pool.set querySelector query }
    | none => s
  else s

def ofParams (pool : Pool) (params : List RunParam) : Seed :=
  (params.foldl add { pool }).withQuery

end Seed

/-- Refuse inputs in which a required output of the start node is missing. -/
def Node.checkRequired (n : Node) (inputs : Dict Value) : Except TaskError Unit :=
  match n.config.outputs.find? fun p => p.required && ((inputs.at? p.key).getD .null).isNull with
  | some p => .error (.missingInput n.id p.key)
  | none => .ok ()

/-- The parameters of a task on a graph, if nothing is missing. -/
def Graph.seed (g : Graph) (params : List RunParam) : Except TaskError Seed :=
  let seed := Seed.ofParams (.ofGlobals g.globals) params
  match g.start? with
  | none => .ok seed
  | some n => (n.checkRequired seed.inputs).map fun _ => seed

/-! ### Tasks -/

/-- What is known about a task before it has its ids. -/
structure TaskPlan where
  app : String
  version : Option String
  graph : Graph
  seed : Seed
  deriving Repr

namespace Service

variable {ε : Type}

/-- What a request to start a task asks for. -/
def planTask (s : Service ε) (q : CreateRequest) : Except TaskError TaskPlan := do
  let app ← s.app q.app q.version
  app.graph.checkAcyclic
  let seed ← app.graph.seed q.inputs
  return ⟨q.app, some (s.versionOrDefault q.version), app.graph, seed⟩

/-- The global variables of a part: those of the app, if it is published. -/
def partGlobals (s : Service ε) (app : String) : List GlobalVariable :=
  match s.catalog.get app s.config.defaultVersion with
  | .ok app => app.graph.globals
  | .error _ => GlobalVariable.collect {}

/-- What a request to run a part asks for. -/
def planPart (s : Service ε) (q : PartRequest) : Except TaskError TaskPlan := do
  let graph ← Graph.ofSelection q.nodes q.edges (s.partGlobals q.app)
  let seed ← graph.seed q.params
  return ⟨q.app, none, graph, seed⟩

/-- A task that was created and has no history yet. -/
def newSnapshot (s : Service ε) (p : TaskPlan) (task conversation request : String) : Snapshot :=
  { task, app := p.app, version := p.version, conversation, request, status := .created
    records := [], revision := 0, createdAt := s.now, updatedAt := s.now }

/-- Draw the ids of a task and of the request, and set the task going. -/
def launch (s : Service ε) (p : TaskPlan) (conversation : String) :
    Except TaskError (String × String) × Service ε :=
  let (task, s) := s.drawId
  let (request, s) := s.drawId
  let feed : Feed := { snapshot := s.newSnapshot p task conversation request }
  match Run.begin p.graph s.config.concurrency p.seed.inputs p.seed.pool feed s.now with
  | .error e => (.error e, s)
  | .ok run =>
    let run := run.setStatus .executing none
    let store := (s.store.trySave run.feed.snapshot).1
    (.ok (task, request), { s.putLive task { run } with store })

/-- Start a task on a published app. -/
def create (s : Service ε) (q : CreateRequest) : Except TaskError CreateResponse × Service ε :=
  match s.planTask q with
  | .error e => (.error e, s)
  | .ok plan =>
    let (conversation, s) := match q.conversation.filter (· ≠ "") with
      | some conversation => (conversation, s)
      | none => s.drawId
    match s.launch plan conversation with
    | (.error e, s) => (.error e, s)
    | (.ok (task, request), s) => (.ok ⟨task, conversation, request⟩, s)

/-- Start a task on a part of a workflow. -/
def startPart (s : Service ε) (q : PartRequest) : Except TaskError PartResponse × Service ε :=
  match s.planPart q with
  | .error e => (.error e, s)
  | .ok plan =>
    let (conversation, s) := s.drawId
    match s.launch plan conversation with
    | (.error e, s) => (.error e, s)
    | (.ok (task, request), s) => (.ok ⟨task, request⟩, s)

end Service
end Flowrun
