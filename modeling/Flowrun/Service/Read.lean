import Flowrun.Feed.Follower
import Flowrun.Scope.Basic
import Flowrun.Service.Basic
import Flowrun.Task.Request

/-!
# Reading tasks and apps

A task is read from its feed while it is alive, and from the store after that.
-/

namespace Flowrun

/-- The history of a task as it comes to a subscriber. -/
inductive Subscription
  /-- The task is alive; its feed is followed. -/
  | follow (task : String) (follower : Follower)
  /-- The task was released; these records are left of it. -/
  | replay (records : List Record)
  deriving Repr

namespace Service

variable {ε : Type}

/-- The state and history of a task. -/
def snapshot (s : Service ε) (task : String) : Except TaskError Snapshot :=
  match s.live? task with
  | some l => .ok l.feed.snapshot
  | none => match s.store.load task with
    | .error e => .error (.ofStore e)
    | .ok (some p) => .ok p
    | .ok none => .error (.taskNotFound task)

/-- Follow the records of a task from a revision on. -/
def subscribe (s : Service ε) (task : String) (revision : Nat) : Except TaskError Subscription :=
  match s.live? task with
  | some l => .ok (.follow task (.start l.feed revision))
  | none => (s.snapshot task).map fun p => .replay (p.replay revision)

/-- What to ask for before a trial run: the declared outputs of the start node, and the variables of
the system. -/
def debugParams (s : Service ε) (app : String) (version : Option String) :
    Except TaskError (List DebugParam) := do
  let app ← s.app app version
  let outputs := (app.graph.start?.map fun n => n.config.outputs).getD []
  let system := app.graph.globals.filter fun x => x.namespaceName == sysNamespace
  return outputs.map (fun p => { key := p.key, type := p.type, description := p.description
                                 source := .user, required := p.required }) ++
    system.map fun x => { key := x.key, type := x.type, description := x.description
                          source := .sys, required := false }

/-- What a node of an app may refer to. -/
def variablesOf (s : Service ε) (app : String) (version : Option String) (node : String) :
    Except TaskError (List VariableRef) := do
  let app ← s.app app version
  let _ ← app.graph.getNode node
  return app.graph.available node

/-- The references in an app that are out of scope. -/
def references (s : Service ε) (app : String) (version : Option String) :
    Except TaskError (List Diagnostic) := do
  let app ← s.app app version
  return app.graph.checkAll

end Service
end Flowrun
