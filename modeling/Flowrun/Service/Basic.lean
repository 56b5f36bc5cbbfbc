import Flowrun.Catalog
import Flowrun.Executor.Registry
import Flowrun.Ids
import Flowrun.Live

/-!
# The service

A `Service` starts tasks on published apps or on parts that are sent along, lets callers resume,
stop and read them, and keeps every task alive until its last snapshot is in the store.

Its operations answer with a result and the service afterwards, so a refusal shows what it left
behind.
-/

namespace Flowrun

open Json

/-- Published apps, tasks and all that is needed to run them. `ε` stands for executors. -/
structure Service (ε : Type) where
  catalog : Catalog := {}
  registry : Registry ε
  config : Config := {}
  ids : Ids
  now : Instant
  store : Store := {}
  /-- The tasks that were not yet released to the store. -/
  tasks : Dict Live := []

namespace Service

variable {ε : Type}

/-- The version that is meant: the given one, or the default if none or an empty one is given. -/
def versionOrDefault (s : Service ε) (version : Option String) : String :=
  (version.filter (· ≠ "")).getD s.config.defaultVersion

/-- The version of an app that a caller asks for. -/
def app (s : Service ε) (app : String) (version : Option String) : Except TaskError PublishedApp :=
  s.catalog.get app (s.versionOrDefault version)

/-- The task with an id, if it was not yet released. -/
def live? (s : Service ε) (task : String) : Option Live := s.tasks.at? task

def isLive (s : Service ε) (task : String) : Bool := (s.live? task).isSome

def putLive (s : Service ε) (task : String) (l : Live) : Service ε :=
  { s with tasks := s.tasks.put task l }

def drawId (s : Service ε) : String × Service ε := (s.ids.next, { s with ids := s.ids.advance })

/-- Publish a workflow as a version of an app. -/
def publish (s : Service ε) (app version : String) (w : Workflow) :
    Except TaskError Graph × Service ε :=
  match s.catalog.publish app version w with
  | .error e => (.error e, s)
  | .ok (graph, catalog) => (.ok graph, { s with catalog })

/-! ### Letting tasks go on -/

/-- One step of a task; `none` if it has to wait. A task that is over and saved is released. -/
def stepTask? (s : Service ε) (task : String) : Option (Service ε) :=
  match s.live? task with
  | none => none
  | some l => match l.phase with
    | .closing true => some { s with tasks := s.tasks.without task }
    | _ => (l.step? s.store).map fun (l, store) => { s.putLive task l with store }

/-- Bring the report of an execution to its task. -/
def deliver (s : Service ε) (task : String) (a : Arrival) : Service ε :=
  match s.live? task with
  | none => s
  | some l => s.putLive task (l.deliver a)

end Service
end Flowrun
