import Flowrun.Config
import Flowrun.Graph.Model

/-!
# Published apps

An app is published in versions. The label `latest` stands for what was published last, under
whatever version. A workflow whose graph cannot be built is not published; one with a cycle is, and
is refused when a task is started.
-/

namespace Flowrun

/-- A published version of an app. -/
structure PublishedApp where
  app : String
  version : String
  workflow : Workflow
  graph : Graph
  deriving Repr

/-- The published versions of all apps. -/
structure Catalog where
  apps : Dict (Dict PublishedApp) := []
  deriving Repr

namespace Catalog

/-- The versions of an app after one more was published. -/
def withVersion (versions : Dict PublishedApp) (p : PublishedApp) : Dict PublishedApp :=
  (if p.version = latestVersion then versions
    else versions.put latestVersion { p with version := latestVersion }).put p.version p

/-- Publish a workflow as a version of an app. -/
def publish (c : Catalog) (app version : String) (w : Workflow) :
    Except TaskError (Graph × Catalog) := do
  let graph ← Graph.ofWorkflow w
  let versions := (c.apps.at? app).getD []
  return (graph, ⟨c.apps.put app (withVersion versions ⟨app, version, w, graph⟩)⟩)

def get (c : Catalog) (app version : String) : Except TaskError PublishedApp :=
  match (c.apps.at? app).bind (·.at? version) with
  | some p => .ok p
  | none => .error (.appNotFound app version)

def contains (c : Catalog) (app : String) : Bool := c.apps.has app

/-- The labels of all versions of an app, in order. -/
def versions (c : Catalog) (app : String) : List String := ((c.apps.at? app).getD []).keys

end Catalog
end Flowrun
