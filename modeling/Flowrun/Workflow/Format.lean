import Flowrun.Error
import Flowrun.Text.Pieces
import Flowrun.Workflow.Document
import Flowrun.Yaml.Document

/-!
# Reading workflows

A workflow is written as JSON or as YAML, which the extension of its file tells. Edges may be
written without an id and are then given one: the handle or the source, the target and the position
of the edge, with hyphens between them.
-/

namespace Flowrun

/-- How a workflow is written. -/
inductive Format
  | json
  | yaml
  deriving DecidableEq, Repr, Inhabited

namespace Format

def name : Format → String
  | .json => "json"
  | .yaml => "yaml"

/-- The name of the file that a path leads to. Empty parts and parts that are a single dot do not
count; a path that ends by going up has no file. -/
def fileName? (path : List Char) : Option (List Char) :=
  match ((Text.pieces '/' path).filter fun p => p ≠ [] ∧ p ≠ ['.']).getLast? with
  | some ['.', '.'] => none
  | name => name

/-- What follows the last dot of a file name; a dot at the very beginning does not count. -/
def extension? (name : List Char) : Option (List Char) :=
  match (Text.pieces '.' name).reverse with
  | last :: before :: rest => if before = [] ∧ rest = [] then none else some last
  | _ => none

/-- The format of a file; all but JSON is taken for YAML. -/
def ofPath (path : String) : Format :=
  match (fileName? path.toList).bind extension? with
  | some ['j', 's', 'o', 'n'] => .json
  | _ => .yaml

end Format

/-- The id of an edge that was written without one. -/
def EdgeSpec.madeId (e : EdgeSpec) (position : Nat) : String :=
  e.sourceHandle.getD e.source ++ "-" ++ e.target ++ "-" ++ toString position

def EdgeSpec.withId (e : EdgeSpec) (position : Nat) : EdgeSpec :=
  if e.id = "" then { e with id := e.madeId position } else e

/-- A workflow in which every edge has an id. -/
def Workflow.withEdgeIds (w : Workflow) : Workflow :=
  { w with edges := w.edges.mapIdx fun i e => e.withId i }

/-- Read a workflow that is written as JSON. -/
def Workflow.ofJson? (s : String) : Option Workflow :=
  (Json.readText? Workflow.read? s).map withEdgeIds

/-- Read a workflow that is written as YAML. -/
def Workflow.ofYaml? (s : String) : Option Workflow :=
  (Yaml.readText? outline Workflow.read? s).map withEdgeIds

/-- Read a workflow that is written in a format. -/
def Workflow.parse? (format : Format) (s : String) : Option Workflow := match format with
  | .json => ofJson? s
  | .yaml => ofYaml? s

end Flowrun
