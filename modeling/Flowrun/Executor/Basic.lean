import Flowrun.Error
import Flowrun.Graph.Basic

/-!
# Executions of nodes

What an executor is given for one execution of a node, and what it reports if it does not fail: a
success with an output, or a pause for user input. A container may pause on behalf of a node inside
it, of which nothing else is known here.
-/

namespace Flowrun

open Json

/-- User input for a node inside a container. -/
structure ResumePayload where
  target : ResumeTarget
  inputs : Dict Value
  deriving DecidableEq, Repr, Inhabited

/-- One execution of a node. -/
structure NodeRequest where
  task : String
  node : Node
  inputs : Dict Value
  /-- Set when the execution goes on after a pause of a node inside. -/
  resume : Option ResumePayload := none
  deriving DecidableEq, Repr, Inhabited

/-- A node inside a container. -/
structure InnerNode where
  id : String
  name : String
  type : String
  deriving DecidableEq, Repr, Inhabited

/-- An inner node that is named after its id. -/
def InnerNode.new (id type : String) : InnerNode := ⟨id, id, type⟩

/-- What an execution reports if it does not fail. -/
inductive NodeOutcome
  /-- The node is finished; a node with branches says which ones it chose. -/
  | success (output : Value) (branches : List String)
  /-- The node, or one inside it, waits for user input. -/
  | paused (inner : Option InnerNode)
  deriving DecidableEq, Repr, Inhabited

/-- A report about an execution. -/
abbrev NodeReport := Except NodeError NodeOutcome

/-- The failure of an executor that breaks off, perhaps with a reason. -/
def NodeError.ofPanic (reason : Option String) : NodeError :=
  .execution ("executor panicked: " ++ reason.getD "unknown panic")

end Flowrun
