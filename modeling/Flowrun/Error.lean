import Flowrun.Handle
import Flowrun.Task.Status

/-!
# Errors

A `NodeError` is the reason why the execution of a node failed; it stays on the node's record. A
`TaskError` is the answer to a refused graph edit, a refused selection or a refused call about a
task. `message` puts either into words.
-/

namespace Flowrun

/-- Why the execution of a node failed. -/
inductive NodeError
  | config (text : String)
  | variableNotFound (text : String)
  | execution (text : String)
  | inputValidation (text : String)
  | timeout (secs : Nat)
  | serialization (text : String)
  | executorNotFound (type : String)
  deriving DecidableEq, Repr, Inhabited

namespace NodeError

/-- The word that stands for the kind of error. -/
def code : NodeError → String
  | .config _ => "config_error"
  | .variableNotFound _ => "variable_not_found"
  | .execution _ => "execution_error"
  | .inputValidation _ => "input_validation_error"
  | .timeout _ => "timeout"
  | .serialization _ => "serialization_error"
  | .executorNotFound _ => "executor_not_found"

/-- What the message begins with. -/
def heading : NodeError → String
  | .config _ => "Configuration error: "
  | .variableNotFound _ => "Variable not found: "
  | .execution _ => "Execution error: "
  | .inputValidation _ => "Input validation error: "
  | .timeout _ => "Timeout: node execution exceeded "
  | .serialization _ => "Serialization error: "
  | .executorNotFound _ => "Executor not found for node type: "

def detail : NodeError → String
  | .config text | .variableNotFound text | .execution text | .inputValidation text
  | .serialization text | .executorNotFound text => text
  | .timeout secs => toString secs ++ "s"

def message (e : NodeError) : String := e.heading ++ e.detail

end NodeError

/-- Why the store of tasks failed. -/
inductive StoreError
  | serialization (text : String)
  | storage (text : String)
  deriving DecidableEq, Repr, Inhabited

def StoreError.message : StoreError → String
  | .serialization text => "Serialization error: " ++ text
  | .storage text => "Storage error: " ++ text

/-- Why an edit of a graph or a call about a task was refused. -/
inductive TaskError
  | malformedWorkflow (text : String)
  | invalidSelection (text : String)
  | missingInput (node key : String)
  | staleResume (requested : ResumeTarget) (expected : Option ResumeTarget) (status : TaskStatus)
  | cyclic (text : String)
  | duplicateNode (id : String)
  | duplicateEdge (id : String)
  | selfLoop (id : String)
  | nodeNotFound (id : String)
  | edgeNotFound (id : String)
  | endpointMissing (edge node : String)
  | appNotFound (app version : String)
  | taskNotFound (id : String)
  | terminated (task : String) (status : TaskStatus)
  | store (text : String)
  | internal (text : String)
  deriving DecidableEq, Repr, Inhabited

namespace TaskError

def message : TaskError → String
  | .malformedWorkflow text => "DSL parse error: " ++ text
  | .invalidSelection text => "Graph selection invalid: " ++ text
  | .missingInput node key => "Missing required input: " ++ key ++ " (node " ++ node ++ ")"
  | .staleResume requested expected _ =>
    "Stale resume target: expected " ++ ResumeTarget.shownOption expected ++ ", got " ++
      requested.text
  | .cyclic text => "Cycle detected in graph: " ++ text
  | .duplicateNode id => "Duplicate node id: " ++ id
  | .duplicateEdge id => "Duplicate edge id: " ++ id
  | .selfLoop id => "Self-loop on node: " ++ id
  | .nodeNotFound id => "Node not found: " ++ id
  | .edgeNotFound id => "Edge not found: " ++ id
  | .endpointMissing edge node => "Edge " ++ edge ++ " references missing node " ++ node
  | .appNotFound app version => "App not found: " ++ app ++ " (version " ++ version ++ ")"
  | .taskNotFound id => "Task not found: " ++ id
  | .terminated task status =>
    "Task already terminated: " ++ task ++ " (" ++ status.name ++ ")"
  | .store text => "Task store error: " ++ text
  | .internal text => "Internal error: " ++ text

/-- Whether the request itself was at fault, as opposed to what it was looked up in. -/
def isValidation : TaskError → Bool
  | .invalidSelection _ | .missingInput .. | .cyclic _ | .duplicateNode _ | .duplicateEdge _
  | .selfLoop _ | .endpointMissing .. => true
  | _ => false

/-- A failure of the store, as an answer to a call. -/
def ofStore (e : StoreError) : TaskError := .store e.message

end TaskError
end Flowrun
