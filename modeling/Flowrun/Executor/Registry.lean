import Flowrun.Executor.Basic

/-!
# Executors and their registry

The engine has executors of its own for the nodes that start and end a workflow, join branches or
ask the user. Every other kind needs an executor from outside, for which a stub can stand in. A
`Registry` holds one executor for each type name.
-/

namespace Flowrun

open Json

/-- The executors of the engine. -/
inductive Builtin
  /-- Publishes the inputs of the task, and `null` for a declared output that was not given. -/
  | start
  /-- Publishes its inputs. -/
  | finish
  /-- Publishes the first of its inputs that is not `null`. -/
  | aggregator
  /-- Waits for the user. -/
  | userInput
  /-- Stands in for an executor from outside. -/
  | stub
  deriving DecidableEq, Repr, Inhabited

namespace Builtin

/-- The text that a stub publishes for each declared output. -/
def stubText (n : Node) : String :=
  "[Stub: " ++ n.kind.typeName ++ " node " ++ n.id ++ " not implemented]"

/-- The first input, in the order of the parameters, that is not `null`. -/
def firstInput (r : NodeRequest) : Value :=
  ((r.node.config.inputs.filterMap fun p => r.inputs.at? p.key).find? fun v => !v.isNull).getD .null

def startOutput (r : NodeRequest) : Dict Value :=
  r.node.config.outputs.foldl (fun out p => out.putNew p.key .null) r.inputs

def perform (b : Builtin) (r : NodeRequest) : NodeReport := match b with
  | .start => .ok (.success (.object (startOutput r)) [])
  | .finish => .ok (.success (.object r.inputs) [])
  | .aggregator => .ok (.success (.object [("output", firstInput r)]) [])
  | .userInput => .ok (.paused none)
  | .stub =>
    let texts := r.node.config.outputs.map fun p => (p.key, Value.string (stubText r.node))
    .ok (.success (.object (Dict.ofEntries texts)) [])

end Builtin

/-- Executors under the names of the types they serve. -/
structure Registry (ε : Type u) where
  executors : Dict ε := []

namespace Registry

variable {ε : Type u}

/-- Let an executor serve a type, instead of the one before. -/
def register (r : Registry ε) (type : String) (e : ε) : Registry ε := ⟨r.executors.put type e⟩

def registerAll (r : Registry ε) (types : List String) (e : ε) : Registry ε :=
  types.foldl (fun r type => r.register type e) r

def get? (r : Registry ε) (type : String) : Option ε := r.executors.at? type

def resolve (r : Registry ε) (k : NodeKind) : Except NodeError ε := match r.get? k.typeName with
  | some e => .ok e
  | none => .error (.executorNotFound k.typeName)

/-- The types that are served, in order. -/
def types (r : Registry ε) : List String := r.executors.keys

/-- The executors of the engine itself, as seen by `f`. -/
def builtin (f : Builtin → ε) : Registry ε :=
  ({} : Registry ε)
    |>.register "start" (f .start)
    |>.register "end" (f .finish)
    |>.register "output" (f .finish)
    |>.register "variable_aggregator" (f .aggregator)
    |>.register "user_input" (f .userInput)

/-- The types that need an executor from outside. -/
def outsideTypes : List String :=
  ["llm", "script", "knowledge_retrieval", "classifier", "judge", "iterator", "parallel"]

/-- The executors of the engine, and stubs for the types that need an executor from outside. -/
def withStubs (f : Builtin → ε) : Registry ε := (builtin f).registerAll outsideTypes (f .stub)

end Registry
end Flowrun
