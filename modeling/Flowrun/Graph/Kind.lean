import Flowrun.Distinct
import Flowrun.Handle
import Flowrun.Workflow.Basic

/-!
# Kinds of nodes

The type of a node is free text. Some types have a meaning of their own and several spellings;
letters count without case, and a hyphen counts as an underscore. Every other type is a custom
kind.

Nodes with branches declare them in their parameter, as a list of objects with an `id`. The
declared ids are kept in order, each once, and `default` is always among them.
-/

namespace Flowrun

open Json

/-- What a node is. -/
inductive NodeKind
  | start
  | finish
  | llm
  | classifier (branches : List String)
  | judge (branches : List String)
  | script
  | knowledgeRetrieval
  | variableAggregator
  | iterator
  | userInput
  /-- Runs at most `size` of its inner nodes at a time. -/
  | parallel (size : Nat)
  | output
  | custom (type : String)
  deriving DecidableEq, Repr, Inhabited

namespace NodeKind

/-- A type with its letters in lower case and its hyphens as underscores. -/
def folded (type : String) : String :=
  String.ofList (type.toList.map fun c => if c = '-' then '_' else c.toLower)

/-- The branches that are declared in a field of a node's parameter. -/
def declaredBranches (param : Value) (field : String) : List String :=
  let items := ((param.field? field).bind Value.array?).getD []
  distinct ((items.filterMap fun item => (item.field? "id").bind Value.string?).filter (· ≠ ""))

/-- The declared branches and `default`. -/
def branchIds (param : Value) (field : String) : List String :=
  let declared := declaredBranches param field
  if defaultBranch ∈ declared then declared else declared ++ [defaultBranch]

/-- The bounds for the number of inner nodes that may run at a time. -/
def minParallel : Nat := 1
def maxParallel : Nat := 10

/-- The number of inner nodes that may run at a time, within the bounds. -/
def parallelSize (param : Value) : Nat :=
  match (param.field? "concurrent_size").bind Value.count? with
  | some n => max minParallel (min maxParallel n)
  | none => minParallel

/-- The kind of a node, from its type and its parameter. -/
def of (type : String) (param : Value) : NodeKind :=
  match folded type with
  | "start" => .start
  | "end" => .finish
  | "llm" => .llm
  | "classifier" | "question_classifier" => .classifier (branchIds param "conditions")
  | "judge" | "if_else" => .judge (branchIds param "branches")
  | "script" | "code" => .script
  | "retrieval" | "knowledgeretrieval" | "knowledge_retrieval" => .knowledgeRetrieval
  | "variableaggregator" | "variable_aggregator" => .variableAggregator
  | "iterator" | "iteration" => .iterator
  | "input" | "userinput" | "user_input" => .userInput
  | "parallel" => .parallel (parallelSize param)
  | "output" | "answer" => .output
  | _ => .custom type

/-- The name under which the executor of a kind is registered. -/
def typeName : NodeKind → String
  | .start => "start"
  | .finish => "end"
  | .llm => "llm"
  | .classifier _ => "classifier"
  | .judge _ => "judge"
  | .script => "script"
  | .knowledgeRetrieval => "knowledge_retrieval"
  | .variableAggregator => "variable_aggregator"
  | .iterator => "iterator"
  | .userInput => "user_input"
  | .parallel _ => "parallel"
  | .output => "output"
  | .custom type => type

/-- The branches of a kind that has some. -/
def branches? : NodeKind → Option (List String)
  | .classifier bs | .judge bs => some bs
  | _ => none

def isBranching (k : NodeKind) : Bool := k.branches?.isSome

def isCustom : NodeKind → Bool
  | .custom _ => true
  | _ => false

def parallelSize? : NodeKind → Option Nat
  | .parallel size => some size
  | _ => none

theorem defaultBranch_mem_branchIds (param : Value) (field : String) :
    defaultBranch ∈ branchIds param field := by
  unfold branchIds
  dsimp only
  split
  · assumption
  · simp

end NodeKind
end Flowrun
