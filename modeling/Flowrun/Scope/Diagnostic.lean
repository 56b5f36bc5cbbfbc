import Flowrun.Selector.Basic
import Flowrun.Source

/-!
# Diagnostics

A `Diagnostic` is a finding about one reference. A reference that is out of scope gives a warning
and is left as it stands.
-/

namespace Flowrun

open Json

/-- How grave a finding is. -/
inductive Severity
  | error
  | warning
  deriving DecidableEq, Repr, Inhabited

namespace Severity

def names : List (String × Severity) := [("error", .error), ("warning", .warning)]

def read? (v : Spot) : Option Severity := Source.case? names v

def tree : Severity → Tree
  | .error => .string "error"
  | .warning => .string "warning"

end Severity

/-- Why a reference is out of scope. -/
inductive ScopeFault
  | undeclaredGlobal
  | unknownNode
  | ownOutput
  | notAncestor
  | undeclaredOutput (key : String)
  deriving DecidableEq, Repr, Inhabited

def ScopeFault.message : ScopeFault → String
  | .undeclaredGlobal => "global variable is not declared"
  | .unknownNode => "node does not exist"
  | .ownOutput => "a node cannot reference its own outputs"
  | .notAncestor => "node is not upstream"
  | .undeclaredOutput key => "node declares no output '" ++ key ++ "'"

/-- A finding about a reference in a node's configuration. -/
structure Diagnostic where
  severity : Severity
  code : String
  message : String
  node : String
  reference : Selector
  /-- The field that holds the reference. -/
  field : Option String := none
  deriving DecidableEq, Repr, Inhabited

namespace Diagnostic

def danglingCode : String := "dangling_variable_reference"

/-- The warning about a reference that is out of scope. -/
def dangling (node : String) (reference : Selector) (field : Option String)
    (reason : String) : Diagnostic where
  severity := .warning
  code := danglingCode
  message := "Node '" ++ node ++ "' references '" ++ reference.reference ++
    "' which is not in scope: " ++ reason
  node := node
  reference := reference
  field := field

def isDangling (d : Diagnostic) : Bool := d.code == danglingCode

/-- A selector, which is written as a text. -/
def readSelector? (v : Spot) : Option Selector := v.text?.bind Selector.read?

def read? (v : Spot) : Option Diagnostic := do
  let fs ← Source.fields? ["level", "code", "message", "node_id", "reference", "field_path"] v
  return {
    severity := ← fs.required "level" Severity.read?
    code := ← fs.required "code" Source.text?
    message := ← fs.required "message" Source.text?
    node := ← fs.required "node_id" Source.text?
    reference := ← fs.required "reference" readSelector?
    field := ← fs.nullable "field_path" Source.text? }

def tree (d : Diagnostic) : Tree := .object [
  ("level", d.severity.tree), ("code", .string d.code), ("message", .string d.message),
  ("node_id", .string d.node), ("reference", d.reference.tree),
  ("field_path", .optional d.field)]

end Diagnostic
end Flowrun
