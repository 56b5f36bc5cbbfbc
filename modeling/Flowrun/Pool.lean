import Flowrun.Dict
import Flowrun.Graph.Basic

/-!
# Variable pools

A `Pool` holds the values that a task has produced so far, under their owner and key. Reading
follows the path of a selector into the value; writing makes the objects on the way.
-/

namespace Flowrun

open Json

/-- Values under their owner and key. -/
structure Pool where
  owners : Dict (Dict Value) := []
  deriving DecidableEq, Repr, Inhabited

namespace Pool

/-- All values of an owner, if it has been given any. -/
def outputs? (p : Pool) (owner : String) : Option (Dict Value) := p.owners.at? owner

def outputs (p : Pool) (owner : String) : Dict Value := (p.outputs? owner).getD []

/-- The value at a selector, if its variable was given one. -/
def get? (p : Pool) (s : Selector) : Option Value := ((p.outputs s.owner).at? s.key).map s.project

/-- Write a value at a selector. -/
def set (p : Pool) (s : Selector) (v : Value) : Pool :=
  let outputs := p.outputs s.owner
  let old := (outputs.at? s.key).getD .null
  ⟨p.owners.put s.owner (outputs.put s.key (Value.assign s.path v old))⟩

/-- The key of an output that is no object. -/
def outputKey : String := "output"

/-- Publish the output of a node: the fields of an object each under their key, any other value
under `output`, and nothing for `null`. -/
def publish (p : Pool) (owner : String) : Value → Pool
  | .object fields => ⟨p.owners.put owner ((p.outputs owner).putAll fields)⟩
  | .null => p
  | v => p.set ⟨owner, outputKey, []⟩ v

/-- The pool with the defaults of global variables. -/
def ofGlobals (globals : List GlobalVariable) : Pool :=
  globals.foldl (fun p x => p.set x.selector x.default) {}

/-- The value of an input, and the reference it was to be taken from if nothing was found there. -/
def resolveParam (p : Pool) (param : InputParam) : Value × Option Selector :=
  match param.valueFrom, param.value with
  | .refer, some (.string s) => match Selector.read? s with
    | none => (.null, none)
    | some selector => match p.get? selector with
      | some v => (v, none)
      | none => (.null, some selector)
  | .refer, _ => (.null, none)
  | .input, v => (v.getD .null, none)

def inputs (p : Pool) (n : Node) : Dict Value :=
  Dict.ofEntries (n.config.inputs.map fun param => (param.key, (p.resolveParam param).1))

/-- The references of a node's inputs at which nothing was found. -/
def unresolved (p : Pool) (n : Node) : List Selector :=
  n.config.inputs.filterMap fun param => (p.resolveParam param).2

end Pool
end Flowrun
