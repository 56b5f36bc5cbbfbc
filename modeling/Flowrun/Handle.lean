import Flowrun.Source
import Flowrun.Text.Quoted

/-!
# Branch handles and resume targets

A node with branches has named exits. The handle of an exit is the id of the node, an underscore and
the id of the branch. Ids may hold underscores themselves, so a handle is read against the id of
its node.

A resume target is the point at which a paused task waits: a node, and the container it runs in
if it is nested.
-/

namespace Flowrun

open Json

/-- The branch that every node with branches has. -/
def defaultBranch : String := "default"

/-- An exit of a node with branches. -/
structure BranchHandle where
  node : String
  branch : String
  deriving DecidableEq, Repr, Inhabited

namespace BranchHandle

/-- The exit that is taken when nothing else is chosen. -/
def defaultOf (node : String) : BranchHandle := ⟨node, defaultBranch⟩

/-- What is left of a text after its beginning. -/
def after? : List Char → List Char → Option (List Char)
  | [], rest => some rest
  | a :: as, b :: bs => if a = b then after? as bs else none
  | _ :: _, [] => none

/-- Read a handle of `node`; the branch must not be empty. -/
def ofText? (node handle : String) : Option BranchHandle :=
  match after? (node.toList ++ ['_']) handle.toList with
  | none => none
  | some [] => none
  | some branch => some ⟨node, String.ofList branch⟩

def text (h : BranchHandle) : String := h.node ++ "_" ++ h.branch

def read? (v : Spot) : Option BranchHandle := do
  let fs ← Source.fields? ["node_id", "branch_id"] v
  return { node := ← fs.required "node_id" Source.text?
           branch := ← fs.required "branch_id" Source.text? }

def tree (h : BranchHandle) : Tree := .object [
  ("node_id", .string h.node), ("branch_id", .string h.branch)]

end BranchHandle

/-- The point at which a paused task waits. -/
structure ResumeTarget where
  node : String
  /-- The container, if the node is nested. -/
  parent : Option String := none
  deriving DecidableEq, Repr, Inhabited

namespace ResumeTarget

/-- A target; an empty parent counts as none. -/
def new (node : String) (parent : Option String) : ResumeTarget :=
  ⟨node, parent.filter (· ≠ "")⟩

def isNested (t : ResumeTarget) : Bool := t.parent.isSome

/-- The target as a path. -/
def text (t : ResumeTarget) : String := match t.parent with
  | some parent => parent ++ "/" ++ t.node
  | none => t.node

/-- The target with its fields spelled out. -/
def shown (t : ResumeTarget) : String :=
  "ResumeTarget \x7b node_id: " ++ Text.quoted t.node ++ ", parent_node_id: " ++
    (match t.parent with
      | some parent => "Some(" ++ Text.quoted parent ++ ")"
      | none => "None") ++ " \x7d"

/-- A target that may be missing, spelled out. -/
def shownOption : Option ResumeTarget → String
  | some t => "Some(" ++ t.shown ++ ")"
  | none => "None"

def read? (v : Spot) : Option ResumeTarget := do
  let fs ← Source.fields? ["node_id", "parent_node_id"] v
  return { node := ← fs.required "node_id" Source.text?
           parent := ← fs.optional "parent_node_id" Source.text? }

def tree (t : ResumeTarget) : Tree := .object
  (("node_id", .string t.node) :: Tree.field? "parent_node_id" (t.parent.map .string))

end ResumeTarget
end Flowrun
