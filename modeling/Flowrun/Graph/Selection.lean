import Flowrun.Graph.Order

/-!
# Selections

A part of a workflow can be run on its own. A selection names nodes and edges of a graph; it is
valid when all of them exist, both ends of every selected edge are selected too, and the selected
part has no cycle. `subgraph` cuts a valid selection out; `ofSelection` builds the graph of nodes
and edges that a caller sends along.
-/

namespace Flowrun.Graph

/-- The ends of edges that are not among the selected nodes. -/
def danglingEnds (nodes : List String) (edges : List Edge) : List (String × String) :=
  edges.flatMap fun e => ([e.source, e.target].filter (· ∉ nodes)).map fun v => (e.id, v)

/-- Refuse edges with an end that is not selected, naming all of them. -/
def checkEnds (nodes : List String) (edges : List Edge) : Except TaskError Unit :=
  match danglingEnds nodes edges with
  | [] => .ok ()
  | ends => .error (.invalidSelection ("; ".intercalate (ends.map fun (edge, node) =>
      "edge '" ++ edge ++ "' -> missing node '" ++ node ++ "'")))

/-- The selected edges, in the order of the selection. -/
def selectEdges (g : Graph) (edges : List String) : Except TaskError (List Edge) :=
  edges.mapM fun id => match g.edge? id with
    | some e => .ok e
    | none => .error (.invalidSelection ("unknown edge '" ++ id ++ "'"))

/-- The selected part. Its arcs count as newer the higher their slots are. -/
def selectedPart (g : Graph) (nodes edges : List String) : Digraph :=
  ⟨(g.nodes.map Node.id).filter (· ∈ nodes),
    (g.edges.reverse.filter (·.id ∈ edges)).map fun e => (e.source, e.target)⟩

/-- Check a selection of nodes and edges. -/
def validate (g : Graph) (nodes edges : List String) : Except TaskError Unit := do
  match nodes.find? fun id => !g.hasNode id with
  | some id => throw (.invalidSelection ("unknown node '" ++ id ++ "'"))
  | none => pure ()
  checkEnds nodes (← g.selectEdges edges)
  match (g.selectedPart nodes edges).order with
  | .ok _ => pure ()
  | .error v => throw (.cyclic ("selection contains a cycle through '" ++ v ++ "'"))

/-- The selected edges once more, as edits look for them. -/
def edgesById (g : Graph) (edges : List String) : Except TaskError (List Edge) :=
  edges.mapM fun id => match g.edge? id with
    | some e => .ok e
    | none => .error (.edgeNotFound id)

/-- A copy of the selected part of a graph, with the same global variables. -/
def subgraph (g : Graph) (nodes edges : List String) : Except TaskError Graph := do
  g.validate nodes edges
  let part ← addAll {} (g.nodesById nodes) (← g.edgesById edges)
  return part.setGlobals g.globals

/-- The id of a selected edge; without one it is made from the ends and the position. -/
def selectedEdge (e : EdgeSpec) (position : Nat) : Edge :=
  let edge := Edge.ofSpec e
  if edge.id = "" then
    { edge with id := edge.source ++ "-" ++ edge.target ++ "-" ++ toString position }
  else edge

/-- The graph of a part that is sent along by a caller. -/
def ofSelection (nodes : List NodeSpec) (edges : List EdgeSpec)
    (globals : List GlobalVariable) : Except TaskError Graph := do
  checkEnds (nodes.map NodeSpec.id) (edges.map .ofSpec)
  let g ← addAll {} (nodes.map .ofSpec) (edges.mapIdx fun i e => selectedEdge e i)
  let g := g.setGlobals globals
  g.checkAcyclic
  return g

end Flowrun.Graph
