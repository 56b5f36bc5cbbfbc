import Flowrun.Error
import Flowrun.Graph.Basic
import Flowrun.Graph.Slots

/-!
# Graphs

A `Graph` holds nodes and edges under unique ids; the ends of every edge are nodes of the graph,
and no edge leads from a node to itself. Cycles are allowed here and found by the order.

An edit that is refused leaves the graph as it was; every other edit raises the revision. The
questions about a graph (`node?`, `edgesInto`, `entries`, …) depend on the nodes and edges it
holds, except for the order in which nodes and edges are walked, which is that of their slots.
-/

namespace Flowrun

/-- A workflow as a graph. -/
structure Graph where
  nodeSlots : Slots Node := {}
  edgeSlots : Slots Edge := {}
  globals : List GlobalVariable := []
  /-- Raised by every edit. -/
  revision : Nat := 0
  deriving Repr, Inhabited

namespace Graph

/-! ### Looking up -/

/-- All nodes, by slot. -/
def nodes (g : Graph) : List Node := g.nodeSlots.inOrder

/-- All edges, by slot. -/
def edges (g : Graph) : List Edge := g.edgeSlots.inOrder

def node? (g : Graph) (id : String) : Option Node := g.nodeSlots.newest.find? (·.id == id)

def edge? (g : Graph) (id : String) : Option Edge := g.edgeSlots.newest.find? (·.id == id)

def hasNode (g : Graph) (id : String) : Bool := (g.node? id).isSome

/-- A node, or the error that says that there is none. -/
def getNode (g : Graph) (id : String) : Except TaskError Node := match g.node? id with
  | some n => .ok n
  | none => .error (.nodeNotFound id)

/-- The nodes with the given ids; unknown ids are left out. -/
def nodesById (g : Graph) (ids : List String) : List Node := ids.filterMap g.node?

/-- The edges that lead to a node, the newest first. -/
def incoming (g : Graph) (id : String) : List Edge :=
  g.edgeSlots.newest.filter (·.target == id)

/-- The edges that leave a node, the newest first. -/
def outgoing (g : Graph) (id : String) : List Edge :=
  g.edgeSlots.newest.filter (·.source == id)

/-- Edges in the order of their ids. -/
def sortEdges (es : List Edge) : List Edge := es.mergeSort fun a b => a.id ≤ b.id

/-- Nodes in the order of their ids. -/
def sortNodes (ns : List Node) : List Node := ns.mergeSort fun a b => a.id ≤ b.id

/-- The edges that lead to a node, by id. -/
def edgesInto (g : Graph) (id : String) : List Edge := sortEdges (g.incoming id)

/-- The edges that leave a node, by id. -/
def edgesFrom (g : Graph) (id : String) : List Edge := sortEdges (g.outgoing id)

/-- The start node in the lowest slot. -/
def start? (g : Graph) : Option Node := g.nodes.find? (·.kind == .start)

/-- The nodes that no edge leads to, by id. -/
def entries (g : Graph) : List Node := sortNodes (g.nodes.filter fun n => g.incoming n.id == [])

/-- The nodes that no edge leaves, by slot. -/
def sinks (g : Graph) : List Node := g.nodes.filter fun n => g.outgoing n.id == []

/-! ### Edits -/

/-- The graph after an edit. -/
def edited (g : Graph) : Graph := { g with revision := g.revision + 1 }

def setGlobals (g : Graph) (globals : List GlobalVariable) : Graph := { g with globals }.edited

/-- Add a node under a new id. -/
def addNode (g : Graph) (n : Node) : Except TaskError Graph :=
  if g.hasNode n.id then .error (.duplicateNode n.id)
  else .ok { g with nodeSlots := g.nodeSlots.insert n }.edited

/-- Add an edge between two nodes of the graph, under a new id, and bind it to a branch of its
source. -/
def addEdge (g : Graph) (e : Edge) : Except TaskError Graph :=
  if (g.edge? e.id).isSome then .error (.duplicateEdge e.id)
  else if e.source = e.target then .error (.selfLoop e.source)
  else match g.node? e.source with
    | none => .error (.endpointMissing e.id e.source)
    | some source =>
      if g.hasNode e.target then
        .ok { g with edgeSlots := g.edgeSlots.insert (e.bind source.kind) }.edited
      else .error (.endpointMissing e.id e.target)

/-- Remove a node together with all its edges: first those that leave it, then those that lead to
it. -/
def removeNode (g : Graph) (id : String) : Except TaskError (Node × Graph) :=
  match g.node? id with
  | none => .error (.nodeNotFound id)
  | some n => .ok (n, { g with
      edgeSlots := (g.edgeSlots.remove (·.source == id)).remove (·.target == id)
      nodeSlots := g.nodeSlots.remove (·.id == id) }.edited)

def removeEdge (g : Graph) (id : String) : Except TaskError (Edge × Graph) :=
  match g.edge? id with
  | none => .error (.edgeNotFound id)
  | some e => .ok (e, { g with edgeSlots := g.edgeSlots.remove (·.id == id) }.edited)

/-! ### Building -/

/-- Add nodes and then edges to a graph. -/
def addAll (g : Graph) (ns : List Node) (es : List Edge) : Except TaskError Graph := do
  let g ← ns.foldlM addNode g
  es.foldlM addEdge g

/-- The graph of a workflow. Cycles are not looked for here. -/
def ofWorkflow (w : Workflow) : Except TaskError Graph := do
  let g ← addAll {} (w.nodes.map .ofSpec) (w.edges.map .ofSpec)
  return g.setGlobals (GlobalVariable.collect w)

end Graph
end Flowrun
