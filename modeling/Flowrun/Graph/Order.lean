import Flowrun.Graph.Model

/-!
# Orders without backward arcs

`Digraph.order` puts the vertices of a finite directed graph into an order in which every arc
leads forward, or names a vertex that stands behind one of its successors, which happens only when
there is a cycle.

A depth-first visit lists each vertex when everything that can be reached from it is listed; read
backwards, that is the order. Vertices are entered in their given order and arcs are followed from
the oldest to the newest.
-/

namespace Flowrun

/-- A directed graph. -/
structure Digraph where
  vertices : List String
  /-- Source and target of every arc, the newest first. -/
  arcs : List (String × String)
  deriving Repr

namespace Digraph

/-- The targets of the arcs that leave a vertex, the newest arc first. -/
def successors (d : Digraph) (v : String) : List String :=
  (d.arcs.filter (·.1 == v)).map Prod.snd

/-- The sources of the arcs that lead to a vertex, the newest arc first. -/
def predecessors (d : Digraph) (v : String) : List String :=
  (d.arcs.filter (·.2 == v)).map Prod.fst

/-- What is still to be done during a visit. -/
inductive Visit
  /-- Go on to a vertex, if it was not seen before. -/
  | enter (v : String)
  /-- Everything behind a vertex was visited. -/
  | leave (v : String)
  deriving DecidableEq, Repr

/-- Visit depth first what is to be done, and put each vertex that is left in front of `left`. -/
def visit (next : String → List String) (unseen : List String) (left : List String) :
    List Visit → List String
  | [] => left
  | .leave v :: rest => visit next unseen (v :: left) rest
  | .enter v :: rest =>
    if v ∈ unseen then
      visit next (unseen.erase v) left ((next v).reverse.map .enter ++ .leave v :: rest)
    else visit next unseen left rest
termination_by work => (unseen.length, work.length)
decreasing_by
  · exact .right _ (by simp)
  · have := List.length_erase_of_mem ‹v ∈ unseen›
    have := List.length_pos_of_mem ‹v ∈ unseen›
    exact .left _ _ (by omega)
  · exact .right _ (by simp)

/-- All vertices, each in front of what can be reached from it if there is no cycle. -/
def visited (d : Digraph) : List String :=
  visit d.successors d.vertices [] (d.vertices.map .enter)

/-- The first vertex of a list that is placed before one of its predecessors gives away the source
of the oldest such arc. -/
def misplaced? (d : Digraph) (placed : List String) : List String → Option String
  | [] => none
  | v :: rest =>
    match ((d.predecessors v).filter (· ∉ v :: placed)).getLast? with
    | some p => some p
    | none => d.misplaced? (v :: placed) rest

/-- The vertices in an order in which all arcs lead forward, or a vertex on a cycle. -/
def order (d : Digraph) : Except String (List String) :=
  match d.misplaced? [] d.visited with
  | some v => .error v
  | none => .ok d.visited

end Digraph

namespace Graph

/-- The nodes of a graph by slot, and its edges. -/
def digraph (g : Graph) : Digraph :=
  ⟨g.nodes.map Node.id, g.edgeSlots.newest.map fun e => (e.source, e.target)⟩

/-- The ids of all nodes in an order in which every edge leads forward. -/
def order (g : Graph) : Except TaskError (List String) :=
  match g.digraph.order with
  | .ok ids => .ok ids
  | .error v => .error (.cyclic ("cycle through '" ++ v ++ "'"))

def checkAcyclic (g : Graph) : Except TaskError Unit := g.order.map fun _ => ()

end Graph
end Flowrun
