import Flowrun.Dict
import Flowrun.Graph.Model

/-!
# Ancestors

A node is an ancestor of another one if it reaches it through one or more edges. A node is never
counted as its own ancestor, even on a cycle.

`layers` follows the edges backwards, one layer of nodes at a time, and no node is in two layers, so
a cycle is walked once. `Memo` remembers answers for as long as the graph stays at one revision.
-/

namespace Flowrun

namespace Graph

/-- The sources of the edges that lead to a node. -/
def predecessors (g : Graph) (id : String) : List String := (g.incoming id).map Edge.source

/-- The unseen nodes that lead straight to a node of the layer, and the unseen ones that do not. -/
def layerBefore (g : Graph) (unseen layer : List String) : List String × List String :=
  unseen.partition (· ∈ layer.flatMap g.predecessors)

/-- A layer that is not empty leaves fewer nodes unseen. -/
theorem length_layerBefore {g : Graph} {unseen layer before rest : List String}
    (h : g.layerBefore unseen layer = (before, rest)) (hne : before ≠ []) :
    rest.length < unseen.length := by
  rw [layerBefore, List.partition_eq_filter_filter, Prod.mk.injEq] at h
  obtain ⟨v, hv⟩ := List.exists_mem_of_ne_nil _ (h.1 ▸ hne)
  rw [← h.2]
  refine List.length_filter_lt_length_iff_exists.2 ⟨v, (List.mem_filter.1 hv).1, ?_⟩
  simpa using (List.mem_filter.1 hv).2

/-- The unseen nodes that lead to a node of the layer, then the ones that lead to these, and so on
until a layer is empty. -/
def layers (g : Graph) (unseen layer : List String) : List String :=
  match _hit : g.layerBefore unseen layer with
  | ([], _) => []
  | (v :: vs, rest) => v :: vs ++ layers g rest (v :: vs)
termination_by unseen.length
decreasing_by exact length_layerBefore _hit (List.cons_ne_nil v vs)

/-- The ids of the ancestors of a node, in order. An unknown node has none. -/
def ancestors (g : Graph) (id : String) : List String :=
  let others := (g.nodes.map Node.id).filter (· ≠ id)
  if g.hasNode id then (g.layers others [id]).mergeSort fun a b => a ≤ b else []

/-- The ancestors of a node, by id. -/
def ancestorNodes (g : Graph) (id : String) : List Node := g.nodesById (g.ancestors id)

def isAncestor (g : Graph) (candidate id : String) : Bool := candidate ∈ g.ancestors id

end Graph

/-- Answers about ancestors, good for one revision of a graph. -/
structure Memo where
  revision : Nat := 0
  answers : Dict (List String) := []
  deriving Repr

/-- A graph that is being edited, and what was found out about it. -/
structure Draft where
  graph : Graph := {}
  memo : Memo := {}
  deriving Repr

namespace Draft

/-- The answers that are good for the graph as it is now. -/
def current (d : Draft) : Memo :=
  if d.memo.revision = d.graph.revision then d.memo else ⟨d.graph.revision, []⟩

/-- The ancestors of a node: the answer from before, or else a new one, which is kept. -/
def ancestors (d : Draft) (id : String) : List String × Draft :=
  match d.current.answers.at? id with
  | some ids => (ids, { d with memo := d.current })
  | none =>
    let ids := d.graph.ancestors id
    (ids, { d with memo := { d.current with answers := d.current.answers.put id ids } })

/-- A graph of one's own that starts out equal. -/
def copy (d : Draft) : Draft := ⟨d.graph, {}⟩

def withGraph (d : Draft) (g : Graph) : Draft := { d with graph := g }

end Draft
end Flowrun
