import Flowrun.Graph.Ancestry
import Flowrun.Proofs.Graph.Order
import Mathlib.Logic.Relation

/-!
# Ancestors are what is upstream

A node is upstream of another one if a path of one or more edges leads from it to the other. The
layers that are walked backwards from a node hold all nodes that are upstream of it and no others,
so

    g.isAncestor a id = true ↔ a ≠ id ∧ g.Upstream a id

on graphs with cycles, too. Every layer takes its nodes out of the unseen ones, so the layers hold
the nodes from which a path leads through unseen nodes only (`mem_layers_iff`); a path can be cut
short where it comes to the node for the first time.

In a graph with an order, facts about nodes can be proved from all that is upstream of them
(`WellFormed.upstream_induction`).
-/

namespace Flowrun.Graph

variable {g : Graph}

/-- An edge leads from the first node to the second. -/
def Feeds (g : Graph) (a b : String) : Prop := ∃ e ∈ g.edgesInto b, e.source = a

/-- A path of edges leads from the first node to the second. -/
abbrev Upstream (g : Graph) : String → String → Prop := Relation.TransGen g.Feeds

/-! ### One layer -/

theorem mem_predecessors {a b : String} : a ∈ g.predecessors b ↔ g.Feeds a b := by
  constructor
  · intro h
    obtain ⟨e, he, hsource⟩ := List.mem_map.1 h
    exact ⟨e, List.mem_mergeSort.2 he, hsource⟩
  · rintro ⟨e, he, rfl⟩
    exact List.mem_map_of_mem (List.mem_mergeSort.1 he)

section Layer

variable {unseen layer before rest : List String}
  (hit : g.layerBefore unseen layer = (before, rest)) {v : String}

include hit

theorem mem_before_iff : v ∈ before ↔ v ∈ unseen ∧ ∃ b ∈ layer, g.Feeds v b := by
  rw [layerBefore, List.partition_eq_filter_filter, Prod.mk.injEq] at hit
  rw [← hit.1, List.mem_filter, decide_eq_true_eq, List.mem_flatMap]
  simp only [mem_predecessors]

theorem mem_rest_iff : v ∈ rest ↔ v ∈ unseen ∧ ¬ ∃ b ∈ layer, g.Feeds v b := by
  rw [layerBefore, List.partition_eq_filter_filter, Prod.mk.injEq] at hit
  rw [← hit.2, List.mem_filter]
  simp only [Function.comp_apply, Bool.not_eq_true', decide_eq_false_iff_not, List.mem_flatMap,
    mem_predecessors]

end Layer

/-! ### All layers -/

/-- A path leads from a node to the layer, through unseen nodes. -/
inductive Within (g : Graph) (unseen layer : List String) : String → Prop
  | edge {v b : String} : v ∈ unseen → b ∈ layer → g.Feeds v b → Within g unseen layer v
  | cons {v u : String} : v ∈ unseen → g.Feeds v u → Within g unseen layer u →
      Within g unseen layer v

namespace Within

variable {unseen layer before rest : List String} {v : String}

theorem mem_unseen (h : g.Within unseen layer v) : v ∈ unseen := by
  cases h with
  | edge hv => exact hv
  | cons hv => exact hv

theorem upstream (h : g.Within unseen layer v) : ∃ b ∈ layer, g.Upstream v b := by
  induction h with
  | edge _ hb hfeeds => exact ⟨_, hb, .single hfeeds⟩
  | cons _ hfeeds _ ih =>
    obtain ⟨b, hb, hup⟩ := ih
    exact ⟨b, hb, .head hfeeds hup⟩

/-- No path leads to an empty layer. -/
theorem not_nil : ¬ g.Within unseen [] v := by
  intro h
  obtain ⟨b, hb, -⟩ := h.upstream
  cases hb

/-- A node on a path is in the layer before, or the path comes through that layer. -/
theorem next (hit : g.layerBefore unseen layer = (before, rest)) (h : g.Within unseen layer v) :
    v ∈ before ∨ g.Within rest before v := by
  induction h with
  | edge hv hb hfeeds => exact Or.inl ((mem_before_iff hit).2 ⟨hv, _, hb, hfeeds⟩)
  | @cons v u hv hfeeds _ ih =>
    by_cases hlayer : ∃ b ∈ layer, g.Feeds v b
    · exact Or.inl ((mem_before_iff hit).2 ⟨hv, hlayer⟩)
    · have hrest : v ∈ rest := (mem_rest_iff hit).2 ⟨hv, hlayer⟩
      rcases ih with hu | hu
      · exact Or.inr (.edge hrest hu hfeeds)
      · exact Or.inr (.cons hrest hfeeds hu)

/-- A path to the layer before can be taken on to the layer. -/
theorem back (hit : g.layerBefore unseen layer = (before, rest)) (h : g.Within rest before v) :
    g.Within unseen layer v := by
  induction h with
  | edge hv hb hfeeds =>
    obtain ⟨hunseen, b, hlayer, hlast⟩ := (mem_before_iff hit).1 hb
    exact .cons ((mem_rest_iff hit).1 hv).1 hfeeds (.edge hunseen hlayer hlast)
  | cons hv hfeeds _ ih => exact .cons ((mem_rest_iff hit).1 hv).1 hfeeds ih

end Within

/-- The layers hold the nodes from which a path leads through unseen nodes. -/
theorem mem_layers_iff {unseen layer : List String} {v : String} :
    v ∈ g.layers unseen layer ↔ g.Within unseen layer v := by
  fun_induction layers g unseen layer with
  | case1 unseen layer rest hit =>
    refine iff_of_false List.not_mem_nil fun h => ?_
    rcases h.next hit with hv | hv
    · cases hv
    · exact hv.not_nil
  | case2 unseen layer a before rest hit ih =>
    rw [List.mem_append, ih]
    constructor
    · rintro (hv | hv)
      · obtain ⟨hunseen, b, hb, hfeeds⟩ := (mem_before_iff hit).1 hv
        exact .edge hunseen hb hfeeds
      · exact hv.back hit
    · exact Within.next hit

/-! ### Ancestors -/

/-- The last edge of a path. -/
theorem exists_edge_of_upstream {a id : String} (h : g.Upstream a id) :
    ∃ e ∈ g.edgesInto id, a = e.source ∨ g.Upstream a e.source := by
  cases h with
  | single hfeeds =>
    obtain ⟨e, he, rfl⟩ := hfeeds
    exact ⟨e, he, Or.inl rfl⟩
  | tail hup hfeeds =>
    obtain ⟨e, he, rfl⟩ := hfeeds
    exact ⟨e, he, Or.inr hup⟩

/-- A path to a node, up to where it comes to the node for the first time. -/
theorem WellFormed.within_of_upstream (hg : g.WellFormed) {a id : String} (h : g.Upstream a id) :
    a = id ∨ g.Within ((g.nodes.map Node.id).filter (· ≠ id)) [id] a := by
  have hother : ∀ {v b : String}, g.Feeds v b → v ≠ id →
      v ∈ (g.nodes.map Node.id).filter (· ≠ id) := by
    rintro v b ⟨e, he, rfl⟩ hne
    obtain ⟨n, hn⟩ := hg.exists_source (mem_edgesInto.1 he).1
    refine List.mem_filter.2 ⟨?_, by simpa using hne⟩
    exact id_of_node?_eq_some hn ▸ List.mem_map_of_mem (mem_of_node?_eq_some hn)
  induction h using Relation.TransGen.head_induction_on with
  | @single v hfeeds =>
    by_cases hv : v = id
    · exact Or.inl hv
    · exact Or.inr (.edge (hother hfeeds hv) (List.mem_singleton.2 rfl) hfeeds)
  | @head v u hfeeds _ ih =>
    by_cases hv : v = id
    · exact Or.inl hv
    · rcases ih with rfl | hu
      · exact Or.inr (.edge (hother hfeeds hv) (List.mem_singleton.2 rfl) hfeeds)
      · exact Or.inr (.cons (hother hfeeds hv) hfeeds hu)

/-- The ancestors of a node are the other nodes that are upstream of it. -/
theorem WellFormed.isAncestor_iff (hg : g.WellFormed) {a id : String} :
    g.isAncestor a id = true ↔ a ≠ id ∧ g.Upstream a id := by
  have hmem : g.isAncestor a id = true ↔ g.hasNode id = true ∧
      g.Within ((g.nodes.map Node.id).filter (· ≠ id)) [id] a := by
    unfold isAncestor ancestors
    rw [decide_eq_true_eq]
    split
    · next hnode => rw [List.mem_mergeSort, mem_layers_iff, and_iff_right hnode]
    · next hnode => exact iff_of_false List.not_mem_nil fun h => hnode h.1
  rw [hmem]
  constructor
  · rintro ⟨-, hwithin⟩
    obtain ⟨b, hb, hup⟩ := hwithin.upstream
    rw [List.mem_singleton.1 hb] at hup
    exact ⟨by simpa using (List.mem_filter.1 hwithin.mem_unseen).2, hup⟩
  · rintro ⟨hne, hup⟩
    obtain ⟨e, he, -⟩ := exists_edge_of_upstream hup
    obtain ⟨hedge, htarget⟩ := mem_edgesInto.1 he
    obtain ⟨n, hn⟩ := hg.exists_target hedge
    refine ⟨?_, (hg.within_of_upstream hup).resolve_left hne⟩
    rw [hasNode, ← htarget, hn]
    rfl

/-- To prove something of every id, prove it from all that is upstream. -/
theorem WellFormed.upstream_induction (hg : g.WellFormed) {ids : List String}
    (h : g.order = .ok ids) {motive : String → Prop}
    (step : ∀ id, (∀ a, g.Upstream a id → motive a) → motive id) (id : String) : motive id := by
  have key : ∀ id, motive id ∧ ∀ a, g.Upstream a id → motive a := by
    refine hg.forward_induction h fun id ih => ?_
    have hup : ∀ a, g.Upstream a id → motive a := by
      intro a ha
      obtain ⟨e, he, rfl | ha⟩ := exists_edge_of_upstream ha
      · exact (ih e he).1
      · exact (ih e he).2 a ha
    exact ⟨step id hup, hup⟩
  exact (key id).1

end Flowrun.Graph
