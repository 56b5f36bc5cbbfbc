import Flowrun.Proofs.Graph.Ancestry

/-!
# Walking a graph backwards

The ancestors of a node are found layer by layer. They can as well be found one node at a time: a
node is taken off a stack, and the unseen nodes that lead to it are put on the stack and count as
seen from then on. Each node is put on the stack at most once, so this comes to an end on graphs
with cycles, too, and it finds the same nodes:

    g.walked id = g.ancestors id

because either way what is found are the nodes from which a path leads through unseen nodes.
-/

namespace Flowrun.Graph

variable {g : Graph} {unseen stack layer : List String} {v a b : String}

/-- The unseen nodes that lead straight to a node. -/
def newBefore (g : Graph) (unseen : List String) (v : String) : List String :=
  unseen.filter (· ∈ g.predecessors v)

/-- The nodes that are unseen after that. -/
def stillUnseen (g : Graph) (unseen : List String) (v : String) : List String :=
  unseen.filter (· ∉ g.predecessors v)

theorem length_newBefore_add (g : Graph) (unseen : List String) (v : String) :
    (g.newBefore unseen v).length + (g.stillUnseen unseen v).length = unseen.length := by
  unfold newBefore stillUnseen
  simpa [List.countP_eq_length_filter] using
    (List.length_eq_countP_add_countP (· ∈ g.predecessors v) (l := unseen)).symm

/-- The nodes that are found from a stack of nodes. -/
def walk (g : Graph) (unseen : List String) : List String → List String
  | [] => []
  | v :: stack =>
    g.newBefore unseen v ++ walk g (g.stillUnseen unseen v) (g.newBefore unseen v ++ stack)
termination_by stack => unseen.length + stack.length
decreasing_by
  have := g.length_newBefore_add unseen v
  simp only [List.length_append, List.length_cons]
  omega

/-- The ids of the nodes that a walk from a node finds, in order. -/
def walked (g : Graph) (id : String) : List String :=
  let others := (g.nodes.map Node.id).filter (· ≠ id)
  if g.hasNode id then (g.walk others [id]).mergeSort fun a b => a ≤ b else []

theorem mem_newBefore : a ∈ g.newBefore unseen v ↔ a ∈ unseen ∧ g.Feeds a v := by
  simp [newBefore, mem_predecessors]

theorem mem_stillUnseen : a ∈ g.stillUnseen unseen v ↔ a ∈ unseen ∧ ¬ g.Feeds a v := by
  simp [stillUnseen, mem_predecessors]

/-- A path to a stack, when its first node is taken off. -/
theorem within_cons_iff : g.Within unseen (v :: stack) a ↔ a ∈ g.newBefore unseen v ∨
    g.Within (g.stillUnseen unseen v) (g.newBefore unseen v ++ stack) a := by
  constructor
  · intro h
    induction h with
    | @edge a b ha hb hfeeds =>
      by_cases hv : g.Feeds a v
      · exact Or.inl (mem_newBefore.2 ⟨ha, hv⟩)
      · right
        rcases List.mem_cons.1 hb with rfl | hb
        · exact absurd hfeeds hv
        · exact .edge (mem_stillUnseen.2 ⟨ha, hv⟩) (List.mem_append_right _ hb) hfeeds
    | @cons a u ha hfeeds _ ih =>
      by_cases hv : g.Feeds a v
      · exact Or.inl (mem_newBefore.2 ⟨ha, hv⟩)
      · right
        have hunseen := mem_stillUnseen.2 ⟨ha, hv⟩
        rcases ih with hu | hu
        · exact .edge hunseen (List.mem_append_left _ hu) hfeeds
        · exact .cons hunseen hfeeds hu
  · rintro (h | h)
    · obtain ⟨ha, hv⟩ := mem_newBefore.1 h
      exact .edge ha List.mem_cons_self hv
    · induction h with
      | @edge a b ha hb hfeeds =>
        have ha := (mem_stillUnseen.1 ha).1
        rcases List.mem_append.1 hb with hb | hb
        · obtain ⟨hb, hv⟩ := mem_newBefore.1 hb
          exact .cons ha hfeeds (.edge hb List.mem_cons_self hv)
        · exact .edge ha (List.mem_cons_of_mem _ hb) hfeeds
      | cons ha hfeeds _ ih => exact .cons (mem_stillUnseen.1 ha).1 hfeeds ih

/-- A walk finds the nodes from which a path leads through unseen nodes. -/
theorem mem_walk_iff : a ∈ g.walk unseen stack ↔ g.Within unseen stack a := by
  fun_induction walk g unseen stack with
  | case1 => exact iff_of_false List.not_mem_nil Within.not_nil
  | case2 unseen v stack ih => rw [List.mem_append, ih, within_cons_iff]

/-- No node is found twice. -/
theorem nodup_walk (h : unseen.Nodup) : (g.walk unseen stack).Nodup := by
  fun_induction walk g unseen stack with
  | case1 => exact List.nodup_nil
  | case2 unseen v stack ih =>
    refine List.nodup_append.2 ⟨h.filter _, ih (h.filter _), ?_⟩
    rintro a ha b hb rfl
    have hunseen := (mem_walk_iff.1 hb).mem_unseen
    exact (mem_stillUnseen.1 hunseen).2 (mem_newBefore.1 ha).2

/-- No node is in two layers. -/
theorem nodup_layers (h : unseen.Nodup) : (g.layers unseen layer).Nodup := by
  fun_induction layers g unseen layer with
  | case1 => exact List.nodup_nil
  | case2 unseen layer v before rest hit ih =>
    have hparts := hit
    rw [layerBefore, List.partition_eq_filter_filter, Prod.mk.injEq] at hparts
    obtain ⟨hbefore, hrest⟩ := hparts
    refine List.nodup_append.2 ⟨hbefore ▸ h.filter _, ih (hrest ▸ h.filter _), ?_⟩
    rintro a ha b hb rfl
    have hunseen := (mem_layers_iff.1 hb).mem_unseen
    exact ((mem_rest_iff hit).1 hunseen).2 ((mem_before_iff hit).1 ha).2

/-- The ancestors of a node are listed in ascending order, each once. -/
theorem WellFormed.ascending_ancestors (hg : g.WellFormed) (id : String) :
    (g.ancestors id).Pairwise (· < ·) := by
  unfold ancestors
  split
  · apply ascending_mergeSort (fun a => a)
    rw [List.map_id']
    exact nodup_layers (hg.nodup_ids.filter _)
  · exact List.Pairwise.nil

/-- Whether a graph is walked layer by layer or one node at a time, the same nodes are found. -/
theorem WellFormed.walked_eq (hg : g.WellFormed) (id : String) : g.walked id = g.ancestors id := by
  have hascending := hg.ascending_ancestors id
  unfold walked
  unfold ancestors at hascending ⊢
  split
  · next hnode =>
    rw [if_pos hnode] at hascending
    refine eq_of_ascending (fun a => a) ?_ hascending fun a => ?_
    · apply ascending_mergeSort (fun a => a)
      rw [List.map_id']
      exact nodup_walk (hg.nodup_ids.filter _)
    · rw [List.mem_mergeSort, List.mem_mergeSort, mem_walk_iff, mem_layers_iff]
  · rfl

/-- An unknown node has no ancestors. -/
theorem ancestors_eq_nil {id : String} (h : g.node? id = none) : g.ancestors id = [] := by
  unfold ancestors hasNode
  rw [h]
  rfl

/-- A node leads to another one if an edge of the graph joins them. -/
theorem feeds_iff : g.Feeds a b ↔ ∃ e ∈ g.edges, e.source = a ∧ e.target = b := by
  unfold Feeds
  simp only [mem_edgesInto]
  grind

end Flowrun.Graph
