import Flowrun.Graph.Selection
import Mathlib.Data.List.Nodup

/-!
# Graphs that were made by edits

A graph is never written down as a record: it starts out empty and is edited. `Built` says so, and
`WellFormed` is what every edit keeps:

    Built g → WellFormed g

Node ids and edge ids are unique, both ends of every edge are nodes of the graph, and no edge leads
from a node to itself. The rest of the module says what the questions about a graph answer when it
is well formed.
-/

namespace Flowrun.Graph

/-- A graph that was made by edits, starting from the empty one. -/
inductive Built : Graph → Prop
  | empty : Built {}
  | addNode {g g' : Graph} {n : Node} : Built g → g.addNode n = .ok g' → Built g'
  | addEdge {g g' : Graph} {e : Edge} : Built g → g.addEdge e = .ok g' → Built g'
  | removeNode {g g' : Graph} {id : String} {n : Node} :
      Built g → g.removeNode id = .ok (n, g') → Built g'
  | removeEdge {g g' : Graph} {id : String} {e : Edge} :
      Built g → g.removeEdge id = .ok (e, g') → Built g'
  | setGlobals {g : Graph} (globals : List GlobalVariable) : Built g → Built (g.setGlobals globals)

/-- Ids are unique, and every edge joins two different nodes of the graph. -/
structure WellFormed (g : Graph) : Prop where
  nodup_nodes : (g.nodeSlots.newest.map Node.id).Nodup
  nodup_edges : (g.edgeSlots.newest.map Edge.id).Nodup
  source_mem : ∀ e ∈ g.edgeSlots.newest, e.source ∈ g.nodeSlots.newest.map Node.id
  target_mem : ∀ e ∈ g.edgeSlots.newest, e.target ∈ g.nodeSlots.newest.map Node.id
  source_ne_target : ∀ e ∈ g.edgeSlots.newest, e.source ≠ e.target

/-! ### Looking up -/

@[simp] theorem mem_nodes {g : Graph} {n : Node} : n ∈ g.nodes ↔ n ∈ g.nodeSlots.newest := by
  simp [nodes]

@[simp] theorem mem_edges {g : Graph} {e : Edge} : e ∈ g.edges ↔ e ∈ g.edgeSlots.newest := by
  simp [edges]

theorem mem_edgesInto {g : Graph} {id : String} {e : Edge} :
    e ∈ g.edgesInto id ↔ e ∈ g.edges ∧ e.target = id := by
  simp [edgesInto, sortEdges, incoming, List.mem_mergeSort]

theorem mem_edgesFrom {g : Graph} {id : String} {e : Edge} :
    e ∈ g.edgesFrom id ↔ e ∈ g.edges ∧ e.source = id := by
  simp [edgesFrom, sortEdges, outgoing, List.mem_mergeSort]

theorem node?_isSome_iff {g : Graph} {id : String} :
    (g.node? id).isSome ↔ id ∈ g.nodeSlots.newest.map Node.id := by
  simp [node?, List.find?_isSome]

theorem id_of_node?_eq_some {g : Graph} {id : String} {n : Node} (h : g.node? id = some n) :
    n.id = id := by
  simpa using List.find?_some h

theorem mem_of_node?_eq_some {g : Graph} {id : String} {n : Node} (h : g.node? id = some n) :
    n ∈ g.nodes :=
  mem_nodes.2 (List.mem_of_find?_eq_some h)

/-- A node is found under its own id, since no other node has that id. -/
theorem WellFormed.node?_id {g : Graph} (h : WellFormed g) {n : Node} (hn : n ∈ g.nodes) :
    g.node? n.id = some n := by
  rw [mem_nodes] at hn
  have hsome : (g.node? n.id).isSome := node?_isSome_iff.2 (List.mem_map_of_mem hn)
  obtain ⟨m, hm⟩ := Option.isSome_iff_exists.1 hsome
  have hmem : m ∈ g.nodeSlots.newest := mem_nodes.1 (mem_of_node?_eq_some hm)
  rw [hm, List.inj_on_of_nodup_map h.nodup_nodes hmem hn (id_of_node?_eq_some hm)]

theorem WellFormed.node?_eq_some_iff {g : Graph} (h : WellFormed g) {id : String} {n : Node} :
    g.node? id = some n ↔ n ∈ g.nodes ∧ n.id = id := by
  constructor
  · exact fun hn => ⟨mem_of_node?_eq_some hn, id_of_node?_eq_some hn⟩
  · rintro ⟨hn, rfl⟩
    exact h.node?_id hn

theorem WellFormed.eq_of_edge_id_eq {g : Graph} (h : WellFormed g) {a b : Edge} (ha : a ∈ g.edges)
    (hb : b ∈ g.edges) (hid : a.id = b.id) : a = b :=
  List.inj_on_of_nodup_map h.nodup_edges (mem_edges.1 ha) (mem_edges.1 hb) hid

theorem WellFormed.edge?_eq_some_iff {g : Graph} (h : WellFormed g) {id : String} {e : Edge} :
    g.edge? id = some e ↔ e ∈ g.edges ∧ e.id = id := by
  rw [mem_edges]
  constructor
  · exact fun he => ⟨List.mem_of_find?_eq_some he, by simpa using List.find?_some he⟩
  · rintro ⟨he, rfl⟩
    have hsome : (g.edge? e.id).isSome := by
      rw [edge?, List.find?_isSome]
      exact ⟨e, he, beq_self_eq_true _⟩
    obtain ⟨e', he'⟩ := Option.isSome_iff_exists.1 hsome
    have hid : e'.id = e.id := by simpa using List.find?_some he'
    rw [he', List.inj_on_of_nodup_map h.nodup_edges (List.mem_of_find?_eq_some he') he hid]

theorem WellFormed.exists_source {g : Graph} (h : WellFormed g) {e : Edge} (he : e ∈ g.edges) :
    ∃ n, g.node? e.source = some n :=
  Option.isSome_iff_exists.1 (node?_isSome_iff.2 (h.source_mem e (mem_edges.1 he)))

theorem WellFormed.exists_target {g : Graph} (h : WellFormed g) {e : Edge} (he : e ∈ g.edges) :
    ∃ n, g.node? e.target = some n :=
  Option.isSome_iff_exists.1 (node?_isSome_iff.2 (h.target_mem e (mem_edges.1 he)))

/-- The nodes that are ready at the beginning of a run are those that no edge leads to. -/
theorem mem_entries {g : Graph} {n : Node} :
    n ∈ g.entries ↔ n ∈ g.nodes ∧ g.edgesInto n.id = [] := by
  have hsort : g.edgesInto n.id = [] ↔ g.incoming n.id = [] := by
    rw [← List.length_eq_zero_iff, ← List.length_eq_zero_iff, edgesInto, sortEdges,
      List.length_mergeSort]
  simp only [entries, sortNodes, List.mem_mergeSort, List.mem_filter, beq_iff_eq, hsort]

theorem WellFormed.nodup_ids {g : Graph} (h : WellFormed g) : (g.nodes.map Node.id).Nodup :=
  (g.nodeSlots.inOrder_perm.map Node.id).nodup_iff.2 h.nodup_nodes

theorem WellFormed.nodup_edgeIds {g : Graph} (h : WellFormed g) :
    (g.edges.map Edge.id).Nodup :=
  (g.edgeSlots.inOrder_perm.map Edge.id).nodup_iff.2 h.nodup_edges

theorem WellFormed.nodup_entries {g : Graph} (h : WellFormed g) :
    (g.entries.map Node.id).Nodup := by
  have hperm : g.entries.Perm (g.nodes.filter fun n => g.incoming n.id == []) :=
    List.mergeSort_perm _ _
  refine (hperm.map Node.id).nodup_iff.2 ?_
  exact h.nodup_ids.sublist (List.filter_sublist.map _)

/-! ### Sorting by id -/

/-- What is sorted by different keys ascends strictly. -/
theorem ascending_mergeSort {α : Type} (key : α → String) {xs : List α}
    (h : (xs.map key).Nodup) :
    (xs.mergeSort fun a b => key a ≤ key b).Pairwise fun a b => key a < key b := by
  have hsorted : (xs.mergeSort fun a b => key a ≤ key b).Pairwise fun a b => key a ≤ key b := by
    have htrans : ∀ a b c : α, decide (key a ≤ key b) = true → decide (key b ≤ key c) = true →
        decide (key a ≤ key c) = true := by simpa using fun a b c => String.le_trans
    have htotal : ∀ a b : α, (decide (key a ≤ key b) || decide (key b ≤ key a)) = true := by
      simpa using fun a b => String.le_total _ _
    simpa using List.pairwise_mergeSort htrans htotal xs
  have hnodup : (xs.mergeSort fun a b => key a ≤ key b).Pairwise fun a b => key a ≠ key b := by
    rw [← List.pairwise_map]
    exact ((List.mergeSort_perm _ _).map key).nodup_iff.2 h
  refine hsorted.imp₂ (fun a b hle hne => ?_) hnodup
  by_contra hge
  exact hne (String.le_antisymm hle (String.not_lt.1 hge))

/-- Lists that ascend strictly and have the same members are the same. -/
theorem eq_of_ascending {α : Type} (key : α → String) {xs ys : List α}
    (hxs : xs.Pairwise fun a b => key a < key b) (hys : ys.Pairwise fun a b => key a < key b)
    (h : ∀ x, x ∈ xs ↔ x ∈ ys) : xs = ys := by
  have nodup : ∀ {zs : List α}, zs.Pairwise (fun a b => key a < key b) → zs.Nodup := by
    intro zs hzs
    apply hzs.imp
    rintro a b hlt rfl
    exact String.lt_irrefl _ hlt
  have hperm : xs.Perm ys := (List.perm_ext_iff_of_nodup (nodup hxs) (nodup hys)).2 h
  refine hperm.eq_of_pairwise ?_ hxs hys
  intro a b _ _ hab hba
  exact absurd hab (String.lt_asymm hba)

/-! ### Every edit keeps a graph well formed -/

theorem wellFormed_empty : WellFormed {} where
  nodup_nodes := List.nodup_nil
  nodup_edges := List.nodup_nil
  source_mem := by simp [Slots.newest]
  target_mem := by simp [Slots.newest]
  source_ne_target := by simp [Slots.newest]

theorem WellFormed.addNode {g g' : Graph} {n : Node} (h : WellFormed g)
    (hadd : g.addNode n = .ok g') : WellFormed g' := by
  unfold Graph.addNode at hadd
  split at hadd
  · cases hadd
  · next hnew =>
    cases hadd
    have hnew : n.id ∉ g.nodeSlots.newest.map Node.id := fun hmem =>
      hnew (node?_isSome_iff.2 hmem)
    refine ⟨?_, h.nodup_edges, ?_, ?_, h.source_ne_target⟩
    · simpa [edited] using ⟨by simpa using hnew, h.nodup_nodes⟩
    · intro e he
      simpa [edited] using Or.inr (by simpa using h.source_mem e he)
    · intro e he
      simpa [edited] using Or.inr (by simpa using h.target_mem e he)

@[simp] theorem bind_id (e : Edge) (k : NodeKind) : (e.bind k).id = e.id := rfl

@[simp] theorem bind_source (e : Edge) (k : NodeKind) : (e.bind k).source = e.source := rfl

@[simp] theorem bind_target (e : Edge) (k : NodeKind) : (e.bind k).target = e.target := rfl

theorem WellFormed.addEdge {g g' : Graph} {e : Edge} (h : WellFormed g)
    (hadd : g.addEdge e = .ok g') : WellFormed g' := by
  unfold Graph.addEdge at hadd
  split at hadd
  · cases hadd
  · next hnew =>
    split at hadd
    · cases hadd
    · next hloop =>
      split at hadd
      · cases hadd
      · next source hsource =>
        split at hadd
        · next htarget =>
          cases hadd
          have hnew : e.id ∉ g.edgeSlots.newest.map Edge.id := by
            simpa [edge?, List.find?_isSome] using hnew
          have hs : e.source ∈ g.nodeSlots.newest.map Node.id :=
            node?_isSome_iff.1 (by rw [hsource]; rfl)
          have ht : e.target ∈ g.nodeSlots.newest.map Node.id := node?_isSome_iff.1 htarget
          refine ⟨h.nodup_nodes, ?_, ?_, ?_, ?_⟩
          · rw [edited, Slots.newest_insert, List.map_cons]
            exact List.nodup_cons.2 ⟨hnew, h.nodup_edges⟩
          · intro x hx
            rcases List.mem_cons.1 ((Slots.newest_insert _ _) ▸ hx) with rfl | hx
            · exact hs
            · exact h.source_mem x hx
          · intro x hx
            rcases List.mem_cons.1 ((Slots.newest_insert _ _) ▸ hx) with rfl | hx
            · exact ht
            · exact h.target_mem x hx
          · intro x hx
            rcases List.mem_cons.1 ((Slots.newest_insert _ _) ▸ hx) with rfl | hx
            · exact hloop
            · exact h.source_ne_target x hx
        · cases hadd

/-- What is left when some edges are removed, and then the nodes with an id that none of the
remaining edges touches. -/
theorem WellFormed.removeSlots {g : Graph} (h : WellFormed g) {p : Edge → Bool} {q : Node → Bool}
    (hends : ∀ e ∈ g.edgeSlots.newest, p e = false →
      ∀ n ∈ g.nodeSlots.newest, (n.id = e.source ∨ n.id = e.target) → q n = false)
    {g' : Graph} (hn : g'.nodeSlots.newest = g.nodeSlots.newest.filter fun n => !q n)
    (he : g'.edgeSlots.newest = g.edgeSlots.newest.filter fun e => !p e) : WellFormed g' := by
  have hkept : ∀ e ∈ g.edgeSlots.newest, p e = false →
      ∀ id, (id = e.source ∨ id = e.target) → id ∈ g.nodeSlots.newest.map Node.id →
        id ∈ g'.nodeSlots.newest.map Node.id := by
    intro e hmem hp id hid hnode
    obtain ⟨n, hnmem, rfl⟩ := List.mem_map.1 hnode
    rw [hn]
    exact List.mem_map_of_mem (List.mem_filter.2 ⟨hnmem, by simp [hends e hmem hp n hnmem hid]⟩)
  constructor
  · rw [hn]
    exact h.nodup_nodes.sublist (List.filter_sublist.map _)
  · rw [he]
    exact h.nodup_edges.sublist (List.filter_sublist.map _)
  · intro e hmem
    obtain ⟨hmem, hp⟩ := List.mem_filter.1 (he ▸ hmem)
    exact hkept e hmem (by simpa using hp) e.source (Or.inl rfl) (h.source_mem e hmem)
  · intro e hmem
    obtain ⟨hmem, hp⟩ := List.mem_filter.1 (he ▸ hmem)
    exact hkept e hmem (by simpa using hp) e.target (Or.inr rfl) (h.target_mem e hmem)
  · intro e hmem
    exact h.source_ne_target e (List.mem_filter.1 (he ▸ hmem)).1

theorem WellFormed.removeNode {g g' : Graph} {id : String} {n : Node} (h : WellFormed g)
    (hrem : g.removeNode id = .ok (n, g')) : WellFormed g' := by
  unfold Graph.removeNode at hrem
  split at hrem
  · cases hrem
  · cases hrem
    refine h.removeSlots (p := fun e => e.source == id || e.target == id) (q := fun n => n.id == id)
      ?_ (by simp [edited]) (by simp [edited, List.filter_filter, Bool.and_comm])
    intro e _ hp m _ hm
    simp only [Bool.or_eq_false_iff, beq_eq_false_iff_ne, ne_eq] at hp ⊢
    rcases hm with hm | hm
    · exact hm ▸ hp.1
    · exact hm ▸ hp.2

theorem WellFormed.removeEdge {g g' : Graph} {id : String} {e : Edge} (h : WellFormed g)
    (hrem : g.removeEdge id = .ok (e, g')) : WellFormed g' := by
  unfold Graph.removeEdge at hrem
  split at hrem
  · cases hrem
  · cases hrem
    exact h.removeSlots (p := fun e => e.id == id) (q := fun _ => false)
      (by simp) (by simp [edited]) (by simp [edited])

theorem Built.wellFormed {g : Graph} (h : Built g) : WellFormed g := by
  induction h with
  | empty => exact wellFormed_empty
  | addNode _ hadd ih => exact ih.addNode hadd
  | addEdge _ hadd ih => exact ih.addEdge hadd
  | removeNode _ hrem ih => exact ih.removeNode hrem
  | removeEdge _ hrem ih => exact ih.removeEdge hrem
  | setGlobals _ _ ih => exact ⟨ih.1, ih.2, ih.3, ih.4, ih.5⟩

/-! ### Where graphs come from

The graphs that tasks run on are made by edits: those of published workflows, those of parts that
are sent along, and the parts that are cut out of another graph. -/

theorem Built.foldlM {α : Type} {f : Graph → α → Except TaskError Graph}
    (hf : ∀ {g g' : Graph} {a : α}, Built g → f g a = .ok g' → Built g') :
    ∀ {as : List α} {g g' : Graph}, Built g → as.foldlM f g = .ok g' → Built g'
  | [], _, _, hg, h => by cases h; exact hg
  | a :: as, g, g', hg, h => by
    rw [List.foldlM_cons] at h
    cases ha : f g a with
    | error e => rw [ha] at h; cases h
    | ok g₁ => rw [ha] at h; exact Built.foldlM hf (hf hg ha) h

theorem Built.addAll {g g' : Graph} (hg : Built g) (ns : List Node) (es : List Edge)
    (h : g.addAll ns es = .ok g') : Built g' := by
  unfold Graph.addAll at h
  cases hn : ns.foldlM Graph.addNode g with
  | error e => rw [hn] at h; cases h
  | ok g₁ =>
    rw [hn] at h
    exact (hg.foldlM .addNode hn).foldlM .addEdge h

theorem built_ofWorkflow {w : Workflow} {g : Graph} (h : ofWorkflow w = .ok g) : Built g := by
  unfold ofWorkflow at h
  cases ha : Graph.addAll {} (w.nodes.map .ofSpec) (w.edges.map .ofSpec) with
  | error e => rw [ha] at h; cases h
  | ok g₁ =>
    rw [ha] at h
    cases h
    exact .setGlobals _ (Built.empty.addAll _ _ ha)

theorem built_ofSelection {nodes : List NodeSpec} {edges : List EdgeSpec}
    {globals : List GlobalVariable} {g : Graph} (h : ofSelection nodes edges globals = .ok g) :
    Built g := by
  unfold ofSelection at h
  cases hc : checkEnds (nodes.map NodeSpec.id) (edges.map .ofSpec) with
  | error e => rw [hc] at h; cases h
  | ok _ =>
    rw [hc] at h
    cases ha : Graph.addAll {} (nodes.map .ofSpec) (edges.mapIdx fun i e => selectedEdge e i) with
    | error e => rw [ha] at h; cases h
    | ok g₁ =>
      rw [ha] at h
      cases hk : (g₁.setGlobals globals).checkAcyclic with
      | error e => simp [bind, Except.bind, hk] at h
      | ok _ =>
        simp only [bind, Except.bind, hk] at h
        cases h
        exact .setGlobals _ (Built.empty.addAll _ _ ha)

theorem built_subgraph {g part : Graph} {nodes edges : List String}
    (h : g.subgraph nodes edges = .ok part) : Built part := by
  unfold subgraph at h
  cases hv : g.validate nodes edges with
  | error e => rw [hv] at h; cases h
  | ok _ =>
    rw [hv] at h
    cases he : g.edgesById edges with
    | error e => rw [he] at h; cases h
    | ok es =>
      rw [he] at h
      cases ha : Graph.addAll {} (g.nodesById nodes) es with
      | error e => simp [bind, Except.bind, ha] at h
      | ok g₁ =>
        simp only [bind, Except.bind, ha] at h
        cases h
        exact .setGlobals _ (Built.empty.addAll _ _ ha)

end Flowrun.Graph
