import Flowrun.Proofs.Graph.Acyclic
import Flowrun.Proofs.Graph.Edits
import Mathlib

/-!
# Parts of a workflow

A part of a workflow can be cut out of its graph by the ids of nodes and edges, or it can be built
from the nodes and edges as authored. Both ways lead to the same graph or to none:

    ofSelection nodes edges g.globals = .ok part ↔
      g.subgraph (nodes.map NodeSpec.id) (edges.map EdgeSpec.id) = .ok part

Both ask for the ends of the selected edges in the same way, and both add the same nodes and edges,
since an edge that is bound to a branch of its source is bound to the same one again
(`addEdge_bound`). They differ in where they look for a cycle: among the arcs of the whole graph
that are selected, or in the part that was built. These are the same arcs (`selectedPart_joins`,
`addAll_joins`), and so one has an order if the other has one.
-/

namespace Flowrun.Graph

variable {g g' part : Graph}

/-! ### Adding nodes and edges -/

/-- An edge, bound to a branch of its source in a graph. -/
def bound (g : Graph) (e : Edge) : Edge := match g.node? e.source with
  | some n => e.bind n.kind
  | none => e

@[simp] theorem bound_id (g : Graph) (e : Edge) : (g.bound e).id = e.id := by
  unfold bound
  split <;> rfl

@[simp] theorem bound_source (g : Graph) (e : Edge) : (g.bound e).source = e.source := by
  unfold bound
  split <;> rfl

@[simp] theorem bound_target (g : Graph) (e : Edge) : (g.bound e).target = e.target := by
  unfold bound
  split <;> rfl

/-- What an edge was bound to before does not matter when it is bound. -/
@[simp] theorem bound_bind (g : Graph) (e : Edge) (k : NodeKind) :
    (g.bound e).bind k = e.bind k := by
  unfold bound
  split <;> rfl

theorem addEdge_bound (g g' : Graph) (e : Edge) : g'.addEdge (g.bound e) = g'.addEdge e := by
  simp only [addEdge, bound_id, bound_source, bound_target, bound_bind]

theorem foldlM_addNode {ns : List Node} (h : ns.foldlM addNode g = .ok g') :
    g'.nodeSlots.newest = ns.reverse ++ g.nodeSlots.newest ∧ g'.edgeSlots = g.edgeSlots := by
  induction ns generalizing g with
  | nil =>
    cases h
    exact ⟨rfl, rfl⟩
  | cons n ns ih =>
    obtain ⟨g₁, hadd, hrest⟩ := bind_eq_ok.1 (List.foldlM_cons.symm.trans h)
    obtain ⟨-, rfl⟩ := addNode_eq_ok hadd
    obtain ⟨hnodes, hedges⟩ := ih hrest
    refine ⟨?_, hedges⟩
    rw [hnodes]
    simp [edited]

theorem foldlM_addEdge {es : List Edge} (h : es.foldlM addEdge g = .ok g') :
    g'.nodeSlots = g.nodeSlots ∧
      g'.edgeSlots.newest = (es.map g.bound).reverse ++ g.edgeSlots.newest := by
  induction es generalizing g with
  | nil =>
    cases h
    exact ⟨rfl, rfl⟩
  | cons e es ih =>
    obtain ⟨g₁, hadd, hrest⟩ := bind_eq_ok.1 (List.foldlM_cons.symm.trans h)
    obtain ⟨-, -, -, n, hsource, rfl⟩ := addEdge_eq_ok hadd
    obtain ⟨hnodes, hedges⟩ := ih hrest
    have hbound : g.bound e = e.bind n.kind := by
      unfold bound
      rw [hsource]
    refine ⟨hnodes, ?_⟩
    rw [hedges, List.map_cons, List.reverse_cons, hbound]
    simp [edited, bound, node?]

/-- What a graph has that was built from nodes and edges. -/
theorem addAll_eq_ok {ns : List Node} {es : List Edge} (h : addAll {} ns es = .ok g) :
    g.nodeSlots.newest = ns.reverse ∧ g.edgeSlots.newest = (es.map g.bound).reverse := by
  obtain ⟨g₁, hadded, hrest⟩ := bind_eq_ok.1 h
  obtain ⟨hnodes, hedges⟩ := foldlM_addNode hadded
  obtain ⟨hsame, hmore⟩ := foldlM_addEdge hrest
  have hbound : g.bound = g₁.bound := by
    funext e
    simp only [bound, node?, hsame]
  rw [hsame, hnodes, hbound, hmore, hedges]
  simp [Slots.newest]

theorem addAll_joins {ns : List Node} {es : List Edge} (h : addAll {} ns es = .ok g)
    {a b : String} : g.digraph.Joins a b ↔ ∃ e ∈ es, e.source = a ∧ e.target = b := by
  simp [digraph_joins, (addAll_eq_ok h).2]

/-- The same edges, bound or not, make the same graph. -/
theorem addAll_bound (g g' : Graph) (ns : List Node) (es : List Edge) :
    g'.addAll ns (es.map g.bound) = g'.addAll ns es := by
  unfold addAll
  simp only [List.foldlM_map, addEdge_bound]

/-! ### Checking a selection -/

theorem danglingEnds_bound (g : Graph) (nodes : List String) (es : List Edge) :
    danglingEnds nodes (es.map g.bound) = danglingEnds nodes es := by
  simp [danglingEnds, List.flatMap_map]

theorem checkEnds_bound (g : Graph) (nodes : List String) (es : List Edge) :
    checkEnds nodes (es.map g.bound) = checkEnds nodes es := by
  unfold checkEnds
  rw [danglingEnds_bound]

theorem checkEnds_eq_ok {nodes : List String} {es : List Edge} :
    checkEnds nodes es = .ok () ↔ ∀ e ∈ es, e.source ∈ nodes ∧ e.target ∈ nodes := by
  have hnil : checkEnds nodes es = .ok () ↔ danglingEnds nodes es = [] := by
    unfold checkEnds
    split
    · next hends => exact iff_of_true rfl hends
    · next hends => exact iff_of_false nofun hends
  rw [hnil, danglingEnds, List.flatMap_eq_nil_iff]
  refine forall₂_congr fun e _ => ?_
  rw [List.map_eq_nil_iff, List.filter_eq_nil_iff]
  simp

theorem validate_eq_ok {nodes edges : List String} :
    g.validate nodes edges = .ok () ↔ (∀ id ∈ nodes, g.hasNode id = true) ∧
      (∃ es, g.selectEdges edges = .ok es ∧ checkEnds nodes es = .ok ()) ∧
        ∃ ids, (g.selectedPart nodes edges).order = .ok ids := by
  unfold validate
  cases hunknown : nodes.find? fun id => !g.hasNode id with
  | some id =>
    have hid : g.hasNode id = false := by simpa using List.find?_some hunknown
    refine iff_of_false nofun fun h => ?_
    cases hid.symm.trans (h.1 id (List.mem_of_find?_eq_some hunknown))
  | none =>
    have hknown : ∀ id ∈ nodes, g.hasNode id = true := by simpa using hunknown
    rw [and_iff_right hknown]
    cases (g.selectedPart nodes edges).order with
    | ok ids => simp [bind_eq_ok, Unique.exists_iff, pure, Except.pure]
    | error v => simp [bind_eq_ok, throw, throwThe, MonadExceptOf.throw]

theorem subgraph_eq_ok {nodes edges : List String} :
    g.subgraph nodes edges = .ok part ↔ g.validate nodes edges = .ok () ∧
      ∃ es, g.edgesById edges = .ok es ∧
        ∃ built, addAll {} (g.nodesById nodes) es = .ok built ∧
          built.setGlobals g.globals = part := by
  unfold subgraph
  simp only [bind_eq_ok, Unique.exists_iff, PUnit.default_eq_unit, pure, Except.pure,
    Except.ok.injEq]

theorem ofSelection_eq_ok {nodes : List NodeSpec} {edges : List EdgeSpec}
    {globals : List GlobalVariable} :
    ofSelection nodes edges globals = .ok part ↔
      checkEnds (nodes.map NodeSpec.id) (edges.map .ofSpec) = .ok () ∧
        ∃ built, addAll {} (nodes.map .ofSpec) (edges.mapIdx fun i e => selectedEdge e i) =
            .ok built ∧
          (∃ ids, (built.setGlobals globals).order = .ok ids) ∧
            built.setGlobals globals = part := by
  unfold ofSelection
  simp only [bind_eq_ok, Unique.exists_iff, PUnit.default_eq_unit, pure, Except.pure,
    Except.ok.injEq, checkAcyclic_eq_ok]

/-! ### Nodes and edges of a workflow -/

section Workflow

variable {w : Workflow}

theorem ofWorkflow_eq_ok : ofWorkflow w = .ok g ↔
    ∃ built, addAll {} (w.nodes.map .ofSpec) (w.edges.map .ofSpec) = .ok built ∧
      built.setGlobals (GlobalVariable.collect w) = g := by
  unfold ofWorkflow
  simp only [bind_eq_ok, pure, Except.pure, Except.ok.injEq]

theorem node?_ofWorkflow (hw : ofWorkflow w = .ok g) {n : NodeSpec} (hn : n ∈ w.nodes) :
    g.node? n.id = some (.ofSpec n) := by
  have hg := (built_ofWorkflow hw).wellFormed
  obtain ⟨built, hbuilt, rfl⟩ := ofWorkflow_eq_ok.1 hw
  refine hg.node?_eq_some_iff.2 ⟨mem_nodes.2 ?_, rfl⟩
  show Node.ofSpec n ∈ built.nodeSlots.newest
  rw [(addAll_eq_ok hbuilt).1, List.mem_reverse]
  exact List.mem_map_of_mem hn

theorem edge?_ofWorkflow (hw : ofWorkflow w = .ok g) {e : EdgeSpec} (he : e ∈ w.edges) :
    g.edge? e.id = some (g.bound (.ofSpec e)) := by
  have hg := (built_ofWorkflow hw).wellFormed
  obtain ⟨built, hbuilt, rfl⟩ := ofWorkflow_eq_ok.1 hw
  refine hg.edge?_eq_some_iff.2 ⟨mem_edges.2 ?_, bound_id ..⟩
  show built.bound (.ofSpec e) ∈ built.edgeSlots.newest
  rw [(addAll_eq_ok hbuilt).2, List.mem_reverse, List.map_map]
  exact List.mem_map_of_mem he

variable {nodes : List NodeSpec} {edges : List EdgeSpec}

theorem nodesById_ofWorkflow (hw : ofWorkflow w = .ok g) (hnodes : ∀ n ∈ nodes, n ∈ w.nodes) :
    g.nodesById (nodes.map NodeSpec.id) = nodes.map .ofSpec := by
  unfold nodesById
  rw [List.filterMap_map, ← List.filterMap_eq_map]
  exact List.filterMap_congr fun n hn => node?_ofWorkflow hw (hnodes n hn)

theorem mapM_eq_ok {α β : Type} {f : α → Except TaskError β} {h : α → β} {xs : List α}
    (hf : ∀ x ∈ xs, f x = .ok (h x)) : xs.mapM f = .ok (xs.map h) := by
  induction xs with
  | nil => rfl
  | cons x xs ih =>
    rw [List.mapM_cons, hf x List.mem_cons_self, ih fun y hy => hf y (List.mem_cons_of_mem _ hy)]
    rfl

/-- All edges of a selection are found, whatever is said of one that is missing. -/
theorem mapM_edge?_ofWorkflow (hw : ofWorkflow w = .ok g) (hedges : ∀ e ∈ edges, e ∈ w.edges)
    {f : String → Except TaskError Edge} (hf : ∀ id e, g.edge? id = some e → f id = .ok e) :
    (edges.map EdgeSpec.id).mapM f = .ok (edges.map (g.bound ∘ .ofSpec)) := by
  rw [List.mapM_map]
  exact mapM_eq_ok fun e he => hf _ _ (edge?_ofWorkflow hw (hedges e he))

theorem selectEdges_ofWorkflow (hw : ofWorkflow w = .ok g) (hedges : ∀ e ∈ edges, e ∈ w.edges) :
    g.selectEdges (edges.map EdgeSpec.id) = .ok ((edges.map .ofSpec).map g.bound) := by
  rw [List.map_map]
  exact mapM_edge?_ofWorkflow hw hedges fun id e he => by rw [he]

theorem edgesById_ofWorkflow (hw : ofWorkflow w = .ok g) (hedges : ∀ e ∈ edges, e ∈ w.edges) :
    g.edgesById (edges.map EdgeSpec.id) = .ok ((edges.map .ofSpec).map g.bound) := by
  rw [List.map_map]
  exact mapM_edge?_ofWorkflow hw hedges fun id e he => by rw [he]

/-- Edges that have an id keep it. -/
theorem mapIdx_selectedEdge (h : ∀ e ∈ edges, e.id ≠ "") :
    (edges.mapIdx fun i e => selectedEdge e i) = edges.map .ofSpec := by
  refine List.ext_getElem (by simp) fun i hi _ => ?_
  have hlt : i < edges.length := by simpa using hi
  have hid : (Edge.ofSpec edges[i]).id ≠ "" := h _ (List.getElem_mem _)
  simp [selectedEdge, hid]

/-! ### The selected part -/

theorem selectedPart_joins {nodes edges : List String} {a b : String} :
    (g.selectedPart nodes edges).Joins a b ↔
      ∃ e ∈ g.edges, e.id ∈ edges ∧ e.source = a ∧ e.target = b := by
  simp [selectedPart, Digraph.Joins, and_assoc]

/-- The selected part is in order if both ends of each selected edge are selected. -/
theorem WellFormed.selectedPart_proper (hg : g.WellFormed) {nodes edges : List String}
    (hends : ∀ e ∈ g.edges, e.id ∈ edges → e.source ∈ nodes ∧ e.target ∈ nodes) :
    (g.selectedPart nodes edges).Proper where
  nodup := hg.nodup_ids.filter _
  source_mem := by
    intro a b hjoins
    obtain ⟨e, he, hid, rfl, rfl⟩ := selectedPart_joins.1 hjoins
    have hnode := hg.proper.source_mem (digraph_joins.2 ⟨e, he, rfl, rfl⟩)
    exact List.mem_filter.2 ⟨hnode, by simpa using (hends e he hid).1⟩
  target_mem := by
    intro a b hjoins
    obtain ⟨e, he, hid, rfl, rfl⟩ := selectedPart_joins.1 hjoins
    have hnode := hg.proper.target_mem (digraph_joins.2 ⟨e, he, rfl, rfl⟩)
    exact List.mem_filter.2 ⟨hnode, by simpa using (hends e he hid).2⟩
  source_ne_target := by
    intro a b hjoins
    obtain ⟨e, he, -, rfl, rfl⟩ := selectedPart_joins.1 hjoins
    exact hg.source_ne_target e (mem_edges.1 he)

/-- The selected edges of the graph are those of the workflow. -/
theorem selected_iff (hw : ofWorkflow w = .ok g) (hedges : ∀ e ∈ edges, e ∈ w.edges) {e : Edge} :
    e ∈ g.edges ∧ e.id ∈ edges.map EdgeSpec.id ↔ ∃ x ∈ edges, g.bound (.ofSpec x) = e := by
  have hg := (built_ofWorkflow hw).wellFormed
  constructor
  · rintro ⟨he, hid⟩
    obtain ⟨x, hx, hxid⟩ := List.mem_map.1 hid
    have hfound := edge?_ofWorkflow hw (hedges x hx)
    rw [hxid, hg.edge?_eq_some_iff.2 ⟨he, rfl⟩] at hfound
    exact ⟨x, hx, (Option.some.inj hfound).symm⟩
  · rintro ⟨x, hx, rfl⟩
    obtain ⟨he, hid⟩ := hg.edge?_eq_some_iff.1 (edge?_ofWorkflow hw (hedges x hx))
    exact ⟨he, hid ▸ List.mem_map_of_mem hx⟩

/-- There is an order of the selected part exactly if there is one of what is built from it. -/
theorem exists_order_selectedPart_iff (hw : ofWorkflow w = .ok g)
    (hedges : ∀ e ∈ edges, e ∈ w.edges)
    (hends : checkEnds (nodes.map NodeSpec.id) (edges.map .ofSpec) = .ok ()) {built : Graph}
    (hbuilt : addAll {} (nodes.map .ofSpec) (edges.map .ofSpec) = .ok built) :
    (∃ ids, built.order = .ok ids) ↔
      ∃ ids, (g.selectedPart (nodes.map NodeSpec.id) (edges.map EdgeSpec.id)).order = .ok ids := by
  have hg := (built_ofWorkflow hw).wellFormed
  have hselected : ∀ e ∈ g.edges, e.id ∈ edges.map EdgeSpec.id →
      e.source ∈ nodes.map NodeSpec.id ∧ e.target ∈ nodes.map NodeSpec.id := by
    intro e he hid
    obtain ⟨x, hx, rfl⟩ := (selected_iff hw hedges).1 ⟨he, hid⟩
    rw [bound_source, bound_target]
    exact checkEnds_eq_ok.1 hends _ (List.mem_map_of_mem hx)
  have hjoins : ∀ a b, built.digraph.Joins a b ↔
      (g.selectedPart (nodes.map NodeSpec.id) (edges.map EdgeSpec.id)).Joins a b := by
    intro a b
    rw [addAll_joins hbuilt, selectedPart_joins]
    constructor
    · rintro ⟨e, he, hsource, htarget⟩
      obtain ⟨x, hx, rfl⟩ := List.mem_map.1 he
      obtain ⟨hmem, hid⟩ := (selected_iff hw hedges).2 ⟨x, hx, rfl⟩
      exact ⟨_, hmem, hid, by rwa [bound_source], by rwa [bound_target]⟩
    · rintro ⟨e, he, hid, hsource, htarget⟩
      obtain ⟨x, hx, rfl⟩ := (selected_iff hw hedges).1 ⟨he, hid⟩
      rw [bound_source] at hsource
      rw [bound_target] at htarget
      exact ⟨_, List.mem_map_of_mem hx, hsource, htarget⟩
  simp only [order_eq_ok]
  have hproper := (Built.empty.addAll _ _ hbuilt).wellFormed.proper
  exact hproper.exists_order_congr (hg.selectedPart_proper hselected) hjoins

/-! ### Both ways to a part -/

/-- Take some nodes and edges of a workflow, in any order and with repetitions, and let the edges
have ids. What is built from them and what is cut out of the graph of the workflow is the same
graph, with the same nodes, edges, branches and global variables, and if one of the two is refused,
so is the other. -/
theorem ofSelection_iff_subgraph (hw : ofWorkflow w = .ok g) (hnodes : ∀ n ∈ nodes, n ∈ w.nodes)
    (hedges : ∀ e ∈ edges, e ∈ w.edges ∧ e.id ≠ "") (part : Graph) :
    ofSelection nodes edges g.globals = .ok part ↔
      g.subgraph (nodes.map NodeSpec.id) (edges.map EdgeSpec.id) = .ok part := by
  have hmem : ∀ e ∈ edges, e ∈ w.edges := fun e he => (hedges e he).1
  have hknown : ∀ id ∈ nodes.map NodeSpec.id, g.hasNode id = true := by
    intro id hid
    obtain ⟨n, hn, rfl⟩ := List.mem_map.1 hid
    rw [hasNode, node?_ofWorkflow hw (hnodes n hn)]
    rfl
  rw [ofSelection_eq_ok, subgraph_eq_ok, validate_eq_ok,
    mapIdx_selectedEdge fun e he => (hedges e he).2, and_iff_right hknown,
    nodesById_ofWorkflow hw hnodes, selectEdges_ofWorkflow hw hmem, edgesById_ofWorkflow hw hmem]
  constructor
  · rintro ⟨hends, built, hbuilt, horder, rfl⟩
    refine ⟨⟨⟨_, rfl, ?_⟩, ?_⟩, _, rfl, built, ?_, rfl⟩
    · rw [checkEnds_bound]
      exact hends
    · exact (exists_order_selectedPart_iff hw hmem hends hbuilt).1 horder
    · rw [addAll_bound]
      exact hbuilt
  · rintro ⟨⟨⟨es, hes, hends⟩, horder⟩, es', hes', built, hbuilt, rfl⟩
    obtain rfl := Except.ok.inj hes
    obtain rfl := Except.ok.inj hes'
    rw [checkEnds_bound] at hends
    rw [addAll_bound] at hbuilt
    have horder' := (exists_order_selectedPart_iff hw hmem hends hbuilt).2 horder
    exact ⟨hends, built, hbuilt, horder', rfl⟩

end Workflow

end Flowrun.Graph

namespace Flowrun.Sample

/-- A script, a judge, and a script on one of its branches. -/
def judged : Workflow where
  nodes :=
    [.new "fetch" "script",
      (NodeSpec.new "check" "judge").withParam
        (.object [("branches", .array [.object [("id", .string "no")]])]),
      .new "repair" "script"]
  edges := [.new "e1" "fetch" "check",
    (EdgeSpec.new "e2" "check" "repair").withSourceHandle "check_no"]

/-- The judge and what is behind it, listed backwards. -/
theorem judged_part :
    let nodes := (judged.nodes.drop 1).reverse
    let edges := judged.edges.drop 1
    (∀ n ∈ nodes, n ∈ judged.nodes) ∧ (∀ e ∈ edges, e ∈ judged.edges ∧ e.id ≠ "") ∧
      ∃ g part, Graph.ofWorkflow judged = .ok g ∧
        Graph.ofSelection nodes edges g.globals = .ok part ∧
          g.subgraph ["repair", "check"] ["e2"] = .ok part ∧
            part.edges.map Edge.branch = [some ⟨"check", "no"⟩] := by
  intro nodes edges
  have hnodes : ∀ n ∈ nodes, n ∈ judged.nodes := fun n hn =>
    List.mem_of_mem_drop (List.mem_reverse.1 hn)
  have hedges : ∀ e ∈ edges, e ∈ judged.edges ∧ e.id ≠ "" := by decide
  have hglobals : (Graph.ofWorkflow judged).map Graph.globals = .ok [.userQuery] := by cbv
  have hbranch : (Graph.ofSelection nodes edges [.userQuery]).map (·.edges.map Edge.branch) =
      .ok [some ⟨"check", "no"⟩] := by cbv
  obtain ⟨g, hw, hg⟩ := Graph.map_eq_ok hglobals
  obtain ⟨part, hpart, hedge⟩ := Graph.map_eq_ok hbranch
  rw [← hg] at hpart
  have hcut := (Graph.ofSelection_iff_subgraph hw hnodes hedges part).1 hpart
  exact ⟨hnodes, hedges, g, part, hw, hpart, hcut, hedge⟩

end Flowrun.Sample
