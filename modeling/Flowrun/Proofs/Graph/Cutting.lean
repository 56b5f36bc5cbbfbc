import Flowrun.Proofs.Graph.Validation

/-!
# Cutting out a selection

A selection that is valid is cut out of a graph by adding its nodes and edges to an empty one. They
are added one at a time, under ids that have to be new, and all that can go wrong is that an id was
selected twice (`addAll_eq_error`): the ends of every edge are there, and no edge of the graph leads
from a node to itself. Where no id is repeated, the part has the selected nodes and the selected
edges and nothing else, each edge bound to the branch that it has in the graph
(`Built.bind_eq`), and there is no cycle since there was none in the selection.
-/

namespace Flowrun.Graph

variable {g part : Graph} {nodes edges : List String} {ns : List Node} {es : List Edge}
  {error : TaskError}

/-! ### What an edit can be refused for -/

theorem addNode_eq_error {n : Node} (h : g.addNode n = .error error) :
    (g.node? n.id).isSome ∧ error = .duplicateNode n.id := by
  unfold addNode at h
  split at h
  · next hthere => exact ⟨hthere, (Except.error.inj h).symm⟩
  · cases h

/-- An edge between two different nodes of the graph can only have an id that is taken. -/
theorem addEdge_eq_error {e : Edge} (h : g.addEdge e = .error error) (hne : e.source ≠ e.target)
    (hsource : (g.node? e.source).isSome) (htarget : (g.node? e.target).isSome) :
    (g.edge? e.id).isSome ∧ error = .duplicateEdge e.id := by
  unfold addEdge at h
  split at h
  · next hthere => exact ⟨hthere, (Except.error.inj h).symm⟩
  · split at h
    · next hnone => simp [hnone] at hsource
    · rw [hasNode, if_pos htarget] at h
      cases h

/-- A list of edits is refused at one of them, when those before it were accepted. -/
theorem foldlM_eq_error {α : Type} {f : Graph → α → Except TaskError Graph} {xs : List α}
    (h : xs.foldlM f g = .error error) :
    ∃ before x after g', xs = before ++ x :: after ∧ before.foldlM f g = .ok g' ∧
      f g' x = .error error := by
  induction xs generalizing g with
  | nil => cases h
  | cons x xs ih =>
    rcases bind_eq_error.1 (List.foldlM_cons.symm.trans h) with hx | ⟨g₁, hx, hrest⟩
    · exact ⟨[], x, xs, g, rfl, rfl, hx⟩
    · obtain ⟨before, y, after, g', rfl, hbefore, hy⟩ := ih hrest
      refine ⟨x :: before, y, after, g', rfl, ?_, hy⟩
      rw [List.foldlM_cons, hx]
      exact hbefore

theorem edge?_isSome_iff {id : String} :
    (g.edge? id).isSome ↔ id ∈ g.edgeSlots.newest.map Edge.id := by
  simp [edge?, List.find?_isSome]

theorem duplicate_of_mem {α β : Type} {f : α → β} {before after : List α} {x : α}
    (h : f x ∈ before.map f) : List.Duplicate (f x) ((before ++ x :: after).map f) := by
  rw [List.duplicate_iff_sublist, List.map_append, List.map_cons]
  exact (List.singleton_sublist.2 h).append (List.singleton_sublist.2 List.mem_cons_self)

/-- Different nodes with edges between them make a graph, unless an id is repeated. -/
theorem addAll_eq_error (h : addAll {} ns es = .error error)
    (hends : ∀ e ∈ es, e.source ≠ e.target ∧ e.source ∈ ns.map Node.id ∧
      e.target ∈ ns.map Node.id) :
    (∃ id, List.Duplicate id (ns.map Node.id) ∧ error = .duplicateNode id) ∨
      ∃ id, List.Duplicate id (es.map Edge.id) ∧ error = .duplicateEdge id := by
  rcases bind_eq_error.1 h with hnodes | ⟨g₁, hnodes, hedges⟩
  · obtain ⟨before, n, after, g', rfl, hbefore, hn⟩ := foldlM_eq_error hnodes
    obtain ⟨hthere, rfl⟩ := addNode_eq_error hn
    rw [node?_isSome_iff, (foldlM_addNode hbefore).1] at hthere
    exact Or.inl ⟨n.id, duplicate_of_mem (by simpa [Slots.newest] using hthere), rfl⟩
  · obtain ⟨before, e, after, g', rfl, hbefore, he⟩ := foldlM_eq_error hedges
    obtain ⟨hsame, hmore⟩ := foldlM_addEdge hbefore
    obtain ⟨hadded, hnone⟩ := foldlM_addNode hnodes
    have hnode : ∀ {id}, id ∈ ns.map Node.id → (g'.node? id).isSome := by
      intro id hid
      rw [node?_isSome_iff, hsame, hadded]
      simpa [Slots.newest] using hid
    obtain ⟨hne, hsource, htarget⟩ := hends e (by simp)
    obtain ⟨hthere, rfl⟩ := addEdge_eq_error he hne (hnode hsource) (hnode htarget)
    rw [edge?_isSome_iff, hmore, hnone] at hthere
    exact Or.inr ⟨e.id, duplicate_of_mem (by simpa [Slots.newest] using hthere), rfl⟩

/-! ### The nodes and edges of a part -/

theorem WellFormed.mem_nodesById (hg : g.WellFormed) {n : Node} :
    n ∈ g.nodesById nodes ↔ n ∈ g.nodes ∧ n.id ∈ nodes := by
  simp only [nodesById, List.mem_filterMap, hg.node?_eq_some_iff]
  constructor
  · rintro ⟨id, hid, hn, rfl⟩
    exact ⟨hn, hid⟩
  · rintro ⟨hn, hid⟩
    exact ⟨n.id, hid, hn, rfl⟩

theorem map_nodesById (h : ∀ id ∈ nodes, ∃ n ∈ g.nodes, n.id = id) :
    (g.nodesById nodes).map Node.id = nodes := by
  induction nodes with
  | nil => rfl
  | cons id nodes ih =>
    obtain ⟨hid, hnodes⟩ := List.forall_mem_cons.1 h
    obtain ⟨n, hn⟩ := Option.isSome_iff_exists.1 (hasNode_iff.2 hid)
    rw [nodesById, List.filterMap_cons_some hn, List.map_cons, id_of_node?_eq_some hn]
    exact congrArg (id :: ·) (ih hnodes)

/-- An edge of the graph has the branch of its source in the part, too. -/
theorem Built.bound_eq (hg : g.Built) {built : Graph}
    (hbuilt : Graph.addAll {} (g.nodesById nodes) es = .ok built) {e : Edge} (he : e ∈ g.edges) :
    built.bound e = e := by
  unfold bound
  split
  · next n hn =>
    have hmem : n ∈ g.nodesById nodes := by
      have hthere := mem_nodes.1 (mem_of_node?_eq_some hn)
      rwa [(addAll_eq_ok hbuilt).1, List.mem_reverse] at hthere
    have hnode := (hg.wellFormed.mem_nodesById.1 hmem).1
    exact hg.bind_eq e (mem_edges.1 he) n (mem_nodes.1 hnode) (id_of_node?_eq_some hn)
  · rfl

/-- What a part has that was cut out, in the order in which it was added. -/
theorem Built.subgraph_slots (hg : g.Built) (h : g.subgraph nodes edges = .ok part) :
    part.nodeSlots.newest = (g.nodesById nodes).reverse ∧ part.globals = g.globals ∧
      ∃ es : List Edge, es.map Edge.id = edges ∧ (∀ e ∈ es, e ∈ g.edges) ∧
        part.edgeSlots.newest = es.reverse := by
  obtain ⟨-, es, hes, built, hbuilt, rfl⟩ := subgraph_eq_ok.1 h
  obtain ⟨hids, hmem⟩ := hg.wellFormed.edgesById_eq_ok.1 hes
  obtain ⟨hnodes, hedges⟩ := addAll_eq_ok hbuilt
  have hsame : es.map built.bound = es.map id :=
    List.map_congr_left fun e he => hg.bound_eq hbuilt (hmem e he)
  rw [hsame, List.map_id] at hedges
  exact ⟨hnodes, rfl, es, hids, hmem, hedges⟩

theorem Built.mem_nodes_subgraph (hg : g.Built) (h : g.subgraph nodes edges = .ok part)
    {n : Node} : n ∈ part.nodes ↔ n ∈ g.nodes ∧ n.id ∈ nodes := by
  rw [mem_nodes, (hg.subgraph_slots h).1, List.mem_reverse, hg.wellFormed.mem_nodesById]

theorem Built.mem_edges_subgraph (hg : g.Built) (h : g.subgraph nodes edges = .ok part)
    {e : Edge} : e ∈ part.edges ↔ e ∈ g.edges ∧ e.id ∈ edges := by
  obtain ⟨-, -, es, rfl, hmem, hedges⟩ := hg.subgraph_slots h
  rw [mem_edges, hedges, List.mem_reverse]
  constructor
  · exact fun he => ⟨hmem e he, List.mem_map_of_mem he⟩
  · rintro ⟨he, hid⟩
    obtain ⟨e', he', hid⟩ := List.mem_map.1 hid
    obtain rfl := hg.wellFormed.eq_of_edge_id_eq (hmem e' he') he hid
    exact he'

theorem Built.joins_subgraph (hg : g.Built) (h : g.subgraph nodes edges = .ok part) :
    part.digraph.Joins = (g.selectedPart nodes edges).Joins := by
  ext a b
  simp only [digraph_joins, selectedPart_joins, hg.mem_edges_subgraph h, and_assoc]

/-! ### Cutting out -/

/-- A valid selection can be cut out unless it repeats an id. -/
theorem Built.subgraph_eq_error (hg : g.Built) (hvalid : g.validate nodes edges = .ok ())
    (h : g.subgraph nodes edges = .error error) :
    (∃ id, List.Duplicate id nodes ∧ error = .duplicateNode id) ∨
      ∃ id, List.Duplicate id edges ∧ error = .duplicateEdge id := by
  have hwf := hg.wellFormed
  obtain ⟨hnames, -⟩ := hwf.validate_eq_ok_iff.1 hvalid
  obtain ⟨-, es, hes, -⟩ := hwf.names_iff.1 hnames
  obtain ⟨hids, hmem⟩ := hwf.selectEdges_eq_ok.1 hes
  have hby : g.edgesById edges = .ok es := hwf.edgesById_eq_ok.2 ⟨hids, hmem⟩
  have hnodes : (g.nodesById nodes).map Node.id = nodes := map_nodesById hnames.node
  have hadd : Graph.addAll {} (g.nodesById nodes) es = .error error := by
    have hdone : g.subgraph nodes edges =
        (Graph.addAll {} (g.nodesById nodes) es).bind fun part =>
          .ok (part.setGlobals g.globals) := by
      unfold subgraph
      rw [hvalid, hby]
      rfl
    rcases bind_eq_error.1 (hdone.symm.trans h) with hadd | ⟨part, -, hpart⟩
    · exact hadd
    · cases hpart
  have hrefused := addAll_eq_error hadd fun e he => by
    have hid : e.id ∈ edges := hids ▸ List.mem_map_of_mem he
    rw [hnodes]
    exact ⟨hwf.source_ne_target e (mem_edges.1 (hmem e he)), hnames.ends e (hmem e he) hid⟩
  rwa [hnodes, hids] at hrefused

theorem Built.nodup_of_subgraph (hg : g.Built) (hnames : g.Names nodes edges)
    (h : g.subgraph nodes edges = .ok part) : nodes.Nodup ∧ edges.Nodup := by
  have hpart := (built_subgraph h).wellFormed
  obtain ⟨hnodes, -, es, rfl, -, hedges⟩ := hg.subgraph_slots h
  constructor
  · have hnodup := hpart.nodup_nodes
    rwa [hnodes, List.map_reverse, map_nodesById hnames.node, List.nodup_reverse] at hnodup
  · have hnodup := hpart.nodup_edges
    rwa [hedges, List.map_reverse, List.nodup_reverse] at hnodup

/-- Take a graph that was made by edits and lists of ids that are valid as a selection. The
selection can be cut out exactly if neither list repeats an id; if it is refused, a repeated id is
named. What is cut out has the selected nodes and the selected edges, each once and as it is in the
graph, and the same global variables, and it has no cycle. -/
theorem valid_selection_is_cut_out (hg : g.Built) (hvalid : g.validate nodes edges = .ok ()) :
    ((∃ part, g.subgraph nodes edges = .ok part) ↔ nodes.Nodup ∧ edges.Nodup) ∧
    (∀ part, g.subgraph nodes edges = .ok part →
      part.nodes.Perm (g.nodes.filter (·.id ∈ nodes)) ∧
      part.edges.Perm (g.edges.filter (·.id ∈ edges)) ∧
      part.globals = g.globals ∧ ∀ id, ¬ part.Upstream id id) ∧
    ∀ error, g.subgraph nodes edges = .error error →
      (∃ id, List.Duplicate id nodes ∧ error = .duplicateNode id) ∨
        ∃ id, List.Duplicate id edges ∧ error = .duplicateEdge id := by
  obtain ⟨hnames, -⟩ := hg.wellFormed.validate_eq_ok_iff.1 hvalid
  refine ⟨⟨?_, ?_⟩, ?_, fun error h => hg.subgraph_eq_error hvalid h⟩
  · rintro ⟨part, h⟩
    exact hg.nodup_of_subgraph hnames h
  · rintro ⟨hnodes, hedges⟩
    cases h : g.subgraph nodes edges with
    | ok part => exact ⟨part, rfl⟩
    | error error =>
      rcases hg.subgraph_eq_error hvalid h with ⟨id, hid, -⟩ | ⟨id, hid, -⟩
      · exact absurd hnodes hid.not_nodup
      · exact absurd hedges hid.not_nodup
  · intro part h
    have hpart := (built_subgraph h).wellFormed
    refine ⟨?_, ?_, (hg.subgraph_slots h).2.1, ?_⟩
    · refine (List.perm_ext_iff_of_nodup hpart.nodup_ids.of_map
        (hg.wellFormed.nodup_ids.of_map.filter _)).2 fun n => ?_
      rw [hg.mem_nodes_subgraph h, List.mem_filter, decide_eq_true_eq]
    · refine (List.perm_ext_iff_of_nodup hpart.nodup_edgeIds.of_map
        (hg.wellFormed.nodup_edgeIds.of_map.filter _)).2 fun e => ?_
      rw [hg.mem_edges_subgraph h, List.mem_filter, decide_eq_true_eq]
    · -- there was an order of the selected part, which has the same arcs
      have horder := (validate_eq_ok.1 hvalid).2.2
      rw [(hg.wellFormed.selectedPart_proper hnames.ends).exists_order_iff, Digraph.Acyclic,
        Digraph.Reaches, ← hg.joins_subgraph h, digraph_joins_eq_feeds] at horder
      exact horder

end Flowrun.Graph

namespace Flowrun.Sample

/-- A judge with a script on one of its branches, in a graph that had a node before it, and with an
edge back to it. -/
def looped : Graph := Graph.edits {}
  [.addNode ⟨"a", "a", .start, "start", {}⟩,
    .addNode ⟨"check", "check", .judge ["no"], "judge", {}⟩,
    .addNode ⟨"repair", "repair", .script, "script", {}⟩, .removeNode "a",
    .addEdge { Edge.new "e1" "check" "repair" with sourceHandle := some "check_no" },
    .addEdge (.new "e2" "repair" "check")]

theorem built_looped : looped.Built := Graph.Built.empty.edits _

/-- The loop can be cut open, and the script stays on its branch. -/
theorem valid_selection_is_cut_out_looped :
    looped.validate ["repair", "check"] ["e1"] = .ok () ∧
      ∃ part, looped.subgraph ["repair", "check"] ["e1"] = .ok part ∧
        part.edges.map Edge.branch = [some ⟨"check", "no"⟩] ∧ ∀ id, ¬ part.Upstream id id := by
  have hvalid : looped.validate ["repair", "check"] ["e1"] = .ok () := by cbv
  have hbranch : (looped.subgraph ["repair", "check"] ["e1"]).map (·.edges.map Edge.branch) =
      .ok [some ⟨"check", "no"⟩] := by cbv
  obtain ⟨part, hpart, hbranch⟩ := Graph.map_eq_ok hbranch
  obtain ⟨-, hcut, -⟩ := Graph.valid_selection_is_cut_out built_looped hvalid
  exact ⟨hvalid, part, hpart, hbranch, (hcut part hpart).2.2.2⟩

/-- Not everything that is valid can be cut out: a node may be named twice in a valid selection, and
it cannot be added twice. -/
theorem not_forall_valid_selection_is_cut_out :
    ¬ ∀ (g : Graph) (nodes edges : List String), g.Built → g.validate nodes edges = .ok () →
      ∃ part, g.subgraph nodes edges = .ok part := by
  intro h
  have hvalid : looped.validate ["check", "check"] [] = .ok () := by cbv
  have hrefused : looped.subgraph ["check", "check"] [] = .error (.duplicateNode "check") := by cbv
  obtain ⟨part, hpart⟩ := h looped ["check", "check"] [] built_looped hvalid
  rw [hrefused] at hpart
  cases hpart

end Flowrun.Sample
