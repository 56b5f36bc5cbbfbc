import Flowrun.Proofs.Graph.Selection

/-!
# What a valid selection is

A selection is a list of node ids and a list of edge ids, in any order and with repetitions. On a
graph that was made by edits it is accepted exactly if every id is that of a node or an edge of the
graph, both ends of every selected edge are selected too, and no path of selected edges comes back
to where it started:

    g.validate nodes edges = .ok () ↔ g.Names nodes edges ∧ ∀ id, ¬ g.UpstreamIn nodes edges id id

Edges of the graph that are not selected do not count, so a selection may be valid in a graph with
cycles. When a cycle is what is wrong with a selection, the node that is named lies on one
(`validation_exact`). The whole graph is asked in the same way for an order of its nodes.
-/

namespace Flowrun.Graph

variable {g : Graph} {nodes edges : List String}

/-! ### The selected part of a graph -/

/-- A selected edge leads from the first node to the second, and both are selected. -/
def FeedsIn (g : Graph) (nodes edges : List String) (a b : String) : Prop :=
  a ∈ nodes ∧ b ∈ nodes ∧ ∃ e ∈ g.edges, e.id ∈ edges ∧ e.source = a ∧ e.target = b

/-- A path of selected edges leads from the first node to the second. -/
abbrev UpstreamIn (g : Graph) (nodes edges : List String) : String → String → Prop :=
  Relation.TransGen (g.FeedsIn nodes edges)

/-- Every id is that of a node or an edge, and the ends of the edges are among the nodes. -/
structure Names (g : Graph) (nodes edges : List String) : Prop where
  node : ∀ id ∈ nodes, ∃ n ∈ g.nodes, n.id = id
  edge : ∀ id ∈ edges, ∃ e ∈ g.edges, e.id = id
  ends : ∀ e ∈ g.edges, e.id ∈ edges → e.source ∈ nodes ∧ e.target ∈ nodes

theorem Names.selectedPart_joins_eq (h : g.Names nodes edges) :
    (g.selectedPart nodes edges).Joins = g.FeedsIn nodes edges := by
  ext a b
  rw [selectedPart_joins]
  constructor
  · rintro ⟨e, he, hid, rfl, rfl⟩
    exact ⟨(h.ends e he hid).1, (h.ends e he hid).2, e, he, hid, rfl, rfl⟩
  · rintro ⟨-, -, hedge⟩
    exact hedge

/-! ### The edges of a selection -/

/-- What makes a list of calls fail is one of them. -/
theorem mapM_eq_error {α β : Type} {f : α → Except TaskError β} {xs : List α} {error : TaskError}
    (h : xs.mapM f = .error error) : ∃ x ∈ xs, f x = .error error := by
  induction xs with
  | nil => cases h
  | cons x xs ih =>
    rw [List.mapM_cons] at h
    rcases bind_eq_error.1 h with hx | ⟨y, -, h⟩
    · exact ⟨x, List.mem_cons_self, hx⟩
    · rcases bind_eq_error.1 h with hxs | ⟨ys, -, h⟩
      · obtain ⟨z, hz, herror⟩ := ih hxs
        exact ⟨z, List.mem_cons_of_mem _ hz, herror⟩
      · cases h

/-- Looking up a list of ids, whatever is said of one that is missing. -/
theorem WellFormed.mapM_edge?_eq_ok (hg : g.WellFormed) {f : String → Except TaskError Edge}
    (hf : ∀ id e, f id = .ok e ↔ g.edge? id = some e) {es : List Edge} :
    edges.mapM f = .ok es ↔ es.map Edge.id = edges ∧ ∀ e ∈ es, e ∈ g.edges := by
  induction edges generalizing es with
  | nil => cases es <;> simp [pure, Except.pure]
  | cons id edges ih =>
    rw [List.mapM_cons]
    simp only [bind_eq_ok, hf, hg.edge?_eq_some_iff, ih, pure, Except.pure, Except.ok.injEq]
    constructor
    · rintro ⟨e, ⟨he, rfl⟩, es, ⟨rfl, hes⟩, rfl⟩
      exact ⟨rfl, List.forall_mem_cons.2 ⟨he, hes⟩⟩
    · rintro ⟨hids, hes⟩
      obtain ⟨e, es, rfl, rfl, rfl⟩ := List.map_eq_cons_iff.1 hids
      obtain ⟨he, hes⟩ := List.forall_mem_cons.1 hes
      exact ⟨e, ⟨he, rfl⟩, es, ⟨rfl, hes⟩, rfl⟩

theorem WellFormed.selectEdges_eq_ok (hg : g.WellFormed) {es : List Edge} :
    g.selectEdges edges = .ok es ↔ es.map Edge.id = edges ∧ ∀ e ∈ es, e ∈ g.edges :=
  hg.mapM_edge?_eq_ok fun id e => by cases g.edge? id <;> simp

theorem WellFormed.edgesById_eq_ok (hg : g.WellFormed) {es : List Edge} :
    g.edgesById edges = .ok es ↔ es.map Edge.id = edges ∧ ∀ e ∈ es, e ∈ g.edges :=
  hg.mapM_edge?_eq_ok fun id e => by cases g.edge? id <;> simp

theorem selectEdges_eq_error {error : TaskError} (h : g.selectEdges edges = .error error) :
    ∃ id ∈ edges, g.edge? id = none ∧
      error = .invalidSelection ("unknown edge '" ++ id ++ "'") := by
  obtain ⟨id, hid, herror⟩ := mapM_eq_error h
  cases hedge : g.edge? id with
  | some e => simp [hedge] at herror
  | none =>
    rw [hedge] at herror
    exact ⟨id, hid, hedge, (Except.error.inj herror).symm⟩

theorem checkEnds_eq_error {es : List Edge} {error : TaskError}
    (h : checkEnds nodes es = .error error) : ∃ text, error = .invalidSelection text := by
  unfold checkEnds at h
  split at h
  · cases h
  · exact ⟨_, (Except.error.inj h).symm⟩

/-! ### What is checked, and in which order -/

theorem hasNode_iff {id : String} : g.hasNode id = true ↔ ∃ n ∈ g.nodes, n.id = id := by
  simp [hasNode, node?_isSome_iff]

theorem WellFormed.names_iff (hg : g.WellFormed) :
    g.Names nodes edges ↔ (∀ id ∈ nodes, g.hasNode id = true) ∧
      ∃ es, g.selectEdges edges = .ok es ∧ checkEnds nodes es = .ok () := by
  simp only [hasNode_iff, hg.selectEdges_eq_ok, checkEnds_eq_ok]
  constructor
  · intro h
    refine ⟨h.node, ?_⟩
    cases hes : g.selectEdges edges with
    | error error =>
      obtain ⟨id, hid, hnone, -⟩ := selectEdges_eq_error hes
      obtain ⟨e, he, rfl⟩ := h.edge id hid
      rw [hg.edge?_eq_some_iff.2 ⟨he, rfl⟩] at hnone
      cases hnone
    | ok es =>
      obtain ⟨rfl, hmem⟩ := hg.selectEdges_eq_ok.1 hes
      exact ⟨es, ⟨rfl, hmem⟩, fun e he => h.ends e (hmem e he) (List.mem_map_of_mem he)⟩
  · rintro ⟨hnodes, es, ⟨rfl, hmem⟩, hends⟩
    refine ⟨hnodes, ?_, ?_⟩
    · intro id hid
      obtain ⟨e, he, rfl⟩ := List.mem_map.1 hid
      exact ⟨e, hmem e he, rfl⟩
    · intro e he hid
      -- no other edge has that id
      obtain ⟨e', he', hid⟩ := List.mem_map.1 hid
      obtain rfl := hg.eq_of_edge_id_eq (hmem e' he') he hid
      exact hends e' he'

/-- The cycle is looked for last, so it is the only thing that is wrong when it is reported. -/
theorem validate_eq_cyclic {text : String}
    (h : g.validate nodes edges = .error (.cyclic text)) :
    (∀ id ∈ nodes, g.hasNode id = true) ∧
      (∃ es, g.selectEdges edges = .ok es ∧ checkEnds nodes es = .ok ()) ∧
        ∃ id, (g.selectedPart nodes edges).order = .error id ∧
          text = "selection contains a cycle through '" ++ id ++ "'" := by
  unfold validate at h
  cases hunknown : nodes.find? fun id => !g.hasNode id with
  | some id => simp [hunknown, bind_eq_error, throw, throwThe, MonadExceptOf.throw] at h
  | none =>
    have hknown : ∀ id ∈ nodes, g.hasNode id = true := by simpa using hunknown
    simp only [hunknown] at h
    rcases bind_eq_error.1 h with hedges | ⟨es, hes, h⟩
    · obtain ⟨id, -, -, herror⟩ := selectEdges_eq_error hedges
      cases herror
    rcases bind_eq_error.1 h with hcheck | ⟨_, hends, h⟩
    · obtain ⟨_, herror⟩ := checkEnds_eq_error hcheck
      cases herror
    split at h
    · cases h
    · next id horder =>
      cases h
      exact ⟨hknown, ⟨es, hes, hends⟩, id, horder, rfl⟩

/-! ### Valid selections -/

theorem WellFormed.validate_eq_ok_iff (hg : g.WellFormed) :
    g.validate nodes edges = .ok () ↔
      g.Names nodes edges ∧ ∀ id, ¬ g.UpstreamIn nodes edges id id := by
  rw [validate_eq_ok, ← and_assoc, ← hg.names_iff]
  refine and_congr_right fun hnames => ?_
  rw [(hg.selectedPart_proper hnames.ends).exists_order_iff, Digraph.Acyclic, Digraph.Reaches,
    hnames.selectedPart_joins_eq]

/-- The node that is named when the selected part has a cycle lies on one. -/
theorem WellFormed.upstreamIn_of_validate_eq_error (hg : g.WellFormed) {text : String}
    (h : g.validate nodes edges = .error (.cyclic text)) :
    ∃ id ∈ nodes, text = "selection contains a cycle through '" ++ id ++ "'" ∧
      g.UpstreamIn nodes edges id id := by
  obtain ⟨hknown, hends, id, horder, rfl⟩ := validate_eq_cyclic h
  have hnames := hg.names_iff.2 ⟨hknown, hends⟩
  have hcycle := (hg.selectedPart_proper hnames.ends).reaches_of_order_eq_error horder
  rw [Digraph.Reaches, hnames.selectedPart_joins_eq] at hcycle
  obtain ⟨b, hfeeds, -⟩ := Relation.TransGen.head'_iff.1 hcycle
  exact ⟨id, hfeeds.1, rfl, hcycle⟩

/-- Take a graph that was made by edits, so that slots of removed nodes and edges may be empty or
taken again, and any lists of ids. The selection is accepted exactly if all ids are known, both ends
of every selected edge are selected and the selected part has no cycle; and if a cycle is reported,
it goes through the node that is named. The graph as a whole has an order exactly if it has no
cycle. The order is of all nodes, each once, and every edge leads forward in it; if there is none,
the node that is named lies on a cycle. -/
theorem validation_exact (hg : g.Built) :
    (∀ nodes edges : List String,
      (g.validate nodes edges = .ok () ↔
        (∀ id ∈ nodes, ∃ n ∈ g.nodes, n.id = id) ∧ (∀ id ∈ edges, ∃ e ∈ g.edges, e.id = id) ∧
        (∀ e ∈ g.edges, e.id ∈ edges → e.source ∈ nodes ∧ e.target ∈ nodes) ∧
        ∀ id, ¬ g.UpstreamIn nodes edges id id) ∧
      ∀ text, g.validate nodes edges = .error (.cyclic text) →
        ∃ id ∈ nodes, text = "selection contains a cycle through '" ++ id ++ "'" ∧
          g.UpstreamIn nodes edges id id) ∧
    ((∃ ids, g.order = .ok ids) ↔ ∀ id, ¬ g.Upstream id id) ∧
    (∀ ids, g.order = .ok ids → ids.Nodup ∧ (∀ id, id ∈ ids ↔ ∃ n ∈ g.nodes, n.id = id) ∧
      ∀ e ∈ g.edges, ids.idxOf e.source < ids.idxOf e.target) ∧
    ∀ error, g.order = .error error →
      ∃ id, error = .cyclic ("cycle through '" ++ id ++ "'") ∧ g.Upstream id id := by
  have hwf := hg.wellFormed
  refine ⟨fun nodes edges => ⟨?_, ?_⟩, hwf.exists_order_iff, ?_, ?_⟩
  · rw [hwf.validate_eq_ok_iff]
    constructor
    · rintro ⟨hnames, hacyclic⟩
      exact ⟨hnames.node, hnames.edge, hnames.ends, hacyclic⟩
    · rintro ⟨hnode, hedge, hends, hacyclic⟩
      exact ⟨⟨hnode, hedge, hends⟩, hacyclic⟩
  · exact fun text h => hwf.upstreamIn_of_validate_eq_error h
  · intro ids h
    have hperm := hwf.perm_order h
    refine ⟨hperm.nodup_iff.2 hwf.nodup_ids, fun id => ?_, fun e he => hwf.idxOf_lt h he⟩
    rw [hperm.mem_iff, List.mem_map]
  · exact fun error h => hwf.upstream_of_order_eq_error h

end Flowrun.Graph

namespace Flowrun.Sample

/-- Two nodes in a cycle, behind an empty slot. -/
def holed : Graph := Graph.edits {}
  [.addNode ⟨"a", "a", .start, "start", {}⟩, .addNode ⟨"b", "b", .script, "script", {}⟩,
    .addNode ⟨"c", "c", .script, "script", {}⟩, .addEdge (.new "e1" "a" "b"),
    .addEdge (.new "e2" "b" "c"), .addEdge (.new "e3" "c" "b"), .removeNode "a"]

/-- One of the two edges can be selected, with the nodes in any order and repeated, and not both. -/
theorem validation_exact_holed :
    holed.Built ∧ (∀ id, ¬ holed.UpstreamIn ["c", "b", "c"] ["e2"] id id) ∧
      (∃ id ∈ ["b", "c"], holed.UpstreamIn ["b", "c"] ["e2", "e3"] id id) ∧
        ¬ ∃ ids, holed.order = .ok ids := by
  have hbuilt : holed.Built := Graph.Built.empty.edits _
  have hone : holed.validate ["c", "b", "c"] ["e2"] = .ok () := by cbv
  have hboth : holed.validate ["b", "c"] ["e2", "e3"] =
      .error (.cyclic "selection contains a cycle through 'c'") := by cbv
  have hwhole : holed.order = .error (.cyclic "cycle through 'c'") := by cbv
  obtain ⟨hvalid, horder, -, hnamed⟩ := Graph.validation_exact hbuilt
  obtain ⟨id, hid, -, hcycle⟩ := (hvalid ["b", "c"] ["e2", "e3"]).2 _ hboth
  obtain ⟨v, -, hround⟩ := hnamed _ hwhole
  exact ⟨hbuilt, ((hvalid _ _).1.1 hone).2.2.2, ⟨id, hid, hcycle⟩, fun h => horder.1 h v hround⟩

end Flowrun.Sample
