import Flowrun.Proofs.Graph.Indexed

/-!
# A graph as two finite maps

What a graph answers depends on which nodes and edges it holds, and on nothing else: not on their
slots, nor on the edits that led to them. `Maps` are the nodes and the edges by their ids, with the
same edits and questions as a graph. The maps of a graph (`Graph.maps`) are edited as the graph is,
and answer as the graph does:

    (g.perform e).map (fun r => (r.1, r.2.maps)) = g.maps.perform e
    g.answers = g.maps.answers

`Indexed.refines_maps` says this of a graph by slots and indexes after any history of edits.
-/

namespace Flowrun

/-! ### Values by their ids -/

section ById

variable {α : Type} {key : α → String} {xs ys : List α} {d : Dict α} {k : String} {a : α}

/-- The dictionary of values by their ids. -/
def byId (key : α → String) (xs : List α) : Dict α :=
  (xs.mergeSort fun a b => key a ≤ key b).map fun a => (key a, a)

theorem mem_byId : (k, a) ∈ byId key xs ↔ a ∈ xs ∧ key a = k := by
  unfold byId
  simp only [List.mem_map, List.mem_mergeSort, Prod.mk.injEq]
  grind

theorem length_byId : (byId key xs).length = xs.length := by
  unfold byId
  rw [List.length_map, List.length_mergeSort]

theorem ascending_byId (h : (xs.map key).Nodup) : (byId key xs).Ascending := by
  unfold byId Dict.Ascending
  rw [List.pairwise_map]
  exact Graph.ascending_mergeSort key h

theorem at?_byId_eq_some_iff (h : (xs.map key).Nodup) :
    (byId key xs).at? k = some a ↔ a ∈ xs ∧ key a = k :=
  (ascending_byId h).at?_eq_some_iff.trans mem_byId

/-- A dictionary that holds the same values under their ids is the same. -/
theorem byId_eq (h : (xs.map key).Nodup) (hd : d.Ascending)
    (hmem : ∀ k a, (k, a) ∈ d ↔ a ∈ xs ∧ key a = k) : byId key xs = d := by
  refine Graph.eq_of_ascending Prod.fst (ascending_byId h) hd ?_
  rintro ⟨k, a⟩
  rw [mem_byId, hmem]

theorem byId_cons (h : ((a :: xs).map key).Nodup) :
    byId key (a :: xs) = (byId key xs).put (key a) a := by
  obtain ⟨hnew, hxs⟩ := List.nodup_cons.1 h
  have hput := Dict.ascending_put (ascending_byId hxs) (key a) a
  refine byId_eq h hput fun k b => ?_
  rw [← hput.at?_eq_some_iff, Dict.at?_put]
  split
  · next hk =>
    subst hk
    constructor
    · intro hb
      cases hb
      exact ⟨List.mem_cons_self, rfl⟩
    · rintro ⟨hb, hkey⟩
      rcases List.mem_cons.1 hb with rfl | hb
      · rfl
      · exact absurd (hkey ▸ List.mem_map_of_mem hb) hnew
  · next hk =>
    rw [at?_byId_eq_some_iff hxs, List.mem_cons]
    constructor
    · exact fun hb => ⟨Or.inr hb.1, hb.2⟩
    · rintro ⟨rfl | hb, hkey⟩
      · exact absurd hkey hk
      · exact ⟨hb, hkey⟩

theorem byId_filter (h : (xs.map key).Nodup) {p : α → Bool} {q : String × α → Bool}
    (hpq : ∀ a ∈ xs, p a = q (key a, a)) : byId key (xs.filter p) = (byId key xs).filter q := by
  refine byId_eq (h.sublist (List.filter_sublist.map _)) ((ascending_byId h).filter _) ?_
  intro k a
  rw [List.mem_filter, List.mem_filter, mem_byId]
  constructor
  · rintro ⟨⟨ha, rfl⟩, hq⟩
    exact ⟨⟨ha, (hpq a ha).trans hq⟩, rfl⟩
  · rintro ⟨⟨ha, hp⟩, rfl⟩
    exact ⟨⟨ha, rfl⟩, (hpq a ha).symm.trans hp⟩

theorem byId_without (h : (xs.map key).Nodup) (k : String) :
    byId key (xs.filter fun a => !(key a == k)) = (byId key xs).without k := by
  refine byId_filter h fun a _ => ?_
  rw [Bool.eq_iff_iff]
  simp

/-- Values that are sorted by their ids are some of the dictionary, in its order. -/
theorem eq_filter_byId (h : (xs.map key).Nodup) {q : String × α → Bool}
    (hys : ys.Pairwise fun a b => key a < key b)
    (hmem : ∀ a, a ∈ ys ↔ a ∈ xs ∧ q (key a, a) = true) :
    ys = ((byId key xs).filter q).map Prod.snd := by
  refine Graph.eq_of_ascending key hys ?_ fun a => ?_
  · rw [List.pairwise_map]
    refine ((ascending_byId h).filter q).imp_of_mem ?_
    rintro ⟨k, a⟩ ⟨l, b⟩ ha hb hlt
    have hka := (mem_byId.1 (List.mem_of_mem_filter ha)).2
    have hlb := (mem_byId.1 (List.mem_of_mem_filter hb)).2
    rw [hka, hlb]
    exact hlt
  · rw [hmem, List.mem_map]
    constructor
    · rintro ⟨ha, hq⟩
      exact ⟨(key a, a), List.mem_filter.2 ⟨mem_byId.2 ⟨ha, rfl⟩, hq⟩, rfl⟩
    · rintro ⟨⟨k, b⟩, hb, rfl⟩
      obtain ⟨hb, hq⟩ := List.mem_filter.1 hb
      obtain ⟨hxs, rfl⟩ := mem_byId.1 hb
      exact ⟨hxs, hq⟩

end ById

/-! ### Maps -/

/-- What a graph answers. -/
structure Answers where
  node? : String → Option Node
  edge? : String → Option Edge
  edgesFrom : String → List Edge
  edgesInto : String → List Edge
  entries : List Node
  nodeCount : Nat
  edgeCount : Nat

def Graph.answers (g : Graph) : Answers where
  node? := g.node?
  edge? := g.edge?
  edgesFrom := g.edgesFrom
  edgesInto := g.edgesInto
  entries := g.entries
  nodeCount := g.nodeSlots.size
  edgeCount := g.edgeSlots.size

def Indexed.answers (x : Indexed) : Answers where
  node? := x.node?
  edge? := x.edge?
  edgesFrom := x.edgesFrom
  edgesInto := x.edgesInto
  entries := x.entries
  nodeCount := x.nodeSlots.size
  edgeCount := x.arcSlots.size

/-- The nodes and the edges of a graph by their ids. -/
structure Maps where
  nodes : Dict Node := []
  edges : Dict Edge := []
  deriving DecidableEq

namespace Maps

/-- The edges with a property, by id. -/
def edgesWith (m : Maps) (p : Edge → Bool) : List Edge :=
  (m.edges.filter fun e => p e.2).map Prod.snd

/-- The nodes that no edge leads to, by id. -/
def entries (m : Maps) : List Node :=
  (m.nodes.filter fun n => m.edgesWith (·.target == n.1) == []).map Prod.snd

def answers (m : Maps) : Answers where
  node? := m.nodes.at?
  edge? := m.edges.at?
  edgesFrom id := m.edgesWith (·.source == id)
  edgesInto id := m.edgesWith (·.target == id)
  entries := m.entries
  nodeCount := m.nodes.length
  edgeCount := m.edges.length

def addNode (m : Maps) (n : Node) : Except TaskError Maps :=
  if m.nodes.has n.id then .error (.duplicateNode n.id)
  else .ok { m with nodes := m.nodes.put n.id n }

def addEdge (m : Maps) (e : Edge) : Except TaskError Maps :=
  if m.edges.has e.id then .error (.duplicateEdge e.id)
  else if e.source = e.target then .error (.selfLoop e.source)
  else match m.nodes.at? e.source with
    | none => .error (.endpointMissing e.id e.source)
    | some source =>
      if m.nodes.has e.target then
        .ok { m with edges := m.edges.put e.id (e.bind source.kind) }
      else .error (.endpointMissing e.id e.target)

/-- Remove a node and the edges that leave it or lead to it. -/
def removeNode (m : Maps) (id : String) : Except TaskError (Node × Maps) :=
  match m.nodes.at? id with
  | none => .error (.nodeNotFound id)
  | some n => .ok (n, {
      nodes := m.nodes.without id
      edges := m.edges.filter fun e => e.2.source ≠ id ∧ e.2.target ≠ id })

def removeEdge (m : Maps) (id : String) : Except TaskError (Edge × Maps) :=
  match m.edges.at? id with
  | none => .error (.edgeNotFound id)
  | some e => .ok (e, { m with edges := m.edges.without id })

/-- What an edit hands back and the maps after it, or why it is refused. -/
def perform (m : Maps) : Edit → Except TaskError (Handed × Maps)
  | .addNode n => (m.addNode n).map (.nothing, ·)
  | .addEdge e => (m.addEdge e).map (.nothing, ·)
  | .removeNode id => (m.removeNode id).map fun r => (.node r.1, r.2)
  | .removeEdge id => (m.removeEdge id).map fun r => (.edge r.1, r.2)
  | .setGlobals _ => .ok (.nothing, m)

/-- The maps after an edit. One that is refused leaves them as they were. -/
def edit (m : Maps) (e : Edit) : Maps := match m.perform e with
  | .ok r => r.2
  | .error _ => m

def edits (m : Maps) (es : List Edit) : Maps := es.foldl edit m

end Maps

namespace Graph

variable {g : Graph} {e : Edit} {id : String}

/-- The maps of a graph. -/
def maps (g : Graph) : Maps where
  nodes := byId Node.id g.nodeSlots.newest
  edges := byId Edge.id g.edgeSlots.newest

theorem maps_empty : maps {} = {} := by simp [maps, byId, Slots.newest]

/-! ### Questions -/

namespace WellFormed

theorem at?_nodes (h : g.WellFormed) : g.maps.nodes.at? = g.node? := by
  funext id
  apply Option.ext
  intro n
  rw [h.node?_eq_some_iff, mem_nodes]
  exact at?_byId_eq_some_iff h.nodup_nodes

theorem at?_edges (h : g.WellFormed) : g.maps.edges.at? = g.edge? := by
  funext id
  apply Option.ext
  intro e
  rw [h.edge?_eq_some_iff, mem_edges]
  exact at?_byId_eq_some_iff h.nodup_edges

theorem sortEdges_filter (h : g.WellFormed) (p : Edge → Bool) :
    sortEdges (g.edgeSlots.newest.filter p) = g.maps.edgesWith p := by
  refine eq_filter_byId h.nodup_edges ?_ fun e => ?_
  · exact ascending_mergeSort Edge.id (h.nodup_edges.sublist (List.filter_sublist.map _))
  · exact List.mem_mergeSort.trans List.mem_filter

theorem edgesInto_eq (h : g.WellFormed) (id : String) :
    g.edgesInto id = g.maps.edgesWith (·.target == id) :=
  h.sortEdges_filter (·.target == id)

theorem entries_eq (h : g.WellFormed) : g.entries = g.maps.entries := by
  refine eq_filter_byId h.nodup_nodes ?_ fun n => ?_
  · exact ascending_mergeSort Node.id (h.nodup_ids.sublist (List.filter_sublist.map _))
  · rw [mem_entries, mem_nodes, h.edgesInto_eq, beq_iff_eq]

/-- A graph answers by nothing but its maps. -/
theorem answers_eq (h : g.WellFormed) : g.answers = g.maps.answers := by
  unfold answers Maps.answers
  congr 1
  · exact h.at?_nodes.symm
  · exact h.at?_edges.symm
  · exact funext fun id => h.sortEdges_filter (·.source == id)
  · exact funext h.edgesInto_eq
  · exact h.entries_eq
  · exact (Slots.length_newest _).symm.trans length_byId.symm
  · exact (Slots.length_newest _).symm.trans length_byId.symm

/-- Graphs that hold the same have the same maps. -/
theorem maps_eq_of_lookups {g' : Graph} (h : g.WellFormed) (h' : g'.WellFormed)
    (hnode : g.node? = g'.node?) (hedge : g.edge? = g'.edge?) : g.maps = g'.maps := by
  unfold maps
  congr 1
  · refine byId_eq h.nodup_nodes (ascending_byId h'.nodup_nodes) fun k n => ?_
    rw [mem_byId, ← mem_nodes, ← mem_nodes, ← h.node?_eq_some_iff, ← h'.node?_eq_some_iff, hnode]
  · refine byId_eq h.nodup_edges (ascending_byId h'.nodup_edges) fun k e => ?_
    rw [mem_byId, ← mem_edges, ← mem_edges, ← h.edge?_eq_some_iff, ← h'.edge?_eq_some_iff, hedge]

end WellFormed

/-! ### Edits -/

/-- The maps of a graph that has a new node. -/
theorem WellFormed.maps_insertNode {n : Node}
    (h : ({ g with nodeSlots := g.nodeSlots.insert n } : Graph).edited.WellFormed) :
    ({ g with nodeSlots := g.nodeSlots.insert n } : Graph).edited.maps =
      { g.maps with nodes := g.maps.nodes.put n.id n } := by
  have hnodup := h.nodup_nodes
  simp only [edited, Slots.newest_insert] at hnodup
  unfold maps edited
  dsimp only
  rw [Slots.newest_insert, byId_cons hnodup]

theorem WellFormed.maps_insertEdge {e : Edge}
    (h : ({ g with edgeSlots := g.edgeSlots.insert e } : Graph).edited.WellFormed) :
    ({ g with edgeSlots := g.edgeSlots.insert e } : Graph).edited.maps =
      { g.maps with edges := g.maps.edges.put e.id e } := by
  have hnodup := h.nodup_edges
  simp only [edited, Slots.newest_insert] at hnodup
  unfold maps edited
  dsimp only
  rw [Slots.newest_insert, byId_cons hnodup]

theorem Built.maps_addNode (h : g.Built) (n : Node) :
    (g.addNode n).map maps = g.maps.addNode n := by
  unfold Maps.addNode Dict.has
  rw [h.wellFormed.at?_nodes]
  by_cases hnew : (g.node? n.id).isSome
  · rw [if_pos hnew, show g.addNode n = _ from if_pos hnew]
    rfl
  · have hadd : g.addNode n = .ok _ := if_neg hnew
    rw [if_neg hnew, hadd]
    exact congrArg Except.ok (h.addNode hadd).wellFormed.maps_insertNode

theorem Built.maps_addEdge (h : g.Built) (e : Edge) :
    (g.addEdge e).map maps = g.maps.addEdge e := by
  have haccepted : ∀ {g'}, g.addEdge e = .ok g' → g'.WellFormed := fun hadd =>
    (h.addEdge hadd).wellFormed
  unfold Graph.addEdge hasNode at haccepted ⊢
  unfold Maps.addEdge Dict.has
  rw [h.wellFormed.at?_edges, h.wellFormed.at?_nodes]
  by_cases hnew : (g.edge? e.id).isSome
  · simp only [if_pos hnew]
    rfl
  by_cases hloop : e.source = e.target
  · simp only [if_neg hnew, if_pos hloop]
    rfl
  simp only [if_neg hnew, if_neg hloop] at haccepted ⊢
  cases hsource : g.node? e.source with
  | none => rfl
  | some n =>
    simp only [hsource] at haccepted ⊢
    by_cases htarget : (g.node? e.target).isSome
    · simp only [if_pos htarget] at haccepted ⊢
      exact congrArg Except.ok (haccepted rfl).maps_insertEdge
    · simp only [if_neg htarget]
      rfl

theorem Built.maps_removeNode (h : g.Built) (id : String) :
    (g.removeNode id).map (fun r => (r.1, r.2.maps)) = g.maps.removeNode id := by
  have hwf := h.wellFormed
  unfold Graph.removeNode Maps.removeNode
  rw [hwf.at?_nodes]
  cases g.node? id with
  | none => rfl
  | some n =>
    refine congrArg (fun m => Except.ok (n, m)) ?_
    unfold maps edited
    dsimp only
    congr 1
    · rw [Slots.newest_remove]
      exact byId_without hwf.nodup_nodes id
    · rw [Slots.newest_remove, Slots.newest_remove, List.filter_filter]
      exact byId_filter hwf.nodup_edges fun e _ => by grind

theorem Built.maps_removeEdge (h : g.Built) (id : String) :
    (g.removeEdge id).map (fun r => (r.1, r.2.maps)) = g.maps.removeEdge id := by
  have hwf := h.wellFormed
  unfold Graph.removeEdge Maps.removeEdge
  rw [hwf.at?_edges]
  cases g.edge? id with
  | none => rfl
  | some e =>
    refine congrArg (fun m => Except.ok (e, m)) ?_
    unfold maps edited
    dsimp only
    rw [Slots.newest_remove]
    congr 1
    exact byId_without hwf.nodup_edges id

/-- The maps of a graph are edited as the graph is. -/
theorem Built.maps_perform (h : g.Built) (e : Edit) :
    (g.perform e).map (fun r => (r.1, r.2.maps)) = g.maps.perform e := by
  cases e with
  | addNode n =>
    show _ = (g.maps.addNode n).map _
    rw [← h.maps_addNode]
    show ((g.addNode n).map _).map _ = _
    cases g.addNode n <;> rfl
  | addEdge e =>
    show _ = (g.maps.addEdge e).map _
    rw [← h.maps_addEdge]
    show ((g.addEdge e).map _).map _ = _
    cases g.addEdge e <;> rfl
  | removeNode id =>
    show _ = (g.maps.removeNode id).map _
    rw [← h.maps_removeNode]
    show ((g.removeNode id).map _).map _ = _
    cases g.removeNode id <;> rfl
  | removeEdge id =>
    show _ = (g.maps.removeEdge id).map _
    rw [← h.maps_removeEdge]
    show ((g.removeEdge id).map _).map _ = _
    cases g.removeEdge id <;> rfl
  | setGlobals globals => rfl

theorem Built.maps_edit (h : g.Built) (e : Edit) : (g.edit e).maps = g.maps.edit e := by
  unfold Graph.edit Maps.edit
  rw [← h.maps_perform]
  cases g.perform e <;> rfl

theorem Built.maps_edits (h : g.Built) (es : List Edit) : (g.edits es).maps = g.maps.edits es := by
  induction es generalizing g with
  | nil => rfl
  | cons e es ih =>
    rw [edits_cons, ih (h.edit e), h.maps_edit]
    rfl

/-- A node takes the edges at it along, and nothing else. -/
theorem Built.lookups_removeNode {g' : Graph} {n : Node} (h : g.Built)
    (hremove : g.removeNode id = .ok (n, g')) :
    (∀ k, g'.node? k = if k = id then none else g.node? k) ∧
      ∀ k, g'.edge? k = (g.edge? k).filter fun e => e.source ≠ id ∧ e.target ≠ id := by
  have hwf := h.wellFormed
  have hwf' := (h.removeNode hremove).wellFormed
  obtain ⟨-, hafter⟩ := removeNode_eq_ok hremove
  constructor
  · intro k
    apply Option.ext
    intro m
    have hmem : m ∈ g'.nodes ↔ m ∈ g.nodes ∧ m.id ≠ id := by simp [hafter, edited]
    rw [hwf'.node?_eq_some_iff, hmem]
    split
    · grind
    · rw [hwf.node?_eq_some_iff]
      grind
  · intro k
    apply Option.ext
    intro e
    have hmem : e ∈ g'.edges ↔ e ∈ g.edges ∧ e.target ≠ id ∧ e.source ≠ id := by
      simp [hafter, edited]
    rw [hwf'.edge?_eq_some_iff, hmem, Option.filter_eq_some_iff, hwf.edge?_eq_some_iff]
    grind

end Graph

namespace Indexed

variable {x y : Indexed} {e : Edit} {v : Handed} {error : TaskError}

namespace Aligned

theorem answers_eq (h : x.Aligned) : x.answers = x.graph.maps.answers := by
  rw [← h.built.wellFormed.answers_eq]
  unfold answers Graph.answers
  congr 1
  · exact h.node?_eq
  · exact h.edge?_eq
  · exact h.edgesFrom_eq
  · exact h.edgesInto_eq
  · exact h.entries_eq
  · exact (List.length_map ..).symm

/-- An edit that is refused changes nothing. -/
theorem refused (h : x.Aligned) (hperform : x.perform e = (.error error, y)) :
    y = x ∧ x.graph.perform e = .error error ∧ x.graph.maps.perform e = .error error := by
  have hfollows := h.follows e
  rw [hperform] at hfollows
  generalize hr : x.graph.perform e = r at hfollows
  cases hfollows
  refine ⟨rfl, rfl, ?_⟩
  rw [← h.built.maps_perform, hr]
  rfl

/-- An edit that is accepted raises the revision, and does to the maps what it does to the graph. -/
theorem accepted (h : x.Aligned) (hperform : x.perform e = (.ok v, y)) :
    y.Aligned ∧ x.revision < y.revision ∧ x.graph.perform e = .ok (v, y.graph) ∧
      x.graph.maps.perform e = .ok (v, y.graph.maps) := by
  have hfollows := h.follows e
  rw [hperform] at hfollows
  generalize hr : x.graph.perform e = r at hfollows
  cases hfollows with
  | done _ haligned =>
    refine ⟨haligned, ?_, rfl, ?_⟩
    · rw [show y.revision = x.revision + 1 from Graph.revision_perform hr]
      exact Nat.lt_succ_self _
    · rw [← h.built.maps_perform, hr]
      rfl

end Aligned

/-- After any history of edits, a graph by slots and indexes, the graph and a pair of maps that were
edited alike hold the same and answer every question the same, which only depends on what is found
under the ids. The next edit is refused by all three for the same reason, and then nothing changes,
or it is accepted by all three and raises the revision. -/
theorem refines_maps (es : List Edit) :
    let x := Indexed.edits {} es
    let g := Graph.edits {} es
    let m := Maps.edits {} es
    (x.graph = g ∧ g.maps = m) ∧ (x.answers = m.answers ∧ g.answers = m.answers) ∧
    (∀ es', (Indexed.edits {} es').node? = x.node? → (Indexed.edits {} es').edge? = x.edge? →
      (Indexed.edits {} es').answers = x.answers) ∧
    -- ids are unique, and every edge joins two different nodes
    g.WellFormed ∧
    (∀ e ∈ g.edges, ∃ n, g.node? e.source = some n ∧ (e.branch.isSome ↔ n.kind.isBranching)) ∧
    -- the next edit
    (∀ e error y, x.perform e = (.error error, y) →
      y = x ∧ g.perform e = .error error ∧ m.perform e = .error error) ∧
    (∀ e v y, x.perform e = (.ok v, y) → x.revision < y.revision ∧
      g.perform e = .ok (v, y.graph) ∧ ∃ m', m.perform e = .ok (v, m') ∧ y.answers = m'.answers) ∧
    ∀ id n y, x.perform (.removeNode id) = (.ok (.node n), y) → x.node? id = some n ∧
      (∀ k, y.node? k = if k = id then none else x.node? k) ∧
      ∀ k, y.edge? k = (x.edge? k).filter fun e => e.source ≠ id ∧ e.target ≠ id := by
  intro x g m
  obtain ⟨hx, hgraph⟩ := aligned_empty.edits es
  replace hgraph : x.graph = g := hgraph
  have hg : g.Built := Graph.Built.empty.edits es
  have hmaps : g.maps = m := (Graph.Built.empty.maps_edits es).trans (Graph.maps_empty ▸ rfl)
  have hxmaps : x.graph.maps = m := hgraph ▸ hmaps
  refine ⟨⟨hgraph, hmaps⟩, ⟨hxmaps ▸ hx.answers_eq, hmaps ▸ hg.wellFormed.answers_eq⟩, ?_,
    hg.wellFormed, ?_, ?_, ?_, ?_⟩
  · intro es' hnode hedge
    obtain ⟨hx', -⟩ := aligned_empty.edits es'
    rw [hx'.answers_eq, hx.answers_eq]
    congr 1
    apply hx'.built.wellFormed.maps_eq_of_lookups hx.built.wellFormed
    · rw [← hx'.node?_eq, ← hx.node?_eq, hnode]
    · rw [← hx'.edge?_eq, ← hx.edge?_eq, hedge]
  · intro e he
    obtain ⟨n, hn⟩ := hg.wellFormed.exists_source he
    obtain ⟨hmem, hid⟩ := hg.wellFormed.node?_eq_some_iff.1 hn
    exact ⟨n, hn, hg.branch_isSome_iff e (Graph.mem_edges.1 he) n (Graph.mem_nodes.1 hmem) hid⟩
  · intro e error y hperform
    obtain ⟨hsame, hg', hm'⟩ := hx.refused hperform
    exact ⟨hsame, hgraph ▸ hg', hxmaps ▸ hm'⟩
  · intro e v y hperform
    obtain ⟨hy, hrevision, hg', hm'⟩ := hx.accepted hperform
    exact ⟨hrevision, hgraph ▸ hg', y.graph.maps, hxmaps ▸ hm', hy.answers_eq⟩
  · intro id n y hperform
    obtain ⟨hy, -, hg', -⟩ := hx.accepted hperform
    obtain ⟨⟨n', g'⟩, hremove, heq⟩ := Graph.map_eq_ok hg'
    cases heq
    rw [hy.node?_eq, hy.edge?_eq, hx.node?_eq, hx.edge?_eq]
    exact ⟨(Graph.removeNode_eq_ok hremove).1, hx.built.lookups_removeNode hremove⟩

/-- Edits after which a node has the slot of one that was removed, and the last one refused. -/
def reusing : List Edit :=
  [.addNode ⟨"a", "a", .start, "start", {}⟩, .addNode ⟨"b", "b", .judge ["x"], "judge", {}⟩,
    .addNode ⟨"c", "c", .finish, "end", {}⟩, .addEdge (.new "e1" "a" "b"),
    .addEdge (.new "e2" "b" "c"), .removeNode "a", .addNode ⟨"d", "d", .script, "script", {}⟩,
    .addEdge (.new "e3" "d" "b"), .addEdge (.new "e4" "b" "a")]

/-- Edits that lead to the same nodes and edges without detours. -/
def straight : List Edit :=
  [.addNode ⟨"b", "b", .judge ["x"], "judge", {}⟩, .addNode ⟨"c", "c", .finish, "end", {}⟩,
    .addNode ⟨"d", "d", .script, "script", {}⟩, .addEdge (.new "e3" "d" "b"),
    .addEdge (.new "e2" "b" "c")]

theorem refines_maps_reusing :
    let x := Indexed.edits {} reusing
    let x' := Indexed.edits {} straight
    let y := (x.perform (.removeNode "b")).2
    x.nodeIndex.at? "d" = some 0 ∧ x'.nodeIndex.at? "d" = some 2 ∧ x'.answers = x.answers ∧
      (x.perform (.removeNode "a")).2 = x ∧ x.revision < y.revision ∧ y.edge? "e2" = none := by
  have hmaps : Maps.edits {} straight = Maps.edits {} reusing := by decide +kernel
  have hslots : (Indexed.edits {} reusing).nodeIndex.at? "d" = some 0 ∧
      (Indexed.edits {} straight).nodeIndex.at? "d" = some 2 := by decide +kernel
  have hgone : ((Indexed.edits {} reusing).perform (.removeNode "a")).1 =
      .error (.nodeNotFound "a") := by decide +kernel
  have hthere : ((Indexed.edits {} reusing).perform (.removeNode "b")).1 =
      .ok (.node ⟨"b", "b", .judge ["x"], "judge", {}⟩) := by decide +kernel
  have hedge : (Indexed.edits {} reusing).edge? "e2" =
      some { Edge.new "e2" "b" "c" with branch := some (.defaultOf "b") } := by decide +kernel
  obtain ⟨-, ⟨hanswers, -⟩, hsame, -, -, hrefused, haccepted, hremoved⟩ := refines_maps reusing
  have hanswers' := (refines_maps straight).2.1.1.trans (hmaps ▸ hanswers.symm)
  refine ⟨hslots.1, hslots.2, ?_, ?_, ?_, ?_⟩
  · exact hsame straight (congrArg Answers.node? hanswers') (congrArg Answers.edge? hanswers')
  · exact (hrefused _ _ _ (Prod.ext hgone rfl)).1
  · exact (haccepted _ _ _ (Prod.ext hthere rfl)).1
  · refine ((hremoved _ _ _ (Prod.ext hthere rfl)).2.2 "e2").trans ?_
    rw [hedge]
    rfl

end Indexed
end Flowrun
