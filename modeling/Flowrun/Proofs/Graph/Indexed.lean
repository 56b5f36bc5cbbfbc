import Flowrun.Dict
import Flowrun.Proofs.Graph.Edits
import Flowrun.Proofs.Graph.Slots

/-!
# A graph by slots and indexes

An `Indexed` graph keeps nodes and edges in slots, and finds them by two indexes from ids to slots;
an edge is between slots, not between ids. Every edit has to keep the slots and both indexes
together, and a slot that was given up is used again: an index that still led to it would answer for
another node or edge.

It is `Aligned` after every edit. Then it answers every question as the `Graph` does that has the
same nodes and edges in the same slots, and is edited as that graph is:

    x.Aligned → Follows x (x.perform e) (x.graph.perform e)

In particular, when a node or an edge was found by its index, its slot is in use, so an edit that
has begun to change the indexes does not fail any more.
-/

namespace Flowrun

/-! ### Indexes -/

section Index

variable {α : Type} {key : α → String} {d : Dict Nat} {s s' : Slots α} {id id' : String}
  {i j : Nat} {a b : α}

/-- An index has the slot of every value under its id, and nothing else. -/
def Indexes (key : α → String) (d : Dict Nat) (s : Slots α) : Prop :=
  ∀ id i, d.at? id = some i ↔ ∃ a, (i, a) ∈ s.entries ∧ key a = id

namespace Indexes

theorem empty (key : α → String) : Indexes key [] {} := fun _ _ => by simp [Dict.at?]

theorem at?_eq (h : Indexes key d s) (ha : (i, a) ∈ s.entries) : d.at? (key a) = some i :=
  (h _ _).2 ⟨a, ha, rfl⟩

/-- What is found through the index is in a slot, under its id. -/
theorem read?_eq_some_iff (h : Indexes key d s) (hs : s.Sound) :
    (d.at? id).bind s.read? = some a ↔ ∃ i, (i, a) ∈ s.entries ∧ key a = id := by
  rw [Option.bind_eq_some_iff]
  constructor
  · rintro ⟨i, hi, hread⟩
    obtain ⟨b, hb, hkey⟩ := (h id i).1 hi
    have ha := hs.read?_eq_some_iff.1 hread
    exact ⟨i, ha, hs.unique hb ha ▸ hkey⟩
  · rintro ⟨i, ha, rfl⟩
    exact ⟨i, h.at?_eq ha, hs.read?_eq_some_iff.2 ha⟩

/-- A slot is only found under the id of its value. -/
theorem key_eq_iff (h : Indexes key d s) (hs : s.Sound) (hi : d.at? id = some i)
    (hj : d.at? id' = some j) : j = i ↔ id' = id := by
  constructor
  · rintro rfl
    obtain ⟨a, ha, rfl⟩ := (h _ _).1 hi
    obtain ⟨b, hb, rfl⟩ := (h _ _).1 hj
    rw [hs.unique ha hb]
  · rintro rfl
    exact Option.some.inj (hj.symm.trans hi)

/-- A new value is put into the index under its slot. -/
theorem insert (h : Indexes key d s) (a : α) (hnew : d.at? (key a) = none) :
    Indexes key (d.put (key a) s.slot) (s.insert a) := by
  intro id i
  rw [Dict.at?_put, Slots.entries_insert]
  split
  · next hid =>
    subst hid
    constructor
    · intro hi
      cases hi
      exact ⟨a, List.mem_cons_self, rfl⟩
    · rintro ⟨b, hb, hkey⟩
      rcases List.mem_cons.1 hb with heq | hb
      · rw [(Prod.mk.inj heq).1]
      · rw [← hkey, h.at?_eq hb] at hnew
        cases hnew
  · next hid =>
    rw [h id i]
    constructor
    · rintro ⟨b, hb, hkey⟩
      exact ⟨b, List.mem_cons_of_mem _ hb, hkey⟩
    · rintro ⟨b, hb, hkey⟩
      rcases List.mem_cons.1 hb with heq | hb
      · obtain ⟨-, rfl⟩ := Prod.mk.inj heq
        exact absurd hkey hid
      · exact ⟨b, hb, hkey⟩

/-- When values are given up, their ids have to be taken out of the index, and no others. -/
theorem remove (h : Indexes key d s) (ids : List String) {p : α → Bool}
    (hs : ∀ i a, (i, a) ∈ s'.entries ↔ (i, a) ∈ s.entries ∧ p a = false)
    (hids : ∀ i a, (i, a) ∈ s.entries → (key a ∈ ids ↔ p a = true)) :
    Indexes key (ids.foldl Dict.without d) s' := by
  intro id i
  rw [Dict.at?_foldl_without]
  split
  · next hid =>
    constructor
    · intro hi
      cases hi
    · rintro ⟨a, ha, rfl⟩
      obtain ⟨ha, hp⟩ := (hs i a).1 ha
      rw [(hids i a ha).1 hid] at hp
      cases hp
  · next hid =>
    rw [h id i]
    constructor
    · rintro ⟨a, ha, rfl⟩
      have hp : p a = false := Bool.eq_false_iff.2 fun hp => hid ((hids i a ha).2 hp)
      exact ⟨a, (hs i a).2 ⟨ha, hp⟩, rfl⟩
    · rintro ⟨a, ha, rfl⟩
      exact ⟨a, ((hs i a).1 ha).1, rfl⟩

end Indexes
end Index

/-! ### The graph -/

/-- An edge and the slots of its ends. -/
structure Arc where
  source : Nat
  target : Nat
  edge : Edge

/-- A graph that keeps its nodes and edges in slots and finds them by indexes. -/
structure Indexed where
  nodeSlots : Slots Node := {}
  arcSlots : Slots Arc := {}
  /-- The slots of the nodes by their ids. -/
  nodeIndex : Dict Nat := []
  /-- The slots of the edges by their ids. -/
  edgeIndex : Dict Nat := []
  globals : List GlobalVariable := []
  revision : Nat := 0

namespace Indexed

/-! #### Looking up -/

def node? (x : Indexed) (id : String) : Option Node :=
  (x.nodeIndex.at? id).bind x.nodeSlots.read?

def edge? (x : Indexed) (id : String) : Option Edge :=
  ((x.edgeIndex.at? id).bind x.arcSlots.read?).map Arc.edge

/-- The edges with a slot for an end (`Arc.source` or `Arc.target`), the newest first. -/
def edgesAt (x : Indexed) (f : Arc → Nat) (slot : Nat) : List Edge :=
  (x.arcSlots.newest.filter (f · == slot)).map Arc.edge

/-- The ids of the edges with a slot for an end, first of those that lead to it. -/
def incident (x : Indexed) (slot : Nat) : List String :=
  (x.edgesAt Arc.target slot ++ x.edgesAt Arc.source slot).map Edge.id

/-- The edges with a node for an end, by id. -/
def directed (x : Indexed) (f : Arc → Nat) (id : String) : List Edge :=
  ((x.nodeIndex.at? id).map fun slot => Graph.sortEdges (x.edgesAt f slot)).getD []

def edgesInto (x : Indexed) (id : String) : List Edge := x.directed Arc.target id

def edgesFrom (x : Indexed) (id : String) : List Edge := x.directed Arc.source id

/-- The nodes that no edge leads to, by id. -/
def entries (x : Indexed) : List Node :=
  Graph.sortNodes ((x.nodeSlots.sorted.filter fun e => x.edgesAt Arc.target e.1 == []).map Prod.snd)

/-! #### Edits -/

def edited (x : Indexed) : Indexed := { x with revision := x.revision + 1 }

def addNode (x : Indexed) (n : Node) : Except TaskError Unit × Indexed :=
  if x.nodeIndex.has n.id then (.error (.duplicateNode n.id), x)
  else (.ok (), { x with
    nodeIndex := x.nodeIndex.put n.id x.nodeSlots.slot
    nodeSlots := x.nodeSlots.insert n }.edited)

def addEdge (x : Indexed) (e : Edge) : Except TaskError Unit × Indexed :=
  if x.edgeIndex.has e.id then (.error (.duplicateEdge e.id), x)
  else if e.source = e.target then (.error (.selfLoop e.source), x)
  else match x.nodeIndex.at? e.source with
    | none => (.error (.endpointMissing e.id e.source), x)
    | some source => match x.nodeIndex.at? e.target with
      | none => (.error (.endpointMissing e.id e.target), x)
      | some target =>
        let bound := match x.nodeSlots.read? source with
          | some n => e.bind n.kind
          | none => e
        (.ok (), { x with
          edgeIndex := x.edgeIndex.put e.id x.arcSlots.slot
          arcSlots := x.arcSlots.insert ⟨source, target, bound⟩ }.edited)

/-- Remove a node. The indexes are changed first, and the slots after that. -/
def removeNode (x : Indexed) (id : String) : Except TaskError Node × Indexed :=
  match x.nodeIndex.at? id with
  | none => (.error (.nodeNotFound id), x)
  | some slot =>
    let y := { x with
      nodeIndex := x.nodeIndex.without id
      edgeIndex := (x.incident slot).foldl Dict.without x.edgeIndex }
    match x.nodeSlots.removeAt? slot with
    | none => (.error (.nodeNotFound id), y)
    | some (n, nodeSlots) => (.ok n, { y with
        nodeSlots
        arcSlots := (x.arcSlots.remove (·.source == slot)).remove (·.target == slot) }.edited)

def removeEdge (x : Indexed) (id : String) : Except TaskError Edge × Indexed :=
  match x.edgeIndex.at? id with
  | none => (.error (.edgeNotFound id), x)
  | some slot =>
    let y := { x with edgeIndex := x.edgeIndex.without id }
    match x.arcSlots.removeAt? slot with
    | none => (.error (.edgeNotFound id), y)
    | some (a, arcSlots) => (.ok a.edge, { y with arcSlots }.edited)

/-- What an edit hands back or why it is refused, and the graph after it. -/
def perform (x : Indexed) : Edit → Except TaskError Handed × Indexed
  | .addNode n => ((x.addNode n).1.map fun _ => .nothing, (x.addNode n).2)
  | .addEdge e => ((x.addEdge e).1.map fun _ => .nothing, (x.addEdge e).2)
  | .removeNode id => ((x.removeNode id).1.map .node, (x.removeNode id).2)
  | .removeEdge id => ((x.removeEdge id).1.map .edge, (x.removeEdge id).2)
  | .setGlobals globals => (.ok .nothing, { x with globals }.edited)

def edits (x : Indexed) (es : List Edit) : Indexed := es.foldl (fun x e => (x.perform e).2) x

/-! ### Slots and indexes together -/

/-- The graph with the same nodes and edges in the same slots. -/
def graph (x : Indexed) : Graph where
  nodeSlots := x.nodeSlots
  edgeSlots := x.arcSlots.mapped Arc.edge
  globals := x.globals
  revision := x.revision

/-- The indexes lead to the slots that are in use, and every edge is between the slots of its
ends. -/
structure Aligned (x : Indexed) : Prop where
  nodes : x.nodeSlots.Sound
  arcs : x.arcSlots.Sound
  built : x.graph.Built
  nodeIndex : Indexes Node.id x.nodeIndex x.nodeSlots
  edgeIndex : Indexes (fun a : Arc => a.edge.id) x.edgeIndex x.arcSlots
  source : ∀ i a, (i, a) ∈ x.arcSlots.entries → x.nodeIndex.at? a.edge.source = some a.source
  target : ∀ i a, (i, a) ∈ x.arcSlots.entries → x.nodeIndex.at? a.edge.target = some a.target

theorem aligned_empty : Aligned {} where
  nodes := Slots.sound_empty
  arcs := Slots.sound_empty
  built := .empty
  nodeIndex := .empty _
  edgeIndex := .empty _
  source := nofun
  target := nofun

variable {x : Indexed} {id : String} {i j : Nat} {a : Arc} {e : Edge} {n : Node}

theorem mem_newest_iff {α : Type} {s : Slots α} {v : α} :
    v ∈ s.newest ↔ ∃ i, (i, v) ∈ s.entries := by
  simp [Slots.newest]

theorem newest_graph (x : Indexed) :
    x.graph.edgeSlots.newest = x.arcSlots.newest.map Arc.edge := by
  simp [graph, Slots.mapped, Slots.newest]

/-! ### Questions -/

namespace Aligned

theorem node?_eq (h : x.Aligned) : x.node? = x.graph.node? := by
  funext id
  apply Option.ext
  intro n
  unfold node?
  rw [h.nodeIndex.read?_eq_some_iff h.nodes, h.built.wellFormed.node?_eq_some_iff, Graph.mem_nodes,
    mem_newest_iff, exists_and_right]
  rfl

theorem edge?_eq (h : x.Aligned) : x.edge? = x.graph.edge? := by
  funext id
  apply Option.ext
  intro e
  unfold edge?
  rw [Option.map_eq_some_iff, h.built.wellFormed.edge?_eq_some_iff, Graph.mem_edges, newest_graph]
  simp only [h.edgeIndex.read?_eq_some_iff h.arcs, List.mem_map, mem_newest_iff]
  grind

section Ends

variable {f : Arc → Nat} {k : Edge → String}

/-- An end of an edge is the slot of a node if it has the id of the node. -/
theorem end_iff (h : x.Aligned)
    (hf : ∀ j a, (j, a) ∈ x.arcSlots.entries → x.nodeIndex.at? (k a.edge) = some (f a))
    (hi : x.nodeIndex.at? id = some i) (ha : (j, a) ∈ x.arcSlots.entries) :
    f a = i ↔ k a.edge = id :=
  h.nodeIndex.key_eq_iff h.nodes hi (hf j a ha)

theorem edgesAt_eq (h : x.Aligned)
    (hf : ∀ j a, (j, a) ∈ x.arcSlots.entries → x.nodeIndex.at? (k a.edge) = some (f a))
    (hi : x.nodeIndex.at? id = some i) :
    x.edgesAt f i = x.graph.edgeSlots.newest.filter (k · == id) := by
  unfold edgesAt
  rw [newest_graph, List.filter_map]
  congr 1
  apply List.filter_congr
  intro a ha
  obtain ⟨j, ha⟩ := mem_newest_iff.1 ha
  simpa using h.end_iff hf hi ha

theorem directed_eq (h : x.Aligned)
    (hf : ∀ j a, (j, a) ∈ x.arcSlots.entries → x.nodeIndex.at? (k a.edge) = some (f a))
    (id : String) :
    x.directed f id = Graph.sortEdges (x.graph.edgeSlots.newest.filter (k · == id)) := by
  unfold directed
  cases hi : x.nodeIndex.at? id with
  | some i =>
    rw [← h.edgesAt_eq hf hi]
    rfl
  | none =>
    -- the ends of every edge are in the index, so no edge has this one
    have hnone : x.graph.edgeSlots.newest.filter (k · == id) = [] := by
      rw [newest_graph, List.filter_eq_nil_iff]
      intro e he hid
      obtain ⟨a, ha, rfl⟩ := List.mem_map.1 he
      obtain ⟨j, ha⟩ := mem_newest_iff.1 ha
      rw [← beq_iff_eq.1 hid, hf j a ha] at hi
      cases hi
    rw [hnone]
    exact List.mergeSort_nil.symm

end Ends

theorem edgesInto_eq (h : x.Aligned) : x.edgesInto = x.graph.edgesInto :=
  funext (h.directed_eq h.target)

theorem edgesFrom_eq (h : x.Aligned) : x.edgesFrom = x.graph.edgesFrom :=
  funext (h.directed_eq h.source)

theorem entries_eq (h : x.Aligned) : x.entries = x.graph.entries := by
  unfold entries Graph.entries Graph.nodes Slots.inOrder
  rw [List.filter_map]
  congr 2
  apply List.filter_congr
  rintro ⟨i, n⟩ hn
  have hentry : (i, n) ∈ x.nodeSlots.entries := List.mem_mergeSort.1 hn
  have hi : x.nodeIndex.at? n.id = some i := h.nodeIndex.at?_eq hentry
  simp [h.edgesAt_eq h.target hi, Graph.incoming]

/-! #### What an index says -/

theorem node?_eq_none (h : x.Aligned) (hi : x.nodeIndex.at? id = none) :
    x.graph.node? id = none := by
  rw [← h.node?_eq]
  unfold node?
  rw [hi]
  rfl

theorem exists_node (h : x.Aligned) (hi : x.nodeIndex.at? id = some i) :
    ∃ n, (i, n) ∈ x.nodeSlots.entries ∧ n.id = id ∧ x.graph.node? id = some n := by
  obtain ⟨n, hn, rfl⟩ := (h.nodeIndex _ _).1 hi
  refine ⟨n, hn, rfl, h.built.wellFormed.node?_id ?_⟩
  exact Graph.mem_nodes.2 (mem_newest_iff.2 ⟨i, hn⟩)

theorem has_eq (h : x.Aligned) (id : String) : x.nodeIndex.has id = x.graph.hasNode id := by
  unfold Dict.has Graph.hasNode
  cases hi : x.nodeIndex.at? id with
  | none => rw [h.node?_eq_none hi]; rfl
  | some i =>
    obtain ⟨n, -, -, hn⟩ := h.exists_node hi
    rw [hn]
    rfl

theorem edge?_eq_none (h : x.Aligned) (hi : x.edgeIndex.at? id = none) :
    x.graph.edge? id = none := by
  rw [← h.edge?_eq]
  unfold edge?
  rw [hi]
  rfl

theorem exists_arc (h : x.Aligned) (hi : x.edgeIndex.at? id = some i) :
    ∃ a, (i, a) ∈ x.arcSlots.entries ∧ a.edge.id = id ∧ x.graph.edge? id = some a.edge := by
  obtain ⟨a, ha, rfl⟩ := (h.edgeIndex _ _).1 hi
  refine ⟨a, ha, rfl, h.built.wellFormed.edge?_eq_some_iff.2 ⟨?_, rfl⟩⟩
  rw [Graph.mem_edges, newest_graph]
  exact List.mem_map_of_mem (mem_newest_iff.2 ⟨i, ha⟩)

theorem hasEdge_eq (h : x.Aligned) (id : String) :
    x.edgeIndex.has id = (x.graph.edge? id).isSome := by
  unfold Dict.has
  cases hi : x.edgeIndex.at? id with
  | none => rw [h.edge?_eq_none hi]; rfl
  | some i =>
    obtain ⟨a, -, -, ha⟩ := h.exists_arc hi
    rw [ha]
    rfl

end Aligned

/-! ### Edits -/

/-- The same edit of a graph by slots and indexes and of the graph alone: it is refused for the same
reason and changes nothing, or hands back the same and leads to the same nodes and edges in the same
slots. -/
inductive Follows (x : Indexed) :
    Except TaskError Handed × Indexed → Except TaskError (Handed × Graph) → Prop
  | refused (error : TaskError) : Follows x (.error error, x) (.error error)
  | done (v : Handed) {y : Indexed} : y.Aligned → Follows x (.ok v, y) (.ok (v, y.graph))

namespace Aligned

theorem follows_addNode (h : x.Aligned) (n : Node) :
    Follows x (x.perform (.addNode n)) (x.graph.perform (.addNode n)) := by
  unfold perform Graph.perform Indexed.addNode Graph.addNode
  dsimp only
  rw [h.has_eq]
  split
  · exact .refused _
  · next hnew =>
    have hnone : x.nodeIndex.at? n.id = none := by
      rw [← h.has_eq] at hnew
      simpa [Dict.has] using hnew
    have hkept : ∀ {id i}, x.nodeIndex.at? id = some i →
        (x.nodeIndex.put n.id x.nodeSlots.slot).at? id = some i := by
      intro id i hi
      rw [Dict.at?_put_of_ne]
      · exact hi
      · rintro rfl
        cases hnone.symm.trans hi
    refine .done .nothing ⟨h.nodes.insert n, h.arcs, ?_, h.nodeIndex.insert n hnone, h.edgeIndex,
      fun j a ha => hkept (h.source j a ha), fun j a ha => hkept (h.target j a ha)⟩
    exact h.built.addNode (if_neg hnew)

/-- An edge that is put between the slots of its ends. -/
theorem insertArc (h : x.Aligned) (hnew : x.edgeIndex.at? e.id = none)
    (hloop : e.source ≠ e.target) (hs : x.nodeIndex.at? e.source = some i)
    (ht : x.nodeIndex.at? e.target = some j) (hn : x.graph.node? e.source = some n) :
    let y := { x with
      edgeIndex := x.edgeIndex.put e.id x.arcSlots.slot
      arcSlots := x.arcSlots.insert ⟨i, j, e.bind n.kind⟩ }.edited
    x.graph.addEdge e = .ok y.graph ∧ y.Aligned := by
  intro y
  have hadd : x.graph.addEdge e = .ok y.graph := by
    have htarget : x.graph.hasNode e.target = true := by
      rw [← h.has_eq, Dict.has, ht]
      rfl
    have hgraph : y.graph = ({ x.graph with
        edgeSlots := x.graph.edgeSlots.insert (e.bind n.kind) } : Graph).edited := by
      show Graph.mk _ ((x.arcSlots.insert _).mapped Arc.edge) _ _ = _
      rw [Slots.mapped_insert]
      rfl
    unfold Graph.addEdge
    rw [h.edge?_eq_none hnew, hn, hgraph, if_neg hloop]
    simp [htarget]
  have hends : ∀ {k a}, (k, a) ∈ y.arcSlots.entries →
      a = ⟨i, j, e.bind n.kind⟩ ∨ (k, a) ∈ x.arcSlots.entries := by
    intro k a ha
    replace ha : (k, a) ∈ (x.arcSlots.insert ⟨i, j, e.bind n.kind⟩).entries := ha
    rw [Slots.entries_insert] at ha
    exact (List.mem_cons.1 ha).imp_left fun heq => (Prod.mk.inj heq).2
  refine ⟨hadd, h.nodes, h.arcs.insert _, h.built.addEdge hadd, h.nodeIndex,
    h.edgeIndex.insert ⟨i, j, e.bind n.kind⟩ hnew, fun k a ha => ?_, fun k a ha => ?_⟩
  · rcases hends ha with rfl | ha
    · exact hs
    · exact h.source k a ha
  · rcases hends ha with rfl | ha
    · exact ht
    · exact h.target k a ha

theorem follows_addEdge (h : x.Aligned) (e : Edge) :
    Follows x (x.perform (.addEdge e)) (x.graph.perform (.addEdge e)) := by
  have refused : ∀ error, x.addEdge e = (.error error, x) → x.graph.addEdge e = .error error →
      Follows x (x.perform (.addEdge e)) (x.graph.perform (.addEdge e)) := by
    intro error hx hg
    unfold perform Graph.perform
    dsimp only
    rw [hx, hg]
    exact .refused error
  have hindex := h.hasEdge_eq e.id
  by_cases hnew : x.edgeIndex.has e.id = true
  · apply refused (.duplicateEdge e.id)
    · exact if_pos hnew
    · exact if_pos (hindex ▸ hnew)
  have hfresh : ¬ (x.graph.edge? e.id).isSome = true := hindex ▸ hnew
  by_cases hloop : e.source = e.target
  · apply refused (.selfLoop e.source)
    · unfold Indexed.addEdge
      rw [if_neg hnew, if_pos hloop]
    · unfold Graph.addEdge
      rw [if_neg hfresh, if_pos hloop]
  cases hs : x.nodeIndex.at? e.source with
  | none =>
    apply refused (.endpointMissing e.id e.source)
    · unfold Indexed.addEdge
      rw [if_neg hnew, if_neg hloop, hs]
    · unfold Graph.addEdge
      rw [if_neg hfresh, if_neg hloop, h.node?_eq_none hs]
  | some i =>
    obtain ⟨n, hn, -, hsource⟩ := h.exists_node hs
    cases ht : x.nodeIndex.at? e.target with
    | none =>
      apply refused (.endpointMissing e.id e.target)
      · unfold Indexed.addEdge
        rw [if_neg hnew, if_neg hloop, hs, ht]
      · unfold Graph.addEdge
        rw [if_neg hfresh, if_neg hloop, hsource, Graph.hasNode, h.node?_eq_none ht]
        rfl
    | some j =>
      have hfree : x.edgeIndex.at? e.id = none := by simpa [Dict.has] using hnew
      obtain ⟨hadd, haligned⟩ := h.insertArc hfree hloop hs ht hsource
      have hx : x.addEdge e = (.ok (), { x with
          edgeIndex := x.edgeIndex.put e.id x.arcSlots.slot
          arcSlots := x.arcSlots.insert ⟨i, j, e.bind n.kind⟩ }.edited) := by
        unfold Indexed.addEdge
        rw [if_neg hnew, if_neg hloop, hs, ht]
        dsimp only
        rw [h.nodes.read?_eq_some_iff.2 hn]
      unfold perform Graph.perform
      dsimp only
      rw [hx, hadd]
      exact .done .nothing haligned

/-- The ids that are taken out of the index of edges are those of the edges at the slot. -/
theorem id_mem_incident_iff (h : x.Aligned) (ha : (j, a) ∈ x.arcSlots.entries) :
    a.edge.id ∈ x.incident i ↔ (a.source == i || a.target == i) = true := by
  have hmem : a.edge.id ∈ x.incident i ↔ ∃ k b, (k, b) ∈ x.arcSlots.entries ∧
      b.edge.id = a.edge.id ∧ (b.source == i || b.target == i) = true := by
    simp only [incident, edgesAt, List.map_append, List.map_map, List.mem_append, List.mem_map,
      List.mem_filter, mem_newest_iff, Function.comp_apply, beq_iff_eq, Bool.or_eq_true]
    grind
  rw [hmem]
  constructor
  · rintro ⟨k, b, hb, hid, hat⟩
    obtain rfl := (h.edgeIndex.key_eq_iff h.arcs (h.edgeIndex.at?_eq ha)
      (h.edgeIndex.at?_eq hb)).2 hid
    rwa [h.arcs.unique ha hb]
  · exact fun hat => ⟨j, a, ha, rfl, hat⟩

/-- The edges that are left are those of which no end has the slot. -/
theorem mem_released {s : Slots Arc} :
    (j, a) ∈ ((s.remove (·.source == i)).remove (·.target == i)).entries ↔
      (j, a) ∈ s.entries ∧ (a.source == i || a.target == i) = false := by
  rw [Slots.mem_remove, Slots.mem_remove, Bool.or_eq_false_iff, and_assoc]

/-- To give up the edges at the slot of a node is to remove those that leave it or lead to it. -/
theorem mapped_released (h : x.Aligned) (hi : x.nodeIndex.at? id = some i) :
    ((x.arcSlots.remove (·.source == i)).remove (·.target == i)).mapped Arc.edge =
      (x.graph.edgeSlots.remove (·.source == id)).remove (·.target == id) := by
  rw [Slots.mapped_remove (q := fun e => e.target == id), Slots.mapped_remove
    (q := fun e => e.source == id)]
  · rfl
  · intro j a ha
    simpa using h.end_iff h.source hi ha
  · intro j a ha
    simpa using h.end_iff h.target hi (Slots.mem_remove.1 ha).1

/-- A node that is taken out together with the edges between its slot and others. -/
theorem release (h : x.Aligned) (hi : x.nodeIndex.at? id = some i)
    (hn : x.graph.node? id = some n) :
    let y := { x with
      nodeIndex := x.nodeIndex.without id
      edgeIndex := (x.incident i).foldl Dict.without x.edgeIndex
      nodeSlots := x.nodeSlots.remove (·.id == id)
      arcSlots := (x.arcSlots.remove (·.source == i)).remove (·.target == i) }.edited
    x.graph.removeNode id = .ok (n, y.graph) ∧ y.Aligned := by
  intro y
  have hremove : x.graph.removeNode id = .ok (n, y.graph) := by
    unfold Graph.removeNode
    rw [hn]
    dsimp only
    rw [← h.mapped_released hi]
    rfl
  -- the ends of an edge that is left are other nodes, so the index still has them
  have hend : ∀ {f : Arc → Nat} {k : Edge → String},
      (∀ j a, (j, a) ∈ x.arcSlots.entries → x.nodeIndex.at? (k a.edge) = some (f a)) →
      ∀ j a, (j, a) ∈ x.arcSlots.entries → f a ≠ i →
        (x.nodeIndex.without id).at? (k a.edge) = some (f a) := by
    intro f k hf j a ha hother
    rw [Dict.at?_without_of_ne]
    · exact hf j a ha
    · exact fun hid => hother ((h.end_iff hf hi ha).2 hid.symm)
  refine ⟨hremove, h.nodes.remove (·.id == id),
    (h.arcs.remove (·.source == i)).remove (·.target == i), h.built.removeNode hremove, ?_, ?_,
    fun j a ha => ?_, fun j a ha => ?_⟩
  · exact h.nodeIndex.remove [id] (fun j m => Slots.mem_remove) fun j m _ => by simp
  · exact h.edgeIndex.remove (x.incident i) (fun j a => mem_released) fun j a ha =>
      h.id_mem_incident_iff ha
  · obtain ⟨ha, hother⟩ := mem_released.1 ha
    exact hend h.source j a ha (by simp_all)
  · obtain ⟨ha, hother⟩ := mem_released.1 ha
    exact hend h.target j a ha (by simp_all)

theorem follows_removeNode (h : x.Aligned) (id : String) :
    Follows x (x.perform (.removeNode id)) (x.graph.perform (.removeNode id)) := by
  unfold perform Graph.perform
  dsimp only
  cases hi : x.nodeIndex.at? id with
  | none =>
    have hx : x.removeNode id = (.error (.nodeNotFound id), x) := by
      unfold Indexed.removeNode
      rw [hi]
    have hg : x.graph.removeNode id = .error (.nodeNotFound id) := by
      unfold Graph.removeNode
      rw [h.node?_eq_none hi]
    rw [hx, hg]
    exact .refused _
  | some i =>
    obtain ⟨n, hn, -, hnode⟩ := h.exists_node hi
    obtain ⟨hremove, haligned⟩ := h.release hi hnode
    -- the slot is in use, so the indexes are not changed in vain
    have hslot : x.nodeSlots.removeAt? i = some (n, x.nodeSlots.remove (·.id == id)) := by
      refine h.nodes.removeAt?_eq hn fun j m hm => ?_
      rw [beq_iff_eq]
      exact (h.nodeIndex.key_eq_iff h.nodes hi (h.nodeIndex.at?_eq hm)).symm
    have hx : x.removeNode id = (.ok n, { x with
        nodeIndex := x.nodeIndex.without id
        edgeIndex := (x.incident i).foldl Dict.without x.edgeIndex
        nodeSlots := x.nodeSlots.remove (·.id == id)
        arcSlots := (x.arcSlots.remove (·.source == i)).remove (·.target == i) }.edited) := by
      unfold Indexed.removeNode
      rw [hi]
      dsimp only
      rw [hslot]
    rw [hx, hremove]
    exact .done (.node n) haligned

/-- An edge that is taken out. -/
theorem releaseArc (h : x.Aligned) (ha : (i, a) ∈ x.arcSlots.entries) :
    let y := { x with
      edgeIndex := x.edgeIndex.without a.edge.id
      arcSlots := x.arcSlots.remove (·.edge.id == a.edge.id) }.edited
    x.graph.removeEdge a.edge.id = .ok (a.edge, y.graph) ∧ y.Aligned := by
  intro y
  have hremove : x.graph.removeEdge a.edge.id = .ok (a.edge, y.graph) := by
    have hedges : y.arcSlots.mapped Arc.edge = x.graph.edgeSlots.remove (·.id == a.edge.id) := by
      show (x.arcSlots.remove _).mapped Arc.edge = _
      rw [Slots.mapped_remove (q := fun e => e.id == a.edge.id)]
      · rfl
      · intro j b _
        rfl
    obtain ⟨b, hb, hid, hedge⟩ := h.exists_arc (h.edgeIndex.at?_eq ha)
    obtain rfl := h.arcs.unique hb ha
    unfold Graph.removeEdge
    rw [hedge]
    dsimp only
    rw [← hedges]
    rfl
  refine ⟨hremove, h.nodes, h.arcs.remove (·.edge.id == a.edge.id), h.built.removeEdge hremove,
    h.nodeIndex, ?_, fun j b hb => h.source j b (Slots.mem_remove.1 hb).1,
    fun j b hb => h.target j b (Slots.mem_remove.1 hb).1⟩
  exact h.edgeIndex.remove [a.edge.id] (fun j b => Slots.mem_remove) fun j b _ => by simp

theorem follows_removeEdge (h : x.Aligned) (id : String) :
    Follows x (x.perform (.removeEdge id)) (x.graph.perform (.removeEdge id)) := by
  unfold perform Graph.perform
  dsimp only
  cases hi : x.edgeIndex.at? id with
  | none =>
    have hx : x.removeEdge id = (.error (.edgeNotFound id), x) := by
      unfold Indexed.removeEdge
      rw [hi]
    have hg : x.graph.removeEdge id = .error (.edgeNotFound id) := by
      unfold Graph.removeEdge
      rw [h.edge?_eq_none hi]
    rw [hx, hg]
    exact .refused _
  | some i =>
    obtain ⟨a, ha, rfl, -⟩ := h.exists_arc hi
    obtain ⟨hremove, haligned⟩ := h.releaseArc ha
    have hslot : x.arcSlots.removeAt? i =
        some (a, x.arcSlots.remove (·.edge.id == a.edge.id)) := by
      refine h.arcs.removeAt?_eq ha fun j b hb => ?_
      rw [beq_iff_eq]
      exact (h.edgeIndex.key_eq_iff h.arcs hi (h.edgeIndex.at?_eq hb)).symm
    have hx : x.removeEdge a.edge.id = (.ok a.edge, { x with
        edgeIndex := x.edgeIndex.without a.edge.id
        arcSlots := x.arcSlots.remove (·.edge.id == a.edge.id) }.edited) := by
      unfold Indexed.removeEdge
      rw [hi]
      dsimp only
      rw [hslot]
    rw [hx, hremove]
    exact .done (.edge a.edge) haligned

/-- Every edit of a graph by slots and indexes is that of the graph. -/
theorem follows (h : x.Aligned) (e : Edit) : Follows x (x.perform e) (x.graph.perform e) := by
  cases e with
  | addNode n => exact h.follows_addNode n
  | addEdge e => exact h.follows_addEdge e
  | removeNode id => exact h.follows_removeNode id
  | removeEdge id => exact h.follows_removeEdge id
  | setGlobals globals =>
    have hbuilt := h.built.setGlobals globals
    exact .done .nothing ⟨h.nodes, h.arcs, hbuilt, h.nodeIndex, h.edgeIndex, h.source, h.target⟩

theorem perform (h : x.Aligned) (e : Edit) :
    (x.perform e).2.Aligned ∧ (x.perform e).2.graph = x.graph.edit e := by
  have hfollows := h.follows e
  unfold Graph.edit
  generalize x.perform e = r at hfollows
  generalize x.graph.perform e = r' at hfollows
  cases hfollows with
  | refused => exact ⟨h, rfl⟩
  | done _ haligned => exact ⟨haligned, rfl⟩

theorem edits (h : x.Aligned) (es : List Edit) :
    (x.edits es).Aligned ∧ (x.edits es).graph = x.graph.edits es := by
  induction es generalizing x with
  | nil => exact ⟨h, rfl⟩
  | cons e es ih =>
    obtain ⟨haligned, hgraph⟩ := h.perform e
    obtain ⟨hafter, heq⟩ := ih haligned
    refine ⟨hafter, heq.trans ?_⟩
    rw [hgraph, Graph.edits_cons]

end Aligned

end Indexed
end Flowrun
