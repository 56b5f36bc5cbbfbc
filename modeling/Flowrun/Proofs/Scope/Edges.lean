import Flowrun.Proofs.Scope.Offers
import Flowrun.Proofs.Scope.Recall

/-!
# What edges do for references

All that a check asks about the edges of a graph is which nodes are upstream. With more edges more
is upstream, so what is in scope stays in scope in a wider graph:

    g.Widens g' → g.InScope id s → g'.InScope id s

Why a reference is refused may change with the edges, since an output that a node does not declare
is only missed when the node is upstream. So what is compared is not the findings but their places,
which are those of the references out of scope (`WellFormed.mem_places_iff`).
-/

namespace Flowrun

/-- Where something was found. -/
def Diagnostic.place (x : Diagnostic) : String × Selector × Option String :=
  (x.node, x.reference, x.field)

namespace Graph

variable {g g' : Graph} {id a b : String} {s : Selector}

/-- A selector leads to what a node may refer to. -/
def InScope (g : Graph) (id : String) (s : Selector) : Prop :=
  if s.isGlobal then g.OffersGlobal s else g.OffersOutput id s

theorem WellFormed.checkReference_eq_ok_iff (hg : g.WellFormed) :
    g.checkReference id s = .ok () ↔ g.InScope id s := by
  unfold InScope
  cases hglobal : s.isGlobal with
  | true => exact checkReference_of_isGlobal hglobal
  | false => exact hg.checkReference_of_not_isGlobal hglobal

/-! ### Wider graphs -/

/-- Nodes and global variables are the same, and no edge is missing. -/
structure Widens (g g' : Graph) : Prop where
  nodeSlots : g'.nodeSlots = g.nodeSlots
  globals : g'.globals = g.globals
  edges : g.edges ⊆ g'.edges

namespace Widens

variable (h : g.Widens g')

include h

theorem nodes_eq : g'.nodes = g.nodes := by
  unfold nodes
  rw [h.nodeSlots]

theorem node?_eq (id : String) : g'.node? id = g.node? id := by
  unfold node?
  rw [h.nodeSlots]

theorem upstream (hup : g.Upstream a b) : g'.Upstream a b := by
  refine Relation.TransGen.mono (fun x y hfeeds => ?_) a b hup
  obtain ⟨e, he, hends⟩ := feeds_iff.1 hfeeds
  exact feeds_iff.2 ⟨e, h.edges he, hends⟩

/-- What is in scope stays in scope. -/
theorem inScope (hs : g.InScope id s) : g'.InScope id s := by
  unfold InScope at hs ⊢
  split
  · next hglobal =>
    rw [if_pos hglobal] at hs
    unfold OffersGlobal
    rw [h.globals]
    exact hs
  · next hglobal =>
    rw [if_neg hglobal] at hs
    obtain ⟨hother, hup, n, hn, hp⟩ := hs
    exact ⟨hother, h.upstream hup, n, (h.node?_eq s.owner).trans hn, hp⟩

end Widens

/-! ### Places -/

/-- The places of all warnings. -/
def places (g : Graph) : List (String × Selector × Option String) :=
  g.checkAll.map Diagnostic.place

theorem map_place_diagnose? (g : Graph) (id : String) (r : FoundReference) :
    (g.diagnose? id r).map Diagnostic.place =
      if g.checkReference id r.selector = .ok () then none
      else some (id, r.selector, some r.field) := by
  unfold diagnose?
  cases g.checkReference id r.selector with
  | ok _ => rfl
  | error fault => rfl

/-- The places are those of the references that do not pass the check. -/
theorem places_eq (g : Graph) :
    g.places = (sortNodes g.nodes).flatMap fun n =>
      ((g.node? n.id).elim [] Node.references).filterMap fun r =>
        if g.checkReference n.id r.selector = .ok () then none
        else some (n.id, r.selector, some r.field) := by
  unfold places checkAll
  rw [List.map_flatMap]
  congr 1
  funext n
  unfold checkReferences
  cases g.node? n.id with
  | none => rfl
  | some m =>
    dsimp only [Option.elim]
    rw [List.map_filterMap]
    exact congrArg (m.references.filterMap ·) (funext (map_place_diagnose? g n.id))

/-- A place is that of a reference out of scope. -/
theorem WellFormed.mem_places_iff (hg : g.WellFormed) {place : String × Selector × Option String} :
    place ∈ g.places ↔ ∃ n ∈ g.nodes, ∃ r ∈ n.references,
      place = (n.id, r.selector, some r.field) ∧ ¬ g.InScope n.id r.selector := by
  rw [places_eq, List.mem_flatMap]
  refine exists_congr fun n => ?_
  rw [sortNodes, List.mem_mergeSort]
  refine and_congr_right fun hn => ?_
  rw [hg.node?_id hn, List.mem_filterMap]
  refine exists_congr fun r => and_congr_right fun _ => ?_
  rw [← hg.checkReference_eq_ok_iff]
  split
  · next hok => simp [hok]
  · next hrefused => simp [hrefused, eq_comm]

/-- In a wider graph some of the places are left, in the same order. -/
theorem WellFormed.places_widens (hg : g.WellFormed) (hg' : g'.WellFormed) (h : g.Widens g') :
    List.Sublist g'.places g.places := by
  rw [places_eq, places_eq, h.nodes_eq]
  refine List.Sublist.flatMap_right _ fun n _ => ?_
  rw [h.node?_eq, List.filterMap_eq_flatMap_toList, List.filterMap_eq_flatMap_toList]
  refine List.Sublist.flatMap_right _ fun r _ => ?_
  by_cases hok : g.checkReference n.id r.selector = .ok ()
  · have hok' : g'.checkReference n.id r.selector = .ok () :=
      hg'.checkReference_eq_ok_iff.2 (h.inScope (hg.checkReference_eq_ok_iff.1 hok))
    rw [if_pos hok']
    exact List.nil_sublist _
  · rw [if_neg hok]
    split
    · exact List.nil_sublist _
    · exact List.Sublist.refl _

/-! ### The same edges -/

theorem WellFormed.isAncestor_widens (hg : g.WellFormed) (hg' : g'.WellFormed) (h : g.Widens g')
    (h' : g'.Widens g) (a b : String) : g'.isAncestor a b = g.isAncestor a b := by
  rw [Bool.eq_iff_iff, hg.isAncestor_iff, hg'.isAncestor_iff]
  exact and_congr_right fun _ => ⟨h'.upstream, h.upstream⟩

/-- If two graphs are wider than each other, their warnings are the same. -/
theorem WellFormed.checkAll_widens (hg : g.WellFormed) (hg' : g'.WellFormed) (h : g.Widens g')
    (h' : g'.Widens g) : g'.checkAll = g.checkAll := by
  have hdeclares : g'.declaresGlobal = g.declaresGlobal := by
    unfold declaresGlobal
    rw [h.globals]
  have hcheck : g'.checkReference = g.checkReference := by
    unfold checkReference
    simp only [hdeclares, h.node?_eq, hg.isAncestor_widens hg' h h']
  unfold checkAll checkReferences diagnose?
  simp only [hcheck, h.nodes_eq, h.node?_eq]

/-! ### Edits -/

variable {e : Edge}

theorem widens_addEdge (h : g.addEdge e = .ok g') : g.Widens g' := by
  obtain ⟨-, -, -, n, -, rfl⟩ := addEdge_eq_ok h
  refine ⟨rfl, rfl, fun x hx => ?_⟩
  rw [mem_edges] at hx ⊢
  exact Slots.newest_insert g.edgeSlots _ ▸ List.mem_cons_of_mem _ hx

theorem widens_removeEdge (h : g.removeEdge id = .ok (e, g')) : g'.Widens g := by
  obtain ⟨-, rfl⟩ := removeEdge_eq_ok h
  refine ⟨rfl, rfl, fun x hx => ?_⟩
  rw [mem_edges] at hx ⊢
  exact (List.mem_filter.1 (Slots.newest_remove g.edgeSlots _ ▸ hx)).1

/-- An edge of a graph is handed back when it is removed. -/
theorem WellFormed.removeEdge_eq (hg : g.WellFormed) (he : e ∈ g.edges) :
    g.removeEdge e.id =
      .ok (e, ({ g with edgeSlots := g.edgeSlots.remove (·.id == e.id) } : Graph).edited) := by
  unfold Graph.removeEdge
  rw [hg.edge?_eq_some_iff.2 ⟨he, rfl⟩]

/-- An edge between two nodes, under a new id, is accepted. -/
theorem addEdge_eq {source : Node} (hnew : g.edge? e.id = none) (hloop : e.source ≠ e.target)
    (hsource : g.node? e.source = some source) (htarget : (g.node? e.target).isSome) :
    g.addEdge e =
      .ok ({ g with edgeSlots := g.edgeSlots.insert (e.bind source.kind) } : Graph).edited := by
  unfold Graph.addEdge
  rw [if_neg (by simp [hnew]), if_neg hloop, hsource]
  exact if_pos htarget

theorem perform_addEdge (h : g.addEdge e = .ok g') :
    g.perform (.addEdge e) = .ok (.nothing, g') := by
  rw [perform, h]
  rfl

theorem perform_removeEdge (h : g.removeEdge id = .ok (e, g')) :
    g.perform (.removeEdge id) = .ok (.edge e, g') := by
  rw [perform, h]
  rfl

/-- An edge that was removed can be added back, and then the edges are those from before. -/
theorem Built.exists_mended (hg : g.Built) (he : e ∈ g.edges) :
    ∃ cut mended, g.removeEdge e.id = .ok (e, cut) ∧ cut.addEdge e = .ok mended ∧
      g.Widens mended ∧ mended.Widens g := by
  have hwf := hg.wellFormed
  obtain ⟨source, hsource⟩ := hwf.exists_source he
  obtain ⟨target, htarget⟩ := hwf.exists_target he
  -- the source asks for the branch that the edge was bound to when it was added
  have hbind : e.bind source.kind = e := hg.bind_eq e (mem_edges.1 he) source
    (mem_nodes.1 (mem_of_node?_eq_some hsource)) (id_of_node?_eq_some hsource)
  have hremove := hwf.removeEdge_eq he
  have hgone : (({ g with edgeSlots := g.edgeSlots.remove (·.id == e.id) } : Graph).edited).edge?
      e.id = none := by
    unfold edge? edited
    simp [List.find?_eq_none]
  have hadd := addEdge_eq hgone (hwf.source_ne_target e (mem_edges.1 he)) hsource
    (Option.isSome_of_eq_some htarget)
  rw [hbind] at hadd
  refine ⟨_, _, hremove, hadd, ⟨rfl, rfl, fun x hx => ?_⟩, ⟨rfl, rfl, fun x hx => ?_⟩⟩
  · simp only [edited, mem_edges, Slots.newest_insert, Slots.newest_remove, List.mem_cons,
      List.mem_filter] at hx ⊢
    by_cases hid : x.id = e.id
    · exact Or.inl (hwf.eq_of_edge_id_eq (mem_edges.2 hx) he hid)
    · exact Or.inr ⟨hx, by simpa using hid⟩
  · simp only [edited, mem_edges, Slots.newest_insert, Slots.newest_remove, List.mem_cons,
      List.mem_filter] at hx he ⊢
    rcases hx with rfl | hx
    · exact he
    · exact hx.1

end Graph

/-! ### Drafts -/

namespace Draft

variable {d : Draft}

/-- The places of what a draft reports. -/
def places (d : Draft) : List (String × Selector × Option String) :=
  d.reported.map Diagnostic.place

theorem Recalls.places_eq (h : d.Recalls) : d.places = d.graph.places := by
  unfold places Graph.places
  rw [h.reported_eq]

/-- When all was checked, an edit does what it would have done before. -/
theorem Recalls.checked_edit (h : d.Recalls) {e : Edit} {handed : Handed} {g : Graph}
    (hperform : d.graph.perform e = .ok (handed, g)) :
    (d.checked.edit e).Recalls ∧ (d.checked.edit e).graph = g := by
  refine ⟨h.checked.edit e, ?_⟩
  show d.checked.graph.edit e = g
  rw [h.graph_checked, Graph.edit_of_ok hperform]

end Draft

namespace Work

/-- Whatever was done with drafts: what a draft reports is what the check of its graph reports, at
the places of the references out of scope, and the graph is left as it is. When an edge is removed,
every place goes on to be reported, in the same order; when the edge that was handed back is added
again, the report is the one from before. When any edge is added, no place is reported that was not
reported before. All the while the nodes stay the same. -/
theorem reported_by_edges (ws : List Work) {i : Nat} {d : Draft}
    (hd : (drafts ws)[i]? = some d) :
    d.reported = d.graph.checkAll ∧ d.checked.graph = d.graph ∧
      (∀ place, place ∈ d.places ↔ ∃ n ∈ d.graph.nodes, ∃ r ∈ n.references,
        place = (n.id, r.selector, some r.field) ∧ ¬ d.graph.InScope n.id r.selector) ∧
      (∀ e ∈ d.graph.edges,
        let cut := d.checked.edit (.removeEdge e.id)
        let mended := cut.checked.edit (.addEdge e)
        d.graph.perform (.removeEdge e.id) = .ok (.edge e, cut.graph) ∧
          cut.graph.perform (.addEdge e) = .ok (.nothing, mended.graph) ∧
          List.Sublist d.places cut.places ∧ mended.reported = d.reported ∧
          cut.graph.nodeSlots = d.graph.nodeSlots ∧
          mended.graph.nodeSlots = d.graph.nodeSlots) ∧
      ∀ (e : Edge) (g : Graph), d.graph.addEdge e = .ok g →
        let added := d.checked.edit (.addEdge e)
        added.graph = g ∧ List.Sublist added.places d.places ∧
          g.nodeSlots = d.graph.nodeSlots := by
  have h := recalls_drafts ws d (List.mem_of_getElem? hd)
  have hwf := h.built.wellFormed
  refine ⟨h.reported_eq, h.graph_checked, fun place => ?_, fun e he => ?_, fun e g hadd => ?_⟩
  · rw [h.places_eq, hwf.mem_places_iff]
  · obtain ⟨cut, mended, hremove, hadd, hwide, hnarrow⟩ := h.built.exists_mended he
    have hcut : cut.WellFormed := hwf.removeEdge hremove
    have hmended : mended.WellFormed := hcut.addEdge hadd
    have hperform := Graph.perform_removeEdge hremove
    have hperform' := Graph.perform_addEdge hadd
    obtain ⟨hrecalls, rfl⟩ := h.checked_edit hperform
    obtain ⟨hrecalls', rfl⟩ := hrecalls.checked_edit hperform'
    have hwider := Graph.widens_removeEdge hremove
    refine ⟨hperform, hperform', ?_, ?_, hwider.nodeSlots.symm, hwide.nodeSlots⟩
    · rw [h.places_eq, hrecalls.places_eq]
      exact hcut.places_widens hwf hwider
    · rw [h.reported_eq, hrecalls'.reported_eq]
      exact hwf.checkAll_widens hmended hwide hnarrow
  · obtain ⟨hrecalls, hgraph⟩ := h.checked_edit (Graph.perform_addEdge hadd)
    have hwider := Graph.widens_addEdge hadd
    refine ⟨hgraph, ?_, hwider.nodeSlots⟩
    rw [h.places_eq, hrecalls.places_eq, hgraph]
    exact hwf.places_widens (hwf.addEdge hadd) hwider

/-- Two scripts on a cycle, and a report that refers to an output of each, of which the second one
declares none. It is the second one that leads to the report. -/
def onScopes : List Work :=
  [.edit 0 (.addNode (.ofSpec ((NodeSpec.new "a" "script").withOutput "rows" "String"))),
    .edit 0 (.addNode (.ofSpec (.new "b" "script"))),
    .edit 0 (.addNode (.ofSpec (((NodeSpec.new "c" "output").withReference "x" "${a.rows}")
      |>.withReference "y" "${b.rows}"))),
    .edit 0 (.addEdge (.new "e1" "a" "b")), .edit 0 (.addEdge (.new "e2" "b" "a")),
    .edit 0 (.addEdge (.new "e3" "b" "c")), .ask 0 "c"]

/-- When the cycle is cut, one more place is reported, until it is mended. -/
theorem reported_by_edges_cycle :
    ∃ d, (drafts onScopes)[0]? = some d ∧
      let cut := d.checked.edit (.removeEdge "e1")
      d.places = [("c", ⟨"b", "rows", []⟩, some "input_params.y")] ∧
      cut.places = [("c", ⟨"a", "rows", []⟩, some "input_params.x"),
        ("c", ⟨"b", "rows", []⟩, some "input_params.y")] ∧
      (cut.checked.edit (.addEdge (.new "e1" "a" "b"))).reported = d.reported := by
  have hall : ((drafts onScopes)[0]?.map fun d => (d.graph.places,
      (d.graph.edit (.removeEdge "e1")).places, d.graph.edges)) =
        some ([("c", ⟨"b", "rows", []⟩, some "input_params.y")],
          [("c", ⟨"a", "rows", []⟩, some "input_params.x"),
            ("c", ⟨"b", "rows", []⟩, some "input_params.y")],
          [.new "e1" "a" "b", .new "e2" "b" "a", .new "e3" "b" "c"]) := by
    -- the messages are left out, since they take long to put together
    simp only [Graph.places_eq]
    cbv
  obtain ⟨d, hd, hall⟩ := Option.map_eq_some_iff.1 hall
  simp only [Prod.mk.injEq] at hall
  obtain ⟨hplaces, hcut, hedges⟩ := hall
  have h := recalls_drafts onScopes d (List.mem_of_getElem? hd)
  have hedge : Edge.new "e1" "a" "b" ∈ d.graph.edges := by
    rw [hedges]
    exact List.mem_cons_self
  obtain ⟨-, -, -, hremove, -⟩ := reported_by_edges onScopes hd
  obtain ⟨-, -, -, hmended, -⟩ := hremove _ hedge
  refine ⟨d, hd, h.places_eq.trans hplaces, ?_, hmended⟩
  rw [(h.checked.edit _).places_eq, Draft.edit, Draft.withGraph, h.graph_checked, hcut]

end Work
end Flowrun
