import Flowrun.Graph.Order
import Flowrun.Proofs.Graph.WellFormed

/-!
# What an order tells

If a graph has an order, every node is in it and every edge leads forward in it. So there is a rank
that grows along every edge, and facts about nodes can be proved by following the edges backwards
(`Graph.forward_induction`).

The check `misplaced?` is what carries this: it looks at every vertex of the visit and refuses it if
one of its predecessors does not stand before it. That the visit has all vertices is the other half.
Both are facts about a `Proper` directed graph, and the nodes and edges of a well-formed graph are
one (`Graph.WellFormed.proper`).
-/

namespace Flowrun

namespace Digraph

/-- An arc leads from the first vertex to the second. -/
def Joins (d : Digraph) (a b : String) : Prop := (a, b) ∈ d.arcs

/-- The vertices are different, and every arc joins two of them. -/
structure Proper (d : Digraph) : Prop where
  nodup : d.vertices.Nodup
  source_mem : ∀ {a b : String}, d.Joins a b → a ∈ d.vertices
  target_mem : ∀ {a b : String}, d.Joins a b → b ∈ d.vertices
  source_ne_target : ∀ {a b : String}, d.Joins a b → a ≠ b

theorem mem_successors {d : Digraph} {v w : String} : w ∈ d.successors v ↔ d.Joins v w := by
  simp only [successors, Joins, List.mem_map, List.mem_filter, beq_iff_eq]
  constructor
  · rintro ⟨⟨a, b⟩, ⟨hmem, rfl⟩, rfl⟩
    exact hmem
  · exact fun h => ⟨(v, w), ⟨h, rfl⟩, rfl⟩

theorem mem_predecessors {d : Digraph} {p v : String} : p ∈ d.predecessors v ↔ d.Joins p v := by
  simp only [predecessors, Joins, List.mem_map, List.mem_filter, beq_iff_eq]
  constructor
  · rintro ⟨⟨a, b⟩, ⟨hmem, rfl⟩, rfl⟩
    exact hmem
  · exact fun h => ⟨(p, v), ⟨h, rfl⟩, rfl⟩

/-! ### The visit reaches every vertex -/

theorem mem_visit_of_mem_left {next : String → List String} {unseen left : List String}
    {work : List Visit} {v : String} (h : v ∈ left) : v ∈ visit next unseen left work := by
  fun_induction visit next unseen left work with
  | case1 => exact h
  | case2 _ _ _ _ ih => exact ih (List.mem_cons_of_mem _ h)
  | case3 _ _ _ _ _ ih => exact ih h
  | case4 _ _ _ _ _ ih => exact ih h

theorem mem_visit_of_leave {next : String → List String} {unseen left : List String}
    {work : List Visit} {v : String} (h : Visit.leave v ∈ work) :
    v ∈ visit next unseen left work := by
  fun_induction visit next unseen left work with
  | case1 => simp at h
  | case2 unseen left w rest ih =>
    rcases List.mem_cons.1 h with hw | hrest
    · cases hw
      exact mem_visit_of_mem_left List.mem_cons_self
    · exact ih hrest
  | case3 unseen left w rest _ ih =>
    refine ih (List.mem_append_right _ (List.mem_cons_of_mem _ ?_))
    simpa using h
  | case4 unseen left w rest _ ih => exact ih (by simpa using h)

/-- Whatever is still to be entered and was not seen is listed in the end. -/
theorem mem_visit_of_enter {next : String → List String} {unseen left : List String}
    {work : List Visit} {v : String} (h : Visit.enter v ∈ work) (hv : v ∈ unseen) :
    v ∈ visit next unseen left work := by
  fun_induction visit next unseen left work with
  | case1 => simp at h
  | case2 unseen left w rest ih => exact ih (by simpa using h) hv
  | case3 unseen left w rest hw ih =>
    by_cases hvw : v = w
    · subst hvw
      exact mem_visit_of_leave (by simp)
    · have hrest : Visit.enter v ∈ rest := by simpa [hvw] using h
      refine ih ?_ ((List.mem_erase_of_ne hvw).2 hv)
      exact List.mem_append_right _ (List.mem_cons_of_mem _ hrest)
  | case4 unseen left w rest hw ih =>
    refine ih ?_ hv
    rcases List.mem_cons.1 h with hvw | hrest
    · cases hvw
      exact absurd hv hw
    · exact hrest

theorem mem_visited {d : Digraph} {v : String} (h : v ∈ d.vertices) : v ∈ d.visited :=
  mem_visit_of_enter (List.mem_map_of_mem h) h

/-! ### The check finds every backward arc -/

/-- In a list that passes the check, the sources of the arcs to a vertex stand before it. -/
theorem mem_before_of_misplaced?_eq_none {d : Digraph} {placed vs : List String}
    (h : d.misplaced? placed vs = none) {before after : List String} {v p : String}
    (hvs : vs = before ++ v :: after) (hp : p ∈ d.predecessors v) :
    p = v ∨ p ∈ before ∨ p ∈ placed := by
  induction before generalizing placed vs with
  | nil =>
    subst hvs
    simp only [List.nil_append, misplaced?] at h
    split at h
    · cases h
    · next hlast =>
      have hnil := List.getLast?_eq_none_iff.1 hlast
      have hmem := List.filter_eq_nil_iff.1 hnil p hp
      have hplaced : p ∈ v :: placed := by
        simpa only [decide_not, Bool.not_eq_true', decide_eq_false_iff_not, not_not] using hmem
      rcases List.mem_cons.1 hplaced with hpv | hpl
      · exact Or.inl hpv
      · exact Or.inr (Or.inr hpl)
  | cons w before ih =>
    subst hvs
    simp only [List.cons_append, misplaced?] at h
    split at h
    · cases h
    · rcases ih h rfl with hpv | hpb | hpl
      · exact Or.inl hpv
      · exact Or.inr (Or.inl (List.mem_cons_of_mem _ hpb))
      · rcases List.mem_cons.1 hpl with rfl | hpl
        · exact Or.inr (Or.inl List.mem_cons_self)
        · exact Or.inr (Or.inr hpl)

theorem idxOf_lt_of_mem_before {before after : List String} {p v : String} (hp : p ∈ before)
    (hv : v ∉ before) : (before ++ v :: after).idxOf p < (before ++ v :: after).idxOf v := by
  rw [List.idxOf_append_of_mem hp, List.idxOf_append_of_notMem hv]
  have := List.idxOf_lt_length_of_mem hp
  omega

/-- What the order is when there is one: the visit, and it passed the check. -/
theorem order_eq_ok {d : Digraph} {ids : List String} :
    d.order = .ok ids ↔ ids = d.visited ∧ d.misplaced? [] ids = none := by
  unfold order
  cases hm : d.misplaced? [] d.visited with
  | none =>
    constructor
    · intro h
      cases h
      exact ⟨rfl, hm⟩
    · rintro ⟨rfl, -⟩
      rfl
  | some v =>
    refine iff_of_false (by simp) ?_
    rintro ⟨rfl, h⟩
    rw [hm] at h
    cases h

theorem mem_order {d : Digraph} {ids : List String} (h : d.order = .ok ids) {v : String}
    (hv : v ∈ d.vertices) : v ∈ ids :=
  (order_eq_ok.1 h).1 ▸ mem_visited hv

/-- Every arc leads forward. -/
theorem Proper.idxOf_lt {d : Digraph} (hd : d.Proper) {ids : List String} (h : d.order = .ok ids)
    {a b : String} (hjoins : d.Joins a b) : ids.idxOf a < ids.idxOf b := by
  have hmem : b ∈ ids := mem_order h (hd.target_mem hjoins)
  -- the first place of the target is the one that counts
  obtain ⟨before, after, hids, hfirst⟩ := List.eq_append_cons_of_mem hmem
  have hpred := mem_before_of_misplaced?_eq_none (order_eq_ok.1 h).2 hids
    (mem_predecessors.2 hjoins)
  rcases hpred with hself | hbefore | hplaced
  · exact absurd hself (hd.source_ne_target hjoins)
  · rw [hids]
    exact idxOf_lt_of_mem_before hbefore hfirst
  · simp at hplaced

end Digraph

namespace Graph

theorem digraph_joins {g : Graph} {a b : String} :
    g.digraph.Joins a b ↔ ∃ e ∈ g.edges, e.source = a ∧ e.target = b := by
  simp [Digraph.Joins, digraph]

theorem WellFormed.proper {g : Graph} (hg : WellFormed g) : g.digraph.Proper where
  nodup := hg.nodup_ids
  source_mem := by
    intro a b hjoins
    obtain ⟨e, he, rfl, rfl⟩ := digraph_joins.1 hjoins
    obtain ⟨n, hn⟩ := hg.exists_source he
    exact id_of_node?_eq_some hn ▸ List.mem_map_of_mem (mem_of_node?_eq_some hn)
  target_mem := by
    intro a b hjoins
    obtain ⟨e, he, rfl, rfl⟩ := digraph_joins.1 hjoins
    obtain ⟨n, hn⟩ := hg.exists_target he
    exact id_of_node?_eq_some hn ▸ List.mem_map_of_mem (mem_of_node?_eq_some hn)
  source_ne_target := by
    intro a b hjoins
    obtain ⟨e, he, rfl, rfl⟩ := digraph_joins.1 hjoins
    exact hg.source_ne_target e (mem_edges.1 he)

theorem order_eq_ok {g : Graph} {ids : List String} :
    g.order = .ok ids ↔ g.digraph.order = .ok ids := by
  unfold order
  cases g.digraph.order <;> simp

/-- Every edge leads forward. -/
theorem WellFormed.idxOf_lt {g : Graph} (hg : WellFormed g) {ids : List String}
    (h : g.order = .ok ids) {e : Edge} (he : e ∈ g.edges) :
    ids.idxOf e.source < ids.idxOf e.target :=
  hg.proper.idxOf_lt (order_eq_ok.1 h) (digraph_joins.2 ⟨e, he, rfl, rfl⟩)

/-- To prove something of every id, prove it from the sources of the edges that lead there. -/
theorem WellFormed.forward_induction {g : Graph} (hg : WellFormed g) {ids : List String}
    (h : g.order = .ok ids) {motive : String → Prop}
    (step : ∀ id, (∀ e ∈ g.edgesInto id, motive e.source) → motive id) (id : String) :
    motive id := by
  induction hk : ids.idxOf id using Nat.strongRecOn generalizing id with
  | _ k ih =>
    refine step id fun e he => ?_
    obtain ⟨hmem, htarget⟩ := mem_edgesInto.1 he
    have hlt : ids.idxOf e.source < k := by rw [← hk, ← htarget]; exact hg.idxOf_lt h hmem
    exact ih (ids.idxOf e.source) hlt e.source rfl

end Graph
end Flowrun
