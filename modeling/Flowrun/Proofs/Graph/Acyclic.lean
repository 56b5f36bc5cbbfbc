import Flowrun.Proofs.Graph.Ancestry

/-!
# A graph has an order when it has no cycle

The visit behind an order is depth first, and it lists a vertex when everything behind the vertex
was visited. So a graph without a cycle has an order, and

    (∃ ids, g.order = .ok ids) ↔ ∀ id, ¬ g.Upstream id id

on every well-formed graph. What a visit keeps is a `Stage`: each vertex is unseen, entered or left,
what stands above an entered vertex on the stack can be reached from it, its unseen successors among
them, and the successors of a vertex that was left stand behind it, or a path leads from them back
to the vertex. When a vertex is left, it is a successor that was entered before and is not left yet
that closes such a cycle (`Stage.left_of_joins`). So a vertex that is given away in place of an
order lies on a cycle (`Digraph.Proper.reaches_of_order_eq_error`).

Whether there is an order depends on what the arcs join, not on how they are listed
(`Digraph.Proper.exists_order_congr`).
-/

namespace Flowrun

open Relation (TransGen)

namespace Digraph

variable {d : Digraph}

/-- A path of arcs leads from the first vertex to the second. -/
abbrev Reaches (d : Digraph) : String → String → Prop := TransGen d.Joins

/-- No path comes back to where it started. -/
def Acyclic (d : Digraph) : Prop := ∀ v, ¬ d.Reaches v v

/-! ### What a visit keeps -/

/-- The vertex that is to be entered or left. -/
def Visit.vertex : Visit → String
  | .enter v => v
  | .leave v => v

/-- The vertices that were entered and are not left yet. -/
def entered : List Visit → List String
  | [] => []
  | .enter _ :: rest => entered rest
  | .leave v :: rest => v :: entered rest

theorem mem_entered {work : List Visit} {v : String} : v ∈ entered work ↔ .leave v ∈ work := by
  induction work with
  | nil => simp [entered]
  | cons x rest ih => cases x <;> simp [entered, ih]

theorem entered_enter_append (vs : List String) (rest : List Visit) :
    entered (vs.map .enter ++ rest) = entered rest := by
  induction vs with
  | nil => rfl
  | cons v vs ih => simpa [entered] using ih

/-- An entry that leaves a vertex, on a stack on which the successors of `v` were put: it is that of
`v`, or it was there before. -/
theorem leave_cases {vs : List String} {v u : String} {rest above below : List Visit}
    (h : vs.map .enter ++ .leave v :: rest = above ++ .leave u :: below) :
    (u = v ∧ above = vs.map .enter) ∨
      ∃ between, rest = between ++ .leave u :: below ∧
        above = vs.map .enter ++ .leave v :: between := by
  induction vs generalizing above with
  | nil =>
    rcases List.cons_eq_append_iff.1 h with ⟨rfl, hcons⟩ | ⟨between, rfl, hrest⟩
    · cases hcons
      exact Or.inl ⟨rfl, rfl⟩
    · exact Or.inr ⟨between, hrest, rfl⟩
  | cons w vs ih =>
    rcases List.cons_eq_append_iff.1 h with ⟨-, hcons⟩ | ⟨above, rfl, hrest⟩
    · cases hcons
    · rcases ih hrest with ⟨rfl, rfl⟩ | ⟨between, hbetween, rfl⟩
      · exact Or.inl ⟨rfl, rfl⟩
      · exact Or.inr ⟨between, hbetween, rfl⟩

/-- How far a visit has come. -/
structure Stage (d : Digraph) (unseen left : List String) (work : List Visit) : Prop where
  /-- Every vertex is unseen, entered or left. -/
  parts : (unseen ++ (entered work ++ left)).Perm d.vertices
  /-- What is to be done before a vertex is left lies behind it. -/
  behind : ∀ above u below, work = above ++ .leave u :: below →
    ∀ x ∈ above, d.Reaches u x.vertex
  /-- Before a vertex is left, its successors are entered. -/
  pending : ∀ above u below, work = above ++ .leave u :: below →
    ∀ w ∈ unseen, d.Joins u w → .enter w ∈ above
  /-- The successors of a vertex that was left stand behind it, or lie on a cycle with it. -/
  settled : ∀ before u after, left = before ++ u :: after →
    ∀ w, d.Joins u w → w ∈ after ∨ d.Reaches w u

namespace Stage

variable {unseen left : List String} {work rest : List Visit} {v : String}

theorem nodup (hd : d.Proper) (h : d.Stage unseen left work) :
    (unseen ++ (entered work ++ left)).Nodup :=
  h.parts.nodup_iff.2 hd.nodup

/-- At first every vertex is unseen and to be entered. -/
theorem start (d : Digraph) : d.Stage d.vertices [] (d.vertices.map .enter) := by
  have hnone : ∀ above u below,
      d.vertices.map Visit.enter ≠ above ++ .leave u :: below := by
    intro above u below hwork
    have hmem : Visit.leave u ∈ d.vertices.map Visit.enter := by simp [hwork]
    simp at hmem
  refine ⟨?_, fun _ _ _ hwork => absurd hwork (hnone _ _ _),
    fun _ _ _ hwork => absurd hwork (hnone _ _ _), by simp⟩
  have hentered := entered_enter_append d.vertices []
  rw [List.append_nil] at hentered
  simp [hentered, entered]

/-- A vertex that was seen before is passed over. -/
theorem skip (h : d.Stage unseen left (.enter v :: rest)) (hv : v ∉ unseen) :
    d.Stage unseen left rest where
  parts := h.parts
  behind := by
    rintro above u below rfl x hx
    exact h.behind (.enter v :: above) u below rfl x (List.mem_cons_of_mem _ hx)
  pending := by
    rintro above u below rfl w hw hjoins
    have hmem := h.pending (.enter v :: above) u below rfl w hw hjoins
    rcases List.mem_cons.1 hmem with heq | habove
    · cases heq
      exact absurd hw hv
    · exact habove
  settled := h.settled

/-- A vertex is entered, and its successors are put on the stack. -/
theorem enter (hd : d.Proper) (h : d.Stage unseen left (.enter v :: rest)) (hv : v ∈ unseen) :
    d.Stage (unseen.erase v) left ((d.successors v).reverse.map .enter ++ .leave v :: rest) where
  parts := by
    rw [entered_enter_append]
    have herase : unseen.Perm (v :: unseen.erase v) := List.perm_cons_erase hv
    have hmoved : (unseen.erase v ++ v :: (entered rest ++ left)).Perm
        (unseen ++ (entered rest ++ left)) :=
      List.perm_middle.trans (herase.symm.append_right _)
    exact hmoved.trans h.parts
  behind := by
    intro above u below hwork x hx
    rcases leave_cases hwork with ⟨rfl, rfl⟩ | ⟨above, rfl, rfl⟩
    · obtain ⟨w, hw, rfl⟩ := List.mem_map.1 hx
      exact .single (mem_successors.1 (List.mem_reverse.1 hw))
    · -- what lies behind `v` lies behind every vertex that was entered before
      have hup := h.behind (.enter v :: above) u below rfl
      have hv : d.Reaches u v := hup (.enter v) List.mem_cons_self
      rcases List.mem_append.1 hx with hx | hx
      · obtain ⟨w, hw, rfl⟩ := List.mem_map.1 hx
        exact hv.tail (mem_successors.1 (List.mem_reverse.1 hw))
      · rcases List.mem_cons.1 hx with rfl | hx
        · exact hv
        · exact hup x (List.mem_cons_of_mem _ hx)
  pending := by
    intro above u below hwork w hw hjoins
    rcases leave_cases hwork with ⟨rfl, rfl⟩ | ⟨above, rfl, rfl⟩
    · exact List.mem_map_of_mem (List.mem_reverse.2 (mem_successors.2 hjoins))
    · have hunseen : unseen.Nodup := (h.nodup hd).of_append_left
      obtain ⟨hne, hw⟩ := hunseen.mem_erase_iff.1 hw
      have hmem := h.pending (.enter v :: above) u below rfl w hw hjoins
      rcases List.mem_cons.1 hmem with heq | habove
      · cases heq
        exact absurd rfl hne
      · exact List.mem_append_right _ (List.mem_cons_of_mem _ habove)
  settled := h.settled

/-- When a vertex is left, its successors were left before: one that was only entered lies on a
cycle with it. -/
theorem left_of_joins (hd : d.Proper) (h : d.Stage unseen left (.leave v :: rest)) {w : String}
    (hjoins : d.Joins v w) : w ∈ left ∨ d.Reaches w v := by
  have hparts := h.parts.mem_iff.2 (hd.target_mem hjoins)
  rcases List.mem_append.1 hparts with hunseen | hparts
  · have hmem := h.pending [] v rest rfl w hunseen hjoins
    cases hmem
  rcases List.mem_append.1 hparts with hentered | hleft
  · rcases List.mem_cons.1 hentered with rfl | hentered
    · exact Or.inr (.single hjoins)
    · obtain ⟨above, below, rfl⟩ := List.append_of_mem (mem_entered.1 hentered)
      exact Or.inr (h.behind (.leave v :: above) w below rfl _ List.mem_cons_self)
  · exact Or.inl hleft

/-- A vertex is left. -/
theorem leave (hd : d.Proper) (h : d.Stage unseen left (.leave v :: rest)) :
    d.Stage unseen (v :: left) rest where
  parts := (List.Perm.append_left unseen List.perm_middle).trans h.parts
  behind := by
    rintro above u below rfl x hx
    exact h.behind (.leave v :: above) u below rfl x (List.mem_cons_of_mem _ hx)
  pending := by
    rintro above u below rfl w hw hjoins
    simpa using h.pending (.leave v :: above) u below rfl w hw hjoins
  settled := by
    intro before u after hsplit w hjoins
    rcases List.cons_eq_append_iff.1 hsplit with ⟨-, hcons⟩ | ⟨before, -, hsplit⟩
    · cases hcons
      exact h.left_of_joins hd hjoins
    · exact h.settled before u after hsplit w hjoins

/-- A visit that goes on to its end. -/
theorem visit (hd : d.Proper) (h : d.Stage unseen left work) :
    ∃ unseen', d.Stage unseen' (visit d.successors unseen left work) [] := by
  fun_induction Digraph.visit d.successors unseen left work with
  | case1 unseen left => exact ⟨unseen, h⟩
  | case2 unseen left v rest ih => exact ih (h.leave hd)
  | case3 unseen left v rest hv ih => exact ih (h.enter hd hv)
  | case4 unseen left v rest hv ih => exact ih (h.skip hv)

end Stage

/-! ### Orders and cycles -/

/-- No vertex stands twice in the visit, and the successors of each stand behind it or lie on a
cycle with it. -/
theorem settled_visited (hd : d.Proper) :
    d.visited.Nodup ∧ ∀ before u after, d.visited = before ++ u :: after →
      ∀ w, d.Joins u w → w ∈ after ∨ d.Reaches w u := by
  obtain ⟨unseen, hstage⟩ := (Stage.start d).visit hd
  have hnodup : (unseen ++ d.visited).Nodup := hstage.nodup hd
  exact ⟨hnodup.of_append_right, hstage.settled⟩

/-- The source of an arc that leads backwards in the visit lies on a cycle. -/
theorem Proper.reaches_of_behind (hd : d.Proper) {before after : List String} {p v : String}
    (hsplit : d.visited = before ++ v :: after) (hp : p ∈ after) (hjoins : d.Joins p v) :
    d.Reaches p p := by
  obtain ⟨hnodup, hsettled⟩ := settled_visited hd
  obtain ⟨mid, after, rfl⟩ := List.append_of_mem hp
  rcases hsettled (before ++ v :: mid) p after (by simp [hsplit]) v hjoins with hv | hback
  · -- `p` stands behind `v`, and so `v` once more behind `p`
    rw [hsplit] at hnodup
    have hnotin : v ∉ mid ++ p :: after := (List.nodup_cons.1 hnodup.of_append_right).1
    exact absurd (List.mem_append_right _ (List.mem_cons_of_mem _ hv)) hnotin
  · exact hback.head hjoins

/-- What the check gives away is the source of an arc, and it stands neither before the target nor
in its place. -/
theorem misplaced?_eq_some {placed vs : List String} {p : String}
    (h : d.misplaced? placed vs = some p) :
    ∃ before v after, vs = before ++ v :: after ∧ d.Joins p v ∧ p ∉ before ++ v :: placed := by
  induction vs generalizing placed with
  | nil => cases h
  | cons v rest ih =>
    rw [misplaced?] at h
    split at h
    · next hlast =>
      cases h
      obtain ⟨hp, hplaced⟩ := List.mem_filter.1 (List.mem_of_getLast? hlast)
      exact ⟨[], v, rest, rfl, mem_predecessors.1 hp, by simpa using hplaced⟩
    · obtain ⟨before, w, after, rfl, hjoins, hnew⟩ := ih h
      exact ⟨v :: before, w, after, rfl, hjoins, by grind⟩

theorem order_eq_error {v : String} : d.order = .error v ↔ d.misplaced? [] d.visited = some v := by
  unfold order
  cases d.misplaced? [] d.visited <;> simp

/-- A vertex that is given away in place of an order lies on a cycle. -/
theorem Proper.reaches_of_order_eq_error (hd : d.Proper) {p : String} (h : d.order = .error p) :
    d.Reaches p p := by
  obtain ⟨before, v, after, hsplit, hjoins, hnew⟩ := misplaced?_eq_some (order_eq_error.1 h)
  have hvisited : p ∈ before ++ v :: after := hsplit ▸ mem_visited (hd.source_mem hjoins)
  have hafter : p ∈ after := by grind
  exact hd.reaches_of_behind hsplit hafter hjoins

/-- What a path leads to stands behind its start. -/
theorem Proper.idxOf_lt_of_reaches (hd : d.Proper) {ids : List String} (h : d.order = .ok ids)
    {a b : String} (hpath : d.Reaches a b) : ids.idxOf a < ids.idxOf b := by
  induction hpath with
  | single hjoins => exact hd.idxOf_lt h hjoins
  | tail _ hjoins ih => exact Nat.lt_trans ih (hd.idxOf_lt h hjoins)

theorem Proper.exists_order_iff (hd : d.Proper) : (∃ ids, d.order = .ok ids) ↔ d.Acyclic := by
  constructor
  · rintro ⟨ids, h⟩ v hcycle
    exact Nat.lt_irrefl _ (hd.idxOf_lt_of_reaches h hcycle)
  · intro hacyclic
    cases h : d.order with
    | ok ids => exact ⟨ids, rfl⟩
    | error p => exact absurd (hd.reaches_of_order_eq_error h) (hacyclic p)

/-- An order is of the vertices, each of which stands in it once. -/
theorem Proper.perm_order (hd : d.Proper) {ids : List String} (h : d.order = .ok ids) :
    ids.Perm d.vertices := by
  obtain ⟨unseen, hstage⟩ := (Stage.start d).visit hd
  have hparts : (unseen ++ ids).Perm d.vertices := (order_eq_ok.1 h).1 ▸ hstage.parts
  have hnodup : (unseen ++ ids).Nodup := hparts.nodup_iff.2 hd.nodup
  -- every vertex is visited, so none is left unseen
  have hnone : unseen = [] := by
    refine List.eq_nil_iff_forall_not_mem.2 fun v hv => ?_
    have hmem := mem_order h (hparts.subset (List.mem_append_left _ hv))
    exact (List.nodup_append.1 hnodup).2.2 v hv v hmem rfl
  rwa [hnone, List.nil_append] at hparts

/-- Which graphs have an order depends on what their arcs join. -/
theorem Proper.exists_order_congr {d' : Digraph} (hd : d.Proper) (hd' : d'.Proper)
    (h : ∀ a b, d.Joins a b ↔ d'.Joins a b) :
    (∃ ids, d.order = .ok ids) ↔ ∃ ids, d'.order = .ok ids := by
  have hjoins : d.Joins = d'.Joins := by
    funext a b
    exact propext (h a b)
  rw [hd.exists_order_iff, hd'.exists_order_iff, Acyclic, Acyclic, Reaches, Reaches, hjoins]

end Digraph

namespace Graph

variable {g : Graph}

theorem digraph_joins_eq_feeds : g.digraph.Joins = g.Feeds := by
  ext a b
  rw [digraph_joins]
  constructor
  · rintro ⟨e, he, hsource, htarget⟩
    exact ⟨e, mem_edgesInto.2 ⟨he, htarget⟩, hsource⟩
  · rintro ⟨e, he, hsource⟩
    exact ⟨e, (mem_edgesInto.1 he).1, hsource, (mem_edgesInto.1 he).2⟩

/-- A graph has an order exactly when no node is upstream of itself. -/
theorem WellFormed.exists_order_iff (hg : g.WellFormed) :
    (∃ ids, g.order = .ok ids) ↔ ∀ id, ¬ g.Upstream id id := by
  simp only [order_eq_ok]
  rw [hg.proper.exists_order_iff, Digraph.Acyclic, Digraph.Reaches, digraph_joins_eq_feeds]

/-- An order is of the ids of the nodes, each of which stands in it once. -/
theorem WellFormed.perm_order (hg : g.WellFormed) {ids : List String} (h : g.order = .ok ids) :
    ids.Perm (g.nodes.map Node.id) :=
  hg.proper.perm_order (order_eq_ok.1 h)

/-- The node that is named when there is no order is upstream of itself. -/
theorem WellFormed.upstream_of_order_eq_error (hg : g.WellFormed) {error : TaskError}
    (h : g.order = .error error) :
    ∃ id, error = .cyclic ("cycle through '" ++ id ++ "'") ∧ g.Upstream id id := by
  unfold order at h
  cases hd : g.digraph.order with
  | ok ids => simp [hd] at h
  | error id =>
    rw [hd] at h
    have hcycle := hg.proper.reaches_of_order_eq_error hd
    rw [Digraph.Reaches, digraph_joins_eq_feeds] at hcycle
    exact ⟨id, (Except.error.inj h).symm, hcycle⟩

theorem checkAcyclic_eq_ok : g.checkAcyclic = .ok () ↔ ∃ ids, g.order = .ok ids := by
  unfold checkAcyclic
  cases g.order with
  | error e => simp [Except.map]
  | ok ids => simp [Except.map]

end Graph
end Flowrun
