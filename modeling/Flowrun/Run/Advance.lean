import Flowrun.Run.Basic

/-!
# Moving on

When a node is done, its successors are looked at. A successor is settled once all its predecessors
have succeeded or were skipped: it becomes ready if one of its edges is alive, and is skipped if all
of them are dead. Skips are followed transitively.

An edge is alive if its source succeeded and, if the edge belongs to a branch, chose that branch.
-/

namespace Flowrun.Run

def succeeded (r : Run) (id : String) : Bool := r.standing? id == some (.done .success)

/-- Whether a node succeeded or was skipped. -/
def passed (r : Run) (id : String) : Bool :=
  r.succeeded id || r.standing? id == some (.done .skip)

/-- Whether the branch that an edge belongs to was chosen. -/
def branchChosen (r : Run) (e : Edge) : Bool := match e.branch with
  | none => true
  | some handle => handle.branch ∈ (r.chosen.at? e.source).getD []

/-- Whether a run can go on along an edge. -/
def alive (r : Run) (e : Edge) : Bool := r.succeeded e.source && r.branchChosen e

/-- What becomes of a node. -/
inductive Settling
  | wait
  | ready
  | skip (n : Node)
  deriving DecidableEq, Repr

/-- What becomes of a node, from what is known of its predecessors. -/
def settle (r : Run) (id : String) : Settling :=
  if (r.standing? id).isSome ∨ id ∈ r.ready then .wait
  else match r.graph.node? id with
    | none => .wait
    | some n =>
      if !(r.graph.edgesInto id).all fun e => r.passed e.source then .wait
      else if (r.graph.edgesInto id).any r.alive then .ready
      else .skip n

/-- Record that a node will not run. -/
def skip (r : Run) (n : Node) : Run :=
  { r.pushRecord (.skipped n.id n.name n.type) with
    recordOf := r.recordOf.put n.id r.nextIndex
    standings := r.standings.put n.id (.done .skip) }

/-- Settle nodes in turn, and list those that were skipped. -/
def settleEach (r : Run) : List String → Run × List String
  | [] => (r, [])
  | id :: rest => match r.settle id with
    | .wait => r.settleEach rest
    | .ready => { r with ready := r.ready ++ [id] }.settleEach rest
    | .skip n =>
      let (r, skipped) := (r.skip n).settleEach rest
      (r, id :: skipped)

/-- The targets of the edges that leave a node, each once, in the order of the edges' ids. -/
def successors (r : Run) (id : String) : List String :=
  distinct ((r.graph.edgesFrom id).map Edge.target)

/-! ### Skips come to an end -/

/-- The nodes that were not reached. -/
def unreached (r : Run) : List Node := r.graph.nodes.filter fun n => (r.standing? n.id).isNone

theorem length_filter_lt {p q : α → Bool} {l : List α} {a : α} (ha : a ∈ l) (hp : p a = true)
    (hq : q a = false) (h : ∀ b ∈ l, q b = true → p b = true) :
    (l.filter q).length < (l.filter p).length := by
  induction l with
  | nil => simp at ha
  | cons b l ih =>
    have hle : (l.filter q).length ≤ (l.filter p).length := by
      simp only [← List.countP_eq_length_filter]
      exact List.countP_mono_left fun c hc hqc => h c (by simp [hc]) hqc
    rcases List.mem_cons.1 ha with rfl | ha
    · simp [hp, hq]; omega
    · have := ih ha fun c hc => h c (by simp [hc])
      have := h b (by simp)
      by_cases hqb : q b = true
      · simp [hqb, this hqb]; omega
      · by_cases hpb : p b = true <;> simp [hqb, hpb] <;> omega

theorem settle_eq_skip {r : Run} {id : String} {n : Node} (h : r.settle id = .skip n) :
    r.standing? id = none ∧ r.graph.node? id = some n := by
  unfold settle at h
  split at h
  · simp at h
  · next hs =>
    split at h
    · simp at h
    · next n' hn =>
      split at h
      · simp at h
      · split at h
        · simp at h
        · simp only [Settling.skip.injEq] at h
          subst h
          refine ⟨?_, hn⟩
          simpa using fun hh => hs (Or.inl hh)

theorem length_unreached_skip {r : Run} {id : String} {n : Node} (h : r.settle id = .skip n) :
    (r.skip n).unreached.length < r.unreached.length := by
  obtain ⟨hs, hn⟩ := settle_eq_skip h
  have hmem : n ∈ r.graph.nodes := by
    simpa [Graph.nodes] using List.mem_of_find?_eq_some hn
  have hid : n.id = id := by simpa using List.find?_some hn
  refine length_filter_lt hmem (by simp [hid, hs]) (by simp [skip, standing?]) ?_
  intro m _ hm
  by_cases hmn : n.id = m.id
  · simp [skip, standing?, hmn] at hm
  · simpa [skip, standing?, Dict.at?_put, hmn] using hm

theorem length_settleEach (r : Run) (ids : List String) :
    (r.settleEach ids).1.unreached.length + (r.settleEach ids).2.length ≤ r.unreached.length := by
  induction ids generalizing r with
  | nil => simp [settleEach]
  | cons id rest ih =>
    unfold settleEach
    split
    · exact ih r
    · exact ih { r with ready := r.ready ++ [id] }
    · next n h =>
      have := ih (r.skip n)
      have := length_unreached_skip h
      simp only [List.length_cons]
      omega

/-- Settle the successors of nodes that are done, and then those of the nodes that are skipped,
the last of them first. -/
def advanceAll (r : Run) : List String → Run
  | [] => r
  | id :: rest =>
    (r.settleEach (r.successors id)).1.advanceAll
      ((r.settleEach (r.successors id)).2.reverse ++ rest)
termination_by work => r.unreached.length + work.length
decreasing_by
  have := length_settleEach r (r.successors id)
  simp only [List.length_append, List.length_reverse, List.length_cons]
  omega

/-- Move on from a node that is done. -/
def advance (r : Run) (id : String) : Run := r.advanceAll [id]

end Flowrun.Run
