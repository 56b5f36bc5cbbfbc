import Flowrun.Proofs.Graph.WellFormed

/-!
# Histories of edits

An `Edit` of a graph is accepted or refused. A history is a list of edits, of which the refused ones
change nothing, so every list is one. Whatever the history, the graph stays `Built`, and every edit
that is accepted raises the revision by one.
-/

namespace Flowrun

/-- An edit of a graph. -/
inductive Edit
  | addNode (n : Node)
  | addEdge (e : Edge)
  | removeNode (id : String)
  | removeEdge (id : String)
  | setGlobals (globals : List GlobalVariable)

/-- What an edit hands back. -/
inductive Handed
  | nothing
  | node (n : Node)
  | edge (e : Edge)
  deriving DecidableEq

namespace Graph

variable {g : Graph} {e : Edit} {r : Handed × Graph}

/-- What an edit hands back and the graph after it, or why it is refused. -/
def perform (g : Graph) : Edit → Except TaskError (Handed × Graph)
  | .addNode n => (g.addNode n).map (.nothing, ·)
  | .addEdge e => (g.addEdge e).map (.nothing, ·)
  | .removeNode id => (g.removeNode id).map fun r => (.node r.1, r.2)
  | .removeEdge id => (g.removeEdge id).map fun r => (.edge r.1, r.2)
  | .setGlobals globals => .ok (.nothing, g.setGlobals globals)

/-- The graph after an edit. One that is refused leaves it as it was. -/
def edit (g : Graph) (e : Edit) : Graph := match g.perform e with
  | .ok r => r.2
  | .error _ => g

def edits (g : Graph) (es : List Edit) : Graph := es.foldl edit g

@[simp] theorem edits_cons (g : Graph) (e : Edit) (es : List Edit) :
    g.edits (e :: es) = (g.edit e).edits es := rfl

theorem edit_of_ok (h : g.perform e = .ok r) : g.edit e = r.2 := by
  unfold edit
  rw [h]

theorem edit_of_error {error : TaskError} (h : g.perform e = .error error) : g.edit e = g := by
  unfold edit
  rw [h]

theorem map_eq_ok {α β : Type} {x : Except TaskError α} {f : α → β} {b : β}
    (h : x.map f = .ok b) : ∃ a, x = .ok a ∧ f a = b := by
  cases x with
  | error error => cases h
  | ok a => exact ⟨a, rfl, Except.ok.inj h⟩

theorem bind_eq_ok {α β : Type} {x : Except TaskError α} {f : α → Except TaskError β} {b : β} :
    x >>= f = .ok b ↔ ∃ a, x = .ok a ∧ f a = .ok b := by
  cases x <;> simp [bind, Except.bind]

theorem bind_eq_error {α β : Type} {x : Except TaskError α} {f : α → Except TaskError β}
    {error : TaskError} :
    x >>= f = .error error ↔ x = .error error ∨ ∃ a, x = .ok a ∧ f a = .error error := by
  cases x <;> simp [bind, Except.bind]

/-! ### Edits that are accepted -/

theorem addNode_eq_ok {g' : Graph} {n : Node} (h : g.addNode n = .ok g') :
    g.node? n.id = none ∧ g' = ({ g with nodeSlots := g.nodeSlots.insert n } : Graph).edited := by
  unfold addNode at h
  split at h
  · cases h
  · next hnew =>
    cases h
    exact ⟨by simpa [hasNode] using hnew, rfl⟩

theorem addEdge_eq_ok {g' : Graph} {e : Edge} (h : g.addEdge e = .ok g') :
    g.edge? e.id = none ∧ e.source ≠ e.target ∧ (g.node? e.target).isSome ∧
      ∃ n, g.node? e.source = some n ∧
        g' = ({ g with edgeSlots := g.edgeSlots.insert (e.bind n.kind) } : Graph).edited := by
  unfold addEdge at h
  split at h
  · cases h
  · next hnew =>
    split at h
    · cases h
    · next hloop =>
      split at h
      · cases h
      · next n hsource =>
        split at h
        · next htarget =>
          cases h
          exact ⟨by simpa using hnew, hloop, htarget, n, hsource, rfl⟩
        · cases h

theorem removeNode_eq_ok {g' : Graph} {id : String} {n : Node}
    (h : g.removeNode id = .ok (n, g')) :
    g.node? id = some n ∧ g' = ({ g with
      edgeSlots := (g.edgeSlots.remove (·.source == id)).remove (·.target == id)
      nodeSlots := g.nodeSlots.remove (·.id == id) } : Graph).edited := by
  unfold removeNode at h
  split at h
  · cases h
  · next hn =>
    cases h
    exact ⟨hn, rfl⟩

theorem removeEdge_eq_ok {g' : Graph} {id : String} {e : Edge}
    (h : g.removeEdge id = .ok (e, g')) :
    g.edge? id = some e ∧
      g' = ({ g with edgeSlots := g.edgeSlots.remove (·.id == id) } : Graph).edited := by
  unfold removeEdge at h
  split at h
  · cases h
  · next he =>
    cases h
    exact ⟨he, rfl⟩

/-- The revision counts the edits that were accepted. -/
theorem revision_perform (h : g.perform e = .ok r) : r.2.revision = g.revision + 1 := by
  cases e with
  | addNode n =>
    obtain ⟨g', hadd, rfl⟩ := map_eq_ok h
    obtain ⟨-, rfl⟩ := addNode_eq_ok hadd
    rfl
  | addEdge e =>
    obtain ⟨g', hadd, rfl⟩ := map_eq_ok h
    obtain ⟨-, -, -, n, -, rfl⟩ := addEdge_eq_ok hadd
    rfl
  | removeNode id =>
    obtain ⟨r', hremove, rfl⟩ := map_eq_ok h
    obtain ⟨-, hafter⟩ := removeNode_eq_ok hremove
    rw [hafter]
    rfl
  | removeEdge id =>
    obtain ⟨r', hremove, rfl⟩ := map_eq_ok h
    obtain ⟨-, hafter⟩ := removeEdge_eq_ok hremove
    rw [hafter]
    rfl
  | setGlobals globals =>
    cases h
    rfl

/-! ### Branches -/

/-- Every edge is bound as its source asks for. -/
theorem Built.bind_eq (h : g.Built) : ∀ e ∈ g.edgeSlots.newest,
    ∀ n ∈ g.nodeSlots.newest, n.id = e.source → e.bind n.kind = e := by
  induction h with
  | empty => simp [Slots.newest]
  | addNode hg hadd ih =>
    obtain ⟨hnew, rfl⟩ := addNode_eq_ok hadd
    intro e he n hn hid
    rcases List.mem_cons.1 ((Slots.newest_insert _ _) ▸ hn) with rfl | hn
    · -- no edge leaves a node before it is there
      have hsource := node?_isSome_iff.2 (hg.wellFormed.source_mem e he)
      rw [← hid, hnew] at hsource
      cases hsource
    · exact ih e he n hn hid
  | addEdge hg hadd ih =>
    obtain ⟨-, -, -, source, hsource, rfl⟩ := addEdge_eq_ok hadd
    intro e he n hn hid
    rcases List.mem_cons.1 ((Slots.newest_insert _ _) ▸ he) with rfl | he
    · have hn' := hg.wellFormed.node?_eq_some_iff.2 ⟨mem_nodes.2 hn, hid⟩
      obtain rfl := Option.some.inj (hn'.symm.trans hsource)
      rfl
    · exact ih e he n hn hid
  | removeNode _ hremove ih =>
    obtain ⟨-, rfl⟩ := removeNode_eq_ok hremove
    intro e he n hn
    simp only [edited, Slots.newest_remove, List.mem_filter] at he hn
    exact ih e he.1.1 n hn.1
  | removeEdge _ hremove ih =>
    obtain ⟨-, rfl⟩ := removeEdge_eq_ok hremove
    intro e he
    simp only [edited, Slots.newest_remove, List.mem_filter] at he
    exact ih e he.1
  | setGlobals _ _ ih => exact ih

/-- An edge is bound to a branch if its source has branches. -/
theorem Built.branch_isSome_iff (h : g.Built) (e : Edge) (he : e ∈ g.edgeSlots.newest) (n : Node)
    (hn : n ∈ g.nodeSlots.newest) (hid : n.id = e.source) :
    e.branch.isSome ↔ n.kind.isBranching := by
  rw [← h.bind_eq e he n hn hid, Edge.bind]
  dsimp only
  split
  · next hbranching => simp [hbranching]
  · next hbranching => simp [hbranching]

/-! ### Histories -/

theorem Built.perform (hg : g.Built) (h : g.perform e = .ok r) : r.2.Built := by
  cases e with
  | addNode n =>
    obtain ⟨g', hadd, rfl⟩ := map_eq_ok h
    exact hg.addNode hadd
  | addEdge e =>
    obtain ⟨g', hadd, rfl⟩ := map_eq_ok h
    exact hg.addEdge hadd
  | removeNode id =>
    obtain ⟨r', hremove, rfl⟩ := map_eq_ok h
    exact hg.removeNode hremove
  | removeEdge id =>
    obtain ⟨r', hremove, rfl⟩ := map_eq_ok h
    exact hg.removeEdge hremove
  | setGlobals globals =>
    cases h
    exact hg.setGlobals globals

theorem Built.edit (hg : g.Built) (e : Edit) : (g.edit e).Built := by
  cases h : g.perform e with
  | error error => rwa [edit_of_error h]
  | ok r =>
    rw [edit_of_ok h]
    exact hg.perform h

theorem Built.edits (hg : g.Built) (es : List Edit) : (g.edits es).Built := by
  induction es generalizing g with
  | nil => exact hg
  | cons e es ih => exact ih (hg.edit e)

end Graph
end Flowrun
