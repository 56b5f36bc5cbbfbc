import Flowrun.Proofs.Run.Sound
import Mathlib.Logic.Relation

/-!
# Moving on leaves nothing due

Moving on from a node is a sequence of moves: some nodes become ready and some are skipped
(`advance_induction`, `moves_advance`). It ends when nothing is due, if before it only successors of
the node were due:

    (∀ n, r.Due n → ∃ e ∈ r.graph.edgesInto n.id, e.source = id) → ¬ (r.advance id).Due n

The worklist carries this. Whatever is due while nodes are settled has a predecessor that is still
on the list, since a node can only become due when a predecessor has just passed.
-/

namespace Flowrun.Run

/-- A run after some moves. -/
abbrev Moves (w : World) : Run → Run → Prop := Relation.ReflTransGen (Move w)

variable {w : World} {r r' : Run}

/-- What the moves keep holds after all of them. -/
theorem Moves.keep {P : Run → Prop} (hm : Moves w r r') (hsound : r.Sound) (h : P r)
    (step : ∀ {s s' : Run}, s.Sound → P s → Move w s s' → P s') : r'.Sound ∧ P r' := by
  induction hm with
  | refl => exact ⟨hsound, h⟩
  | tail _ m ih => exact ⟨ih.1.move m, step ih.1 ih.2 m⟩

theorem Moves.sound (hm : Moves w r r') (hsound : r.Sound) : r'.Sound :=
  (hm.keep (P := fun _ => True) hsound trivial fun _ _ _ => trivial).1

theorem Moves.live (hm : Moves w r r') (h : r'.halting = false) : r.halting = false := by
  induction hm with
  | refl => exact h
  | tail _ m ih => exact ih (m.live h)

theorem Moves.graph_eq (hm : Moves w r r') : r'.graph = r.graph := by
  induction hm with
  | refl => rfl
  | tail _ m ih => exact m.graph_eq.trans ih

/-! ### Moving on as moves -/

section Induction

variable {P : Run → Prop}
  (enqueue : ∀ {s : Run} {id : String}, P s → s.settle id = .ready →
    P { s with ready := s.ready ++ [id] })
  (skip : ∀ {s : Run} {id : String} {n : Node}, P s → s.settle id = .skip n → P (s.skip n))

include enqueue skip

theorem settleEach_induction (ids : List String) (h : P r) : P (r.settleEach ids).1 := by
  induction ids generalizing r with
  | nil => exact h
  | cons id rest ih =>
    unfold settleEach
    split
    · exact ih h
    · next hs => exact ih (enqueue h hs)
    · next n hs => exact ih (skip h hs)

theorem advanceAll_induction (work : List String) (h : P r) : P (r.advanceAll work) := by
  fun_induction advanceAll r work with
  | case1 => exact h
  | case2 r id rest ih => exact ih (settleEach_induction enqueue skip _ h)

/-- What is kept when a node becomes ready or is skipped is kept by moving on. -/
theorem advance_induction (id : String) (h : P r) : P (r.advance id) :=
  advanceAll_induction enqueue skip [id] h

end Induction

theorem moves_advance (w : World) (r : Run) (id : String) : Moves w r (r.advance id) :=
  advance_induction (P := Moves w r) (fun h hs => h.tail (.enqueue hs))
    (fun h hs => h.tail (.skip hs)) id .refl

/-- Moving on leaves the pauses as they are. -/
theorem active_advance (r : Run) (id : String) : (r.advance id).active = r.active :=
  advance_induction (P := fun s => s.active = r.active) (fun h _ => h) (fun h _ => h) id rfl

theorem queued_advance (r : Run) (id : String) : (r.advance id).queued = r.queued :=
  advance_induction (P := fun s => s.queued = r.queued) (fun h _ => h) (fun h _ => h) id rfl

/-! ### What is due -/

/-- A node that is due was due before, if nothing that it depends on has changed. -/
theorem Due.before {n : Node} (h : r'.Due n) (hgraph : r'.graph = r.graph)
    (hready : ∀ id ∈ r.ready, id ∈ r'.ready ∨ r'.standing? id ≠ none)
    (hstand : ∀ id, r'.standing? id = none → r.standing? id = none)
    (hpassed : ∀ e ∈ r.graph.edgesInto n.id, r'.passed e.source = true →
      r.passed e.source = true) : r.Due n where
  free := hstand n.id h.free
  unlisted hmem := (hready n.id hmem).elim h.unlisted fun hs => hs h.free
  node := hgraph ▸ h.node
  passed e he := hpassed e he (h.passed e (hgraph ▸ he))

theorem passed_congr {id : String} (h : r'.standing? id = r.standing? id) :
    r'.passed id = r.passed id := by
  unfold passed succeeded
  rw [h]

/-- When one node is done, only its successors can become due. -/
theorem Due.before_done {n : Node} (h : r'.Due n) {id : String} (hgraph : r'.graph = r.graph)
    (hready : r'.ready = r.ready) (hset : r'.standing? id ≠ none)
    (hstand : ∀ a, id ≠ a → r'.standing? a = r.standing? a) :
    n.id ≠ id ∧ (r.Due n ∨ ∃ e ∈ r.graph.edgesInto n.id, e.source = id) := by
  have hne : n.id ≠ id := fun he => hset (he ▸ h.free)
  refine ⟨hne, ?_⟩
  by_cases hedge : ∃ e ∈ r.graph.edgesInto n.id, e.source = id
  · exact Or.inr hedge
  · left
    constructor
    · exact (hstand n.id hne.symm).symm.trans h.free
    · exact hready ▸ h.unlisted
    · exact hgraph ▸ h.node
    · intro e he
      have hsource : id ≠ e.source := fun hs => hedge ⟨e, he, hs.symm⟩
      exact passed_congr (hstand e.source hsource) ▸ h.passed e (hgraph ▸ he)

theorem standing?_skip (r : Run) (n : Node) (id : String) :
    (r.skip n).standing? id = if n.id = id then some (.done .skip) else r.standing? id :=
  Dict.at?_put ..

theorem Due.before_skip {n m : Node} (h : (r.skip m).Due n) :
    n.id ≠ m.id ∧ (r.Due n ∨ ∃ e ∈ r.graph.edgesInto n.id, e.source = m.id) := by
  refine h.before_done rfl rfl ?_ fun a ha => ?_
  · rw [standing?_skip, if_pos rfl]
    nofun
  · rw [standing?_skip, if_neg ha]

theorem Due.before_enqueue {n : Node} {id : String}
    (h : Due { r with ready := r.ready ++ [id] } n) : n.id ≠ id ∧ r.Due n := by
  constructor
  · exact fun he => h.unlisted (he ▸ List.mem_append_right _ (List.mem_singleton.2 rfl))
  · exact h.before rfl (fun a ha => Or.inl (List.mem_append_left _ ha)) (fun _ ha => ha)
      fun _ _ hp => hp

/-- After settling nodes in turn, what is due was due and not settled, or has a predecessor that was
skipped. -/
theorem due_settleEach {ids : List String} {n : Node} (h : (r.settleEach ids).1.Due n) :
    (r.Due n ∧ n.id ∉ ids) ∨
      ∃ e ∈ r.graph.edgesInto n.id, e.source ∈ (r.settleEach ids).2 := by
  induction ids generalizing r with
  | nil => exact Or.inl ⟨h, List.not_mem_nil⟩
  | cons id rest ih =>
    unfold settleEach at h ⊢
    split at h
    · next hs =>
      rcases ih h with ⟨hdue, hrest⟩ | hedge
      · have hne : n.id ≠ id := fun he => not_due_of_settle_eq_wait (he ▸ hs) hdue
        exact Or.inl ⟨hdue, by simp [hne, hrest]⟩
      · exact Or.inr hedge
    · next hs =>
      rcases ih h with ⟨hdue, hrest⟩ | hedge
      · obtain ⟨hne, hdue⟩ := hdue.before_enqueue
        exact Or.inl ⟨hdue, by simp [hne, hrest]⟩
      · exact Or.inr hedge
    · next m hs =>
      obtain ⟨hid, -, -⟩ := due_of_settle_eq_skip hs
      subst hid
      rcases ih h with ⟨hdue, hrest⟩ | ⟨e, he, hsource⟩
      · obtain ⟨hne, hdue | ⟨e, he, hsource⟩⟩ := hdue.before_skip
        · exact Or.inl ⟨hdue, by simp [hne, hrest]⟩
        · exact Or.inr ⟨e, he, hsource ▸ List.mem_cons_self⟩
      · exact Or.inr ⟨e, he, List.mem_cons_of_mem _ hsource⟩

theorem mem_successors {id : String} {n : Node} {e : Edge} (he : e ∈ r.graph.edgesInto n.id)
    (hsource : e.source = id) : n.id ∈ r.successors id := by
  obtain ⟨hmem, htarget⟩ := Graph.mem_edgesInto.1 he
  rw [successors, mem_distinct, List.mem_map]
  exact ⟨e, Graph.mem_edgesFrom.2 ⟨hmem, hsource⟩, htarget⟩

/-- Whatever is due has a predecessor on the worklist; so nothing is due when the list is empty. -/
theorem not_due_advanceAll (work : List String)
    (hwork : ∀ n, r.Due n → ∃ e ∈ r.graph.edgesInto n.id, e.source ∈ work) (n : Node) :
    ¬ (r.advanceAll work).Due n := by
  fun_induction advanceAll r work with
  | case1 r =>
    intro hdue
    obtain ⟨e, _, hmem⟩ := hwork n hdue
    exact List.not_mem_nil hmem
  | case2 r id rest ih =>
    refine ih fun m hdue => ?_
    have hgraph : (r.settleEach (r.successors id)).1.graph = r.graph :=
      settleEach_induction (P := fun s => s.graph = r.graph) (fun h _ => h) (fun h _ => h) _ rfl
    rw [hgraph]
    rcases due_settleEach hdue with ⟨hbefore, hnot⟩ | ⟨e, he, hskipped⟩
    · obtain ⟨e, he, hmem⟩ := hwork m hbefore
      rcases List.mem_cons.1 hmem with hsource | hrest
      · exact absurd (mem_successors he hsource) hnot
      · exact ⟨e, he, List.mem_append_right _ hrest⟩
    · exact ⟨e, he, List.mem_append_left _ (List.mem_reverse.2 hskipped)⟩

/-- Moving on from a node leaves nothing due, if only its successors were. -/
theorem not_due_advance {id : String}
    (h : ∀ n, r.Due n → ∃ e ∈ r.graph.edgesInto n.id, e.source = id) (n : Node) :
    ¬ (r.advance id).Due n := by
  refine not_due_advanceAll [id] (fun m hdue => ?_) n
  obtain ⟨e, he, hsource⟩ := h m hdue
  exact ⟨e, he, List.mem_singleton.2 hsource⟩

end Flowrun.Run
