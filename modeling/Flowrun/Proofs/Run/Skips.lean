import Flowrun.Proofs.Run.Launches

/-!
# Which nodes run and which are skipped

A node was skipped only if an edge leads to it and no such edge is alive, and it was entered, which
is to say made ready or started, only if no edge leads to it or one that is alive does. In both
cases all its predecessors have passed. A run with this property is `Justified`, and the moves keep
it because an edge whose source has passed never changes sides:

    r.passed e.source → r'.alive e = r.alive e

At a successful end nothing is ready, in flight or paused, and nothing is due. Then every node has
passed, as is seen by following the edges forward.
-/

namespace Flowrun.Run

variable {w : World} {r r' : Run}

/-! ### How nodes are entered and skipped -/

/-- A node that is ready or was started. -/
def Entered (r : Run) (id : String) : Prop :=
  id ∈ r.ready ∨ ∃ s, r.standing? id = some s ∧ s ≠ .done .skip

theorem entered_of_standing {id : String} {s : Standing} (hs : r.standing? id = some s)
    (hne : s ≠ .done .skip) : r.Entered id :=
  Or.inr ⟨s, hs, hne⟩

/-- What may happen to a node in one move: nothing new, or it is settled. -/
structure Passage (r r' : Run) (id : String) : Prop where
  entered : r'.Entered id → r.Entered id ∨ r.settle id = .ready
  skipped : r'.standing? id = some (.done .skip) →
    r.standing? id = some (.done .skip) ∨ ∃ n, r.settle id = .skip n
  kept : r.Entered id → r'.Entered id

theorem Passage.of_eq {id : String} (hready : ∀ a, a ∈ r'.ready ↔ a ∈ r.ready)
    (hstand : r'.standing? id = r.standing? id) : Passage r r' id := by
  constructor
  · intro he
    simp only [Entered, hready, hstand] at he
    exact Or.inl he
  · intro hs
    exact Or.inl (hstand ▸ hs)
  · intro he
    simpa only [Entered, hready, hstand] using he

/-- A node that was entered is put somewhere else, but is not skipped. -/
theorem Passage.of_put {a id : String} {t : Standing} (ha : r.Entered a)
    (ht : t ≠ .done .skip) (hready : ∀ b, b ≠ a → (b ∈ r'.ready ↔ b ∈ r.ready))
    (hstand : ∀ b, r'.standing? b = if a = b then some t else r.standing? b) :
    Passage r r' id := by
  have hid := hstand id
  by_cases he : a = id
  · subst he
    rw [if_pos rfl] at hid
    constructor
    · exact fun _ => Or.inl ha
    · intro hs
      exact absurd (Option.some.inj (hid.symm.trans hs)) ht
    · exact fun _ => entered_of_standing hid ht
  · rw [if_neg he] at hid
    have hmem := hready id (Ne.symm he)
    constructor
    · intro hentered
      simp only [Entered, hmem, hid] at hentered
      exact Or.inl hentered
    · exact fun hs => Or.inl (hid ▸ hs)
    · intro hentered
      simpa only [Entered, hmem, hid] using hentered

theorem Sound.passage (h : r.Sound) (m : Move w r r') (id : String) : Passage r r' id := by
  have flying : ∀ {x : Execution}, x ∈ r.inFlight → r.Entered x.request.node.id := fun hx =>
    entered_of_standing (h.standing_flying hx) nofun
  have active : ∀ {p : Pause}, r.active = some p → r.Entered p.node := fun hp =>
    entered_of_standing (h.standing_active hp) nofun
  cases m with
  | sort => exact .of_eq (fun a => List.mem_mergeSort) rfl
  | @start n rest _ hready =>
    have hmem : n.id ∈ r.ready := by rw [hready]; exact List.mem_cons_self
    refine .of_put (Or.inl hmem) (t := .running) nofun (fun b hb => ?_)
      fun b => Dict.at?_put ..
    rw [hready, List.mem_cons, or_iff_right hb]
    exact Iff.rfl
  | @enqueue a hs =>
    constructor
    · rintro (hmem | hstand)
      · rcases List.mem_append.1 hmem with hmem | hnew
        · exact Or.inl (Or.inl hmem)
        · exact Or.inr (List.mem_singleton.1 hnew ▸ hs)
      · exact Or.inl (Or.inr hstand)
    · exact Or.inl
    · exact fun he => he.imp_left (List.mem_append_left _)
  | @skip a n hs =>
    obtain ⟨rfl, hdue, -⟩ := due_of_settle_eq_skip hs
    constructor
    · rintro (hmem | ⟨s, hstand, hne⟩)
      · exact Or.inl (Or.inl hmem)
      · rw [standing?_skip] at hstand
        split at hstand
        · exact absurd (Option.some.inj hstand).symm hne
        · exact Or.inl (Or.inr ⟨s, hstand, hne⟩)
    · intro hstand
      rw [standing?_skip] at hstand
      split at hstand
      · next he => exact Or.inr ⟨n, he ▸ hs⟩
      · exact Or.inl hstand
    · rintro (hmem | ⟨s, hstand, hne⟩)
      · exact Or.inl hmem
      · refine Or.inr ⟨s, ?_, hne⟩
        rw [standing?_skip, if_neg, hstand]
        rintro rfl
        cases hdue.free.symm.trans hstand
  | close _ _ hx =>
    exact .of_put (flying hx) (t := .done .stop) nofun (fun _ _ => Iff.rfl)
      fun _ => Dict.at?_put ..
  | fail _ hx =>
    exact .of_put (flying hx) (t := .done .fail) nofun (fun _ _ => Iff.rfl)
      fun _ => Dict.at?_put ..
  | complete _ hx =>
    rw [complete_eq]
    exact .of_put (flying hx) (t := .done .success) nofun (fun _ _ => Iff.rfl)
      fun _ => Dict.at?_put ..
  | wait hx =>
    exact .of_put (flying hx) (t := .suspended) nofun (fun _ _ => Iff.rfl)
      fun _ => Dict.at?_put ..
  | reenter _ _ hactive _ _ hn =>
    have hid := Graph.id_of_node?_eq_some hn
    exact .of_put (hid ▸ active hactive) (t := .running) nofun (fun _ _ => Iff.rfl)
      fun _ => Dict.at?_put ..
  | answer _ hactive =>
    exact .of_put (active hactive) (t := .done .success) nofun (fun _ _ => Iff.rfl)
      fun _ => Dict.at?_put ..
  | dropActive _ hactive =>
    exact .of_put (active hactive) (t := .done .stop) nofun (fun _ _ => Iff.rfl)
      fun _ => Dict.at?_put ..
  | @dropQueued p rest _ _ _ hqueued =>
    have hsus := h.standing_queued (p := p) (by rw [hqueued]; exact List.mem_cons_self)
    exact .of_put (entered_of_standing hsus nofun) (t := .done .stop) nofun (fun _ _ => Iff.rfl)
      fun _ => Dict.at?_put ..
  | _ => exact .of_eq (fun _ => Iff.rfl) rfl

/-! ### Edges never change sides -/

theorem passed_iff {id : String} :
    r.passed id = true ↔
      r.standing? id = some (.done .success) ∨ r.standing? id = some (.done .skip) := by
  simp [passed, succeeded]

theorem exists_done_of_passed {id : String} (hp : r.passed id = true) :
    ∃ s, r.standing? id = some (.done s) :=
  (passed_iff.1 hp).elim (fun hs => ⟨_, hs⟩) fun hs => ⟨_, hs⟩

theorem Sound.passed_move (h : r.Sound) (m : Move w r r') {id : String}
    (hp : r.passed id = true) : r'.passed id = true :=
  passed_iff.2 ((passed_iff.1 hp).imp (h.done_move m) (h.done_move m))

theorem Sound.standing_passed_move (h : r.Sound) (m : Move w r r') {id : String}
    (hp : r.passed id = true) : r'.standing? id = r.standing? id := by
  obtain ⟨s, hs⟩ := exists_done_of_passed hp
  rw [hs, h.done_move m hs]

/-- A node that has passed makes no choice any more. -/
theorem Sound.chosen_move (h : r.Sound) (m : Move w r r') {id : String}
    (hp : r.passed id = true) : r'.chosen.at? id = r.chosen.at? id := by
  cases m with
  | @complete x _ _ _ branches _ hx =>
    rw [complete_eq]
    show (if branches = [] then r.chosen else _).at? id = _
    split
    · rfl
    · refine Dict.at?_put_of_ne _ ?_ _
      rintro rfl
      have hrun : r.standing? x.request.node.id = some .running := h.standing_flying hx
      obtain ⟨s, hs⟩ := exists_done_of_passed hp
      cases hrun.symm.trans hs
  | _ => rfl

theorem Sound.alive_move (h : r.Sound) (m : Move w r r') {e : Edge}
    (hp : r.passed e.source = true) : r'.alive e = r.alive e := by
  have hs := h.standing_passed_move m hp
  have hc := h.chosen_move m hp
  unfold alive succeeded branchChosen
  rw [hs, hc]

/-! ### Justified runs -/

/-- All predecessors of a node have passed, and some edge that leads to it is alive. -/
structure Called (r : Run) (id : String) : Prop where
  passed : ∀ e ∈ r.graph.edgesInto id, r.passed e.source = true
  alive : ∃ e ∈ r.graph.edgesInto id, r.alive e = true

/-- All predecessors of a node have passed, and all edges that lead to it, of which there are some,
are dead. -/
structure Cut (r : Run) (id : String) : Prop where
  nonempty : r.graph.edgesInto id ≠ []
  passed : ∀ e ∈ r.graph.edgesInto id, r.passed e.source = true
  dead : ∀ e ∈ r.graph.edgesInto id, r.alive e = false

/-- Nodes are entered and skipped for a reason. -/
structure Justified (r : Run) : Prop where
  entered : ∀ id, r.Entered id → r.graph.edgesInto id = [] ∨ r.Called id
  skipped : ∀ id, r.standing? id = some (.done .skip) → r.Cut id
  entries : ∀ n ∈ r.graph.nodes, r.graph.edgesInto n.id = [] → r.Entered n.id

theorem Sound.called_move (h : r.Sound) (m : Move w r r') {id : String} (hc : r.Called id) :
    r'.Called id where
  passed e he := h.passed_move m (hc.passed e (m.graph_eq ▸ he))
  alive := by
    obtain ⟨e, he, halive⟩ := hc.alive
    refine ⟨e, m.graph_eq.symm ▸ he, ?_⟩
    rw [h.alive_move m (hc.passed e he), halive]

theorem Sound.cut_move (h : r.Sound) (m : Move w r r') {id : String} (hc : r.Cut id) :
    r'.Cut id where
  nonempty := m.graph_eq.symm ▸ hc.nonempty
  passed e he := h.passed_move m (hc.passed e (m.graph_eq ▸ he))
  dead e he := by
    have he : e ∈ r.graph.edgesInto id := m.graph_eq ▸ he
    rw [h.alive_move m (hc.passed e he), hc.dead e he]

theorem Justified.move (hj : r.Justified) (h : r.Sound) (m : Move w r r') : r'.Justified where
  entered id he := by
    rw [m.graph_eq]
    rcases (h.passage m id).entered he with hbefore | hready
    · exact (hj.entered id hbefore).imp_right (h.called_move m)
    · obtain ⟨n, rfl, hdue, halive⟩ := due_of_settle_eq_ready hready
      exact Or.inr (h.called_move m ⟨hdue.passed, halive⟩)
  skipped id hs := by
    rcases (h.passage m id).skipped hs with hbefore | ⟨n, hskip⟩
    · exact h.cut_move m (hj.skipped id hbefore)
    · obtain ⟨rfl, hdue, hdead⟩ := due_of_settle_eq_skip hskip
      refine h.cut_move m ⟨fun hnone => ?_, hdue.passed, hdead⟩
      -- a node that no edge leads to is entered from the beginning
      rcases hj.entries n (Graph.mem_of_node?_eq_some hdue.node) hnone with hmem | ⟨s, hstand, -⟩
      · exact hdue.unlisted hmem
      · cases hdue.free.symm.trans hstand
  entries n hn hnone := by
    rw [m.graph_eq] at hn hnone
    exact (h.passage m n.id).kept (hj.entries n hn hnone)

theorem Launched.justified {g : Graph} {limit : Nat} {startInputs : Dict Json.Value} {pool : Pool}
    (h : Launched g limit startInputs pool r) : r.Justified := by
  obtain ⟨_, _, _, _, _, _, rfl⟩ := h.eq
  constructor
  · rintro id (hmem | ⟨s, hs, -⟩)
    · obtain ⟨n, hn, rfl⟩ := List.mem_map.1 hmem
      exact Or.inl (Graph.mem_entries.1 hn).2
    · cases hs
  · nofun
  · exact fun n hn hnone => Or.inl (List.mem_map_of_mem (Graph.mem_entries.2 ⟨hn, hnone⟩))

/-- Nodes are entered and skipped for a reason in every history. -/
theorem Launched.justified_acts {g : Graph} {limit : Nat} {startInputs : Dict Json.Value}
    {pool : Pool} (h : Launched g limit startInputs pool r) (as : List Action) :
    (r.acts as).Justified := by
  have key : ∀ {s : Run}, Moves .any r s → s.Justified := fun hmoves =>
    (hmoves.keep h.steady.sound h.justified fun hs hj m => hj.move hs m).2
  rcases h.steady.acts (World.any_admitsAll r as) with ⟨hmoves, -⟩ | ⟨s, hmoves, -, heq⟩
  · exact key hmoves
  · rw [heq]
    have hj := key hmoves
    constructor
    · exact fun id he => (hj.entered id he).imp_right fun hc => ⟨hc.passed, hc.alive⟩
    · intro id hs
      have hc := hj.skipped id hs
      exact ⟨hc.nonempty, hc.passed, hc.dead⟩
    · exact hj.entries

/-! ### What the records say -/

/-- Whether the records say that a run cannot go on along an edge: its source was skipped, or did
not choose the branch that the edge belongs to. -/
def Dead (r : Run) (e : Edge) : Prop :=
  ∃ x ∈ r.ownRecords e.source, x.status = .skip ∨ ∃ h, e.branch = some h ∧ h.branch ∉ x.branches

/-- Once its source has passed, an edge is dead exactly if it is not alive. -/
theorem dead_iff (h : r.ledger.Sound) {e : Edge} (hp : r.passed e.source = true) :
    r.Dead e ↔ r.alive e = false := by
  obtain ⟨_, hs⟩ := exists_done_of_passed hp
  obtain ⟨i, x, hi, hx, hnode, hparent⟩ := h.exists_record hs
  have hown := ownRecords_eq h hi hx
  have hskip : x.status = .skip ↔ r.standing? e.source = some (.done .skip) :=
    hnode ▸ h.skipped i x hx hparent
  have hbranches : x.branches = (r.chosen.at? e.source).getD [] :=
    hnode ▸ h.branches i x hx hparent
  unfold Dead
  simp only [hown, List.mem_singleton, exists_eq_left, hskip, hbranches]
  -- the record of a node that succeeded has the branches that were chosen
  rcases passed_iff.1 hp with hsuccess | hskipped
  · unfold alive succeeded branchChosen
    rw [hsuccess]
    cases e.branch <;> simp
  · unfold alive succeeded
    rw [hskipped]
    simp

/-- The record of a node that has passed says so. -/
theorem exists_ownRecords_of_passed (h : r.ledger.Sound) {id : String} (hid : id ≠ "")
    (hp : r.passed id = true) :
    ∃ x, r.ownRecords id = [x] ∧ (x.status = .success ∨ x.status = .skip) := by
  rcases passed_iff.1 hp with hs | hs
  · obtain ⟨x, hx, hshows⟩ := exists_ownRecords_shows h hid hs
    exact ⟨x, hx, Or.inl hshows⟩
  · obtain ⟨x, hx, hshows⟩ := exists_ownRecords_shows h hid hs
    exact ⟨x, hx, Or.inr hshows⟩

/-! ### A successful end -/

/-- A node that is done and has not passed makes the run halt. -/
def Accounted (r : Run) : Prop :=
  ∀ id s, r.standing? id = some (.done s) → s = .success ∨ s = .skip ∨ r.halting = true

theorem Accounted.move (ha : r.Accounted) (m : Move w r r') : r'.Accounted := by
  intro id s hs
  by_cases hh : r'.halting = true
  · exact Or.inr (Or.inr hh)
  · have hlive := m.live (Bool.eq_false_iff.2 hh)
    have before : r.standing? id = some (.done s) →
        s = .success ∨ s = .skip ∨ r'.halting = true := by
      intro hs
      rcases ha id s hs with hs | hs | hs
      · exact Or.inl hs
      · exact Or.inr (Or.inl hs)
      · cases hlive.symm.trans hs
    have put : ∀ {a : String} {t : Standing}, (t = .running ∨ t = .suspended ∨
        t = .done .success ∨ t = .done .skip) → (r.standings.put a t).at? id = some (.done s) →
        s = .success ∨ s = .skip ∨ r'.halting = true := by
      intro a t ht hs
      rw [Dict.at?_put] at hs
      split at hs
      · rcases ht with rfl | rfl | rfl | rfl <;> cases hs
        · exact Or.inl rfl
        · exact Or.inr (Or.inl rfl)
      · exact before hs
    cases m with
    | start => exact put (Or.inl rfl) hs
    | skip => exact put (Or.inr (Or.inr (Or.inr rfl))) hs
    | close _ _ _ _ hwhy =>
      have : r.halting = true := Bool.or_eq_true_iff.2 (hwhy.imp_right And.left)
      cases hlive.symm.trans this
    | fail => exact absurd (halting_fail ..) hh
    | complete =>
      rw [complete_eq] at hs
      exact put (Or.inr (Or.inr (Or.inl rfl))) hs
    | wait => exact put (Or.inr (Or.inl rfl)) hs
    | reenter => exact put (Or.inl rfl) hs
    | answer => exact put (Or.inr (Or.inr (Or.inl rfl))) hs
    | dropActive hhalting => cases hlive.symm.trans hhalting
    | dropQueued hhalting => cases hlive.symm.trans hhalting
    | _ => exact before hs

/-- When a run ends without halting, every node has passed. -/
theorem Ended.passed (h : r.Ended) (ha : r.Accounted) (hh : r.halting = false) {n : Node}
    (hn : n ∈ r.graph.nodes) : r.passed n.id = true := by
  have hwf := h.sound.wellFormed
  have key : ∀ id, (∃ n, r.graph.node? id = some n) → r.passed id = true := by
    -- from the predecessors of a node to the node
    refine hwf.forward_induction h.sound.ordered fun id ih hid => ?_
    obtain ⟨m, hm⟩ := hid
    obtain rfl := Graph.id_of_node?_eq_some hm
    have hpassed : ∀ e ∈ r.graph.edgesInto m.id, r.passed e.source = true := fun e he =>
      ih e he (hwf.exists_source (Graph.mem_edgesInto.1 he).1)
    -- a node that was not reached would be due, and nothing runs or waits any more
    cases hs : r.standing? m.id with
    | none =>
      have hready : m.id ∉ r.ready := by
        rw [h.ready hh]
        exact List.not_mem_nil
      exact absurd ⟨hs, hready, hm, hpassed⟩ (h.settled hh m)
    | some s =>
      cases s with
      | running =>
        obtain ⟨x, hx, -⟩ := (h.sound.board.running_iff m.id).1 hs
        rw [show r.board.inFlight = [] from h.inFlight] at hx
        cases hx
      | suspended =>
        have hmem := (h.sound.board.suspended_iff m.id).1 hs
        rw [show r.board.waiting = [] from congrArg (List.map Pause.node) h.pauses] at hmem
        cases hmem
      | done s =>
        rcases ha m.id s hs with rfl | rfl | hhalting
        · exact passed_iff.2 (Or.inl hs)
        · exact passed_iff.2 (Or.inr hs)
        · cases hh.symm.trans hhalting
  exact key n.id ⟨n, hwf.node?_id hn⟩

theorem Launched.accounted {g : Graph} {limit : Nat} {startInputs : Dict Json.Value} {pool : Pool}
    (h : Launched g limit startInputs pool r) : r.Accounted := by
  obtain ⟨_, _, _, _, _, _, rfl⟩ := h.eq
  exact fun _ _ hs => nomatch hs

/-! ### The theorem -/

/-- A node that is started was entered before. -/
theorem Steady.entered_of_launches (h : r.Steady) {a : Action} {x : Execution}
    (hx : x ∈ r.launches a) : r.Entered x.request.node.id := by
  have hlaunching := h.launching a
  generalize r.launches a = news at hlaunching hx
  cases hlaunching with
  | none => cases hx
  | ready _ hperm =>
    exact Or.inl (hperm.subset (List.mem_append_left _ (List.mem_map_of_mem hx)))
  | again _ _ _ _ hsus =>
    obtain rfl := List.mem_singleton.1 hx
    exact entered_of_standing hsus nofun

/-- In every state that a history of a run leads to: a node has a record of a skip only if an edge
leads to it and all such edges are dead; and a node is started only if no edge leads to it, or all
its predecessors succeeded or were skipped and some edge that leads to it is not dead. When the run
ends with success, every node has exactly one record of its own, of a success or a skip. -/
theorem skipped_and_started_only_if {g : Graph} {limit : Nat} {startInputs : Dict Json.Value}
    {pool : Pool} (h : Launched g limit startInputs pool r) (hids : ∀ n ∈ g.nodes, n.id ≠ "")
    (as : List Action) :
    (∀ id, ∀ x ∈ (r.acts as).ownRecords id, x.status = .skip →
      g.edgesInto id ≠ [] ∧ ∀ e ∈ g.edgesInto id, (r.acts as).Dead e) ∧
    (∀ a, ∀ x ∈ (r.acts as).launches a, g.edgesInto x.request.node.id = [] ∨
      (∀ e ∈ g.edgesInto x.request.node.id,
        ∃ y, (r.acts as).ownRecords e.source = [y] ∧ (y.status = .success ∨ y.status = .skip)) ∧
      ∃ e ∈ g.edgesInto x.request.node.id, ¬ (r.acts as).Dead e) ∧
    ((r.acts as).feed.status = .success → ∀ n ∈ g.nodes,
      ∃ x, (r.acts as).ownRecords n.id = [x] ∧ (x.status = .success ∨ x.status = .skip)) := by
  have hg := h.built.wellFormed
  have hgraph := h.graph_acts as
  have hledger := h.steady.ledger_acts as
  have hj := h.justified_acts as
  refine ⟨fun id x hx hskip => ?_, fun a x hx => ?_, fun hsuccess n hn => ?_⟩
  · have hcut := hj.skipped id ((status_ownRecord_eq_skip_iff hledger hx).1 hskip)
    rw [← hgraph]
    exact ⟨hcut.nonempty, fun e he => (dead_iff hledger (hcut.passed e he)).2 (hcut.dead e he)⟩
  · rcases h.steady.acts_or_isTerminal as with hsteady | hterminal
    · rw [← hgraph]
      refine (hj.entered _ (hsteady.entered_of_launches hx)).imp_right fun hcalled => ?_
      constructor
      · intro e he
        obtain ⟨m, hm⟩ := hg.exists_source (hgraph ▸ (Graph.mem_edgesInto.1 he).1)
        have hid : e.source ≠ "" :=
          Graph.id_of_node?_eq_some hm ▸ hids m (Graph.mem_of_node?_eq_some hm)
        exact exists_ownRecords_of_passed hledger hid (hcalled.passed e he)
      · obtain ⟨e, he, halive⟩ := hcalled.alive
        refine ⟨e, he, fun hdead => ?_⟩
        rw [(dead_iff hledger (hcalled.passed e he)).1 hdead] at halive
        cases halive
    · rw [launches_of_isTerminal hterminal (h.steady.tidy_acts as)] at hx
      cases hx
  · rcases h.steady.acts (World.any_admitsAll r as) with ⟨-, hsteady⟩ | ⟨s, hmoves, hended, heq⟩
    · rcases hsteady.sound.live with hs | hs <;> cases hs.symm.trans hsuccess
    · have hfinal : s.finalStatus = .success := by
        rw [← hended.status_conclude, ← heq, hsuccess]
      have haccounted : s.Accounted :=
        (hmoves.keep h.steady.sound h.accounted fun _ ha m => ha.move m).2
      have hpassed : (r.acts as).passed n.id = true := by
        rw [heq]
        refine hended.passed haccounted (live_of_finalStatus hfinal) ?_
        rw [show s.graph = g from (congrArg Run.graph heq).symm.trans hgraph]
        exact hn
      exact exists_ownRecords_of_passed hledger (hids n hn) hpassed

/-- The judge says yes, so the repair is skipped, and the output is still made. -/
theorem skipped_and_started_only_if_yes :
    let as : List Action := [.schedule, .report 0 (.ok (.success .null [])) 0,
      .report 1 (.ok (.success .null [])) 0, .schedule,
      .report 2 (.ok (.success .null ["yes"])) 0, .schedule,
      .report 3 (.ok (.success .null [])) 0, .finish]
    ((Sample.run 0).acts as).feed.status = .success ∧
      ∃ x, ((Sample.run 0).acts as).ownRecords "repair" = [x] ∧
        (x.status = .success ∨ x.status = .skip) := by
  have hids : ∀ n ∈ Sample.graph.nodes, n.id ≠ "" := by
    intro n hn
    rcases Sample.mem_nodes.1 hn with rfl | rfl | rfl | rfl | rfl <;> decide
  have hsuccess : ((Sample.run 0).acts [.schedule, .report 0 (.ok (.success .null [])) 0,
      .report 1 (.ok (.success .null [])) 0, .schedule,
      .report 2 (.ok (.success .null ["yes"])) 0, .schedule,
      .report 3 (.ok (.success .null [])) 0, .finish]).feed.status = .success := by cbv
  refine ⟨hsuccess, ?_⟩
  exact (skipped_and_started_only_if (Sample.launched 0) hids _).2.2 hsuccess Sample.repair
    (Sample.mem_nodes.2 (by simp))

end Flowrun.Run
