import Flowrun.Proofs.Feed.Records
import Flowrun.Proofs.Graph.Order
import Flowrun.Proofs.Run.Ledger

/-!
# What holds of a run after every move

A run is `Sound` if its board is tidy, its ledger is sound, and it knows what it speaks of: the
nodes that are ready or were reached are nodes of the graph, what is in flight was started with the
inputs that are written down, and every pause has the target and the record that it should have.

    Sound r → Move w r r' → Sound r'

The proof takes the parts of a sound run one after the other, with one case for each move.
-/

namespace Flowrun.Run

open Json

variable {w : World} {r r' : Run}

/-! ### What settling tells -/

/-- A node that is neither reached nor ready, and whose predecessors have all passed. -/
structure Due (r : Run) (n : Node) : Prop where
  free : r.standing? n.id = none
  unlisted : n.id ∉ r.ready
  node : r.graph.node? n.id = some n
  passed : ∀ e ∈ r.graph.edgesInto n.id, r.passed e.source = true

theorem settle_cases (r : Run) (id : String) :
    (r.settle id = .wait ∧ ∀ n, n.id = id → ¬ r.Due n) ∨
    (∃ n, n.id = id ∧ r.Due n ∧ r.settle id = .ready ∧
      ∃ e ∈ r.graph.edgesInto id, r.alive e = true) ∨
    (∃ n, n.id = id ∧ r.Due n ∧ r.settle id = .skip n ∧
      ∀ e ∈ r.graph.edgesInto id, r.alive e = false) := by
  unfold settle
  split
  -- a node that was reached or is ready is left alone, and so is one that is no node
  · next hknown =>
    refine Or.inl ⟨rfl, ?_⟩
    rintro n rfl hdue
    rcases hknown with hs | hr
    · rw [hdue.free] at hs
      cases hs
    · exact hdue.unlisted hr
  · next hnew =>
    obtain ⟨hfree, hlist⟩ := not_or.1 hnew
    split
    · next hnone =>
      refine Or.inl ⟨rfl, ?_⟩
      rintro n rfl hdue
      rw [hdue.node] at hnone
      cases hnone
    · next n hn =>
      have hid := Graph.id_of_node?_eq_some hn
      subst hid
      split
      · next hall =>
        refine Or.inl ⟨rfl, ?_⟩
        intro m hm hdue
        rw [List.all_eq_true.2 (hm ▸ hdue.passed)] at hall
        cases hall
      · next hall =>
        have hpassed : ∀ e ∈ r.graph.edgesInto n.id, r.passed e.source = true := by
          simpa using hall
        have hdue : r.Due n := ⟨by simpa using hfree, hlist, hn, hpassed⟩
        split
        · next hany => exact Or.inr (Or.inl ⟨n, rfl, hdue, rfl, List.any_eq_true.1 hany⟩)
        · next hany => exact Or.inr (Or.inr ⟨n, rfl, hdue, rfl, by simpa using hany⟩)

theorem due_of_settle_eq_ready {id : String} (h : r.settle id = .ready) :
    ∃ n, n.id = id ∧ r.Due n ∧ ∃ e ∈ r.graph.edgesInto id, r.alive e = true := by
  rcases r.settle_cases id with ⟨hw, _⟩ | ⟨n, hid, hdue, _, hany⟩ | ⟨n, _, _, hs, _⟩
  · rw [h] at hw
    cases hw
  · exact ⟨n, hid, hdue, hany⟩
  · rw [h] at hs
    cases hs

theorem due_of_settle_eq_skip {id : String} {n : Node} (h : r.settle id = .skip n) :
    n.id = id ∧ r.Due n ∧ ∀ e ∈ r.graph.edgesInto id, r.alive e = false := by
  rcases r.settle_cases id with ⟨hw, _⟩ | ⟨n, _, _, hs, _⟩ | ⟨m, hid, hdue, hs, hnone⟩
  · rw [h] at hw
    cases hw
  · rw [h] at hs
    cases hs
  · rw [h] at hs
    cases hs
    exact ⟨hid, hdue, hnone⟩

theorem not_due_of_settle_eq_wait {n : Node} (h : r.settle n.id = .wait) : ¬ r.Due n := by
  rcases r.settle_cases n.id with ⟨_, hnot⟩ | ⟨m, _, _, hs, _⟩ | ⟨m, _, _, hs, _⟩
  · exact hnot n rfl
  · rw [h] at hs
    cases hs
  · rw [h] at hs
    cases hs

/-! ### What a move leaves as it is -/

theorem complete_eq (r : Run) (id : String) (index : Nat) (output : Value) (branches : List String)
    (elapsed : Nat) :
    r.complete id index output branches elapsed =
      { r with
        pool := r.pool.publish id output
        feed := r.feed.update index (fun x =>
          { x with status := .success, output, branches, execTimeMs := elapsed }) r.now
        standings := r.standings.put id (.done .success)
        chosen := if branches = [] then r.chosen else r.chosen.put id branches } := by
  unfold complete
  split <;> rfl

/-- The graph and what a run is started with never change. -/
theorem Move.fixed (m : Move w r r') :
    r'.graph = r.graph ∧ r'.order = r.order ∧ r'.limit = r.limit ∧
      r'.startInputs = r.startInputs := by
  cases m with
  | complete => rw [complete_eq]; exact ⟨rfl, rfl, rfl, rfl⟩
  | _ => exact ⟨rfl, rfl, rfl, rfl⟩

theorem Move.graph_eq (m : Move w r r') : r'.graph = r.graph := m.fixed.1

@[simp] theorem halting_fail (r : Run) (id : String) (index : Nat) (e : NodeError)
    (elapsed : Nat) : (r.fail id index e elapsed).halting = true := by
  simp [halting, fail, setStanding, updateRecord]

/-- A run that halts never goes on. -/
theorem Move.halting (m : Move w r r') (h : r.halting = true) : r'.halting = true := by
  cases m with
  | stop => rfl
  | fail => exact halting_fail ..
  | complete =>
    rw [complete_eq]
    exact h
  | _ => exact h

theorem Move.live (m : Move w r r') (h : r'.halting = false) : r.halting = false := by
  cases hbefore : r.halting with
  | false => rfl
  | true => exact absurd ((m.halting hbefore).symm.trans h) nofun

/-! ### Sound runs -/

theorem isNested_pauseTarget {id : String} {inner : Option InnerNode} :
    (pauseTarget id inner).isNested = true ↔ inner ≠ none ∧ id ≠ "" := by
  cases inner <;> simp [pauseTarget, ResumeTarget.new, ResumeTarget.isNested]

/-- A pause that is shown is on the record of its node, or on one of a node inside. -/
def Pause.ShownOn (r : Run) (p : Pause) (i : Nat) : Prop :=
  match p.inner with
  | none => r.recordOf.at? p.node = some i
  | some _ => ∃ x, r.feed.record? i = some x ∧ x.parent = some p.node

/-- What holds of a run after every move. -/
structure Sound (r : Run) : Prop where
  board : r.board.Tidy
  ledger : r.ledger.Sound
  wellFormed : r.graph.WellFormed
  ordered : r.graph.order = .ok r.order
  listed : ∀ id ∈ r.ready, ∃ n, r.graph.node? id = some n
  reached : ∀ id, r.standing? id ≠ none → ∃ n, r.graph.node? id = some n
  flying : ∀ x ∈ r.inFlight, r.graph.node? x.request.node.id = some x.request.node ∧
    r.inputsOf.at? x.request.node.id = some x.request.inputs
  target : ∀ p ∈ r.pauses, p.target = pauseTarget p.node p.inner
  shown : ∀ p, r.active = some p → ∃ i, p.record = some i ∧ Pause.ShownOn r p i
  hidden : ∀ p ∈ r.queued, p.record = none
  live : r.feed.status = .executing ∨ r.feed.status = .paused
  status : r.halting = false →
    r.feed.status = if r.active.isSome then .paused else .executing

namespace Sound

/-- What is in flight runs. -/
theorem standing_flying (h : r.Sound) {x : Execution} (hx : x ∈ r.inFlight) :
    r.standings.at? x.request.node.id = some .running :=
  h.board.standing_of_mem_inFlight hx

/-- What waits is suspended. -/
theorem standing_waiting (h : r.Sound) {p : Pause} (hp : p ∈ r.pauses) :
    r.standings.at? p.node = some .suspended :=
  (h.board.suspended_iff p.node).2 (List.mem_map_of_mem hp)

theorem standing_active (h : r.Sound) {p : Pause} (hp : r.active = some p) :
    r.standings.at? p.node = some .suspended :=
  h.standing_waiting (by simp [pauses, hp])

theorem standing_queued (h : r.Sound) {p : Pause} (hp : p ∈ r.queued) :
    r.standings.at? p.node = some .suspended :=
  h.standing_waiting (by simp [pauses, hp])

/-- A pause that is shown is answered inside a container if a node inside asked for it, unless the
container has an empty id. -/
theorem isNested_iff (h : r.Sound) {p : Pause} (hp : r.active = some p) :
    p.target.isNested = true ↔ p.inner ≠ none ∧ p.node ≠ "" := by
  rw [h.target p (by simp [pauses, hp])]
  exact isNested_pauseTarget

theorem inner_eq_none (h : r.Sound) {p : Pause} (hp : r.active = some p)
    (hnested : p.target.isNested = false) (hid : p.node ≠ "") : p.inner = none := by
  by_contra hinner
  cases hnested.symm.trans ((h.isNested_iff hp).2 ⟨hinner, hid⟩)

/-- The record that shows a pause inside a container is that of a node inside. -/
theorem record_inner (h : r.Sound) {p : Pause} {i : Nat} (hp : r.active = some p)
    (hi : p.record = some i) (hinner : p.inner ≠ none) :
    ∃ x, r.feed.record? i = some x ∧ x.parent = some p.node := by
  obtain ⟨i', hi', hshown⟩ := h.shown p hp
  cases hi.symm.trans hi'
  unfold Pause.ShownOn at hshown
  split at hshown
  · next hnone => exact absurd hnone hinner
  · exact hshown

/-- The record that shows a pause of a node itself is its own. -/
theorem recordOf_own (h : r.Sound) {p : Pause} {i : Nat} (hp : r.active = some p)
    (hi : p.record = some i) (hinner : p.inner = none) : r.recordOf.at? p.node = some i := by
  obtain ⟨i', hi', hshown⟩ := h.shown p hp
  cases hi.symm.trans hi'
  unfold Pause.ShownOn at hshown
  split at hshown
  · exact hshown
  · next hsome =>
    rw [hinner] at hsome
    cases hsome

/-- A change of the record of a node inside changes no record of a node of the graph. -/
theorem aside_update (h : r.Sound) {p : Pause} {i : Nat} (hp : r.active = some p)
    (hi : p.record = some i) (hinner : p.inner ≠ none) (change : Record → Record)
    (hparent : ∀ x, (change x).parent = x.parent) (j : Nat) (x : Record) (hx : x.parent = none) :
    (r.feed.update i change r.now).record? j = some x ↔ r.feed.record? j = some x := by
  obtain ⟨y, hy, hyp⟩ := h.record_inner hp hi hinner
  rw [Feed.record?_update]
  split
  · next hij =>
    subst hij
    rw [hy, Option.map_some]
    constructor
    · intro heq
      cases heq
      rw [Record.parent_stamped, hparent, hyp] at hx
      cases hx
    · intro heq
      cases heq
      rw [hyp] at hx
      cases hx
  · exact Iff.rfl

end Sound

/-! ### The board -/

theorem Sound.tidy_move (h : r.Sound) (m : Move w r r') : r'.board.Tidy := by
  cases m with
  | clock => exact h.board
  | stop => exact h.board
  | sort => exact h.board.sort (List.mergeSort_perm _ _)
  | @start n rest _ hready =>
    exact h.board.start (x := ⟨r.started, ⟨r.feed.snapshot.task, n, r.inputsFor n, none⟩⟩) hready
      rfl
  | enqueue hs =>
    obtain ⟨n, rfl, hdue, _⟩ := due_of_settle_eq_ready hs
    exact h.board.enqueue hdue.free hdue.unlisted
  | skip hs =>
    obtain ⟨rfl, hdue, _⟩ := due_of_settle_eq_skip hs
    exact h.board.skip hdue.free hdue.unlisted .skip
  | close _ _ hx => exact h.board.land hx .stop
  | fail _ hx => exact h.board.land hx .fail
  | complete _ hx =>
    rw [complete_eq]
    exact h.board.land hx .success
  | @wait x inner hx =>
    have hwaiting : ((r.landed x).enqueuePause x.request.node.id inner).board.waiting =
        r.board.waiting ++ [x.request.node.id] := by
      show (r.active.toList ++ (r.queued ++ [_])).map Pause.node = _
      rw [← List.append_assoc, List.map_append]
      rfl
    have hwait := h.board.wait hx
    rw [← hwaiting] at hwait
    exact hwait
  -- the pause leaves the queue and is shown, which is the same to the board
  | showOwn hactive hqueued =>
    have hboard := h.board
    simp only [Run.board, pauses, hactive, hqueued] at hboard
    exact hboard
  | showInner hactive hqueued =>
    have hboard := h.board
    simp only [Run.board, pauses, hactive, hqueued] at hboard
    exact hboard
  | @reenter p i n given inputs _ hactive _ _ hn =>
    have hid := Graph.id_of_node?_eq_some hn
    have hwaiting : r.board.waiting = n.id :: r.queued.map Pause.node := by
      simp [Run.board, pauses, hactive, hid]
    exact h.board.restart (x := ⟨r.started, ⟨_, n, given, _⟩⟩) hwaiting rfl
  | @answer p _ _ _ _ hactive =>
    have hwaiting : r.board.waiting = p.node :: r.queued.map Pause.node := by
      simp [Run.board, pauses, hactive]
    exact h.board.leave hwaiting .success
  | stopInner => exact h.board
  | @dropActive p _ _ hactive =>
    have hwaiting : r.board.waiting = p.node :: r.queued.map Pause.node := by
      simp [Run.board, pauses, hactive]
    exact h.board.leave hwaiting .stop
  | @dropQueued p rest _ _ hactive hqueued =>
    have hwaiting : r.board.waiting = p.node :: rest.map Pause.node := by
      simp [Run.board, pauses, hactive, hqueued]
    have hleft := h.board.leave hwaiting .stop
    simp only [Run.board, pauses, close, updateRecord, setStanding, hactive]
    exact hleft

/-! ### The ledger -/

theorem record?_nextIndex (r : Run) : r.feed.record? r.nextIndex = none :=
  Feed.record?_eq_none_iff.2 (Nat.le_refl _)

theorem Sound.ledger_start (h : r.Sound) {n : Node} {rest : List String} {inputs : Dict Value}
    (hready : r.ready = n.id :: rest) :
    (({ r with ready := rest }.openRecord n inputs).launch n inputs none).ledger.Sound := by
  have hmem : n.id ∈ r.ready := by rw [hready]; exact List.mem_cons_self
  have hfree := h.board.ready_free n.id hmem
  refine h.ledger.file
    (x := (Record.executing n.id n.name n.type (.object inputs)).stamped r.feed.nextRevision)
    (s := .running) hfree r.record?_nextIndex rfl rfl (Or.inl rfl)
    (fun j => Feed.record?_push r.feed r.now _ j) ?_
  intro id
  show (r.inputsOf.put n.id inputs).at? id = none ↔ if id = n.id then _ else _
  rw [Dict.at?_put]
  by_cases hid : n.id = id
  · simp [hid]
  · rw [if_neg hid, if_neg (Ne.symm hid)]
    exact Iff.rfl

theorem Sound.ledger_skip (h : r.Sound) {n : Node} (hdue : r.Due n) :
    (r.skip n).ledger.Sound := by
  refine h.ledger.file (x := (Record.skipped n.id n.name n.type).stamped r.feed.nextRevision)
    (s := .done .skip) hdue.free r.record?_nextIndex rfl rfl rfl
    (fun j => Feed.record?_push r.feed r.now _ j) ?_
  intro id
  show r.inputsOf.at? id = none ↔ if id = n.id then _ else _
  split
  · next hid =>
    subst hid
    exact iff_of_true ((h.ledger.given n.id).2 (Or.inl hdue.free)) rfl
  · exact Iff.rfl

theorem Sound.ledger_answer (h : r.Sound) {p : Pause} {i : Nat} {output : Value}
    (hactive : r.active = some p) (hi : p.record = some i) (hnested : p.target.isNested = false) :
    ({ r with active := none }.answer p i output).ledger.Sound := by
  have hsus := h.standing_active hactive
  by_cases hinner : p.inner = none
  · exact h.ledger.mark (t := .done .success) hsus (Or.inr rfl) (h.recordOf_own hactive hi hinner)
      (fun a => Dict.at?_put ..) (fun j => Feed.record?_setStatus_update ..) (fun _ => rfl)
      (fun _ => rfl) (fun _ => rfl) nofun (fun _ => rfl)
  -- the pause is shown on a record of a node inside, but its target names no container
  · have hempty : p.node = "" := by
      by_contra hne
      exact hinner (h.inner_eq_none hactive hnested hne)
    have hleft := h.ledger.abandon (t := .done .success) (hempty ▸ hsus) (Or.inr rfl) nofun
    rw [← hempty] at hleft
    refine hleft.aside fun j x hx => ?_
    refine Iff.trans (iff_of_eq (congrArg (· = some x) (Feed.record?_setStatus ..))) ?_
    exact h.aside_update hactive hi hinner (answered output) (fun _ => rfl) j x hx

theorem Sound.ledger_reenter (h : r.Sound) {p : Pause} {i : Nat} {n : Node}
    {given inputs : Dict Value} (hactive : r.active = some p) (hi : p.record = some i)
    (hnested : p.target.isNested = true) (hid : n.id = p.node) :
    ({ r with active := none }.reenter p i n given inputs).ledger.Sound := by
  have hinner : p.inner ≠ none := ((h.isNested_iff hactive).1 hnested).1
  have hturned := h.ledger.turn (t := .running) (h.standing_active hactive) (Or.inr rfl)
    (Or.inl rfl)
  rw [← hid] at hturned
  refine hturned.aside fun j x hx => ?_
  refine Iff.trans (iff_of_eq (congrArg (· = some x) (Feed.record?_setStatus ..))) ?_
  exact h.aside_update hactive hi hinner (answered (.object inputs)) (fun _ => rfl) j x hx

theorem Sound.ledger_showOwn (h : r.Sound) {p : Pause} {rest : List Pause} {i : Nat}
    (hqueued : r.queued = p :: rest) (hi : r.recordOf.at? p.node = some i) :
    ({ r with queued := rest }.showOwn p i).ledger.Sound := by
  have hsus := h.standing_queued (p := p) (by rw [hqueued]; exact List.mem_cons_self)
  refine h.ledger.mark (t := .suspended) hsus (Or.inr rfl) hi ?_
    (fun j => Feed.record?_setStatus_update ..) (fun _ => rfl) (fun _ => rfl) (fun _ => rfl)
    nofun (fun _ => Or.inr rfl)
  intro a
  show r.standings.at? a = _
  split
  · next ha => exact ha ▸ hsus
  · rfl

theorem Sound.ledger_showInner (h : r.Sound) {p : Pause} {rest : List Pause} {inner : InnerNode} :
    ({ r with queued := rest }.showInner p inner).ledger.Sound := by
  refine h.ledger.aside fun j x hx => ?_
  show ((r.feed.push _ r.now).setStatus _ _ r.now).record? j = some x ↔ r.feed.record? j = some x
  rw [Feed.record?_setStatus, Feed.record?_push]
  split
  · next hj =>
    constructor
    · intro heq
      cases heq
      cases hx
    · intro heq
      have := Feed.lt_length_of_record? heq
      omega
  · exact Iff.rfl

theorem Sound.ledger_move (h : r.Sound) (m : Move w r r') : r'.ledger.Sound := by
  cases m with
  | clock => exact h.ledger
  | stop => exact h.ledger
  | sort => exact h.ledger
  | start _ hready => exact h.ledger_start hready
  | enqueue => exact h.ledger
  | skip hs => exact h.ledger_skip (due_of_settle_eq_skip hs).2.1
  | close _ _ hx hi =>
    exact h.ledger.mark (t := .done .stop) (h.standing_flying hx) (Or.inl rfl) hi
      (fun a => Dict.at?_put ..) (fun j => Feed.record?_update ..) (fun _ => rfl) (fun _ => rfl)
      (fun _ => rfl) nofun (fun _ => rfl)
  | fail _ hx hi =>
    exact h.ledger.mark (t := .done .fail) (h.standing_flying hx) (Or.inl rfl) hi
      (fun a => Dict.at?_put ..) (fun j => Feed.record?_update ..) (fun _ => rfl) (fun _ => rfl)
      (fun _ => rfl) nofun (fun _ => rfl)
  | @complete x i output selected branches elapsed hx hi =>
    rw [complete_eq]
    have hun := h.ledger.unchosen (h.standing_flying hx) (Or.inl rfl)
    refine h.ledger.amend (t := .done .success) (h.standing_flying hx) (Or.inl rfl) hi
      (fun a => Dict.at?_put ..) (fun j => Feed.record?_update ..) (fun _ => rfl) (fun _ => rfl)
      nofun (fun _ => rfl) ?_ (fun _ => rfl) ?_
    · intro y _
      show branches = ((if branches = [] then r.chosen else _).at? _).getD []
      split
      · next he => rw [he, show r.chosen.at? x.request.node.id = none from hun]; rfl
      · rw [Dict.at?_put_self]
        rfl
    · intro a ha
      show (if branches = [] then r.chosen else _).at? a = r.chosen.at? a
      split
      · rfl
      · exact Dict.at?_put_of_ne _ ha.symm _
  | wait hx => exact h.ledger.turn (h.standing_flying hx) (Or.inl rfl) (Or.inr rfl)
  | showOwn _ hqueued _ hi => exact h.ledger_showOwn hqueued hi
  | showInner => exact h.ledger_showInner
  | reenter _ _ hactive hi hnested hn =>
    exact h.ledger_reenter hactive hi hnested (Graph.id_of_node?_eq_some hn)
  | answer _ hactive hi hnested => exact h.ledger_answer hactive hi hnested
  | stopInner _ hactive hi hnested =>
    exact h.ledger.aside
      (h.aside_update hactive hi ((h.isNested_iff hactive).1 hnested).1 _ fun _ => rfl)
  | dropActive _ hactive hi =>
    exact h.ledger.mark (t := .done .stop) (h.standing_active hactive) (Or.inr rfl) hi
      (fun a => Dict.at?_put ..) (fun j => Feed.record?_update ..) (fun _ => rfl) (fun _ => rfl)
      (fun _ => rfl) nofun (fun _ => rfl)
  | dropQueued _ _ hqueued hi =>
    exact h.ledger.mark (t := .done .stop)
      (h.standing_queued (by rw [hqueued]; exact List.mem_cons_self)) (Or.inr rfl) hi
      (fun a => Dict.at?_put ..) (fun j => Feed.record?_update ..) (fun _ => rfl) (fun _ => rfl)
      (fun _ => rfl) nofun (fun _ => rfl)

/-! ### Standings and records -/

/-- Only nodes of the graph that are not done get to stand elsewhere. -/
theorem Sound.standing_move (h : r.Sound) (m : Move w r r') (id : String) :
    r'.standing? id = r.standing? id ∨
      (∃ n, r.graph.node? id = some n) ∧ ∀ s, r.standing? id ≠ some (.done s) := by
  -- one node is written at most
  have key : ∀ {a : String} {old : Option Standing} {t : Standing}, r.standing? a = old →
      (∀ s, old ≠ some (.done s)) → (∃ n, r.graph.node? a = some n) →
      (r.standings.put a t).at? id = r.standing? id ∨
        (∃ n, r.graph.node? id = some n) ∧ ∀ s, r.standing? id ≠ some (.done s) := by
    intro a old t hold hlive hn
    rw [Dict.at?_put]
    split
    · next he => exact Or.inr (he ▸ ⟨hn, hold ▸ hlive⟩)
    · exact Or.inl rfl
  have known : ∀ {a : String} {s : Standing}, r.standing? a = some s →
      ∃ n, r.graph.node? a = some n := fun hs => h.reached _ (by rw [hs]; nofun)
  cases m with
  | clock => exact Or.inl rfl
  | stop => exact Or.inl rfl
  | sort => exact Or.inl rfl
  | @start n rest _ hready hn =>
    have hmem : n.id ∈ r.ready := by rw [hready]; exact List.mem_cons_self
    exact key (h.board.ready_free n.id hmem) nofun ⟨n, hn⟩
  | enqueue => exact Or.inl rfl
  | skip hs =>
    obtain ⟨rfl, hdue, _⟩ := due_of_settle_eq_skip hs
    exact key hdue.free nofun ⟨_, hdue.node⟩
  | close _ _ hx => exact key (h.standing_flying hx) nofun (known (h.standing_flying hx))
  | fail _ hx => exact key (h.standing_flying hx) nofun (known (h.standing_flying hx))
  | complete _ hx =>
    rw [complete_eq]
    exact key (h.standing_flying hx) nofun (known (h.standing_flying hx))
  | wait hx => exact key (h.standing_flying hx) nofun (known (h.standing_flying hx))
  | showOwn => exact Or.inl rfl
  | showInner => exact Or.inl rfl
  | reenter _ _ hactive _ _ hn =>
    have hid := Graph.id_of_node?_eq_some hn
    exact key (hid ▸ h.standing_active hactive :
      r.standing? _ = some .suspended) nofun ⟨_, hid ▸ hn⟩
  | answer _ hactive =>
    exact key (h.standing_active hactive) nofun (known (h.standing_active hactive))
  | stopInner => exact Or.inl rfl
  | dropActive _ hactive =>
    exact key (h.standing_active hactive) nofun (known (h.standing_active hactive))
  | @dropQueued p _ _ _ _ hqueued =>
    have hsus := h.standing_queued (p := p) (by rw [hqueued]; exact List.mem_cons_self)
    exact key hsus nofun (known hsus)

/-- What is done stays done. -/
theorem Sound.done_move (h : r.Sound) (m : Move w r r') {id : String} {s : NodeStatus}
    (hs : r.standing? id = some (.done s)) : r'.standing? id = some (.done s) := by
  rcases h.standing_move m id with heq | ⟨_, hlive⟩
  · rw [heq, hs]
  · exact absurd hs (hlive s)

theorem exists_record_update {f : Feed} {i : Nat} {x : Record} (hx : f.record? i = some x)
    {j : Nat} {change : Record → Record} {now : Instant} (hnode : ∀ x, (change x).node = x.node)
    (hparent : ∀ x, (change x).parent = x.parent) :
    ∃ y, (f.update j change now).record? i = some y ∧ y.node = x.node ∧ y.parent = x.parent := by
  rw [Feed.record?_update]
  split
  · next hij =>
    subst hij
    exact ⟨(change x).stamped f.nextRevision, by rw [hx]; rfl, hnode x, hparent x⟩
  · exact ⟨x, hx, rfl, rfl⟩

theorem exists_record_setStatus_update {f : Feed} {i : Nat} {x : Record}
    (hx : f.record? i = some x) {j : Nat} {change : Record → Record} {now : Instant}
    {s : TaskStatus} {target : Option ResumeTarget} (hnode : ∀ x, (change x).node = x.node)
    (hparent : ∀ x, (change x).parent = x.parent) :
    ∃ y, ((f.update j change now).setStatus s target now).record? i = some y ∧
      y.node = x.node ∧ y.parent = x.parent := by
  rw [Feed.record?_setStatus]
  exact exists_record_update hx hnode hparent

/-- No record is removed, and a record is always one of the same node. -/
theorem Move.exists_record (m : Move w r r') {i : Nat} {x : Record}
    (hx : r.feed.record? i = some x) :
    ∃ y, r'.feed.record? i = some y ∧ y.node = x.node ∧ y.parent = x.parent := by
  cases m with
  | clock => exact ⟨x, hx, rfl, rfl⟩
  | stop => exact ⟨x, hx, rfl, rfl⟩
  | sort => exact ⟨x, hx, rfl, rfl⟩
  | start => exact ⟨x, Feed.record?_push_of_eq_some _ hx _, rfl, rfl⟩
  | enqueue => exact ⟨x, hx, rfl, rfl⟩
  | skip => exact ⟨x, Feed.record?_push_of_eq_some _ hx _, rfl, rfl⟩
  | close => exact exists_record_update hx (fun _ => rfl) (fun _ => rfl)
  | fail => exact exists_record_update hx (fun _ => rfl) (fun _ => rfl)
  | complete =>
    rw [complete_eq]
    exact exists_record_update hx (fun _ => rfl) (fun _ => rfl)
  | wait => exact ⟨x, hx, rfl, rfl⟩
  | showOwn => exact exists_record_setStatus_update hx (fun _ => rfl) (fun _ => rfl)
  | showInner =>
    exact ⟨x, (Feed.record?_setStatus ..).trans (Feed.record?_push_of_eq_some _ hx _), rfl, rfl⟩
  | reenter => exact exists_record_setStatus_update hx (fun _ => rfl) (fun _ => rfl)
  | answer => exact exists_record_setStatus_update hx (fun _ => rfl) (fun _ => rfl)
  | stopInner => exact exists_record_update hx (fun _ => rfl) (fun _ => rfl)
  | dropActive => exact exists_record_update hx (fun _ => rfl) (fun _ => rfl)
  | dropQueued => exact exists_record_update hx (fun _ => rfl) (fun _ => rfl)

/-- The record of a node stays the record of that node. -/
theorem Sound.recordOf_move (h : r.Sound) (m : Move w r r') {id : String} {i : Nat}
    (hi : r.recordOf.at? id = some i) : r'.recordOf.at? id = some i := by
  have key : ∀ {a : String} {j : Nat}, r.standing? a = none →
      (r.recordOf.put a j).at? id = some i := by
    intro a j hfree
    have hne : a ≠ id := by
      rintro rfl
      cases ((h.ledger.reached a).1 hfree).symm.trans hi
    rw [Dict.at?_put_of_ne _ hne, hi]
  cases m with
  | @start n rest _ hready =>
    have hmem : n.id ∈ r.ready := by rw [hready]; exact List.mem_cons_self
    exact key (h.board.ready_free n.id hmem)
  | skip hs =>
    obtain ⟨rfl, hdue, _⟩ := due_of_settle_eq_skip hs
    exact key hdue.free
  | complete =>
    rw [complete_eq]
    exact hi
  | _ => exact hi

/-! ### The moves keep a run sound -/

theorem Sound.listed_move (h : r.Sound) (m : Move w r r') :
    ∀ id ∈ r'.ready, ∃ n, r'.graph.node? id = some n := by
  rw [m.graph_eq]
  cases m with
  | sort => exact fun id hid => h.listed id (List.mem_mergeSort.1 hid)
  | start _ hready =>
    exact fun id hid => h.listed id (by rw [hready]; exact List.mem_cons_of_mem _ hid)
  | enqueue hs =>
    intro id hid
    rcases List.mem_append.1 hid with hid | hid
    · exact h.listed id hid
    · obtain ⟨n, rfl, hdue, _⟩ := due_of_settle_eq_ready hs
      exact ⟨n, List.mem_singleton.1 hid ▸ hdue.node⟩
  | complete => rw [complete_eq]; exact h.listed
  | _ => exact h.listed

theorem Sound.reached_move (h : r.Sound) (m : Move w r r') (id : String)
    (hs : r'.standing? id ≠ none) : ∃ n, r'.graph.node? id = some n := by
  rw [m.graph_eq]
  rcases h.standing_move m id with heq | ⟨hn, _⟩
  · exact h.reached id (heq ▸ hs)
  · exact hn

/-- An execution in flight was there before, or is started now. -/
theorem Sound.flying_move (h : r.Sound) (m : Move w r r') :
    ∀ x ∈ r'.inFlight, r'.graph.node? x.request.node.id = some x.request.node ∧
      r'.inputsOf.at? x.request.node.id = some x.request.inputs := by
  rw [m.graph_eq]
  cases m with
  | @start n rest _ hready hn =>
    intro x hx
    rcases List.mem_append.1 hx with hx | hx
    -- what was in flight runs, and the node that is started did not
    · have hmem : n.id ∈ r.ready := by rw [hready]; exact List.mem_cons_self
      have hne : n.id ≠ x.request.node.id := by
        intro he
        have hrun := h.standing_flying hx
        rw [← he, show r.standings.at? n.id = none from h.board.ready_free n.id hmem] at hrun
        cases hrun
      refine ⟨(h.flying x hx).1, ?_⟩
      exact (Dict.at?_put_of_ne _ hne _).trans (h.flying x hx).2
    · obtain rfl := List.mem_singleton.1 hx
      exact ⟨hn, Dict.at?_put_self _ _ _⟩
  | reenter _ _ _ _ _ hn hgiven =>
    intro x hx
    rcases List.mem_append.1 hx with hx | hx
    · exact h.flying x hx
    · obtain rfl := List.mem_singleton.1 hx
      have hid := Graph.id_of_node?_eq_some hn
      exact ⟨hid ▸ hn, hid ▸ hgiven⟩
  | close => exact fun x hx => h.flying x (List.mem_filter.1 hx).1
  | fail => exact fun x hx => h.flying x (List.mem_filter.1 hx).1
  | complete =>
    rw [complete_eq]
    exact fun x hx => h.flying x (List.mem_filter.1 hx).1
  | wait => exact fun x hx => h.flying x (List.mem_filter.1 hx).1
  | _ => exact h.flying

theorem Sound.target_move (h : r.Sound) (m : Move w r r') :
    ∀ p ∈ r'.pauses, p.target = pauseTarget p.node p.inner := by
  have htarget := h.target
  cases m with
  | wait =>
    intro p hp
    rcases List.mem_append.1 hp with hp | hp
    · exact htarget p (List.mem_append_left _ hp)
    · rcases List.mem_append.1 hp with hp | hp
      · exact htarget p (List.mem_append_right _ hp)
      · obtain rfl := List.mem_singleton.1 hp
        rfl
  | @showOwn q rest _ hactive hqueued =>
    intro p hp
    simp only [pauses, hactive, hqueued, Option.toList_none, List.nil_append] at htarget
    rcases List.mem_cons.1 hp with rfl | hp
    · exact htarget q List.mem_cons_self
    · exact htarget p (List.mem_cons_of_mem _ hp)
  | @showInner q rest _ hactive hqueued =>
    intro p hp
    simp only [pauses, hactive, hqueued, Option.toList_none, List.nil_append] at htarget
    rcases List.mem_cons.1 hp with rfl | hp
    · exact htarget q List.mem_cons_self
    · exact htarget p (List.mem_cons_of_mem _ hp)
  | reenter => exact fun p hp => htarget p (List.mem_append_right _ hp)
  | answer => exact fun p hp => htarget p (List.mem_append_right _ hp)
  | dropActive => exact fun p hp => htarget p (List.mem_append_right _ hp)
  | @dropQueued q rest _ _ hactive hqueued =>
    intro p hp
    have hp : p ∈ rest := by simpa [pauses, close, updateRecord, setStanding, hactive] using hp
    exact htarget p (List.mem_append_right _ (by rw [hqueued]; exact List.mem_cons_of_mem _ hp))
  | complete => rw [complete_eq]; exact htarget
  | _ => exact htarget

theorem Sound.shownOn_move (h : r.Sound) (m : Move w r r') {p : Pause} {i : Nat}
    (hshown : Pause.ShownOn r p i) : Pause.ShownOn r' p i := by
  unfold Pause.ShownOn at hshown ⊢
  split
  · next hinner =>
    rw [hinner] at hshown
    exact h.recordOf_move m hshown
  · next inner hinner =>
    rw [hinner] at hshown
    obtain ⟨x, hx, hxp⟩ := hshown
    obtain ⟨y, hy, _, hyp⟩ := m.exists_record hx
    exact ⟨y, hy, hyp.trans hxp⟩

theorem Sound.shown_move (h : r.Sound) (m : Move w r r') (p : Pause) (hp : r'.active = some p) :
    ∃ i, p.record = some i ∧ Pause.ShownOn r' p i := by
  -- a pause that was shown before is still shown on its record
  have kept : r.active = some p → ∃ i, p.record = some i ∧ Pause.ShownOn r' p i := by
    intro hp
    obtain ⟨i, hi, hshown⟩ := h.shown p hp
    exact ⟨i, hi, h.shownOn_move m hshown⟩
  cases m with
  | @showOwn q rest i hactive hqueued hinner hi =>
    cases hp
    refine ⟨i, rfl, ?_⟩
    simp only [Pause.ShownOn, hinner]
    exact hi
  | @showInner q rest inner hactive hqueued hinner =>
    cases hp
    refine ⟨r.nextIndex, rfl, ?_⟩
    simp only [Pause.ShownOn, hinner]
    exact ⟨_, (Feed.record?_setStatus ..).trans ((Feed.record?_push ..).trans (if_pos rfl)), rfl⟩
  | reenter => cases hp
  | answer => cases hp
  | dropActive => cases hp
  | complete =>
    rw [complete_eq] at hp kept ⊢
    exact kept hp
  | _ => exact kept hp

theorem Sound.hidden_move (h : r.Sound) (m : Move w r r') : ∀ p ∈ r'.queued, p.record = none := by
  cases m with
  | wait =>
    intro p hp
    rcases List.mem_append.1 hp with hp | hp
    · exact h.hidden p hp
    · obtain rfl := List.mem_singleton.1 hp
      rfl
  | showOwn _ hqueued =>
    exact fun p hp => h.hidden p (by rw [hqueued]; exact List.mem_cons_of_mem _ hp)
  | showInner _ hqueued =>
    exact fun p hp => h.hidden p (by rw [hqueued]; exact List.mem_cons_of_mem _ hp)
  | dropQueued _ _ hqueued =>
    exact fun p hp => h.hidden p (by rw [hqueued]; exact List.mem_cons_of_mem _ hp)
  | complete => rw [complete_eq]; exact h.hidden
  | _ => exact h.hidden

/-- The task is paused exactly when a pause is shown, at least until the run halts. -/
theorem Sound.status_move (h : r.Sound) (m : Move w r r') :
    (r'.feed.status = .executing ∨ r'.feed.status = .paused) ∧
      (r'.halting = false → r'.feed.status = if r'.active.isSome then .paused else .executing) := by
  have hlive := h.live
  -- most moves touch neither the status nor the pause that is shown
  have kept : ∀ {s : Run}, s.feed.status = r.feed.status → s.active = r.active →
      s.halting = r.halting → (s.feed.status = .executing ∨ s.feed.status = .paused) ∧
        (s.halting = false → s.feed.status = if s.active.isSome then .paused else .executing) := by
    intro s hstatus hactive hhalting
    rw [hstatus, hactive, hhalting]
    exact ⟨hlive, h.status⟩
  have paused : ∀ {f : Feed} {target : Option ResumeTarget}, f.status = r.feed.status →
      (f.setStatus .paused target r.now).status = .paused := fun hf =>
    Feed.status_setStatus_of_live (hf ▸ hlive) (Or.inr rfl) _ _
  have executing : ∀ {f : Feed} {target : Option ResumeTarget}, f.status = r.feed.status →
      (f.setStatus .executing target r.now).status = .executing := fun hf =>
    Feed.status_setStatus_of_live (hf ▸ hlive) (Or.inl rfl) _ _
  cases m with
  | stop => exact ⟨hlive, nofun⟩
  | close => exact kept (Feed.status_update ..) rfl rfl
  -- after a failure the run halts, so nothing is said about the pause that is shown
  | fail =>
    refine ⟨(Feed.status_update ..).symm ▸ hlive, fun hh => ?_⟩
    exact absurd ((halting_fail ..).symm.trans hh) nofun
  | complete =>
    rw [complete_eq]
    exact kept (Feed.status_update ..) rfl rfl
  | showOwn =>
    exact ⟨Or.inr (paused (Feed.status_update ..)), fun _ => paused (Feed.status_update ..)⟩
  | showInner => exact ⟨Or.inr (paused rfl), fun _ => paused rfl⟩
  | reenter =>
    exact ⟨Or.inl (executing (Feed.status_update ..)), fun _ => executing (Feed.status_update ..)⟩
  | answer =>
    exact ⟨Or.inl (executing (Feed.status_update ..)), fun _ => executing (Feed.status_update ..)⟩
  | stopInner => exact kept (Feed.status_update ..) rfl rfl
  | dropActive hhalting =>
    refine ⟨(Feed.status_update ..).symm ▸ hlive, fun hh => ?_⟩
    exact absurd (hhalting.symm.trans hh) nofun
  | dropQueued hhalting => exact kept (Feed.status_update ..) rfl rfl
  | _ => exact kept rfl rfl rfl

/-- Every move keeps a run sound. -/
theorem Sound.move (h : r.Sound) (m : Move w r r') : r'.Sound where
  board := h.tidy_move m
  ledger := h.ledger_move m
  wellFormed := m.graph_eq ▸ h.wellFormed
  ordered := by rw [m.graph_eq, m.fixed.2.1]; exact h.ordered
  listed := h.listed_move m
  reached := h.reached_move m
  flying := h.flying_move m
  target := h.target_move m
  shown := h.shown_move m
  hidden := h.hidden_move m
  live := (h.status_move m).1
  status := (h.status_move m).2

end Flowrun.Run
