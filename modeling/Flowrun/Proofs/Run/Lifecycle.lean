import Flowrun.Proofs.Run.Answers
import Flowrun.Proofs.Run.Closing

/-!
# The lifecycle of the records of a run

Until a run ends, its feed displays its slot and its records are candid, so every write of a record
is one that the lifecycle of records allows (`Launched.underWay_acts`):

    executing → success, fail, stop or pause        pause → success or stop

At the end all pauses are given up, and then no record is open any more
(`Steady.isTerminal_closePauses`): the record of a node shows where the node stands, and every node
that was reached is done; a record inside a container is open only while it shows the pause in the
slot.
-/

namespace Flowrun.Run

open Json

variable {w : World} {r r' : Run}

/-! ### What is done -/

variable {g : Graph} {limit : Nat} {startInputs : Dict Value} {pool : Pool}

/-- What nodes and records may show: a node is done with a final status, and only a record of a
node of the graph executes. -/
structure Definite (r : Run) : Prop where
  done : ∀ id s, r.standing? id = some (.done s) → s.isTerminal = true
  executing : ∀ i x, r.feed.record? i = some x → x.status = .executing → x.parent = none

/-- No update of a record makes it execute. -/
theorem Definite.executing_update (hd : r.Definite) {i j : Nat} {x : Record}
    {change : Record → Record} {s : NodeStatus} (hs : s ≠ .executing)
    (hchange : ∀ y, (change y).status = s)
    (hx : (r.feed.update j change r.now).record? i = some x) (hexecuting : x.status = .executing) :
    x.parent = none := by
  rw [Feed.record?_update] at hx
  split at hx
  · obtain ⟨y, -, rfl⟩ := Option.map_eq_some_iff.1 hx
    exact absurd ((hchange y).symm.trans hexecuting) hs
  · exact hd.executing i x hx hexecuting

theorem Definite.executing_push (hd : r.Definite) {i : Nat} {x y : Record}
    (hy : y.status = .executing → y.parent = none)
    (hx : (r.feed.push y r.now).record? i = some x) (hexecuting : x.status = .executing) :
    x.parent = none := by
  rw [Feed.record?_push] at hx
  split at hx
  · obtain rfl := Option.some.inj hx
    exact hy hexecuting
  · exact hd.executing i x hx hexecuting

theorem Definite.executing_move (hd : r.Definite) (m : Move w r r') (i : Nat) (x : Record)
    (hx : r'.feed.record? i = some x) (hexecuting : x.status = .executing) : x.parent = none := by
  cases m with
  | start => exact hd.executing_push (fun _ => rfl) hx hexecuting
  | skip => exact hd.executing_push (fun _ => rfl) hx hexecuting
  | close => exact hd.executing_update (s := .stop) nofun (fun _ => rfl) hx hexecuting
  | fail => exact hd.executing_update (s := .fail) nofun (fun _ => rfl) hx hexecuting
  | complete =>
    rw [complete_eq] at hx
    exact hd.executing_update (s := .success) nofun (fun _ => rfl) hx hexecuting
  | showOwn =>
    replace hx := (Feed.record?_setStatus ..).symm.trans hx
    exact hd.executing_update (s := .pause) nofun (fun _ => rfl) hx hexecuting
  | showInner =>
    replace hx := (Feed.record?_setStatus ..).symm.trans hx
    exact hd.executing_push (fun he : NodeStatus.pause = .executing => nomatch he) hx hexecuting
  | reenter =>
    replace hx := (Feed.record?_setStatus ..).symm.trans hx
    exact hd.executing_update (s := .success) nofun (fun _ => rfl) hx hexecuting
  | answer =>
    replace hx := (Feed.record?_setStatus ..).symm.trans hx
    exact hd.executing_update (s := .success) nofun (fun _ => rfl) hx hexecuting
  | stopInner => exact hd.executing_update (s := .stop) nofun (fun _ => rfl) hx hexecuting
  | dropActive => exact hd.executing_update (s := .stop) nofun (fun _ => rfl) hx hexecuting
  | dropQueued => exact hd.executing_update (s := .stop) nofun (fun _ => rfl) hx hexecuting
  | _ => exact hd.executing i x hx hexecuting

theorem Definite.done_move (hd : r.Definite) (m : Move w r r') (id : String) (s : NodeStatus)
    (hs : r'.standing? id = some (.done s)) : s.isTerminal = true := by
  -- a node is given a standing, which is final if the node is done
  have put : ∀ {a : String} {t : Standing}, (∀ u, t = .done u → u.isTerminal = true) →
      (r.standings.put a t).at? id = some (.done s) → s.isTerminal = true := by
    intro a t ht hs
    rw [Dict.at?_put] at hs
    split at hs
    · exact ht s (Option.some.inj hs)
    · exact hd.done id s hs
  have final : ∀ {t : NodeStatus}, t.isTerminal = true →
      ∀ u, Standing.done t = .done u → u.isTerminal = true := by
    intro t ht u hu
    cases hu
    exact ht
  cases m with
  | start => exact put (t := .running) nofun hs
  | skip => exact put (final rfl) hs
  | close => exact put (final rfl) hs
  | fail => exact put (final rfl) hs
  | complete =>
    rw [complete_eq] at hs
    exact put (final rfl) hs
  | wait => exact put (t := .suspended) nofun hs
  | reenter => exact put (t := .running) nofun hs
  | answer => exact put (final rfl) hs
  | dropActive => exact put (final rfl) hs
  | dropQueued => exact put (final rfl) hs
  | _ => exact hd.done id s hs

theorem Definite.move (hd : r.Definite) (m : Move w r r') : r'.Definite where
  done := hd.done_move m
  executing := hd.executing_move m

theorem Definite.moves (hd : r.Definite) (h : r.Sound) (hm : Moves w r r') : r'.Definite :=
  (hm.keep h hd fun _ hd m => hd.move m).2

theorem Definite.land (hd : r.Definite) (hl : r.Lands r') : r'.Definite := by
  cases hl with
  | @intro x i s change pool chosen failure hx hi hs hstatus =>
    constructor
    · intro id t ht
      replace ht : (r.standings.put _ (.done s)).at? id = some (.done t) := ht
      rw [Dict.at?_put] at ht
      split at ht
      · obtain rfl := Standing.done.inj (Option.some.inj ht)
        rcases hs with rfl | rfl | rfl <;> rfl
      · exact hd.done id t ht
    · intro j y hy hexecuting
      refine hd.executing_update ?_ hstatus hy hexecuting
      rcases hs with rfl | rfl | rfl <;> nofun

theorem Launched.definite (h : Launched g limit startInputs pool r) : r.Definite := by
  obtain ⟨_, _, _, _, _, hnone, rfl⟩ := h.eq
  exact ⟨nofun, fun i x hx => by cases (hnone i).symm.trans hx⟩

/-! ### Until the end -/

/-- What holds of a run until it ends, if `f₀` is the feed with which it was launched. -/
structure UnderWay (f₀ : Feed) (r : Run) : Prop where
  displays : r.feed.Displays r.active
  candid : r.Candid
  definite : r.Definite
  orderly : f₀.OrderlySince r.feed

variable {f₀ : Feed}

theorem UnderWay.flag (hu : r.UnderWay f₀) (now : Instant) (stopping : Bool) :
    ({ r with now, stopping } : Run).UnderWay f₀ :=
  ⟨hu.displays, hu.candid, ⟨hu.definite.done, hu.definite.executing⟩, hu.orderly⟩

theorem UnderWay.land (hu : r.UnderWay f₀) (h : r.Sound) (hl : r.Lands r') :
    r'.UnderWay f₀ where
  displays := h.displays_land hu.displays hl
  candid := h.candid_land hu.candid hl
  definite := hu.definite.land hl
  orderly := (h.closes_land hu.candid hu.displays hl).orderlySince hu.orderly

/-- A pause in the queue is shown on the record of its node, which executes until then. -/
theorem UnderWay.orderly_showOwn (hu : r.UnderWay f₀) (h : r.Sound) {p : Pause}
    {rest : List Pause} {i : Nat} (hactive : r.active = none) (hqueued : r.queued = p :: rest)
    (hi : r.recordOf.at? p.node = some i) :
    f₀.OrderlySince ({ r with queued := rest }.showOwn p i).feed := by
  obtain ⟨x, hx, hexecuting⟩ := h.executing_of_pending hu.candid hu.displays
    (h.pending_waiting (by simp [pauses, hqueued])) hi fun q hq => by
      cases hactive.symm.trans hq
  refine (hu.orderly.update hx ?_ r.now).setStatus ..
  rw [hexecuting]
  exact Or.inr (Or.inr (Or.inr rfl))

/-- The record that shows a pause is finished with success. -/
theorem UnderWay.orderly_answered (hu : r.UnderWay f₀) {p : Pause} {i : Nat}
    (hactive : r.active = some p) (hi : p.record = some i) (output : Value) :
    f₀.OrderlySince
      ((r.feed.update i (answered output) r.now).setStatus .executing none r.now) := by
  obtain ⟨j, x, hj, hx, hpause, -⟩ := hu.displays.shown p hactive
  obtain rfl := Option.some.inj (hi.symm.trans hj)
  refine (hu.orderly.update hx ?_ r.now).setStatus ..
  rw [hpause]
  exact Or.inl rfl

theorem UnderWay.orderly_move (hu : r.UnderWay f₀) (h : r.Sound) (m : Move w r r')
    (hlive : r'.halting = false) : f₀.OrderlySince r'.feed := by
  have hbefore := m.live hlive
  have land : ∀ {s : Run}, r.Lands s → f₀.OrderlySince s.feed := fun hl => (hu.land h hl).orderly
  cases m with
  | clock => exact hu.orderly
  | stop => exact hu.orderly
  | sort => exact hu.orderly
  | enqueue => exact hu.orderly
  | wait => exact hu.orderly
  | start => exact hu.orderly.push (Or.inl rfl) r.now
  | skip => exact hu.orderly.push (Or.inr (Or.inl rfl)) r.now
  | close output elapsed hx hi => exact land (lands_close hx hi output elapsed)
  | fail elapsed hx hi => exact land (lands_fail hx hi _ elapsed)
  | complete elapsed hx hi => exact land (lands_complete hx hi _ _ elapsed)
  | showOwn hactive hqueued _ hi => exact hu.orderly_showOwn h hactive hqueued hi
  | showInner => exact (hu.orderly.push (Or.inr (Or.inr rfl)) r.now).setStatus ..
  | reenter inputs _ hactive hi => exact hu.orderly_answered hactive hi (.object inputs)
  | answer _ hactive hi => exact hu.orderly_answered hactive hi _
  | stopInner hh => cases hh.symm.trans hbefore
  | dropActive hh => cases hh.symm.trans hbefore
  | dropQueued hh => cases hh.symm.trans hbefore

theorem UnderWay.move (hu : r.UnderWay f₀) (h : r.Sound) (m : Move w r r')
    (hlive : r'.halting = false) : r'.UnderWay f₀ where
  displays := h.displays_move hu.displays m hlive
  candid := h.candid_move hu.candid m
  definite := hu.definite.move m
  orderly := hu.orderly_move h m hlive

theorem Launched.underWay (h : Launched g limit startInputs pool r) : r.UnderWay r.feed where
  displays := h.displays
  candid := h.candid
  definite := h.definite
  orderly := .refl fun i => by
    obtain ⟨_, _, _, _, _, hnone, rfl⟩ := h.eq
    exact hnone i

/-- A history of a run under way, until it ends or just before. -/
theorem Steady.underWay_acts (h : r.Steady) (hu : r.UnderWay f₀) (as : List Action) :
    ((r.acts as).Steady ∧ (r.acts as).UnderWay f₀) ∨
      ∃ s : Run, s.Steady ∧ s.UnderWay f₀ ∧ s.isSpent = true ∧ r.acts as = s.finish :=
  h.keep_acts (w := .any) (P := UnderWay f₀)
    (fun hsound hu m hlive => hu.move hsound m hlive)
    (fun now stopping hu _ => hu.flag now stopping)
    (fun hsound hu hl _ => hu.land hsound hl) hu (World.any_admitsAll r as)

/-- A history of a launched run, until it ends or just before. -/
theorem Launched.underWay_acts (h : Launched g limit startInputs pool r) (as : List Action) :
    ((r.acts as).Steady ∧ (r.acts as).UnderWay r.feed) ∨
      ∃ s : Run, s.Steady ∧ s.UnderWay r.feed ∧ s.isSpent = true ∧ r.acts as = s.finish :=
  h.steady.underWay_acts h.underWay as

/-! ### At the end -/

/-- At the end every node that was reached is done, and its record shows it. -/
theorem Ended.isTerminal_own (h : r.Ended) (hd : r.Definite)
    (hids : ∀ n ∈ r.graph.nodes, n.id ≠ "") {i : Nat} {x : Record}
    (hx : r.feed.record? i = some x) (hparent : x.parent = none) : x.status.isTerminal = true := by
  have hne : x.node ≠ "" := by
    have hfiled := h.sound.ledger.unique i x hx hparent
    cases hs : r.standing? x.node with
    | none => cases ((h.sound.ledger.reached x.node).1 hs).symm.trans hfiled
    | some s => exact h.sound.id_ne_empty hids hs
  obtain ⟨s, hs, hshows⟩ := h.sound.ledger.shown i x hx hparent hne
  cases s with
  | running =>
    obtain ⟨e, he, -⟩ := (h.sound.board.running_iff x.node).1 hs
    rw [show r.board.inFlight = [] from h.inFlight] at he
    cases he
  | suspended =>
    have hwaits := (h.sound.board.suspended_iff x.node).1 hs
    rw [show r.board.waiting = [] from congrArg (List.map Pause.node) h.pauses] at hwaits
    cases hwaits
  | done t =>
    rw [show x.status = t from hshows]
    exact hd.done x.node t hs

/-- At the end no record is open. -/
theorem Steady.isTerminal_closePauses (h : r.Steady) (hu : r.UnderWay f₀)
    (hids : ∀ n ∈ r.graph.nodes, n.id ≠ "") (hspent : r.isSpent = true) {i : Nat} {x : Record}
    (hx : r.closePauses.feed.record? i = some x) : x.status.isTerminal = true := by
  obtain ⟨hmoves, hended⟩ := h.ended_closePauses .any hspent
  obtain ⟨hclosings, hgiven⟩ := h.closings_closePauses hu.candid hu.displays
    (isSpent_iff.1 hspent).2.1
  cases hparent : x.parent with
  | none =>
    have hdefinite := hu.definite.moves h.sound hmoves
    exact hended.isTerminal_own hdefinite (hmoves.graph_eq ▸ hids) hx hparent
  | some container =>
    by_contra hopen
    have hopen : x.status.isTerminal = false := Bool.eq_false_iff.2 hopen
    have hbefore := hclosings.record?_of_open hx hopen
    -- what is open inside a container shows the pause in the slot, which was given up
    have hpause : x.status = .pause := by
      rcases NodeStatus.isTerminal_eq_false_iff.1 hopen with hexecuting | hpause
      · cases hparent.symm.trans (hu.definite.executing i x hbefore hexecuting)
      · exact hpause
    obtain ⟨p, hactive, hi⟩ := hu.displays.only i x hbefore hpause
    obtain ⟨y, hy, hstop⟩ :=
      hgiven p i hactive hi (h.sound.id_ne_empty hids (h.sound.standing_active hactive))
    obtain rfl := Option.some.inj (hx.symm.trans hy)
    cases hstop.symm.trans hpause

theorem Steady.closed_finish (h : r.Steady) (hu : r.UnderWay f₀)
    (hids : ∀ n ∈ r.graph.nodes, n.id ≠ "") (hspent : r.isSpent = true) {x : Record}
    (hx : x ∈ r.finish.feed.snapshot.records) : x.status.isTerminal = true := by
  obtain ⟨i, hi⟩ := List.mem_iff_getElem?.1 hx
  have hi : r.closePauses.feed.record? i = some x := (Feed.record?_finish ..).symm.trans hi
  exact h.isTerminal_closePauses hu hids hspent hi

theorem graph_finish (r : Run) : r.finish.graph = r.graph := by
  obtain ⟨feed, standings, heq⟩ := closePauses_eq r
  rw [finish_eq, heq]
  rfl

theorem Steady.orderlySince_finish (h : r.Steady) (hu : r.UnderWay f₀) (hspent : r.isSpent = true) :
    f₀.OrderlySince r.finish.feed :=
  ((h.closings_closePauses hu.candid hu.displays (isSpent_iff.1 hspent).2.1).1.orderlySince
    hu.orderly).finish ..

/-- The writes of every history are those that the lifecycle of records allows. -/
theorem Launched.orderlySince_acts (h : Launched g limit startInputs pool r) (as : List Action) :
    r.feed.OrderlySince (r.acts as).feed := by
  rcases h.underWay_acts as with ⟨-, hu⟩ | ⟨s, hsteady, hu, hspent, heq⟩
  · exact hu.orderly
  · rw [heq]
    exact hsteady.orderlySince_finish hu hspent

/-- What is written later is put behind what is there. -/
theorem Steady.extends_append (h : r.Steady) (as bs : List Action) :
    ∃ more, (r.acts as).feed.Extends (r.acts (as ++ bs)).feed more := by
  rw [acts_append]
  rcases h.acts_or_isTerminal as with hsteady | hterminal
  · exact hsteady.extends_acts bs
  · rw [acts_of_isTerminal hterminal]
    exact ⟨[], .refl _⟩

/-- In every history records keep to their lifecycle: a record begins as one that executes, is
skipped or waits, each change of its status is one that the lifecycle allows, and a record that has
become terminal is never written again. When the run has ended all records are terminal and the task
waits for nothing; and it ends, with a terminal status, when it is spent and gets to finish. -/
theorem records_lifecycle (h : Launched g limit startInputs pool r)
    (hids : ∀ n ∈ g.nodes, n.id ≠ "") (as : List Action) :
    (∃ es, (r.acts as).feed.journal = r.feed.journal ++ es ∧ ∀ i,
      (∀ x, (versions es i).head? = some x → x.status.IsInitial) ∧
      (versions es i).IsChain (fun x y => x.status.LeadsTo y.status) ∧
      (versions es i).getLast? = (r.acts as).feed.record? i) ∧
    (∀ i x, (r.acts as).feed.record? i = some x → x.status.isTerminal = true → ∀ bs,
      (r.acts (as ++ bs)).feed.record? i = some x ∧
      ∃ more, (r.acts (as ++ bs)).feed.journal = (r.acts as).feed.journal ++ more ∧
        ∀ y, .record i y ∉ more) ∧
    ((r.acts as).feed.isTerminal = true →
      (∀ x ∈ (r.acts as).feed.snapshot.records, x.status.isTerminal = true) ∧
        (r.acts as).feed.target = none) ∧
    ((r.acts as).isSpent = true → (r.acts (as ++ [.finish])).feed.isTerminal = true) := by
  obtain ⟨es, hes, horderly⟩ := h.orderlySince_acts as
  refine ⟨⟨es, hes.journal, fun i => ⟨horderly.begins i, horderly.chain i, horderly.last i⟩⟩, ?_,
    ?_, ?_⟩
  · intro i x hx hterminal bs
    obtain ⟨more, hmore⟩ := h.steady.extends_append as bs
    obtain ⟨es', hes', horderly'⟩ := h.orderlySince_acts (as ++ bs)
    obtain rfl := hes'.unique (hes.trans hmore)
    obtain ⟨hsame, hnone⟩ := horderly.frozen horderly' hx hterminal
    exact ⟨hsame, more, hmore.journal, hnone⟩
  · intro hterminal
    rcases h.underWay_acts as with ⟨hsteady, -⟩ | ⟨s, hsteady, hu, hspent, heq⟩
    · cases hterminal.symm.trans hsteady.not_isTerminal
    · have hgraph : s.graph = g := by
        rw [← h.graph_acts as, heq, graph_finish]
      obtain ⟨-, hended⟩ := hsteady.ended_closePauses .any hspent
      rw [heq]
      exact ⟨fun x hx => hsteady.closed_finish hu (hgraph ▸ hids) hspent hx,
        hended.target_conclude⟩
  · intro hspent
    rw [acts_append]
    rcases h.steady.acts_or_isTerminal as with hsteady | hterminal
    · have hend : (r.acts as).acts [.finish] = (r.acts as).finish :=
        (hsteady.act_eq .finish).trans (if_pos hspent)
      rw [hend]
      exact hsteady.isTerminal_finish hspent
    · rw [acts_of_isTerminal hterminal]
      exact hterminal

/-- A run is stopped while a node inside the container and the script wait: the records of both
nodes and that of the inner node are closed. -/
theorem records_lifecycle_stopped :
    let as := Sample.bothWait ++ [.stop, .finish]
    let stopped := (Sample.run 0).acts as
    Launched Sample.graph 0 [] {} (Sample.run 0) ∧ (∀ n ∈ Sample.graph.nodes, n.id ≠ "") ∧
      stopped.feed.isTerminal = true ∧
      (∀ x ∈ stopped.feed.snapshot.records, x.status.isTerminal = true) ∧
      stopped.feed.target = none ∧
      stopped.feed.snapshot.records.map (fun x => (x.node, x.status)) =
        [("batch", .stop), ("fetch", .stop), ("step", .stop)] := by
  have hterminal :
      ((Sample.run 0).acts (Sample.bothWait ++ [.stop, .finish])).feed.isTerminal = true := by cbv
  have hrecords :
      ((Sample.run 0).acts (Sample.bothWait ++ [.stop, .finish])).feed.snapshot.records.map
        (fun x => (x.node, x.status)) =
        [("batch", .stop), ("fetch", .stop), ("step", .stop)] := by cbv
  obtain ⟨-, -, hclosed, -⟩ :=
    records_lifecycle (Sample.launched 0) Sample.id_ne_empty (Sample.bothWait ++ [.stop, .finish])
  obtain ⟨hall, htarget⟩ := hclosed hterminal
  exact ⟨Sample.launched 0, Sample.id_ne_empty, hterminal, hall, htarget, hrecords⟩

end Flowrun.Run
