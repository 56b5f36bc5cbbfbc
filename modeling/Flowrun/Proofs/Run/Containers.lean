import Flowrun.Proofs.Run.Entries
import Flowrun.Proofs.Run.Frozen
import Flowrun.Proofs.Run.Queue

/-!
# Pauses inside containers

A container that reports a pause of a node inside it waits until the pause is answered, and is then
executed again, with the inputs that it was started with and with the answer as payload. All this
time it has one record, which executes; if the run halts instead, it is stopped, together with the
record of the node inside:

    waits ──answered──▸ executed again ──reports──▸ done
      └─────halted────▸ stopped

Whether a pause is answered inside its container is read off its target, and a target drops a parent
with an empty id. So this holds of every container but the one whose id is empty
(`UnderWay.returnsTo`). That one is taken for a node that waits itself: it succeeds with the answer,
without being executed again, and its record is left behind.
-/

namespace Flowrun

open Json

namespace Run

variable {w : World} {r r' : Run} {id : String} {f₀ : Feed}

/-! ### Executions that have not reported -/

/-- Only its report takes an execution out of flight. -/
theorem Steady.mem_inFlight_perform (h : r.Steady) {x : Execution} (hx : x ∈ r.inFlight)
    {a : Action} (ha : ∀ result elapsed, a ≠ .report x.serial result elapsed) :
    x ∈ (r.perform a).inFlight := by
  cases a with
  | schedule =>
    obtain ⟨news, hflight, -⟩ := h.sound.flight_schedule
    have hmore : r.schedule.inFlight = r.inFlight ++ news := congrArg Prod.fst hflight
    exact hmore ▸ List.mem_append_left _ hx
  | report serial result elapsed =>
    have hless : (r.report serial result elapsed).inFlight =
        r.inFlight.filter (·.serial != serial) := congrArg Prod.fst (flight_report ..)
    rw [perform, hless, List.mem_filter]
    exact ⟨hx, bne_iff_ne.2 fun he => ha result elapsed (he ▸ rfl)⟩
  | resume target inputs =>
    rw [perform]
    rcases h.sound.resume_cases target inputs with ⟨_, heq⟩ |
      ⟨p, i, n, given, -, hactive, -, rfl, hnested, hn, -, heq⟩ |
      ⟨p, i, output, -, -, -, -, -, -, heq⟩
    · rw [heq]
      exact hx
    · obtain ⟨e, hflight, -⟩ := h.sound.inFlight_reenter i given inputs hactive hnested hn
      rw [heq, hflight]
      exact List.mem_append_left _ hx
    · have hsame : ((({ r with active := none }.answer p i output).advance
          p.node).activateNext).inFlight = r.inFlight :=
        congrArg Prod.fst ((flight_activateNext _).trans (flight_advance _ _))
      rw [heq, hsame]
      exact hx
  | stop => exact hx
  | clock => exact hx
  | finish =>
    show x ∈ (if r.isSpent then r.finish else r).inFlight
    rw [if_neg fun hspent => List.ne_nil_of_mem hx (isSpent_iff.1 hspent).1]
    exact hx

/-- An execution is in flight until it reports. -/
theorem Steady.mem_inFlight_acts (h : r.Steady) {x : Execution} (hx : x ∈ r.inFlight)
    {as : List Action} (has : ∀ result elapsed, .report x.serial result elapsed ∉ as) :
    x ∈ (r.acts as).inFlight := by
  induction as generalizing r with
  | nil => exact hx
  | cons a as ih =>
    have hnext : x ∈ (r.act a).inFlight := by
      rw [h.act_eq]
      exact h.mem_inFlight_perform hx fun result elapsed he =>
        has result elapsed (he ▸ List.mem_cons_self)
    have hsteady : (r.act a).Steady :=
      h.steady_of_ne_nil [a] (Or.inl (List.ne_nil_of_mem hnext))
    exact ih hsteady hnext fun result elapsed hmem =>
      has result elapsed (List.mem_cons_of_mem _ hmem)

theorem Steady.underWay_of_ne_nil (h : r.Steady) (hu : r.UnderWay f₀) {as : List Action}
    (hleft : (r.acts as).inFlight ≠ [] ∨ (r.acts as).pauses ≠ []) :
    (r.acts as).Steady ∧ (r.acts as).UnderWay f₀ := by
  have hsteady := h.steady_of_ne_nil as hleft
  rcases h.underWay_acts hu as with hgoing | ⟨s, hs, -, hspent, heq⟩
  · exact hgoing
  · have hterminal := hs.isTerminal_finish hspent
    rw [← heq, hsteady.not_isTerminal] at hterminal
    cases hterminal

/-! ### Inputs that are written down -/

/-- The inputs of a node are written down once. -/
theorem Sound.inputsOf_move (h : r.Sound) (m : Move w r r') {given : Dict Value}
    (hgiven : r.inputsOf.at? id = some given) : r'.inputsOf.at? id = some given := by
  cases m with
  | @start n rest _ hready =>
    show (r.inputsOf.put n.id _).at? id = some given
    refine (Dict.at?_put_of_ne _ (fun hid => ?_) _).trans hgiven
    -- a node that is ready was not started, so nothing is written down for it
    have hmem : n.id ∈ r.ready := by rw [hready]; exact List.mem_cons_self
    have hnone := (h.ledger.given n.id).2 (Or.inl (h.board.ready_free n.id hmem))
    cases hnone.symm.trans (hid ▸ hgiven)
  | complete =>
    rw [complete_eq]
    exact hgiven
  | _ => exact hgiven

theorem Steady.inputsOf_acts (h : r.Steady) {given : Dict Value}
    (hgiven : r.inputsOf.at? id = some given) (as : List Action) :
    (r.acts as).inputsOf.at? id = some given :=
  h.keep_all (P := fun s => s.inputsOf.at? id = some given) hgiven (World.any_admitsAll r as)
    (fun hsound hs m => hsound.inputsOf_move m hs) fun hs => hs

/-! ### Pauses that are raised -/

/-- Of the executions in flight only one has a given number. -/
theorem Sound.find?_inFlight (h : r.Sound) {x : Execution} (hx : x ∈ r.inFlight) :
    r.inFlight.find? (·.serial == x.serial) = some x := by
  cases hfind : r.inFlight.find? (·.serial == x.serial) with
  | none => exact absurd (beq_self_eq_true x.serial) (List.find?_eq_none.1 hfind x hx)
  | some y =>
    have hserial : y.serial = x.serial := by simpa using List.find?_some hfind
    rw [h.board.serial_inj y (List.mem_of_find?_eq_some hfind) x hx hserial]

/-- An execution that reports that it waits raises a pause, unless the run halts. -/
theorem Steady.exists_pause (h : r.Steady) {x : Execution} (hx : x ∈ r.inFlight)
    (hlive : r.halting = false) (inner : Option InnerNode) (elapsed : Nat) :
    ∃ p ∈ (r.act (.report x.serial (.ok (.paused inner)) elapsed)).pauses,
      p.node = x.request.node.id ∧ p.inner = inner := by
  have hraised : r.raises? (.report x.serial (.ok (.paused inner)) elapsed) =
      some (waitingPause x.request.node.id inner) := by
    show (if r.halting then none else _) = _
    rw [hlive, h.sound.find?_inFlight hx]
    rfl
  have hqueues := h.queues_report x.serial (.ok (.paused inner)) elapsed
  rw [hraised] at hqueues
  rw [h.act_eq, perform]
  have hmem : waitingPause x.request.node.id inner ∈
      r.queued ++ [waitingPause x.request.node.id inner] :=
    List.mem_append_right _ (List.mem_singleton.2 rfl)
  rw [show r.queued ++ [_] = _ from hqueues] at hmem
  rcases List.mem_append.1 hmem with hshown | hqueued
  · obtain ⟨p, hp, hsame⟩ := List.mem_map.1 hshown
    have hactive : (r.report x.serial (.ok (.paused inner)) elapsed).active = some p := by
      rw [Option.mem_toList, newlyActive?] at hp
      split at hp
      · cases hp
      · exact hp
    refine ⟨p, by simp [pauses, hactive], ?_, ?_⟩
    · exact congrArg Pause.node hsame
    · exact congrArg Pause.inner hsame
  · exact ⟨_, List.mem_append_right _ hqueued, rfl, rfl⟩

/-! ### The record of a container -/

/-- A node has one record of its own, with the given status. -/
def RecordsAs (r : Run) (id : String) (s : NodeStatus) : Prop :=
  ∃ x, r.ownRecords id = [x] ∧ x.status = s

/-- A node that was started has one record of its own. -/
theorem Steady.ownRecords_acts (h : r.Steady) {given : Dict Value}
    (hgiven : r.inputsOf.at? id = some given) (as : List Action) :
    ∃ x, (r.acts as).ownRecords id = [x] := by
  have hledger := h.ledger_acts as
  obtain ⟨s, hs⟩ : ∃ s, (r.acts as).standing? id = some s := by
    refine Option.ne_none_iff_exists'.1 fun hnone => ?_
    have hfree := (hledger.given id).2 (Or.inl hnone)
    cases hfree.symm.trans (h.inputsOf_acts hgiven as)
  obtain ⟨i, x, hi, hx, -⟩ := hledger.exists_record hs
  exact ⟨x, ownRecords_eq hledger hi hx⟩

/-- A node that is not done executes, as far as its record says, unless its own pause is shown. -/
theorem UnderWay.recordsAs_executing (hu : r.UnderWay f₀) (h : r.Sound) (hid : r.Pending id)
    (hother : ∀ p, r.active = some p → p.node = id → p.inner ≠ none) :
    r.RecordsAs id .executing := by
  obtain ⟨s, hs, hopen⟩ := hid
  obtain ⟨i, x, hi, hx, hnode, hparent⟩ := h.ledger.exists_record hs
  refine ⟨x, ownRecords_eq h.ledger hi hx, ?_⟩
  rcases NodeStatus.isTerminal_eq_false_iff.1 (hu.candid id i x ⟨s, hs, hopen⟩ hi hx) with
    hexecuting | hpause
  · exact hexecuting
  -- the record that shows a pause inside the node is another one
  · obtain ⟨p, hp, hj⟩ := hu.displays.only i x hx hpause
    by_cases hself : p.node = id
    · obtain ⟨y, hy, hinside⟩ := h.record_inner hp hj (hother p hp hself)
      obtain rfl := Option.some.inj (hx.symm.trans hy)
      cases hparent.symm.trans hinside
    · exact absurd hj (h.record_ne hp hi (Ne.symm hself))

/-- A node waits in one pause only. -/
theorem Sound.eq_of_node_eq (h : r.Sound) {p q : Pause} (hp : p ∈ r.pauses) (hq : q ∈ r.pauses)
    (hnode : p.node = q.node) : p = q :=
  List.inj_on_of_nodup_map h.board.waiting_nodup hp hq hnode

/-- The record of a container executes while a pause inside it waits. -/
theorem UnderWay.executing_of_mem_pauses (hu : r.UnderWay f₀) (h : r.Sound) {p : Pause}
    (hp : p ∈ r.pauses) (hinner : p.inner ≠ none) : r.RecordsAs p.node .executing := by
  refine hu.recordsAs_executing h (h.pending_waiting hp) fun q hq hself => ?_
  have hmem : q ∈ r.pauses := by simp [pauses, hq]
  rw [h.eq_of_node_eq hmem hp hself]
  exact hinner

/-- The record of a node executes while an execution of it is in flight. -/
theorem UnderWay.executing_of_mem_inFlight (hu : r.UnderWay f₀) (h : r.Sound) {x : Execution}
    (hx : x ∈ r.inFlight) : r.RecordsAs x.request.node.id .executing :=
  hu.recordsAs_executing h (h.pending_flying hx) fun _ hp hself =>
    absurd hself.symm (h.ne_of_flying hx hp)

/-- A pause inside a container is shown on a record of the node inside. -/
theorem UnderWay.exists_record_inside (hu : r.UnderWay f₀) (h : r.Sound) {p : Pause} {i : Nat}
    (hactive : r.active = some p) (hi : p.record = some i) (hinner : p.inner ≠ none) :
    ∃ x, r.feed.record? i = some x ∧ x.node = p.target.node ∧ x.parent = some p.node := by
  obtain ⟨j, x, hj, hx, -, htarget⟩ := hu.displays.shown p hactive
  obtain rfl := Option.some.inj (hi.symm.trans hj)
  obtain ⟨y, hy, hparent⟩ := h.record_inner hactive hi hinner
  obtain rfl := Option.some.inj (hx.symm.trans hy)
  exact ⟨x, hx, congrArg ResumeTarget.node htarget, hparent⟩

/-! ### What becomes of a pause inside a container -/

/-- An action executes the container with the request `q` again, with a payload. Until the new
execution reports, the record of the container stays as it is. -/
def ExecutesAgain (r : Run) (q : NodeRequest) (a : Action) (payload : ResumePayload) : Prop :=
  ∃ e, r.launches a = [e] ∧ e.request.node = q.node ∧ e.request.inputs = q.inputs ∧
    e.request.resume = some payload ∧
    ∀ as, (∃ x, (r.acts (a :: as)).ownRecords q.node.id = [x]) ∧
      ((∀ result elapsed, .report e.serial result elapsed ∉ as) →
        (r.acts (a :: as)).RecordsAs q.node.id .executing)

/-- A pause of the node `inner` inside the container that is executed with the request `q` goes back
to the container. -/
structure ReturnsTo (r : Run) (q : NodeRequest) (inner : InnerNode) (p : Pause) : Prop where
  target : p.target = ⟨inner.id, some q.node.id⟩
  /-- If the pause is shown, it is shown on a record of the node inside. -/
  shown : ∀ i, p.record = some i →
    ∃ x, r.feed.record? i = some x ∧ x.node = inner.id ∧ x.parent = some q.node.id
  waiting : r.RecordsAs q.node.id .executing
  resumed : r.active = some p → r.halting = false → ∀ inputs,
    (r.resume p.target inputs).1 = .ok () ∧
      r.ExecutesAgain q (.resume p.target inputs) ⟨p.target, inputs⟩
  /-- If the run halts, the records of the container and of the node inside are stopped. -/
  stopped : r.halting = true → ∀ as, (r.acts as).feed.isTerminal = true →
    (r.acts as).RecordsAs q.node.id .stop ∧
      ∀ i, p.record = some i → ∃ x, (r.acts as).feed.record? i = some x ∧ x.status = .stop

/-! ### A pause that is resumed -/

/-- A resume of a pause inside a container is accepted and executes the container again. -/
theorem Steady.launches_resume (h : r.Steady) (hd : r.feed.Displays r.active) {p : Pause}
    (hactive : r.active = some p) (hlive : r.halting = false) (hinner : p.inner ≠ none)
    (hid : p.node ≠ "") (inputs : Dict Value) :
    (r.resume p.target inputs).1 = .ok () ∧
      ∃ e, r.launches (.resume p.target inputs) = [e] ∧
        e ∈ (r.act (.resume p.target inputs)).inFlight ∧ e.request.node.id = p.node ∧
        e.request.resume = some ⟨p.target, inputs⟩ := by
  have hnested := (h.sound.isNested_iff hactive).2 ⟨hinner, hid⟩
  have hpaused : r.feed.status = .paused := by rw [hd.status, hactive]; rfl
  have hreached : r.standing? p.node ≠ none := by
    rw [standing?, h.sound.standing_active hactive]
    exact Option.some_ne_none _
  obtain ⟨n, hn⟩ := h.sound.reached p.node hreached
  have hok : (r.resume p.target inputs).1 = .ok () := by
    refine (h.sound.resume_ok_iff_takes p.target inputs).2 ⟨hpaused, hlive, p, n, hactive, rfl, hn,
      fun hnot => ?_⟩
    cases hnested.symm.trans hnot
  obtain ⟨e, he, hserial, hparent, hpayload⟩ := h.exists_payload hok hnested
  replace he : e ∈ (r.act (.resume p.target inputs)).inFlight := by rw [h.act_eq]; exact he
  have hnode : e.request.node.id = p.node := by
    rw [h.sound.target p (by simp [pauses, hactive])] at hnested hparent
    exact Option.some.inj (hparent.symm.trans (parent_pauseTarget hnested))
  have hmem : e ∈ r.launches (.resume p.target inputs) :=
    List.mem_filter.2 ⟨he, decide_eq_true (Nat.le_of_eq hserial.symm)⟩
  refine ⟨hok, e, ?_, he, hnode, hpayload⟩
  generalize ha : Action.resume p.target inputs = a at hmem ⊢
  have hlaunching := h.launching a
  generalize r.launches a = news at hlaunching hmem ⊢
  cases hlaunching with
  | none => exact absurd hmem List.not_mem_nil
  | ready => cases ha
  | again => rw [List.mem_singleton.1 hmem]

/-- What is executed again has the request of before, and its record executes. -/
theorem UnderWay.executesAgain (hu : r.UnderWay f₀) (h : r.Steady) {q : NodeRequest} {a : Action}
    {e : Execution} {payload : ResumePayload} (hn : r.graph.node? q.node.id = some q.node)
    (hgiven : r.inputsOf.at? q.node.id = some q.inputs) (hlaunches : r.launches a = [e])
    (he : e ∈ (r.act a).inFlight) (hnode : e.request.node.id = q.node.id)
    (hpayload : e.request.resume = some payload) : r.ExecutesAgain q a payload := by
  have hsteady : (r.act a).Steady := h.steady_of_ne_nil [a] (Or.inl (List.ne_nil_of_mem he))
  obtain ⟨hen, hegiven⟩ := hsteady.sound.flying e he
  rw [hnode] at hen hegiven
  have hgraph : (r.act a).graph = r.graph := h.graph_acts [a]
  have hinputs := h.inputsOf_acts hgiven [a]
  refine ⟨e, hlaunches, Option.some.inj (hen.symm.trans (hgraph ▸ hn)),
    Option.some.inj (hegiven.symm.trans hinputs), hpayload, fun as => ⟨?_, fun has => ?_⟩⟩
  · exact h.ownRecords_acts hgiven _
  · have hflying : e ∈ (r.acts (a :: as)).inFlight := hsteady.mem_inFlight_acts he has
    obtain ⟨hlater, hunder⟩ := h.underWay_of_ne_nil hu (Or.inl (List.ne_nil_of_mem hflying))
    exact hnode ▸ hunder.executing_of_mem_inFlight hlater.sound hflying

/-! ### A pause that is given up -/

/-- A run that halts keeps its pauses until it ends. -/
theorem Steady.exists_finish_of_halting (h : r.Steady) (hu : r.UnderWay f₀)
    (hh : r.halting = true) {as : List Action} (hterminal : (r.acts as).feed.isTerminal = true) :
    ∃ s : Run, s.Steady ∧ s.UnderWay f₀ ∧ s.pauses = r.pauses ∧ s.isSpent = true ∧
      r.acts as = s.finish := by
  have hkept := h.keep_acts (w := .any)
    (P := fun s => s.UnderWay f₀ ∧ s.halting = true ∧ s.pauses = r.pauses)
    (fun _ hs m hlive => by cases (m.halting hs.2.1).symm.trans hlive)
    (fun now stopping hs hh => ⟨hs.1.flag now stopping, hh, hs.2.2⟩)
    (fun hsound hs hl hh => ⟨hs.1.land hsound hl, hh, by cases hl; exact hs.2.2⟩)
    ⟨hu, hh, rfl⟩ (World.any_admitsAll r as)
  rcases hkept with ⟨hsteady, -⟩ | ⟨s, hsteady, ⟨hu, -, hpauses⟩, hspent, heq⟩
  · cases hterminal.symm.trans hsteady.not_isTerminal
  · exact ⟨s, hsteady, hu, hpauses, hspent, heq⟩

/-- At the end the record of a node that waits is stopped. -/
theorem Steady.recordsAs_stop (h : r.Steady) (hspent : r.isSpent = true) {p : Pause}
    (hp : p ∈ r.pauses) (hid : p.node ≠ "") : r.finish.RecordsAs p.node .stop := by
  have hended := (h.ended_closePauses .any hspent).2
  have hstop : r.closePauses.standing? p.node = some (.done .stop) :=
    (h.sound.standing?_closePauses p.node).trans (if_pos (List.mem_map_of_mem hp))
  obtain ⟨i, x, hi, hx, hnode, hparent⟩ := hended.sound.ledger.exists_record hstop
  obtain ⟨s, hs, hshows⟩ := hended.sound.ledger.shown i x hx hparent (hnode ▸ hid)
  obtain rfl := Option.some.inj ((hnode ▸ hs).symm.trans hstop)
  refine ⟨x, ?_, hshows⟩
  rw [finish_eq, ownRecords_conclude]
  exact ownRecords_eq hended.sound.ledger hi hx

/-- Only the pause in the slot has a record that shows it. -/
theorem Sound.active_of_record (h : r.Sound) {p : Pause} {i : Nat} (hp : p ∈ r.pauses)
    (hi : p.record = some i) : r.active = some p := by
  rcases List.mem_append.1 hp with hp | hp
  · exact Option.mem_toList.1 hp
  · cases (h.hidden p hp).symm.trans hi

/-! ### The theorem -/

/-- Whatever waits inside a container with an id goes back to it. -/
theorem UnderWay.returnsTo (hu : r.UnderWay f₀) (h : r.Steady) {q : NodeRequest} {p : Pause}
    {inner : InnerNode} (hn : r.graph.node? q.node.id = some q.node)
    (hgiven : r.inputsOf.at? q.node.id = some q.inputs) (hp : p ∈ r.pauses)
    (hnode : p.node = q.node.id) (hinner : p.inner = some inner) (hid : q.node.id ≠ "") :
    r.ReturnsTo q inner p := by
  have hinside : p.inner ≠ none := by
    rw [hinner]
    exact Option.some_ne_none inner
  have htarget : p.target = ⟨inner.id, some q.node.id⟩ := by
    rw [h.sound.target p hp, hnode, hinner]
    simp [pauseTarget, ResumeTarget.new, hid]
  rw [← hnode] at hid
  refine ⟨htarget, fun i hi => ?_, hnode ▸ hu.executing_of_mem_pauses h.sound hp hinside,
    fun hactive hlive inputs => ?_, fun hh as hterminal => ?_⟩
  · have hactive := h.sound.active_of_record hp hi
    obtain ⟨x, hx, hxnode, hparent⟩ := hu.exists_record_inside h.sound hactive hi hinside
    rw [htarget] at hxnode
    exact ⟨x, hx, hxnode, hnode ▸ hparent⟩
  · obtain ⟨hok, e, hlaunches, he, henode, hpayload⟩ :=
      h.launches_resume hu.displays hactive hlive hinside hid inputs
    exact ⟨hok, hu.executesAgain h hn hgiven hlaunches he (henode.trans hnode) hpayload⟩
  · obtain ⟨s, hsteady, hu, hpauses, hspent, heq⟩ := h.exists_finish_of_halting hu hh hterminal
    rw [← hpauses] at hp
    rw [heq, ← hnode]
    refine ⟨hsteady.recordsAs_stop hspent hp hid, fun i hi => ?_⟩
    have hactive := hsteady.sound.active_of_record hp hi
    obtain ⟨-, hstopped⟩ :=
      hsteady.closings_closePauses hu.candid hu.displays (isSpent_iff.1 hspent).2.1
    obtain ⟨x, hx, hstop⟩ := hstopped p i hactive hi hid
    exact ⟨x, (Feed.record?_finish ..).trans hx, hstop⟩

variable {g : Graph} {limit : Nat} {startInputs : Dict Value} {pool : Pool}

/-- In every history, a report that an execution of a container waits for a node inside raises a
pause of that node, unless the run halts. The pause goes back to the container, whatever happens
before it is shown, while it is shown and after it was answered, exactly if the id of the container
is not empty. -/
theorem nested_pause_returns_iff (h : Launched g limit startInputs pool r) (as : List Action)
    {x : Execution} (hx : x ∈ (r.acts as).inFlight) (hlive : (r.acts as).halting = false)
    (inner : InnerNode) (elapsed : Nat) :
    let a : Action := .report x.serial (.ok (.paused (some inner))) elapsed
    (∃ p ∈ (r.acts (as ++ [a])).pauses, p.node = x.request.node.id ∧ p.inner = some inner) ∧
      ((∀ bs, ∀ p ∈ (r.acts (as ++ a :: bs)).pauses, p.node = x.request.node.id →
          p.inner = some inner → (r.acts (as ++ a :: bs)).ReturnsTo x.request inner p) ↔
        x.request.node.id ≠ "") := by
  intro a
  have hsteady := h.steady.steady_of_ne_nil as (Or.inl (List.ne_nil_of_mem hx))
  obtain ⟨hn, hgiven⟩ := hsteady.sound.flying x hx
  obtain ⟨p, hp, hnode, hinner⟩ : ∃ p ∈ (r.acts (as ++ [a])).pauses,
      p.node = x.request.node.id ∧ p.inner = some inner := by
    rw [acts_append]
    exact hsteady.exists_pause hx hlive (some inner) elapsed
  refine ⟨⟨p, hp, hnode, hinner⟩, fun hall hempty => ?_, fun hid bs p hp hnode hinner => ?_⟩
  · have hraised := h.steady.steady_of_ne_nil _ (Or.inr (List.ne_nil_of_mem hp))
    have htarget := hraised.sound.target p hp
    rw [hnode, hinner, hempty] at htarget
    cases htarget.symm.trans (hall [] p hp hnode hinner).target
  · obtain ⟨hlater, hu⟩ :=
      h.steady.underWay_of_ne_nil h.underWay (Or.inr (List.ne_nil_of_mem hp))
    refine hu.returnsTo hlater ?_ ?_ hp hnode hinner hid
    · rw [h.graph_acts, ← h.graph_acts as]
      exact hn
    · rw [acts_append]
      exact hsteady.inputsOf_acts hgiven (a :: bs)

/-- The container of the small graph is executed again when the pause inside it is resumed. -/
theorem nested_pause_returns_iff_batch :
    let before := (Sample.run 0).acts [.schedule]
    let after := (Sample.run 0).acts [.schedule,
      .report 0 (.ok (.paused (some (.new "step" "script")))) 0]
    Launched Sample.graph 0 [] {} (Sample.run 0) ∧ before.halting = false ∧
      ∃ x ∈ before.inFlight, x.serial = 0 ∧ x.request.node = Sample.batch ∧
        x.request.node.id ≠ "" ∧
        ∃ p, after.active = some p ∧ after.ReturnsTo x.request (.new "step" "script") p := by
  have hlive : ((Sample.run 0).acts [.schedule]).halting = false := by cbv
  have hflight : ((Sample.run 0).acts [.schedule]).inFlight.map
      (fun x => (x.serial, x.request.node)) = [(0, Sample.batch), (1, Sample.fetch)] := by cbv
  have hactive : ((Sample.run 0).acts [.schedule,
      .report 0 (.ok (.paused (some (.new "step" "script")))) 0]).active =
        some ⟨⟨"step", some "batch"⟩, "batch", some (.new "step" "script"), some 2⟩ := by cbv
  obtain ⟨x, hx, hvalue⟩ := List.mem_map.1 (hflight ▸ List.mem_cons_self)
  obtain ⟨hserial, hnode⟩ := Prod.mk.inj hvalue
  have hid : x.request.node.id ≠ "" := by rw [hnode]; decide
  have hreturns := (nested_pause_returns_iff (Sample.launched 0) [.schedule] hx hlive
    (.new "step" "script") 0).2.2 hid []
  rw [hserial] at hreturns
  refine ⟨Sample.launched 0, hlive, x, hx, hserial, hnode, hid, _, hactive,
    hreturns _ (List.mem_append_left _ ?_) ?_ rfl⟩
  · exact Option.mem_toList.2 hactive
  · rw [hnode]
    rfl

end Run

namespace Sample

/-- A container whose id is empty. -/
def nameless : Node := ⟨"", "", .iterator, "iterator", {}⟩

def namelessGraph : Graph where
  nodeSlots := ⟨[(0, nameless)], 1, []⟩
  revision := 1

def namelessRun : Run where
  graph := namelessGraph
  order := [""]
  limit := 0
  startInputs := []
  now := default
  feed := feed.setStatus .executing none default
  pool := {}
  ready := [""]

theorem launched_nameless : Run.Launched namelessGraph 0 [] {} namelessRun where
  built := by
    refine Graph.Built.empty.addAll [nameless] [] ?_
    cbv
  begun := by
    have hvisited : namelessGraph.digraph.visited = [""] := by cbv
    have horder : namelessGraph.order = .ok [""] := by
      unfold Graph.order Digraph.order
      rw [hvisited]
      rfl
    have hentries : namelessGraph.entries.map Node.id = [""] := by
      have hfree : (namelessGraph.nodes.filter fun n => namelessGraph.incoming n.id == []) =
        [nameless] := by cbv
      unfold Graph.entries
      rw [hfree]
      simp [Graph.sortNodes, nameless]
    refine ⟨feed, default, { namelessRun with feed := feed }, rfl, rfl, ?_, rfl⟩
    unfold Run.begin
    rw [horder]
    show Except.ok _ = _
    rw [hentries]
    rfl

end Sample

namespace Run

/-- It is not so that every pause inside a container returns to it. The container with the empty id
is not executed again when the pause inside it is resumed. -/
theorem not_forall_nested_pause_returns :
    ¬ ∀ (g : Graph) (limit : Nat) (startInputs : Dict Value) (pool : Pool) (r : Run),
      Launched g limit startInputs pool r → ∀ as, ∀ x ∈ (r.acts as).inFlight,
        (r.acts as).halting = false → ∀ (inner : InnerNode) (elapsed : Nat) (bs : List Action),
          let s := r.acts (as ++ .report x.serial (.ok (.paused (some inner))) elapsed :: bs)
          ∀ p ∈ s.pauses, p.node = x.request.node.id → p.inner = some inner →
            s.ReturnsTo x.request inner p := by
  intro hall
  have hlive : (Sample.namelessRun.acts [.schedule]).halting = false := by cbv
  have hflight : (Sample.namelessRun.acts [.schedule]).inFlight.map
      (fun x => (x.serial, x.request.node)) = [(0, Sample.nameless)] := by cbv
  have hactive : (Sample.namelessRun.acts [.schedule,
      .report 0 (.ok (.paused (some (.new "step" "script")))) 0]).active =
        some ⟨⟨"step", none⟩, "", some (.new "step" "script"), some 1⟩ := by cbv
  have hnone : (Sample.namelessRun.acts [.schedule,
      .report 0 (.ok (.paused (some (.new "step" "script")))) 0]).launches
        (.resume ⟨"step", none⟩ []) = [] := by cbv
  have hgoes : (Sample.namelessRun.acts [.schedule,
      .report 0 (.ok (.paused (some (.new "step" "script")))) 0]).halting = false := by cbv
  obtain ⟨x, hx, hvalue⟩ := List.mem_map.1 (hflight ▸ List.mem_cons_self)
  obtain ⟨hserial, hnode⟩ := Prod.mk.inj hvalue
  have hreturns := hall _ _ _ _ _ Sample.launched_nameless [.schedule] x hx hlive
    (.new "step" "script") 0 []
  rw [hserial, hnode] at hreturns
  obtain ⟨-, e, hlaunches, -⟩ := (hreturns _ (List.mem_append_left _ (Option.mem_toList.2 hactive))
    rfl rfl).resumed hactive hgoes []
  cases hnone.symm.trans hlaunches

end Run
end Flowrun
