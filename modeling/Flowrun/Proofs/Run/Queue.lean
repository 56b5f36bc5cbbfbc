import Flowrun.Proofs.Run.Answers
import Flowrun.Proofs.Run.Slot

/-!
# Pauses in their order

An execution that reports that it waits raises a pause, unless the run halts. A pause that is raised
is queued, or goes into the slot at once, and the slot is only filled from the front of the queue.
So what was queued and raised is what went into the slot and is still queued, in the same order:

    r.queued ++ r.raised as = (r.activated as).map Pause.unshown ++ (r.acts as).queued

as long as the run has not ended. The end drops what is left in the queue, and puts nothing into the
slot. With what the feed displays, this is all there is to say about the slot (`pause_slot`).
-/

namespace Flowrun

open Json

/-- A pause as it was before it was shown. -/
def Pause.unshown (p : Pause) : Pause := { p with record := none }

namespace Run

variable {r r' : Run} {news : List Pause}

/-- The pause that an action raises. -/
def raises? (r : Run) : Action → Option Pause
  | .report serial (.ok (.paused inner)) _ =>
    if r.halting then none
    else (r.inFlight.find? (·.serial == serial)).map fun x => waitingPause x.request.node.id inner
  | _ => none

/-- The pauses that a history raises, the first one first. -/
def raised (r : Run) : List Action → List Pause
  | [] => []
  | a :: as => (r.raises? a).toList ++ (r.act a).raised as

/-- The pause that is new in the slot after a change of the run. -/
def newlyActive? (r r' : Run) : Option Pause :=
  if r'.active = r.active then none else r'.active

/-- The pauses that become active in a history, the first one first. -/
def activated (r : Run) : List Action → List Pause
  | [] => []
  | a :: as => (r.newlyActive? (r.act a)).toList ++ (r.act a).activated as

/-! ### What one action does to the queue -/

/-- Some pauses are put behind the others, and the first one may go into the slot. -/
def Queues (r r' : Run) (news : List Pause) : Prop :=
  r.queued ++ news = (r.newlyActive? r').toList.map Pause.unshown ++ r'.queued

theorem queues_of_eq (hactive : r'.active = r.active) (hqueued : r'.queued = r.queued ++ news) :
    r.Queues r' news := by
  unfold Queues newlyActive?
  rw [if_pos hactive, hqueued]
  rfl

/-- The slot holds another pause than before, or did not hold any. -/
theorem queues_of_ne (hactive : r.active = none ∨ r'.active ≠ r.active)
    (hqueued : r.queued ++ news = r'.active.toList.map Pause.unshown ++ r'.queued) :
    r.Queues r' news := by
  unfold Queues newlyActive?
  split
  · next hsame =>
    have hnone : r'.active = none := hsame.trans (hactive.resolve_right (not_not_intro hsame))
    rw [hnone] at hqueued
    exact hqueued
  · exact hqueued

/-- The next pause goes from the queue into the slot. -/
theorem Sound.queued_eq_activateNext (h : r.Sound) (hactive : r.active = none) :
    r.queued = r.activateNext.active.toList.map Pause.unshown ++ r.activateNext.queued := by
  unfold Run.activateNext
  cases hqueued : r.queued with
  | nil =>
    show [] = r.active.toList.map _ ++ r.queued
    rw [hactive, hqueued]
    rfl
  | cons p rest =>
    have hmem : p ∈ r.queued := by rw [hqueued]; exact List.mem_cons_self
    have hunshown : p = p.unshown := by
      show p = { p with record := none }
      rw [← h.hidden p hmem]
    show p :: rest = ({ r with queued := rest }.activate p).active.toList.map _ ++
      ({ r with queued := rest }.activate p).queued
    cases hinner : p.inner with
    | none =>
      obtain ⟨i, _, hi, _⟩ := h.ledger.exists_record (h.standing_queued hmem)
      have hi : ({ r with queued := rest } : Run).recordOf.at? p.node = some i := hi
      rw [activate_of_inner_eq_none hinner hi]
      exact congrArg (· :: rest) hunshown
    | some inner =>
      rw [activate_of_inner_eq_some hinner]
      exact congrArg (· :: rest) hunshown

/-- Only a node that waits while the run goes on changes the pauses. -/
theorem pauses_take (id : String) {result : NodeReport} (elapsed : Nat)
    (h : ∀ inner, result = .ok (.paused inner) → r.halting = true) :
    (r.take id result elapsed).active = r.active ∧
      (r.take id result elapsed).queued = r.queued := by
  unfold take
  split
  · exact ⟨rfl, rfl⟩
  · split
    · exact ⟨rfl, rfl⟩
    · next hgo =>
      split
      · split
        · rw [succeed_eq]
          split
          · rw [complete_eq]
            exact ⟨rfl, rfl⟩
          · rw [active_advance, queued_advance, complete_eq]
            exact ⟨rfl, rfl⟩
        · exact ⟨rfl, rfl⟩
      · next inner =>
        have hfailure : r.failure.isSome = true :=
          (Bool.or_eq_true_iff.1 (h inner rfl)).resolve_left hgo
        unfold suspend
        rw [if_pos hfailure]
        exact ⟨rfl, rfl⟩
      · exact ⟨rfl, rfl⟩

/-- A node that waits raises its pause. -/
theorem Steady.queues_suspend (h : r.Steady) {x : Execution} {inner : Option InnerNode}
    (index : Nat) (hx : x ∈ r.inFlight) (hlive : r.halting = false) :
    r.Queues ((r.landed x).suspend x.request.node.id index inner)
      [waitingPause x.request.node.id inner] := by
  have hmove : Move .any r ((r.landed x).enqueuePause x.request.node.id inner) :=
    .wait hx hlive trivial
  rw [suspend_eq index (r := r.landed x) (Bool.or_eq_false_iff.1 hlive).2 h.queue]
  split
  · next hnone =>
    have hactive : r.active = none := Option.isNone_iff_eq_none.1 hnone
    exact queues_of_ne (Or.inl hactive) ((h.sound.move hmove).queued_eq_activateNext hactive)
  · exact queues_of_eq rfl rfl

/-- A resume that is accepted empties the slot, and the next pause is shown. -/
theorem Sound.queues_resume (h : r.Sound) (target : ResumeTarget) (inputs : Dict Value) :
    r.Queues (r.resume target inputs).2 [] := by
  -- the record of the pause that was answered is sealed, so this pause is not shown again
  have next : ∀ {p : Pause} {i : Nat} {y : Record} {s : Run}, r.active = some p →
      p.record = some i → s.Sound → s.active = none → s.queued = r.queued → s.Sealed i y →
      r.Queues s.activateNext [] := by
    intro p i y s hactive hi hsound hnone hqueued hsealed
    obtain ⟨hmoves, -⟩ := hsound.activateNext .any hnone
    refine queues_of_ne (Or.inr fun hsame => ?_) ?_
    · exact (hsealed.moves hsound hmoves).unshown p (hsame.trans hactive) hi
    · rw [List.append_nil, ← hqueued]
      exact hsound.queued_eq_activateNext hnone
  rcases h.resume_cases target inputs with ⟨e, heq⟩ |
    ⟨p, i, n, given, hh, hactive, hi, rfl, hnested, hn, hgiven, heq⟩ |
    ⟨p, i, output, hh, hactive, hi, rfl, hnested, hout, heq⟩
  · rw [heq]
    exact queues_of_eq rfl (List.append_nil _).symm
  · rw [heq]
    have hmove := Move.reenter (w := .any) inputs hh hactive hi hnested hn hgiven
    obtain ⟨y, hsealed, -⟩ := h.sealed_reenter n given inputs hactive hi hnested
    exact next hactive hi (h.move hmove) rfl rfl hsealed
  · rw [heq]
    have hmove := Move.answer (w := .any) hh hactive hi hnested hout
    have hadvance := moves_advance .any ({ r with active := none }.answer p i output) p.node
    obtain ⟨y, hsealed, -⟩ := h.sealed_answer output hactive hi
    exact next hactive hi (hadvance.sound (h.move hmove)) (active_advance ..) (queued_advance ..)
      (hsealed.moves (h.move hmove) hadvance)

/-- Only a report of a node that waits raises a pause, while the run goes on. -/
theorem raises?_eq_none {serial : Nat} {result : NodeReport} {elapsed : Nat}
    (h : ∀ inner, result = .ok (.paused inner) → r.halting = true) :
    r.raises? (.report serial result elapsed) = none := by
  unfold raises?
  split
  · next inner _ heq =>
    obtain ⟨-, rfl, -⟩ := Action.report.inj heq
    exact if_pos (h inner rfl)
  · rfl

theorem take_paused {id : String} {i : Nat} (hi : r.recordOf.at? id = some i)
    (hlive : r.halting = false) (inner : Option InnerNode) (elapsed : Nat) :
    r.take id (.ok (.paused inner)) elapsed = r.suspend id i inner := by
  have hgo : r.stopping = false := (Bool.or_eq_false_iff.1 hlive).1
  unfold take
  rw [hi]
  dsimp only
  rw [hgo, if_neg Bool.false_ne_true]

theorem Steady.queues_report (h : r.Steady) (serial : Nat) (result : NodeReport)
    (elapsed : Nat) :
    r.Queues (r.report serial result elapsed)
      (r.raises? (.report serial result elapsed)).toList := by
  unfold Run.report
  split
  -- nothing in flight has the number
  · next hnone =>
    refine queues_of_eq rfl ?_
    have hquiet : r.raises? (.report serial result elapsed) = none := by
      unfold raises?
      split
      · next heq =>
        obtain ⟨rfl, -, -⟩ := Action.report.inj heq
        rw [hnone, Option.map_none, ite_self]
      · rfl
    rw [hquiet]
    exact (List.append_nil _).symm
  · next x hfind =>
    have hx := List.mem_of_find?_eq_some hfind
    by_cases hraise : ∃ inner, result = .ok (.paused inner) ∧ r.halting = false
    · obtain ⟨inner, rfl, hlive⟩ := hraise
      obtain ⟨i, _, hi, _⟩ := h.sound.ledger.exists_record (h.sound.standing_flying hx)
      have hraised : r.raises? (.report serial (.ok (.paused inner)) elapsed) =
          some (waitingPause x.request.node.id inner) := by
        show (if r.halting then none else _) = _
        rw [hlive, hfind]
        rfl
      have hserial : x.serial = serial := by simpa using List.find?_some hfind
      subst hserial
      rw [hraised]
      show r.Queues ((r.landed x).take _ _ elapsed) _
      rw [take_paused (r := r.landed x) hi hlive]
      exact h.queues_suspend i hx hlive
    · have hquiet : ∀ inner, result = .ok (.paused inner) → r.halting = true := by
        intro inner heq
        by_contra hlive
        exact hraise ⟨inner, heq, Bool.eq_false_iff.2 hlive⟩
      obtain ⟨hactive, hqueued⟩ :=
        pauses_take (r := r.landed x) x.request.node.id elapsed hquiet
      rw [raises?_eq_none hquiet]
      have hserial : x.serial = serial := by simpa using List.find?_some hfind
      subst hserial
      exact queues_of_eq hactive (hqueued.trans (List.append_nil _).symm)

/-- Whatever an action raises is queued behind the others, unless it is the last action. -/
theorem Steady.queues_perform (h : r.Steady) {a : Action} (ha : a ≠ .finish) :
    r.Queues (r.perform a) (r.raises? a).toList := by
  cases a with
  | schedule =>
    obtain ⟨hactive, hqueued⟩ := pauses_schedule h.sound
    exact queues_of_eq hactive (hqueued.trans (List.append_nil _).symm)
  | report serial result elapsed => exact h.queues_report serial result elapsed
  | resume target inputs => exact h.sound.queues_resume target inputs
  | stop => exact queues_of_eq rfl (List.append_nil _).symm
  | clock => exact queues_of_eq rfl (List.append_nil _).symm
  | finish => exact absurd rfl ha

/-- An action after which the run goes on. -/
theorem Steady.queues_act (h : r.Steady) {a : Action} (hlive : (r.act a).feed.isTerminal = false) :
    r.Queues (r.act a) (r.raises? a).toList := by
  rw [h.act_eq] at hlive ⊢
  by_cases ha : a = .finish
  · subst ha
    rcases r.perform_cases .finish with ha | hsame | ⟨hspent, hend⟩
    · exact absurd rfl ha
    · rw [hsame]
      exact queues_of_eq rfl (List.append_nil _).symm
    · rw [hend, h.isTerminal_finish hspent] at hlive
      cases hlive
  · exact h.queues_perform ha

/-! ### Histories -/

/-- The end puts nothing into the slot. -/
theorem Steady.newlyActive?_act (h : r.Steady) {a : Action}
    (hterminal : (r.act a).feed.isTerminal = true) : r.newlyActive? (r.act a) = none := by
  rcases h.act (World.any_admitsAll r [a]).1 with ⟨-, hsteady⟩ | ⟨s, -, hended, heq⟩
  · cases hterminal.symm.trans hsteady.not_isTerminal
  · have hnone : (r.act a).active = none := by
      rw [heq]
      exact Option.toList_eq_nil_iff.1 (List.append_eq_nil_iff.1 hended.pauses).1
    unfold newlyActive?
    rw [hnone, ite_self]

theorem activated_of_isTerminal (h : r.feed.isTerminal = true) (as : List Action) :
    r.activated as = [] := by
  induction as with
  | nil => rfl
  | cons a as ih =>
    have hsame : r.newlyActive? r = none := if_pos rfl
    rw [activated, act_of_isTerminal h, hsame, ih]
    rfl

/-- Pauses go from the queue into the slot in their order, and nothing else happens to them while
the run goes on. -/
theorem Steady.queues_acts (h : r.Steady) (as : List Action) :
    (r.activated as).map Pause.unshown <+: r.queued ++ r.raised as ∧
      ((r.acts as).feed.isTerminal = false →
        r.queued ++ r.raised as = (r.activated as).map Pause.unshown ++ (r.acts as).queued) := by
  induction as generalizing r with
  | nil => exact ⟨List.nil_prefix, fun _ => List.append_nil _⟩
  | cons a as ih =>
    rw [acts_cons, activated, raised, List.map_append]
    rcases h.act_or_isTerminal a with hsteady | hterminal
    · obtain ⟨horder, hrest⟩ := ih hsteady
      rw [← List.append_assoc, h.queues_act hsteady.not_isTerminal, List.append_assoc,
        List.append_assoc]
      refine ⟨(List.prefix_append_right_inj _).2 horder, fun hlive => ?_⟩
      rw [hrest hlive]
    · rw [h.newlyActive?_act hterminal, activated_of_isTerminal hterminal,
        acts_of_isTerminal hterminal]
      refine ⟨List.nil_prefix, fun hlive => ?_⟩
      cases hterminal.symm.trans hlive

/-! ### The slot, the queue and what is shown -/

variable {g : Graph} {limit : Nat} {startInputs : Dict Value} {pool : Pool}

/-- A slot into which nothing is put stays empty. -/
theorem active_acts_of_activated_eq_nil (hactive : r.active = none) {as : List Action}
    (h : r.activated as = []) : (r.acts as).active = none := by
  induction as generalizing r with
  | nil => exact hactive
  | cons a as ih =>
    obtain ⟨hnew, hrest⟩ := List.append_eq_nil_iff.1 h
    refine ih ?_ hrest
    have hnew := Option.toList_eq_nil_iff.1 hnew
    unfold newlyActive? at hnew
    split at hnew
    · next hsame => exact hsame.trans hactive
    · exact hnew

/-- A task is not paused unless a pause was raised. -/
theorem Launched.status_ne_paused (h : Launched g limit startInputs pool r) {as : List Action}
    (hraised : r.raised as = []) : (r.acts as).feed.status ≠ .paused := by
  obtain ⟨hqueued, hactive⟩ : r.queued = [] ∧ r.active = none := by
    obtain ⟨_, _, _, _, _, _, rfl⟩ := h.eq
    exact ⟨rfl, rfl⟩
  obtain ⟨horder, -⟩ := h.steady.queues_acts as
  rw [hqueued, hraised] at horder
  have hnone := active_acts_of_activated_eq_nil hactive
    (List.map_eq_nil_iff.1 (List.prefix_nil.1 horder))
  rcases h.displays_acts as with ⟨-, hd⟩ | ⟨s, hsteady, -, hspent, heq⟩
  · rw [hd.status, hnone]
    nofun
  · intro hpaused
    have hterminal := hsteady.isTerminal_finish hspent
    rw [← heq, Feed.isTerminal, hpaused] at hterminal
    cases hterminal

/-- The record of the pause that is shown names the point at which the task waits. -/
theorem Sound.target_eq (h : r.Sound) (hd : r.feed.Displays r.active)
    (hids : ∀ n ∈ r.graph.nodes, n.id ≠ "") {p : Pause} (hactive : r.active = some p) :
    ∃ x, r.feed.snapshot.records.filter (·.status = .pause) = [x] ∧
      r.feed.target = some ⟨x.node, x.parent⟩ := by
  have htarget := hd.target
  rw [hactive] at hd htarget
  obtain ⟨i, x, hi, hx, hxtarget, honly⟩ := hd.filter_records
  refine ⟨x, honly, ?_⟩
  have hnode : p.node ≠ "" := h.id_ne_empty hids (h.standing_active hactive)
  -- a container is a node of the graph, so its id is not empty
  have hparent : x.parent = none ∨ x.parent = some p.node := by
    by_cases hinner : p.inner = none
    · obtain ⟨y, hy, -, hnone⟩ := h.ledger.filed p.node i (h.recordOf_own hactive hi hinner)
      obtain rfl := Option.some.inj (hx.symm.trans hy)
      exact Or.inl hnone
    · obtain ⟨y, hy, hsome⟩ := h.record_inner hactive hi hinner
      obtain rfl := Option.some.inj (hx.symm.trans hy)
      exact Or.inr hsome
  rw [htarget, Option.map_some, ← hxtarget]
  rcases hparent with hnone | hsome
  · rw [Record.target, hnone]
    rfl
  · rw [Record.target, hsome]
    simp [ResumeTarget.new, hnode]

/-- In every history, until the run ends: the task is paused exactly if a pause is in the slot. Then
one record has the status `pause`, and the task waits for the node of that record; otherwise no
record has this status and the task waits for none. Pauses are queued only behind one that is in the
slot. The pauses that are raised become active in the order in which they are raised, each once, and
none is dropped but those that are still queued at the end. -/
theorem slot_and_queue (h : Launched g limit startInputs pool r) (hids : ∀ n ∈ g.nodes, n.id ≠ "")
    (as : List Action) :
    ((r.acts as).feed.isTerminal = false →
      ((r.acts as).feed.status = .paused ↔ (r.acts as).active.isSome = true) ∧
      ((r.acts as).active.isSome = true →
        ∃ x, (r.acts as).feed.snapshot.records.filter (·.status = .pause) = [x] ∧
          (r.acts as).feed.target = some ⟨x.node, x.parent⟩) ∧
      ((r.acts as).active = none →
        (∀ x ∈ (r.acts as).feed.snapshot.records, x.status ≠ .pause) ∧
          (r.acts as).feed.target = none) ∧
      ((r.acts as).queued ≠ [] → (r.acts as).active.isSome = true) ∧
      r.raised as = (r.activated as).map Pause.unshown ++ (r.acts as).queued) ∧
    (r.activated as).map Pause.unshown <+: r.raised as := by
  have hempty : r.queued = [] := by
    obtain ⟨_, _, _, _, _, _, rfl⟩ := h.eq
    rfl
  obtain ⟨horder, hrest⟩ := h.steady.queues_acts as
  rw [hempty, List.nil_append] at horder hrest
  refine ⟨fun hlive => ?_, horder⟩
  rcases h.displays_acts as with ⟨hsteady, hd⟩ | ⟨s, hsteady, -, hspent, heq⟩
  · refine ⟨?_, fun hsome => ?_, fun hnone => ?_, fun hne => ?_, hrest hlive⟩
    · rw [hd.status]
      cases (r.acts as).active with
      | none => exact iff_of_false nofun nofun
      | some p => exact iff_of_true rfl rfl
    · obtain ⟨p, hactive⟩ := Option.isSome_iff_exists.1 hsome
      exact hsteady.sound.target_eq hd (h.graph_acts as ▸ hids) hactive
    · rw [hnone] at hd
      exact ⟨fun x hx => hd.status_ne_pause hx, hd.target⟩
    · by_contra hnone
      exact hne (hsteady.queue (Option.not_isSome_iff_eq_none.1 hnone))
  · rw [heq, hsteady.isTerminal_finish hspent] at hlive
    cases hlive

/-- Of two pauses that are raised the first one is shown, and the second one is queued. -/
theorem slot_and_queue_two :
    let paused := (Sample.run 0).acts Sample.bothWait
    Launched Sample.graph 0 [] {} (Sample.run 0) ∧ (∀ n ∈ Sample.graph.nodes, n.id ≠ "") ∧
      paused.feed.isTerminal = false ∧ paused.feed.status = .paused ∧
      (∃ x, paused.feed.snapshot.records.filter (·.status = .pause) = [x] ∧
        paused.feed.target = some ⟨x.node, x.parent⟩) ∧
      (Sample.run 0).raised Sample.bothWait =
        ((Sample.run 0).activated Sample.bothWait).map Pause.unshown ++ paused.queued ∧
      paused.queued.map Pause.node = ["fetch"] := by
  have hlive : ((Sample.run 0).acts Sample.bothWait).feed.isTerminal = false := by cbv
  have hactive : ((Sample.run 0).acts Sample.bothWait).active.isSome = true := by cbv
  have hqueued : ((Sample.run 0).acts Sample.bothWait).queued.map Pause.node = ["fetch"] := by cbv
  obtain ⟨hstatus, hshown, -, -, hraised⟩ :=
    (slot_and_queue (Sample.launched 0) Sample.id_ne_empty Sample.bothWait).1 hlive
  exact ⟨Sample.launched 0, Sample.id_ne_empty, hlive, hstatus.2 hactive, hshown hactive, hraised,
    hqueued⟩

end Run
end Flowrun
