import Flowrun.Proofs.Run.Queue
import Flowrun.Proofs.Run.Workload
import Flowrun.Proofs.Service.Progress

/-!
# The loop of a task

Every step of a task performs at most one action of its run (`Live.action?`), so a history of the
desk is one of the run:

    (d.acts es).held.run = d.held.run.acts (d.actions es)

The loop has one way to go on without an action: when there is something to start and nothing to
wait for, it schedules again. It never takes that way (`InOrder.not_retries_acts`), because what is
ready after scheduling is so only for want of room, and then something is in flight.
-/

namespace Flowrun

namespace Live

variable {l l' : Live}

/-- The action that the next step performs, if it performs one. -/
def action? (l : Live) : Option Action := match l.phase with
  | .closing _ => none
  | .scheduling => some .schedule
  | .selecting =>
    if l.isIdle then
      if l.run.isSpent then some .finish else none
    else if l.stopWaits then some .stop
    else match l.commands, l.arrivals with
      | c :: _, _ => some (.resume c.target c.inputs)
      | [], a :: _ => some (.report a.serial a.report a.elapsed)
      | [], [] => none

/-- A step that is taken performs the action. -/
theorem Turn.run_eq (h : l.Turn l') :
    l'.run = (l.action?.map l.run.perform).getD l.run := by
  unfold action?
  cases h with
  | schedule hphase =>
    rw [hphase]
    rfl
  | again hphase hidle hready hlive =>
    have hgoes : l.run.isSpent = false := by
      apply Bool.eq_false_iff.2
      intro hspent
      rcases (Run.isSpent_iff.1 hspent).2.2 with hnone | hhalting
      · exact hready hnone
      · cases hhalting.symm.trans hlive
    rw [hphase]
    dsimp only
    rw [if_pos hidle, hgoes]
    rfl
  | close _ hphase hspent =>
    have hidle : l.isIdle = true := (Bool.and_eq_true_iff.1 hspent).1
    rw [hphase]
    dsimp only
    rw [if_pos hidle, if_pos hspent]
    exact (if_pos hspent).symm
  | takeStop hsel hstop =>
    rw [hsel.1]
    dsimp only
    rw [hsel.2, if_neg Bool.false_ne_true, if_pos hstop]
    rfl
  | takeCommand hnext heq =>
    obtain ⟨hsel, hstop⟩ := selects_of_nextCommand? hnext
    rw [hsel.1]
    dsimp only
    rw [hsel.2, hstop, if_neg Bool.false_ne_true, if_neg Bool.false_ne_true, heq]
    rfl
  | takeReport hsel hstop hcommands harrivals =>
    rw [hsel.1]
    dsimp only
    rw [hsel.2, hstop, if_neg Bool.false_ne_true, if_neg Bool.false_ne_true, hcommands, harrivals]
    rfl

/-- A task that cannot take a step has no action to perform. -/
theorem action?_of_step?_eq_none {s : Store} (h : l.step? s = none) : l.action? = none := by
  unfold step? at h
  unfold action?
  cases hphase : l.phase with
  | closing saved => rfl
  | scheduling =>
    rw [hphase] at h
    cases h
  | selecting =>
    rw [hphase] at h
    dsimp only at h ⊢
    by_cases hidle : l.isIdle = true
    · rw [if_pos hidle] at h
      split at h
      · cases h
      · cases h
    · rw [if_neg hidle] at h ⊢
      unfold select? at h
      split at h
      · cases h
      · next hstop =>
        have hstop : l.stopWaits = false := Bool.eq_false_iff.2 hstop
        rw [hstop, if_neg Bool.false_ne_true]
        cases hcommands : l.commands with
        | cons c rest =>
          rw [hcommands] at h
          cases h
        | nil =>
          cases harrivals : l.arrivals with
          | cons a rest =>
            rw [hcommands, harrivals] at h
            cases h
          | nil => rfl

/-- Where a task waits, an execution is in flight, or the task is paused and would go on with the
input. In both cases there is something that it listens to. -/
theorem Selects.waits (h : l.Selects) (hs : l.run.Sound) :
    (l.run.inFlight ≠ [] ∨
      l.feed.status = .paused ∧ l.run.active.isSome = true ∧ l.run.halting = false) ∧
    (l.run.stopping = false ∨ l.run.inFlight ≠ []) := by
  rcases h.reason with hflight | hinput
  · exact ⟨Or.inl hflight, Or.inr hflight⟩
  · obtain ⟨hactive, hlive⟩ := Bool.and_eq_true_iff.1 hinput
    have hlive : l.run.halting = false := by simpa using hlive
    have hstatus : l.run.feed.status = .paused := (hs.status hlive).trans (if_pos hactive)
    exact ⟨Or.inr ⟨hstatus, hactive, hlive⟩, Or.inl (Bool.or_eq_false_iff.1 hlive).1⟩

end Live

namespace Desk

variable {ε : Type} {r : Run} {d : Desk ε}

/-- The actions of the run in a history of the desk. -/
def actions (d : Desk ε) : List Happening → List Action
  | [] => []
  | e :: es => (if e.isStep then d.held.action?.toList else []) ++ (d.act e).actions es

theorem actions_append (d : Desk ε) (es more : List Happening) :
    d.actions (es ++ more) = d.actions es ++ (d.acts es).actions more := by
  induction es generalizing d with
  | nil => rfl
  | cons e es ih => rw [List.cons_append, actions, actions, ih, List.append_assoc, acts_cons]

/-- A task that cannot take a step is left as it is. -/
theorem InOrder.held_act_of_step?_eq_none (h : InOrder r d)
    (hstep : d.held.step? d.service.store = none) : (d.act .step).held = d.held := by
  have hc := h.change_act .step
  generalize d.act .step = d' at hc
  cases hc with
  | step hsome => cases hstep.symm.trans hsome
  | _ => rfl

/-- A step of the task is taken, or there is none to take. -/
theorem InOrder.act_step_cases (h : InOrder r d) :
    (d.held.step? d.service.store = none ∧ (d.act .step).held = d.held) ∨
      d.held.Turn (d.act .step).held := by
  cases hstep : d.held.step? d.service.store with
  | none => exact Or.inl ⟨rfl, h.held_act_of_step?_eq_none hstep⟩
  | some next =>
    obtain ⟨l, s⟩ := next
    rw [h.tied.held_act_step hstep]
    exact Or.inr (Live.turn_of_step? hstep).1

/-- What happens between two steps reaches the task, and its run does not change. -/
theorem InOrder.act_of_ne_step (h : InOrder r d) {e : Happening} (he : e ≠ .step) :
    (d.act e).held.run = d.held.run ∧ (d.act e).held.phase = d.held.phase ∧
      d.held.arrivals <+: (d.act e).held.arrivals := by
  have hc := h.change_act e
  generalize d.act e = d' at hc
  cases hc with
  | step => exact absurd rfl he
  | release => exact absurd rfl he
  | deliver => exact ⟨rfl, rfl, List.prefix_append ..⟩
  | _ => exact ⟨rfl, rfl, List.prefix_rfl⟩

/-- One thing that happens leads the run to where its action does. -/
theorem InOrder.run_act (h : InOrder r d) (e : Happening) :
    (d.act e).held.run = d.held.run.acts (d.actions [e]) := by
  rw [actions, actions, List.append_nil]
  by_cases he : e = .step
  · subst he
    show (d.act .step).held.run = d.held.run.acts d.held.action?.toList
    rcases h.act_step_cases with ⟨hstep, hheld⟩ | hturn
    · rw [Live.action?_of_step?_eq_none hstep, hheld]
      rfl
    · rw [hturn.run_eq]
      cases d.held.action? with
      | none => rfl
      | some a => exact ((h.tracks.steady hturn.isOver_eq).act_eq a).symm
  · rw [Happening.isStep_eq_false he, if_neg Bool.false_ne_true]
    exact (h.act_of_ne_step he).1

/-- The run is where the actions lead to. -/
theorem InOrder.run_acts (h : InOrder r d) (es : List Happening) :
    (d.acts es).held.run = d.held.run.acts (d.actions es) := by
  induction es generalizing d with
  | nil => rfl
  | cons e es ih =>
    rw [← List.singleton_append, actions_append, acts_append, Run.acts_append, ← h.run_act e]
    exact ih (h.act e)

/-- Nothing brings a task to a selection at which it would only schedule again. -/
theorem InOrder.not_retries_act (h : InOrder r d)
    (hdone : d.held.phase = .selecting → ¬ d.held.Retries) (e : Happening) :
    (d.act e).held.phase = .selecting → ¬ (d.act e).held.Retries := by
  by_cases he : e = .step
  · subst he
    rcases h.act_step_cases with ⟨-, hheld⟩ | hturn
    · rw [hheld]
      exact hdone
    · exact hturn.not_retries (h.tracks.steady hturn.isOver_eq).sound
  · obtain ⟨hrun, hphase, -⟩ := h.act_of_ne_step he
    rw [hphase]
    unfold Live.Retries Live.isIdle
    rw [hrun]
    exact hdone

theorem InOrder.not_retries_acts (h : InOrder r d)
    (hdone : d.held.phase = .selecting → ¬ d.held.Retries) (es : List Happening) :
    (d.acts es).held.phase = .selecting → ¬ (d.acts es).held.Retries := by
  induction es generalizing d with
  | nil => exact hdone
  | cons e es ih => exact ih (h.act e) (h.not_retries_act hdone e)

end Desk
end Flowrun
