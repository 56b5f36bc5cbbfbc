import Flowrun.Proofs.Run.Ends
import Flowrun.Proofs.Service.Order

/-!
# What comes of a stop

A stop is only a signal, and its caller is not told when the task takes it up. Whether it is
honoured depends on the run at that moment: a failure that was recorded before goes first, and a run
that has nothing left to wait for ends before the signal is looked at. In every other case the task
ends as stopped, whatever else happens.

The proof says of a live task how it will end (`Live.EndsAs`), which nothing that happens changes.
-/

namespace Flowrun

namespace Live

variable {r : Run} {l l' : Live} {t : TaskStatus}

/-- The status with which a task has ended, or will end whatever happens. -/
inductive EndsAs (l : Live) : TaskStatus → Prop
  | ended {t : TaskStatus} : l.isOver = true → l.feed.status = t → EndsAs l t
  | failed : l.isOver = false → l.run.failure.isSome = true → EndsAs l .fail
  | stopped : l.isOver = false → l.run.failure = none → l.run.stopping = true → EndsAs l .stop
  /-- The signal is looked at before anything else is taken, and before the run is spent. -/
  | stops : l.isOver = false → l.run.failure = none → l.run.stopping = false →
      l.signal.raised = true → l.run.isSpent = false → EndsAs l .stop
  /-- The run ends before anything else is taken. -/
  | spent : l.isOver = false → l.run.halting = false → l.run.isSpent = true → EndsAs l .success

/-- How the run goes on in a step, and what it ends with. -/
theorem Tracks.step?_cases (h : l.Tracks r) {s s' : Store} (hstep : l.step? s = some (l', s')) :
    (l'.isOver = false ∧ (l'.run = l.run ∨ ∃ a, a ≠ .finish ∧ l'.run = l.run.perform a)) ∨
      l'.isOver = true ∧ l.run.isSpent = true ∧ l'.feed.status = l.run.finalStatus := by
  obtain ⟨hlive, hcases⟩ := step?_run hstep
  rcases hcases with ⟨hgoes, hrun⟩ | ⟨hgoes, ha⟩ | ⟨hover, hspent, hrun⟩
  · exact Or.inl ⟨hgoes, Or.inl hrun⟩
  · exact Or.inl ⟨hgoes, Or.inr ha⟩
  · refine Or.inr ⟨hover, hspent, ?_⟩
    unfold feed
    rw [hrun]
    exact (h.steady hlive).status_finish hspent

/-- A run that waits for something, or could start something, goes on to take the stop. -/
theorem EndsAs.step_of_stops (hsteady : l.run.Steady) (hfailure : l.run.failure = none)
    (hstopping : l.run.stopping = false) (hraised : l.signal.raised = true)
    (hspent : l.run.isSpent = false) (ht : l.Turn l') : l'.EndsAs .stop := by
  have hwaits : l.stopWaits = true := Bool.and_eq_true_iff.2 ⟨hraised, by rw [hstopping]; rfl⟩
  have hlive : l.run.halting = false :=
    Bool.or_eq_false_iff.2 ⟨hstopping, by rw [hfailure]; rfl⟩
  cases ht with
  | schedule =>
    obtain ⟨hf, hs⟩ := hsteady.sound.flags_schedule
    refine .stops rfl (hf.trans hfailure) (hs.trans hstopping) hraised ?_
    apply Bool.eq_false_iff.2
    intro hafter
    cases (hsteady.sound.isSpent_of_schedule hlive hafter).symm.trans hspent
  | again => exact .stops rfl hfailure hstopping hraised hspent
  | close _ _ hnow => cases hnow.symm.trans hspent
  | takeStop => exact .stopped rfl hfailure rfl
  | takeCommand hnext => cases (selects_of_nextCommand? hnext).2.symm.trans hwaits
  | takeReport _ hno => cases hno.symm.trans hwaits

/-- A run that is spent ends next. -/
theorem EndsAs.step_of_spent (hsteady : l.run.Steady) (hlive : l.run.halting = false)
    (hspent : l.run.isSpent = true) (ht : l.Turn l') : l'.EndsAs .success := by
  obtain ⟨hflight, hinput, hready⟩ := Run.isSpent_iff.1 hspent
  have hready := hready.resolve_right (by rw [hlive]; nofun)
  have hidle : l.isIdle = true := by
    unfold isIdle
    rw [hflight, hinput]
    rfl
  have hselects : ¬ l.Selects := fun hsel => by cases hsel.2.symm.trans hidle
  cases ht with
  | schedule =>
    rw [Run.schedule_of_ready_eq_nil hready]
    exact .spent rfl hlive hspent
  | again _ _ hmore => exact absurd hready hmore
  | close _ _ hnow =>
    refine .ended rfl ((hsteady.status_finish hnow).trans ?_)
    obtain ⟨hstopping, hfailure⟩ := Bool.or_eq_false_iff.1 hlive
    unfold Run.finalStatus
    rw [hfailure, hstopping]
    rfl
  | takeStop hsel => exact absurd hsel hselects
  | takeCommand hnext => exact absurd (selects_of_nextCommand? hnext).1 hselects
  | takeReport hsel => exact absurd hsel hselects

/-- A step changes nothing about how the task ends. -/
theorem EndsAs.step (h : l.EndsAs t) (htracks : l.Tracks r) {s s' : Store}
    (hstep : l.step? s = some (l', s')) : l'.EndsAs t := by
  have hturn := (turn_of_step? hstep).1
  have hsteady := htracks.steady hturn.isOver_eq
  cases h with
  | ended hover => cases hover.symm.trans hturn.isOver_eq
  | failed _ hfailure =>
    rcases htracks.step?_cases hstep with ⟨hgoes, hsame | ⟨a, ha, hrun⟩⟩ | ⟨hover, -, hstatus⟩
    · exact .failed hgoes (hsame ▸ hfailure)
    · exact .failed hgoes (hrun ▸ hsteady.failure_perform ha hfailure)
    · refine .ended hover (hstatus.trans ?_)
      rw [Run.finalStatus, if_pos hfailure]
  | stopped _ hfailure hstopping =>
    rcases htracks.step?_cases hstep with ⟨hgoes, hsame | ⟨a, ha, hrun⟩⟩ | ⟨hover, -, hstatus⟩
    · exact .stopped hgoes (hsame ▸ hfailure) (hsame ▸ hstopping)
    · obtain ⟨hs, hf⟩ := Run.perform_of_stopping hstopping ha
      exact .stopped hgoes (hrun ▸ hf.trans hfailure) (hrun ▸ hs)
    · refine .ended hover (hstatus.trans ?_)
      rw [Run.finalStatus, hfailure, Option.isSome_none, if_neg Bool.false_ne_true,
        if_pos hstopping]
  | stops _ hfailure hstopping hraised hspent =>
    exact .step_of_stops hsteady hfailure hstopping hraised hspent hturn
  | spent _ hlive hspent => exact .step_of_spent hsteady hlive hspent hturn

/-- What does not touch the run and takes no signal back changes nothing either. -/
theorem EndsAs.of_run_eq (h : l.EndsAs t) (hrun : l'.run = l.run) (hphase : l'.phase = l.phase)
    (hraised : l.signal.raised = true → l'.signal.raised = true) : l'.EndsAs t := by
  have hover : l'.isOver = l.isOver := by
    unfold isOver
    rw [hphase]
  cases h with
  | ended ho hs => exact .ended (hover.trans ho) ((congrArg (·.feed.status) hrun).trans hs)
  | failed ho hf => exact .failed (hover.trans ho) (hrun ▸ hf)
  | stopped ho hf hs => exact .stopped (hover.trans ho) (hrun ▸ hf) (hrun ▸ hs)
  | stops ho hf hs hr hn =>
    exact .stops (hover.trans ho) (hrun ▸ hf) (hrun ▸ hs) (hraised hr) (hrun ▸ hn)
  | spent ho hl hn => exact .spent (hover.trans ho) (hrun ▸ hl) (hrun ▸ hn)

/-- Nothing that happens changes how a task ends. -/
theorem EndsAs.happens (h : l.EndsAs t) (htracks : l.Tracks r) (hh : l.Happens l') :
    l'.EndsAs t := by
  cases hh with
  | step hstep => exact h.step htracks hstep
  | raiseStop => exact h.of_run_eq rfl rfl fun _ => rfl
  | send => exact h.of_run_eq rfl rfl id
  | deliver => exact h.of_run_eq rfl rfl id
  | collect => exact h.of_run_eq rfl rfl id

/-- How a task ends that is asked to stop. -/
theorem endsAs_raiseStop (hlive : l.isOver = false) :
    l.raiseStop.EndsAs (if l.run.failure.isSome then .fail
      else if l.run.stopping = true ∨ l.run.isSpent = false then .stop else .success) := by
  split
  · next hfailure => exact .failed hlive hfailure
  · next hfailure =>
    have hnone : l.run.failure = none := by simpa using hfailure
    cases hstopping : l.run.stopping with
    | true =>
      rw [if_pos (Or.inl rfl)]
      exact .stopped hlive hnone hstopping
    | false =>
      cases hspent : l.run.isSpent with
      | false =>
        rw [if_pos (Or.inr rfl)]
        exact .stops hlive hnone hstopping rfl hspent
      | true =>
        rw [if_neg (by simp)]
        refine .spent hlive (Bool.or_eq_false_iff.2 ⟨hstopping, ?_⟩) hspent
        exact Bool.eq_false_iff.2 hfailure

end Live

namespace Desk

variable {ε : Type} {d : Desk ε} {r : Run}

theorem InOrder.endsAs_acts (ho : InOrder r d) {t : TaskStatus} (h : d.held.EndsAs t)
    (es : List Happening) : (d.acts es).held.EndsAs t := by
  induction es generalizing d with
  | nil => exact h
  | cons e es ih =>
    refine ih (ho.act e) ?_
    rcases (ho.change_act e).held with hsame | hhappens
    · rw [hsame]
      exact h
    · exact h.happens ho.tracks hhappens

/-- A stop is acknowledged for a task that has not ended, and raises its signal. -/
theorem InOrder.of_stop_eq_ok (ho : InOrder r d) (hack : (d.service.stop d.task).1 = .ok ()) :
    d.held.isOver = false ∧ (d.act .stop).held = d.held.raiseStop := by
  unfold Desk.act
  unfold Service.stop at hack ⊢
  rcases ho.tied.live with hlive | ⟨hnone, -⟩
  · rw [hlive] at hack ⊢
    dsimp only at hack ⊢
    split at hack
    · cases hack
    · next hrunning =>
      refine ⟨Bool.eq_false_iff.2 fun hover => hrunning (ho.ended hover), ?_⟩
      rw [if_neg hrunning, follow_of_live? (live?_putLive ..)]
  · rw [hnone] at hack
    dsimp only at hack
    split at hack
    · cases hack
    · split at hack
      · cases hack
      · cases hack
    · cases hack

/-- The status with which a task has ended that was asked to stop. -/
theorem status_acts_stop {s : Service ε} {p : TaskPlan} {conversation request : String}
    (h : d.Opened s p conversation request) (before after : List Happening)
    (hack : ((d.acts before).service.stop d.task).1 = .ok ())
    (hend : (d.acts (before ++ .stop :: after)).held.feed.isTerminal = true) :
    (d.acts (before ++ .stop :: after)).held.feed.status =
      if (d.acts before).held.run.failure.isSome then .fail
      else if (d.acts before).held.run.stopping = true ∨ (d.acts before).held.run.isSpent = false
        then .stop
      else .success := by
  have hstart := h.inOrder.1
  have ho := hstart.acts before
  rw [← hstart.task_acts before] at hack
  obtain ⟨hlive, hheld⟩ := ho.of_stop_eq_ok hack
  have hends := Live.endsAs_raiseStop hlive
  rw [← hheld] at hends
  have hafter := (ho.act .stop).endsAs_acts hends after
  have hin := (ho.act .stop).acts after
  rw [acts_append, acts_cons] at hend ⊢
  -- a task that has ended is over
  have hover : (((d.acts before).act .stop).acts after).held.isOver = true := by
    by_contra hgoes
    have hsteady := hin.tracks.steady (Bool.eq_false_iff.2 hgoes)
    cases hsteady.not_isTerminal.symm.trans hend
  generalize (if (d.acts before).held.run.failure.isSome then TaskStatus.fail else _) = t
    at hafter ⊢
  cases hafter with
  | ended _ hstatus => exact hstatus
  | failed hgoes => cases hgoes.symm.trans hover
  | stopped hgoes => cases hgoes.symm.trans hover
  | stops hgoes => cases hgoes.symm.trans hover
  | spent hgoes => cases hgoes.symm.trans hover

/-- A stop that was acknowledged is honoured exactly if no failure was recorded before it, and the
run either stopped already or still had something to wait for or to start. -/
theorem status_eq_stop_iff {s : Service ε} {p : TaskPlan} {conversation request : String}
    (h : d.Opened s p conversation request) (before after : List Happening)
    (hack : ((d.acts before).service.stop d.task).1 = .ok ())
    (hend : (d.acts (before ++ .stop :: after)).held.feed.isTerminal = true) :
    ((d.acts (before ++ .stop :: after)).held.feed.status = .stop ↔
        (d.acts before).held.run.failure = none ∧
          ((d.acts before).held.run.stopping = true ∨
            (d.acts before).held.run.isSpent = false)) ∧
      ((d.acts (before ++ .stop :: after)).held.feed.status ≠ .stop →
        (d.acts (before ++ .stop :: after)).held.feed.status =
          if (d.acts before).held.run.failure.isSome then .fail else .success) := by
  rw [status_acts_stop h before after hack hend]
  cases hfailure : (d.acts before).held.run.failure with
  | some text =>
    refine ⟨iff_of_false nofun nofun, fun _ => rfl⟩
  | none =>
    rw [Option.isSome_none, if_neg Bool.false_ne_true, if_neg Bool.false_ne_true]
    split
    · next hgoes => exact ⟨iff_of_true rfl ⟨rfl, hgoes⟩, fun hne => absurd rfl hne⟩
    · next hgoes => exact ⟨iff_of_false nofun fun hand => hgoes hand.2, fun _ => rfl⟩

/-- A stop that comes after the last report is acknowledged, and the small task still succeeds. -/
theorem status_eq_stop_iff_late :
    let late : List Happening := Sample.reported ++ .stop :: [.step, .step]
    Sample.desk.Opened Sample.service Sample.plan "conversation" "id-1" ∧
      ((Sample.desk.acts Sample.reported).service.stop "id-0").1 = .ok () ∧
      (Sample.desk.acts late).held.feed.isTerminal = true ∧
      (Sample.desk.acts late).held.feed.status = .success := by
  intro late
  have hack : ((Sample.desk.acts Sample.reported).service.stop "id-0").1 = .ok () := by cbv
  have hend : (Sample.desk.acts late).held.feed.isTerminal = true := by cbv
  have hspent : (Sample.desk.acts Sample.reported).held.run.isSpent = true := by cbv
  have hstopping : (Sample.desk.acts Sample.reported).held.run.stopping = false := by cbv
  have hfailure : (Sample.desk.acts Sample.reported).held.run.failure.isSome = false := by cbv
  obtain ⟨hiff, hother⟩ := status_eq_stop_iff Sample.opened Sample.reported [.step, .step] hack hend
  refine ⟨Sample.opened, hack, hend, (hother fun hstop => ?_).trans ?_⟩
  · obtain ⟨-, hstops | hwaits⟩ := hiff.1 hstop
    · cases hstopping.symm.trans hstops
    · cases hspent.symm.trans hwaits
  · rw [hfailure]
    rfl

/-- A stop that was acknowledged is not always honoured. The script has failed while the container
still runs; a stop that comes then is acknowledged, and the task fails. -/
theorem not_forall_status_eq_stop :
    ¬ ∀ (d : Desk Builtin) (s : Service Builtin) (p : TaskPlan) (conversation request : String),
      d.Opened s p conversation request → ∀ before after : List Happening,
        ((d.acts before).service.stop d.task).1 = .ok () →
          (d.acts (before ++ .stop :: after)).held.feed.isTerminal = true →
            (d.acts (before ++ .stop :: after)).held.feed.status = .stop := by
  intro hstop
  let before : List Happening :=
    [.step, .deliver ⟨1, .error (.execution "no rows"), 0⟩, .step, .step]
  let after : List Happening :=
    [.step, .step, .deliver ⟨0, Sample.succeeded [], 0⟩, .step, .step, .step]
  have hfail : (Sample.desk.acts (before ++ .stop :: after)).held.feed.status = .fail := by cbv
  have hack : ((Sample.desk.acts before).service.stop "id-0").1 = .ok () := by cbv
  have hend : (Sample.desk.acts (before ++ .stop :: after)).held.feed.isTerminal = true := by
    rw [Feed.isTerminal, hfail]
    rfl
  cases hfail.symm.trans (hstop _ _ _ _ _ Sample.opened before after hack hend)

end Desk
end Flowrun
