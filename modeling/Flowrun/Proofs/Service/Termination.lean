import Flowrun.Proofs.Service.Loop

/-!
# A task whose executions report comes to its end

An infinite history is `Fair` if the task takes a step again and again, and the report of everything
that is in flight arrives sooner or later. It may hold anything else. If no pause is raised in a fair
history, the task ends in it: until then its workload falls again and again.

* Sooner or later something is in flight, since the task would end at a selection otherwise
  (`Endless.exists_inFlight`).
* When its report has arrived, every step brings the task closer to taking it, or takes it
  (`Live.Turn.dueIn`), and no command comes in between, because the task is not paused.
* A report that is taken lowers the workload, and nothing raises it (`Endless.falls`).
-/

namespace Flowrun

namespace Live

variable {l l' : Live} {x : Execution} {k : Nat}

/-! ### Steps while there are no commands -/

/-- Without commands a step does nothing to the run, or performs an action that is no resume. -/
theorem Turn.run_cases (h : l.Turn l') (hsteady : l.run.Steady) (hcommands : l.commands = []) :
    l'.run = l.run ∨ ∃ a, l'.run = l.run.act a ∧ l.run.acceptsNested a = false := by
  cases h with
  | schedule => exact Or.inr ⟨.schedule, (hsteady.act_eq .schedule).symm, rfl⟩
  | again => exact Or.inl rfl
  | close _ _ hspent =>
    refine Or.inr ⟨.finish, ?_, rfl⟩
    rw [hsteady.act_eq]
    exact (if_pos hspent).symm
  | takeStop => exact Or.inr ⟨.stop, (hsteady.act_eq .stop).symm, rfl⟩
  | takeCommand _ heq => cases hcommands.symm.trans heq
  | @takeReport a =>
    let report : Action := .report a.serial a.report a.elapsed
    exact Or.inr ⟨report, (hsteady.act_eq report).symm, rfl⟩

theorem Turn.phase_eq (h : l.Turn l') (hphase : l.phase = .scheduling) :
    l'.phase = .selecting := by
  cases h with
  | schedule => rfl
  | again hselecting => cases hphase.symm.trans hselecting
  | close _ hselecting => cases hphase.symm.trans hselecting
  | takeStop hsel => cases hphase.symm.trans hsel.1
  | takeCommand hnext => cases hphase.symm.trans (selects_of_nextCommand? hnext).1.1
  | takeReport hsel => cases hphase.symm.trans hsel.1

/-- A task that has nothing to wait for ends, if it does not schedule again. -/
theorem Turn.isOver_of_isIdle (h : l.Turn l') (hphase : l.phase = .selecting)
    (hidle : l.isIdle = true) (hdone : ¬ l.Retries) : l'.isOver = true := by
  have hselects : ¬ l.Selects := fun hsel => by cases hsel.2.symm.trans hidle
  cases h with
  | schedule hscheduling => cases hphase.symm.trans hscheduling
  | again _ _ hready hlive => exact absurd ⟨hidle, hready, hlive⟩ hdone
  | close => rfl
  | takeStop hsel => exact absurd hsel hselects
  | takeCommand hnext => exact absurd (selects_of_nextCommand? hnext).1 hselects
  | takeReport hsel => exact absurd hsel hselects

/-- A task that has nothing to wait for does not wait. -/
theorem exists_step?_of_isIdle (hphase : l.phase = .selecting) (hidle : l.isIdle = true)
    (s : Store) : ∃ l' s', l.step? s = some (l', s') := by
  unfold step?
  rw [hphase]
  dsimp only
  rw [if_pos hidle]
  split
  · exact ⟨_, _, rfl⟩
  · exact ⟨_, _, rfl⟩

/-! ### Reports that have arrived -/

/-- The report of an execution has arrived, and at most `k` steps go by before the one that takes it:
two for each report before it, two to take a stop, and one to schedule. -/
def DueIn (l : Live) (x : Execution) (k : Nat) : Prop :=
  ∃ before a rest, l.arrivals = before ++ a :: rest ∧ a.serial = x.serial ∧
    k = 2 * before.length + (if l.run.stopping then 0 else 2) +
      if l.phase = .scheduling then 1 else 0

/-- What arrives later does not delay what is there. -/
theorem DueIn.congr (h : l.DueIn x k) (hrun : l'.run = l.run) (hphase : l'.phase = l.phase)
    (harrivals : l.arrivals <+: l'.arrivals) : l'.DueIn x k := by
  obtain ⟨before, a, rest, harr, hserial, hk⟩ := h
  obtain ⟨more, hmore⟩ := harrivals
  refine ⟨before, a, rest ++ more, ?_, hserial, ?_⟩
  · rw [← hmore, harr, List.append_assoc, List.cons_append]
  · rw [hrun, hphase]
    exact hk

/-- A report that is taken lowers the workload, and every other step brings it closer. -/
theorem Turn.dueIn (h : l.Turn l') (hsteady : l.run.Steady) (hcommands : l.commands = [])
    (hdone : l.phase = .selecting → ¬ l.Retries) (hgoes : l'.isOver = false)
    (hx : x ∈ l.run.inFlight) (hdue : l.DueIn x k) :
    l'.run.workload < l.run.workload ∨ ∃ k' < k, l'.DueIn x k' := by
  obtain ⟨before, a, rest, harr, hserial, rfl⟩ := hdue
  cases h with
  | schedule hphase =>
    refine Or.inr ⟨_, ?_, before, a, rest, harr, hserial, rfl⟩
    rw [if_pos hphase]
    show 2 * before.length + (if l.run.schedule.stopping then 0 else 2) + 0 < _
    rw [hsteady.sound.flags_schedule.2]
    exact Nat.lt_succ_self _
  | again hphase hidle hready hlive => exact absurd ⟨hidle, hready, hlive⟩ (hdone hphase)
  | close => cases hgoes
  | takeStop hsel hstop =>
    have hstopping : l.run.stopping = false := by
      simpa using (Bool.and_eq_true_iff.1 hstop).2
    refine Or.inr ⟨_, ?_, before, a, rest, harr, hserial, rfl⟩
    rw [hstopping]
    show 2 * before.length + 0 + 1 < 2 * before.length + 2 + _
    omega
  | takeCommand _ heq => cases hcommands.symm.trans heq
  | @takeReport b later hsel _ _ hfirst =>
    cases before with
    | nil =>
      left
      obtain ⟨rfl, rfl⟩ := List.cons.inj (harr.symm.trans hfirst)
      have hhandles : l.run.handles (.report a.serial a.report a.elapsed) = true := by
        refine Bool.and_eq_true_iff.2 ⟨by rw [hsteady.not_isTerminal]; rfl, ?_⟩
        exact List.any_eq_true.2 ⟨x, hx, beq_iff_eq.2 hserial.symm⟩
      have hle := hsteady.workload_act (.report a.serial a.report a.elapsed)
      rw [if_pos hhandles, hsteady.act_eq] at hle
      exact Nat.lt_of_lt_of_le (Nat.lt_add_of_pos_left Nat.zero_lt_one) hle
    | cons c before =>
      right
      obtain ⟨rfl, rfl⟩ := List.cons.inj (harr.symm.trans hfirst)
      refine ⟨_, ?_, before, a, rest, rfl, hserial, rfl⟩
      have hselecting : l.phase ≠ .scheduling := by
        rw [hsel.1]
        nofun
      have hstopping : l.run.stopping = true →
          (l.run.report c.serial c.report c.elapsed).stopping = true :=
        fun h => (Run.perform_of_stopping h (a := .report ..) nofun).1
      rw [if_neg hselecting]
      show 2 * before.length +
        (if (l.run.report c.serial c.report c.elapsed).stopping then 0 else 2) + 1 <
          2 * (before.length + 1) + (if l.run.stopping then 0 else 2) + 0
      split
      · split
        · omega
        · omega
      · next hlater =>
        rw [if_neg fun h => hlater (hstopping h)]
        omega

end Live

namespace Desk

variable {ε : Type} {r : Run} {d : Desk ε} {σ : Nat → Happening}

/-! ### Infinite histories -/

/-- How an infinite history begins. -/
def upTo (σ : Nat → Happening) (n : Nat) : List Happening := (List.range n).map σ

/-- The desk after some time of an infinite history. -/
def after (d : Desk ε) (σ : Nat → Happening) (n : Nat) : Desk ε := d.acts (upTo σ n)

theorem upTo_succ (σ : Nat → Happening) (n : Nat) : upTo σ (n + 1) = upTo σ n ++ [σ n] := by
  unfold upTo
  rw [List.range_succ, List.map_append]
  rfl

theorem after_succ (d : Desk ε) (σ : Nat → Happening) (n : Nat) :
    d.after σ (n + 1) = (d.after σ n).act (σ n) := by
  unfold after
  rw [upTo_succ, acts_concat]

/-- The task goes on, and everything that is started reports. -/
structure Fair (d : Desk ε) (σ : Nat → Happening) : Prop where
  steps : ∀ n, ∃ m, n ≤ m ∧ σ m = .step
  reports : ∀ n, ∀ x ∈ (d.after σ n).held.run.inFlight,
    ∃ m, n ≤ m ∧ ∃ a ∈ (d.after σ m).held.arrivals, a.serial = x.serial

/-! ### Calls while the task is not paused -/

/-- No call may send a command to a task that is not paused. -/
theorem Tied.held_turn (h : d.Tied) (hstatus : d.held.feed.status ≠ .paused) (i : Nat)
    (q : ResumeRequest) : (d.turn i q).held = d.held := by
  obtain ⟨e, hcheck⟩ : ∃ e, Service.checkResume d.held.feed q = .error e :=
    ⟨_, if_neg fun hwaits => hstatus hwaits.1⟩
  unfold turn Service.sendResume?
  rw [hcheck]
  split
  · rfl
  · next hsend =>
    split at hsend
    · cases hsend
    · cases hsend
  · next hsend =>
    split at hsend
    · cases hsend
    · cases hsend
      rw [h.follow_self]
      rfl

/-- So there are no commands, as long as it is not paused. -/
theorem InOrder.commands_act (h : InOrder r d) (hstatus : d.held.feed.status ≠ .paused)
    (hnone : d.held.commands = []) (e : Happening) : (d.act e).held.commands = [] := by
  have hc := h.change_act e
  cases e with
  | turn i =>
    dsimp only [Desk.act]
    split
    · rw [h.tied.held_turn hstatus]
      exact hnone
    · exact hnone
  | step =>
    rcases h.act_step_cases with ⟨-, hheld⟩ | hturn
    · rw [hheld]
      exact hnone
    · exact (hturn.answers_eq hnone).1
  | _ =>
    generalize d.act _ = d' at hc
    cases hc with
    | _ => exact hnone

/-! ### Histories without an end -/

/-- A fair history in which no pause is raised and the task never ends. There is none. -/
structure Endless (d : Desk ε) (σ : Nat → Happening) : Prop where
  fair : d.Fair σ
  inOrder : ∀ n, InOrder d.held.run (d.after σ n)
  settled : ∀ n, (d.after σ n).held.phase = .selecting → ¬ (d.after σ n).held.Retries
  unpaused : ∀ n, (d.after σ n).held.feed.status ≠ .paused
  silent : ∀ n, (d.after σ n).held.commands = []
  going : ∀ n, (d.after σ n).held.isOver = false

namespace Endless

variable (h : d.Endless σ)

include h

theorem steady (n : Nat) : (d.after σ n).held.run.Steady :=
  (h.inOrder n).tracks.steady (h.going n)

/-- Until the task takes its next step, its run stays as it is, and reports just arrive. -/
theorem next_step (n : Nat) :
    ∃ m, n ≤ m ∧ σ m = .step ∧ (d.after σ m).held.run = (d.after σ n).held.run ∧
      (d.after σ m).held.phase = (d.after σ n).held.phase ∧
      (d.after σ n).held.arrivals <+: (d.after σ m).held.arrivals := by
  obtain ⟨m, hnm, hm⟩ := h.fair.steps n
  obtain ⟨k, rfl⟩ := Nat.exists_eq_add_of_le hnm
  clear hnm
  induction k generalizing n with
  | zero => exact ⟨n, Nat.le_refl n, hm, rfl, rfl, List.prefix_rfl⟩
  | succ k ih =>
    by_cases hstep : σ n = .step
    · exact ⟨n, Nat.le_refl n, hstep, rfl, rfl, List.prefix_rfl⟩
    · obtain ⟨hrun, hphase, harrivals⟩ := (h.inOrder n).act_of_ne_step hstep
      rw [← after_succ] at hrun hphase harrivals
      rw [← Nat.add_assoc, Nat.add_right_comm] at hm
      obtain ⟨m, hnm, hm, hrun', hphase', harrivals'⟩ := ih (n + 1) hm
      exact ⟨m, Nat.le_of_succ_le hnm, hm, hrun'.trans hrun, hphase'.trans hphase,
        harrivals.trans harrivals'⟩

theorem run_succ (n : Nat) :
    (d.after σ (n + 1)).held.run = (d.after σ n).held.run ∨
      ∃ a, (d.after σ (n + 1)).held.run = (d.after σ n).held.run.act a ∧
        (d.after σ n).held.run.acceptsNested a = false := by
  rw [after_succ]
  by_cases hstep : σ n = .step
  · rw [hstep]
    rcases (h.inOrder n).act_step_cases with ⟨-, hheld⟩ | hturn
    · rw [hheld]
      exact Or.inl rfl
    · exact hturn.run_cases (h.steady n) (h.silent n)
  · exact Or.inl ((h.inOrder n).act_of_ne_step hstep).1

/-- Nothing raises the workload. -/
theorem workload_le {n m : Nat} (hnm : n ≤ m) :
    (d.after σ m).held.run.workload ≤ (d.after σ n).held.run.workload := by
  induction hnm with
  | refl => exact Nat.le_refl _
  | @step m _ ih =>
    show (d.after σ (m + 1)).held.run.workload ≤ _
    refine Nat.le_trans ?_ ih
    rcases h.run_succ m with hsame | ⟨a, hact, hnested⟩
    · rw [hsame]
    · have hle := (h.steady m).workload_act a
      rw [hnested, if_neg Bool.false_ne_true, ← hact] at hle
      omega

/-- What is in flight stays so, unless the workload falls. -/
theorem mem_inFlight {n m : Nat} (hnm : n ≤ m) {x : Execution}
    (hx : x ∈ (d.after σ n).held.run.inFlight) :
    x ∈ (d.after σ m).held.run.inFlight ∨
      (d.after σ m).held.run.workload < (d.after σ n).held.run.workload := by
  induction hnm with
  | refl => exact Or.inl hx
  | @step m hnm ih =>
    have hle := h.workload_le hnm
    rcases ih with hx | hlt
    · rcases h.run_succ m with hsame | ⟨a, hact, -⟩
      · exact Or.inl (hsame ▸ hx)
      · rw [hact]
        exact ((h.steady m).mem_inFlight_act a hx).imp_right fun hlt => Nat.lt_of_lt_of_le hlt hle
    · exact Or.inr (Nat.lt_of_le_of_lt (h.workload_le (Nat.le_succ m)) hlt)

/-- At a selection something is in flight, or the task would end. -/
theorem inFlight_ne_nil {n : Nat} (hstep : σ n = .step)
    (hphase : (d.after σ n).held.phase = .selecting) :
    (d.after σ n).held.run.inFlight ≠ [] := by
  have hbusy : (d.after σ n).held.isIdle = false := by
    apply Bool.eq_false_iff.2
    intro hidle
    obtain ⟨l, s, hl⟩ := Live.exists_step?_of_isIdle hphase hidle (d.after σ n).service.store
    have hover := (Live.turn_of_step? hl).1.isOver_of_isIdle hphase hidle (h.settled n hphase)
    rw [← (h.inOrder n).tied.held_act_step hl, ← hstep, ← after_succ] at hover
    cases hover.symm.trans (h.going (n + 1))
  obtain ⟨hflight | ⟨hpaused, -⟩, -⟩ :=
    Live.Selects.waits ⟨hphase, hbusy⟩ (h.steady n).sound
  · exact hflight
  · exact absurd hpaused (h.unpaused n)

/-- Sooner or later something is in flight. -/
theorem exists_inFlight (n : Nat) :
    ∃ m, n ≤ m ∧ (d.after σ m).held.run.inFlight ≠ [] := by
  obtain ⟨m, hnm, hm, -⟩ := h.next_step n
  cases hphase : (d.after σ m).held.phase with
  | selecting => exact ⟨m, hnm, h.inFlight_ne_nil hm hphase⟩
  | closing saved =>
    have hgoes := h.going m
    unfold Live.isOver at hgoes
    rw [hphase] at hgoes
    cases hgoes
  | scheduling =>
    -- the step after this one is at a selection
    have hselecting : (d.after σ (m + 1)).held.phase = .selecting := by
      rw [after_succ, hm]
      rcases (h.inOrder m).act_step_cases with ⟨hnone, -⟩ | hturn
      · unfold Live.step? at hnone
        rw [hphase] at hnone
        cases hnone
      · exact hturn.phase_eq hphase
    obtain ⟨m', hmm', hm', -, hphase', -⟩ := h.next_step (m + 1)
    exact ⟨m', by omega, h.inFlight_ne_nil hm' (hphase'.trans hselecting)⟩

/-- A report that has arrived is taken, so the workload falls. -/
theorem falls_of_dueIn {n k : Nat} {x : Execution} (hx : x ∈ (d.after σ n).held.run.inFlight)
    (hdue : (d.after σ n).held.DueIn x k) :
    ∃ m, n ≤ m ∧ (d.after σ m).held.run.workload < (d.after σ n).held.run.workload := by
  induction k using Nat.strongRecOn generalizing n with
  | ind k ih =>
    obtain ⟨m, hnm, hm, hrun, hphase, harrivals⟩ := h.next_step n
    have hdue := hdue.congr hrun hphase harrivals
    rw [← hrun] at hx ⊢
    have harrived : (d.after σ m).held.arrivals ≠ [] := by
      obtain ⟨before, a, rest, harr, -⟩ := hdue
      rw [harr]
      simp
    obtain ⟨l, s, hl⟩ := Live.exists_step? (h.going m) (Or.inr harrived) (d.after σ m).service.store
    have hheld : (d.after σ (m + 1)).held = l := by
      rw [after_succ, hm]
      exact (h.inOrder m).tied.held_act_step hl
    have hgoes := h.going (m + 1)
    rw [hheld] at hgoes
    rcases (Live.turn_of_step? hl).1.dueIn (h.steady m) (h.silent m) (h.settled m) hgoes hx hdue
      with hlt | ⟨k', hk', hdue'⟩
    · exact ⟨m + 1, by omega, hheld ▸ hlt⟩
    · rcases h.mem_inFlight (Nat.le_succ m) hx with hx' | hlt
      · obtain ⟨m', hmm', hlt⟩ := ih k' hk' hx' (hheld ▸ hdue')
        exact ⟨m', by omega, Nat.lt_of_lt_of_le hlt (h.workload_le (Nat.le_succ m))⟩
      · exact ⟨m + 1, by omega, hlt⟩

/-- The workload falls again and again. -/
theorem falls (n : Nat) :
    ∃ m, (d.after σ m).held.run.workload < (d.after σ n).held.run.workload := by
  obtain ⟨m₁, h₁, hflight⟩ := h.exists_inFlight n
  obtain ⟨x, hx⟩ := List.exists_mem_of_ne_nil _ hflight
  obtain ⟨m₂, h₂, a, ha, hserial⟩ := h.fair.reports m₁ x hx
  have hle := h.workload_le h₁
  rcases h.mem_inFlight h₂ hx with hx₂ | hlt
  · obtain ⟨before, rest, harr⟩ := List.append_of_mem ha
    obtain ⟨m₃, -, hlt⟩ := h.falls_of_dueIn hx₂ ⟨before, a, rest, harr, hserial, rfl⟩
    have hle' := h.workload_le h₂
    exact ⟨m₃, by omega⟩
  · exact ⟨m₂, by omega⟩

/-- A number cannot fall forever. -/
theorem elim : False := by
  suffices ∀ k n, (d.after σ n).held.run.workload ≤ k → False from this _ 0 (Nat.le_refl _)
  intro k
  induction k with
  | zero =>
    intro n hn
    obtain ⟨m, hlt⟩ := h.falls n
    omega
  | succ k ih =>
    intro n hn
    obtain ⟨m, hlt⟩ := h.falls n
    exact ih m (by omega)

end Endless

end Desk

/-! ### A task that ends -/

namespace Sample

/-- The small task up to its last report, after which it just goes on. -/
def goingOn (n : Nat) : Happening := reported[n]?.getD .step

/-- When the report of each execution of the small task has arrived. -/
def arrival (serial : Nat) : Nat := [3, 5, 8, 11].getD serial 0

theorem goingOn_of_le {n : Nat} (h : 12 ≤ n) : goingOn n = .step := by
  unfold goingOn
  rw [List.getElem?_eq_none h]
  rfl

/-- After its release the small task stays as it is. -/
theorem after_goingOn {n : Nat} (h : 15 ≤ n) :
    desk.after goingOn n = desk.after goingOn 15 ∧
      desk.actions (Desk.upTo goingOn n) = desk.actions (Desk.upTo goingOn 15) := by
  have hgone : (desk.after goingOn 15).service.stepTask? "id-0" = none := by cbv
  have htask : (desk.after goingOn 15).task = "id-0" := by cbv
  have hnone : (desk.after goingOn 15).held.action? = none := by cbv
  have hstays : (desk.after goingOn 15).act .step = desk.after goingOn 15 := by
    unfold Desk.act
    rw [htask, hgone]
  induction h with
  | refl => exact ⟨rfl, rfl⟩
  | @step m hm ih =>
    obtain ⟨hafter, hactions⟩ := ih
    have hstep : goingOn m = .step := goingOn_of_le (Nat.le_trans (by decide) hm)
    have hsame : desk.acts (Desk.upTo goingOn m) = desk.after goingOn 15 := hafter
    refine ⟨?_, ?_⟩
    · rw [Desk.after_succ, hafter, hstep, hstays]
    · rw [Desk.upTo_succ, Desk.actions_append, hactions, hsame, hstep, Desk.actions, hnone]
      exact List.append_nil _

/-- In the history of the small task everything reports. -/
theorem fair : desk.Fair goingOn where
  steps n := ⟨n + 12, Nat.le_add_right n 12, goingOn_of_le (Nat.le_add_left 12 n)⟩
  reports n x hx := by
    have hover : (desk.after goingOn 15).held.run.inFlight = [] := by cbv
    have harrived : ((List.range 15).all fun n =>
        (desk.after goingOn n).held.run.inFlight.all fun x => decide (n ≤ arrival x.serial) &&
          (desk.after goingOn (arrival x.serial)).held.arrivals.any (·.serial == x.serial)) =
        true := by cbv
    rcases Nat.lt_or_ge n 15 with hlt | hge
    · have hx := List.all_eq_true.1 (List.all_eq_true.1 harrived n (List.mem_range.2 hlt)) x hx
      obtain ⟨hle, hany⟩ := Bool.and_eq_true_iff.1 hx
      obtain ⟨a, ha, hserial⟩ := List.any_eq_true.1 hany
      exact ⟨_, of_decide_eq_true hle, a, ha, beq_iff_eq.1 hserial⟩
    · rw [(after_goingOn hge).1, hover] at hx
      cases hx

/-- No pause is raised in it. -/
theorem raised_goingOn (n : Nat) :
    desk.held.run.raised (desk.actions (Desk.upTo goingOn n)) = [] := by
  have hnone : ((List.range 16).all fun n =>
      (desk.held.run.raised (desk.actions (Desk.upTo goingOn n))).isEmpty) = true := by cbv
  rcases Nat.lt_or_ge n 15 with hlt | hge
  · exact List.isEmpty_iff.1 (List.all_eq_true.1 hnone n (List.mem_range.2 (Nat.lt_succ_of_lt hlt)))
  · rw [(after_goingOn hge).2]
    exact List.isEmpty_iff.1 (List.all_eq_true.1 hnone 15 (List.mem_range.2 (by decide)))

end Sample

/-! ### The theorem -/

namespace Desk

variable {ε : Type} {d : Desk ε}

/-- In every history of a task: where the task selects what to take, an execution is in flight, or
the task is paused, a pause is shown and the run does not halt; in both cases the stop signal or the
reports are listened to. It never comes to a selection at which it would only schedule again. The
reports that it handles are at most as many as the graph has nodes, and one more for each accepted
resume of a node inside a container. And in every fair history in which no pause is raised, the task
ends. -/
theorem progresses_and_ends {s : Service ε} {p : TaskPlan} {conversation request : String}
    (h : d.Opened s p conversation request) :
    (∀ es : List Happening,
      ((d.acts es).held.Selects →
        ((d.acts es).held.run.inFlight ≠ [] ∨
          (d.acts es).held.feed.status = .paused ∧ (d.acts es).held.run.active.isSome = true ∧
            (d.acts es).held.run.halting = false) ∧
        ((d.acts es).held.run.stopping = false ∨ (d.acts es).held.run.inFlight ≠ [])) ∧
      ((d.acts es).held.phase = .selecting → ¬ (d.acts es).held.Retries) ∧
      (d.acts es).held.run = d.held.run.acts (d.actions es) ∧
      d.held.run.handled (d.actions es) ≤
        p.graph.nodes.length + d.held.run.nestedResumes (d.actions es)) ∧
    ∀ σ : Nat → Happening, d.Fair σ →
      (∀ n, d.held.run.raised (d.actions (upTo σ n)) = []) →
      ∃ n, (d.after σ n).held.isOver = true ∧ (d.after σ n).held.feed.isTerminal = true := by
  obtain ⟨ho, hlaunched⟩ := h.inOrder
  obtain ⟨run, hheld, -⟩ := h.exists_run
  have hsettled : ∀ es : List Happening,
      (d.acts es).held.phase = .selecting → ¬ (d.acts es).held.Retries := by
    refine ho.not_retries_acts ?_
    rw [hheld]
    nofun
  refine ⟨fun es => ⟨fun hsel => ?_, hsettled es, ho.run_acts es, ?_⟩, fun σ hfair hraised => ?_⟩
  · have hlive := Live.isOver_of_phase hsel.1 nofun
    exact hsel.waits ((ho.acts es).tracks.steady hlive).sound
  · have hle := hlaunched.steady.handled_add_workload_le (d.actions es)
    have hstart := hlaunched.workload_le
    omega
  · by_contra hnever
    have hgoing : ∀ n, (d.after σ n).held.isOver = false := by
      intro n
      apply Bool.eq_false_iff.2
      intro hover
      exact hnever ⟨n, hover, (ho.acts (upTo σ n)).ended hover⟩
    have hunpaused : ∀ n, (d.after σ n).held.feed.status ≠ .paused := by
      intro n
      unfold after Live.feed
      rw [ho.run_acts]
      exact hlaunched.status_ne_paused (hraised n)
    have hsilent : ∀ n, (d.after σ n).held.commands = [] := by
      intro n
      induction n with
      | zero =>
        show d.held.commands = []
        rw [hheld]
      | succ n ih =>
        rw [after_succ]
        exact (ho.acts (upTo σ n)).commands_act (hunpaused n) ih (σ n)
    have hendless : d.Endless σ :=
      { fair := hfair
        inOrder := fun n => ho.acts (upTo σ n)
        settled := fun n => hsettled (upTo σ n)
        unpaused := hunpaused
        silent := hsilent
        going := hgoing }
    exact hendless.elim

/-- The small task ends when all that is started reports. -/
theorem progresses_and_ends_reported :
    Sample.desk.Opened Sample.service Sample.plan "conversation" "id-1" ∧
      Sample.desk.Fair Sample.goingOn ∧
      (∀ n, Sample.desk.held.run.raised (Sample.desk.actions (upTo Sample.goingOn n)) = []) ∧
      ∃ n, (Sample.desk.after Sample.goingOn n).held.isOver = true ∧
        (Sample.desk.after Sample.goingOn n).held.feed.isTerminal = true :=
  ⟨Sample.opened, Sample.fair, Sample.raised_goingOn,
    (progresses_and_ends Sample.opened).2 Sample.goingOn Sample.fair Sample.raised_goingOn⟩

end Desk

end Flowrun
