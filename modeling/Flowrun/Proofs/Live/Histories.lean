import Flowrun.Live
import Flowrun.Proofs.Run.Steady
import Flowrun.Service.Start

/-!
# Live tasks follow histories

Whatever a live task does in a step is an action of its run, or nothing, and what reaches it from
outside waits until a step takes it. So at any time its run is where some history leads to:

    l.run = r.acts as

A task that was launched starts out with a launched run. Together this means that what holds in
every history of a launched run holds of every live task at any time.
-/

namespace Flowrun.Live

variable {l l' : Live}

/-! ### Steps -/

/-- Whatever is taken is taken by an action, after which the run goes on. -/
theorem select?_run {s s' : Store} (h : l.select? s = some (l', s')) :
    l'.isOver = false ∧ ∃ a, a ≠ .finish ∧ l'.run = l.run.perform a := by
  unfold select? at h
  split at h
  · cases h
    exact ⟨rfl, .stop, nofun, rfl⟩
  · split at h
    · next c _ _ =>
      cases h
      exact ⟨rfl, .resume c.target c.inputs, nofun, rfl⟩
    · next a _ _ _ =>
      cases h
      exact ⟨rfl, .report a.serial a.report a.elapsed, nofun, rfl⟩
    · cases h

/-- A step leaves the run alone, performs an action after which the run goes on, or ends a run that
is spent. -/
theorem step?_run {s s' : Store} (h : l.step? s = some (l', s')) :
    l.isOver = false ∧
      ((l'.isOver = false ∧ l'.run = l.run) ∨
        (l'.isOver = false ∧ ∃ a, a ≠ .finish ∧ l'.run = l.run.perform a) ∨
        (l'.isOver = true ∧ l.run.isSpent = true ∧ l'.run = l.run.finish)) := by
  unfold step? at h
  split at h
  · cases h
  · next hphase =>
    refine ⟨by rw [isOver, hphase], Or.inr (Or.inl ?_)⟩
    have hl : l' = { l with run := l.run.schedule, phase := .selecting } := by
      unfold schedule save at h
      split at h
      · cases h
        rfl
      · cases h
        rfl
    subst hl
    exact ⟨rfl, .schedule, nofun, rfl⟩
  · next hphase =>
    refine ⟨by rw [isOver, hphase], ?_⟩
    split at h
    · next hidle =>
      split at h
      · next hready =>
        cases h
        refine Or.inr (Or.inr ⟨rfl, ?_, rfl⟩)
        have hready : (l.run.ready.isEmpty || l.run.halting) = true := by
          rw [Bool.or_eq_true, List.isEmpty_iff]
          exact hready
        exact Bool.and_eq_true_iff.2 ⟨hidle, hready⟩
      · cases h
        exact Or.inl ⟨rfl, rfl⟩
    · exact Or.inr (Or.inl (select?_run h))

/-! ### Whole lives -/

/-- One thing that happens to a live task: it takes a step, or something reaches it. -/
inductive Happens (l : Live) : Live → Prop
  | step {l' : Live} {s s' : Store} : l.step? s = some (l', s') → Happens l l'
  | raiseStop : Happens l l.raiseStop
  | send (c : ResumeCommand) : Happens l (l.send c)
  | deliver (a : Arrival) : Happens l (l.deliver a)
  | collect (ticket : Nat) : Happens l (l.collect ticket)

/-- The run of a live task is where a history leads to, and can go on unless the task is over. -/
structure Tracks (r : Run) (l : Live) : Prop where
  steady : l.isOver = false → l.run.Steady
  reached : ∃ as, l.run = r.acts as

theorem Tracks.of_run_eq {r : Run} (h : Tracks r l) (hphase : l'.phase = l.phase)
    (hrun : l'.run = l.run) : Tracks r l' where
  steady hover := by
    unfold isOver at hover
    rw [hphase] at hover
    exact hrun ▸ h.steady hover
  reached := hrun ▸ h.reached

theorem Tracks.happens {r : Run} (h : Tracks r l) (hh : Happens l l') : Tracks r l' := by
  cases hh with
  | raiseStop => exact h.of_run_eq rfl rfl
  | send => exact h.of_run_eq rfl rfl
  | deliver => exact h.of_run_eq rfl rfl
  | collect => exact h.of_run_eq rfl rfl
  | step hstep =>
    obtain ⟨hlive, hcases⟩ := step?_run hstep
    have hsteady := h.steady hlive
    obtain ⟨as, has⟩ := h.reached
    -- one more action at the end of the history
    have next : ∀ a, l'.run = l.run.perform a → l'.run = r.acts (as ++ [a]) := by
      intro a hrun
      rw [hrun, Run.acts_append, ← has, ← hsteady.act_eq]
      rfl
    rcases hcases with ⟨-, hrun⟩ | ⟨-, a, ha, hrun⟩ | ⟨hover, hspent, hrun⟩
    · exact ⟨fun _ => hrun ▸ hsteady, as, hrun.trans has⟩
    · refine ⟨fun _ => ?_, as ++ [a], next a hrun⟩
      rw [hrun]
      exact (hsteady.moves_perform ha (World.any_admitsAll l.run [a]).1).2
    · refine ⟨fun hlive => ?_, as ++ [.finish], next .finish (hrun.trans (if_pos hspent).symm)⟩
      rw [hover] at hlive
      cases hlive

/-- At any time the run of a live task is where a history leads to. -/
theorem exists_acts {r : Run} (h : r.Steady) (hrun : l.run = r)
    (hm : Relation.ReflTransGen Happens l l') : ∃ as, l'.run = r.acts as := by
  have htracks : Tracks r l' := by
    induction hm with
    | refl => exact ⟨fun _ => hrun ▸ h, [], hrun⟩
    | tail _ hh ih => exact ih.happens hh
  exact htracks.reached

end Flowrun.Live

namespace Flowrun.Service

/-- The graph of a part that is run was made by edits. -/
theorem built_of_planPart {ε : Type} {s : Service ε} {q : PartRequest} {p : TaskPlan}
    (h : s.planPart q = .ok p) : p.graph.Built := by
  unfold planPart at h
  cases hg : Graph.ofSelection q.nodes q.edges (s.partGlobals q.app) with
  | error e =>
    rw [hg] at h
    cases h
  | ok g =>
    cases hseed : g.seed q.params with
    | error e =>
      simp only [hg, bind, Except.bind, hseed] at h
      cases h
    | ok seed =>
      simp only [hg, bind, Except.bind, hseed] at h
      cases h
      exact Graph.built_ofSelection hg

/-- A task that was launched is alive, and its run is at its beginning. -/
theorem exists_launched {ε : Type} {s s' : Service ε} {p : TaskPlan}
    {conversation task request : String} (hg : p.graph.Built)
    (h : s.launch p conversation = (.ok (task, request), s')) :
    ∃ l, s'.live? task = some l ∧ l.phase = .scheduling ∧
      Run.Launched p.graph s.config.concurrency p.seed.inputs p.seed.pool l.run := by
  unfold launch at h
  dsimp only [drawId] at h
  split at h
  · cases h
  · next run hbegin =>
    cases h
    exact ⟨_, Dict.at?_put_self .., rfl, hg, _, _, run, rfl, rfl, hbegin, rfl⟩

end Flowrun.Service
