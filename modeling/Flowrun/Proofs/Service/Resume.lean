import Flowrun.Proofs.Service.Progress
import Flowrun.Proofs.Store

/-!
# What a call to resume may return

While the store works, it has the latest snapshot of the task after everything that happens
(`Kept`), so a task that was released is found there as ended. Then a call returns `ok`, or that its
target is stale, or that an input is missing (`InOrder.isAnswer`), unless the run ended while the
command of the call was waiting to be taken. A call that does not return `ok` changes nothing
(`InOrder.run_act_of_concerns`).

The exception is real: a stop goes before a command that was sent earlier. And a task that was
released is not found any more when the store has lost it.
-/

namespace Flowrun

namespace Desk

variable {ε : Type} {r : Run} {d d' : Desk ε} {e : Happening} {i : Nat}
  {a : Except TaskError Unit}

/-- Whatever happens only adds to the feed. -/
theorem InOrder.extends_act (h : InOrder r d) (e : Happening) :
    ∃ added, d.held.feed.Extends (d.act e).held.feed added := by
  obtain ⟨as, has⟩ := h.exists_acts [e]
  replace has : (d.act e).held.run = d.held.run.acts as := has
  unfold Live.feed
  rw [has]
  cases hover : d.held.isOver with
  | false => exact (h.tracks.steady hover).extends_acts as
  | true =>
    rw [Run.acts_of_isTerminal (h.ended hover)]
    exact ⟨[], .refl _⟩

/-- The store works and has the latest snapshot of the task, which is about this task and app and
counts its changes. -/
structure Kept (app : String) (d : Desk ε) : Prop where
  works : d.service.store.saveFault = none
  stored : d.service.store.load d.task = .ok (some d.held.feed.snapshot)
  task : d.held.feed.snapshot.task = d.task
  app : d.held.feed.snapshot.app = app
  counted : d.held.feed.snapshot.revision = d.held.feed.journal.length

/-- The store has a task that was just launched, if it works and did not know the task before. -/
theorem Opened.kept {s : Service ε} {p : TaskPlan} {conversation request : String}
    (h : d.Opened s p conversation request)
    (hworks : s.store.saveFault = none ∧ s.store.loadFault = none)
    (hnew : s.store.rows.at? d.task = none) : d.Kept p.app := by
  obtain ⟨run, hheld, -, htask, happ, hcounted, hstore⟩ := h.exists_run
  rw [Store.trySave_of_saveFault_eq_none hworks.1] at hstore
  have hrow : (Store.keep s.store.rows run.feed.snapshot).at? d.task =
      some run.feed.snapshot := by
    have hempty : ∀ old, s.store.rows.at? run.feed.snapshot.task = some old →
        old.revision ≤ run.feed.snapshot.revision := by
      rw [htask, hnew]
      nofun
    rw [Store.keep_of_le hempty, htask]
    exact Dict.at?_put_self ..
  refine ⟨?_, ?_, ?_, ?_, ?_⟩
  · rw [hstore]
    exact hworks.1
  · rw [hstore, hheld]
    exact Store.load_eq_ok_iff.2 ⟨hworks.2, hrow⟩
  · rw [hheld]
    exact htask
  · rw [hheld]
    exact happ
  · rw [hheld]
    exact hcounted

/-- The latest snapshot is saved over the one before. -/
theorem Kept.saved {app : String} (h : d.Kept app) {f : Feed} {added : List Event}
    (hadded : d.held.feed.Extends f added) :
    (d.service.store.trySave f.snapshot).1.saveFault = none ∧
      (d.service.store.trySave f.snapshot).1.load d.task = .ok (some f.snapshot) := by
  obtain ⟨hload, hrow⟩ := Store.load_eq_ok_iff.1 h.stored
  have htask : f.snapshot.task = d.task := hadded.task.trans h.task
  rw [Store.trySave_of_saveFault_eq_none h.works, ← htask]
  rw [← htask] at hrow
  have hkeep := Store.at?_keep hrow (hadded.revision_le h.counted)
  exact ⟨h.works, Store.load_eq_ok_iff.2 ⟨hload, hkeep⟩⟩

theorem Kept.act {app : String} (h : d.Kept app) (ho : InOrder r d) (he : e ≠ .forget) :
    (d.act e).Kept app := by
  obtain ⟨added, hadded⟩ := ho.extends_act e
  have hc := ho.change_act e
  generalize d.act e = d' at hc hadded
  have htask : d'.task = d.task := hc.task_eq
  have stored : d'.service.store.saveFault = none ∧
      d'.service.store.load d.task = .ok (some d'.held.feed.snapshot) := by
    rcases hc.filing with ⟨hs, hfeed, -⟩ | ⟨hs, -⟩ | ⟨hforget, -⟩
    · rw [hs, hfeed]
      exact ⟨h.works, h.stored⟩
    · rw [hs]
      exact h.saved hadded
    · exact absurd hforget he
  exact {
    works := stored.1
    stored := htask.symm ▸ stored.2
    task := (hadded.task.trans h.task).trans htask.symm
    app := hadded.app.trans h.app
    counted := hadded.revision h.counted }

theorem Kept.acts {app : String} (h : d.Kept app) (ho : InOrder r d) {es : List Happening}
    (hes : .forget ∉ es) : (d.acts es).Kept app := by
  induction es generalizing d with
  | nil => exact h
  | cons e es ih =>
    refine ih (h.act ho fun he => hes ?_) (ho.act e) fun hmem => hes (List.mem_cons_of_mem _ hmem)
    rw [he]
    exact List.mem_cons_self

/-! ### Replies -/

/-- Whether the run ended while the command of a call was waiting to be taken. -/
def CutOff (d : Desk ε) (es : List Happening) (i : Nat) : Prop :=
  ∃ bs, bs ++ [.step] <+: es ∧ (d.acts bs).held.isOver = false ∧
    (d.acts (bs ++ [.step])).held.isOver = true ∧ ∃ c ∈ (d.acts bs).held.commands, c.ticket = i

theorem CutOff.concat {es : List Happening} (h : d.CutOff es i) (e : Happening) :
    d.CutOff (es ++ [e]) i := by
  obtain ⟨bs, hbs, hcut⟩ := h
  exact ⟨bs, hbs.trans (List.prefix_append es [e]), hcut⟩

end Desk
end Flowrun
