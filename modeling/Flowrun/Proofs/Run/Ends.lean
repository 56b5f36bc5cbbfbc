import Flowrun.Proofs.Run.Launches
import Flowrun.Proofs.Run.Resume

/-!
# How a run ends

With which status a run ends is a matter of two flags when it ends: whether a node has failed, and
whether it stops (`Steady.status_finish`). Neither flag is ever taken back, and a run that stops
fails no more. A run that is spent stays so until it ends, and scheduling does not make it spent.
-/

namespace Flowrun.Run

variable {w : World} {r r' : Run}

theorem isSpent_iff : r.isSpent = true ↔
    r.inFlight = [] ∧ r.awaitsInput = false ∧ (r.ready = [] ∨ r.halting = true) := by
  simp only [isSpent, Bool.and_eq_true, Bool.or_eq_true, List.isEmpty_iff, Bool.not_eq_true',
    and_assoc]

/-- The status that is written down at the end. -/
theorem Steady.status_finish (h : r.Steady) (hspent : r.isSpent = true) :
    r.finish.feed.status = r.finalStatus := by
  obtain ⟨-, hended⟩ := h.ended_closePauses .any hspent
  obtain ⟨feed, standings, heq⟩ := closePauses_eq r
  rw [finish_eq, hended.status_conclude, heq]
  rfl

/-! ### Flags -/

/-- A failure is not taken back. -/
theorem Move.failure (m : Move w r r') (h : r.failure.isSome = true) :
    r'.failure.isSome = true := by
  cases m with
  | fail =>
    show (r.failure.or _).isSome = true
    rw [Option.isSome_or, h]
    rfl
  | complete =>
    rw [complete_eq]
    exact h
  | _ => exact h

theorem Steady.failure_perform (h : r.Steady) {a : Action} (ha : a ≠ .finish)
    (hf : r.failure.isSome = true) : (r.perform a).failure.isSome = true := by
  obtain ⟨hmoves, -⟩ := h.moves_perform ha (World.any_admitsAll r [a]).1
  exact (hmoves.keep (P := fun s => s.failure.isSome = true) h.sound hf
    fun _ hf m => m.failure hf).2

/-- A run that halts refuses every resume. -/
theorem resume_of_halting (h : r.halting = true) (target : ResumeTarget)
    (inputs : Dict Json.Value) : r.resume target inputs =
      (.error (.staleResume target (r.active.map Pause.target) r.feed.status), r) := by
  have hwaits : r.waitsAt target = false := by
    apply Bool.eq_false_iff.2
    intro hwaits
    cases (waitsAt_iff.1 hwaits).2.1.symm.trans h
  unfold Run.resume
  rw [hwaits]
  rfl

/-- While a run stops, reports just close their records, so nothing fails any more. -/
theorem perform_of_stopping (h : r.stopping = true) {a : Action} (ha : a ≠ .finish) :
    (r.perform a).stopping = true ∧ (r.perform a).failure = r.failure := by
  have hhalting : r.halting = true := Bool.or_eq_true_iff.2 (Or.inl h)
  cases a with
  | schedule =>
    have hsame : r.schedule = r := if_pos hhalting
    rw [perform, hsame]
    exact ⟨h, rfl⟩
  | report serial result elapsed =>
    rw [perform]
    unfold report
    split
    · exact ⟨h, rfl⟩
    · unfold take
      split
      · exact ⟨h, rfl⟩
      · dsimp only
        rw [if_pos h]
        exact ⟨h, rfl⟩
  | resume target inputs =>
    rw [perform, resume_of_halting hhalting]
    exact ⟨h, rfl⟩
  | stop => exact ⟨rfl, rfl⟩
  | clock => exact ⟨h, rfl⟩
  | finish => exact absurd rfl ha

/-! ### Scheduling -/

theorem Sound.flags_schedule (h : r.Sound) :
    r.schedule.failure = r.failure ∧ r.schedule.stopping = r.stopping :=
  schedule_induction (P := fun s => s.failure = r.failure ∧ s.stopping = r.stopping)
    (fun hs _ _ _ _ => hs) (fun hs => hs) ⟨rfl, rfl⟩ h.listed

theorem schedule_of_ready_eq_nil (h : r.ready = []) : r.schedule = r := by
  have hsorted : r.sortedReady = [] := by
    unfold sortedReady
    rw [h, List.mergeSort_nil]
  unfold schedule
  split
  · rfl
  · rw [hsorted, List.take_nil, List.drop_nil, List.foldl_nil, ← h]

theorem Sound.halting_schedule (h : r.Sound) : r.schedule.halting = r.halting := by
  obtain ⟨hfailure, hstopping⟩ := h.flags_schedule
  unfold halting
  rw [hfailure, hstopping]

/-- A run that is spent after scheduling was so before. -/
theorem Sound.isSpent_of_schedule (h : r.Sound) (hlive : r.halting = false)
    (hspent : r.schedule.isSpent = true) : r.isSpent = true := by
  obtain ⟨hflight, hinput, hready⟩ := isSpent_iff.1 hspent
  obtain ⟨news, hnews, -, hperm⟩ := h.flight_schedule
  obtain ⟨hbefore, rfl⟩ := List.append_eq_nil_iff.1 ((congrArg Prod.fst hnews).symm.trans hflight)
  refine isSpent_iff.2 ⟨hbefore, ?_, Or.inl ?_⟩
  · unfold awaitsInput at hinput ⊢
    rw [← h.halting_schedule, ← (pauses_schedule h).1]
    exact hinput
  · have hnone := hready.resolve_right (by rw [h.halting_schedule, hlive]; nofun)
    rw [hnone] at hperm
    exact hperm.symm.eq_nil

theorem ready_execute (r : Run) (id : String) (resume : Option ResumePayload) :
    (r.execute id resume).ready = r.ready := by
  unfold execute
  split
  · rfl
  · split
    · rfl
    · rfl

theorem ready_schedule (hlive : r.halting = false) :
    r.schedule.ready = r.sortedReady.drop r.room := by
  have start : ∀ (ids : List String) (s : Run),
      (ids.foldl (fun s id => s.execute id none) s).ready = s.ready := by
    intro ids
    induction ids with
    | nil => exact fun _ => rfl
    | cons id ids ih => exact fun s => (ih _).trans (ready_execute s id none)
  unfold schedule
  rw [hlive, if_neg Bool.false_ne_true, start]

/-- If something is left ready after scheduling, it is because executions take up the room. -/
theorem Sound.ready_schedule_eq_nil (h : r.Sound) (hlive : r.halting = false)
    (hflight : r.schedule.inFlight = []) : r.schedule.ready = [] := by
  obtain ⟨news, hnews, -, hperm⟩ := h.flight_schedule
  obtain ⟨hbefore, rfl⟩ := List.append_eq_nil_iff.1 ((congrArg Prod.fst hnews).symm.trans hflight)
  -- nothing was started, and there was room for something
  have hlength : (r.sortedReady.drop r.room).length = r.ready.length := by
    rw [← ready_schedule hlive]
    exact hperm.length_eq
  have hsorted : r.sortedReady.length = r.ready.length := List.length_mergeSort ..
  have hroom : r.room = if r.limit = 0 then r.ready.length else r.limit := by
    unfold room
    rw [hbefore]
    rfl
  rw [ready_schedule hlive]
  rw [List.length_drop] at hlength
  apply List.drop_eq_nil_of_le
  split at hroom
  · omega
  · omega

end Flowrun.Run
