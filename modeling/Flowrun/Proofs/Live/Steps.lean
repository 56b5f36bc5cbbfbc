import Flowrun.Proofs.Live.Histories
import Flowrun.Proofs.Run.Answers

/-!
# The steps of a live task, one by one

A step of a live task is one of the six of `Live.Turn`. Which one it is depends on what has reached
the task: a stop goes before commands, and commands go before reports. So a command is only taken
when no stop waits to be taken (`nextCommand?`), and if the run ends while a command waits, the
command is dropped: its answer is `Live.dropped`, whatever it asked for.

What a step leaves in the store is the snapshot after it, unless nothing has changed (`Stored`).
-/

namespace Flowrun.Live

variable {l l' : Live}

/-- Whether the next step takes something that has reached the task. -/
def Selects (l : Live) : Prop := l.phase = .selecting ∧ l.isIdle = false

instance : Decidable l.Selects := inferInstanceAs (Decidable (_ ∧ _))

/-- A task that does not end has something to wait for. -/
theorem Selects.reason (h : l.Selects) :
    l.run.inFlight ≠ [] ∨ l.run.awaitsInput = true := by
  rcases Bool.and_eq_false_iff.1 h.2 with hflight | hinput
  · left
    intro hnone
    rw [hnone] at hflight
    cases hflight
  · right
    simpa using hinput

/-- Whether a stop waits to be taken. -/
def stopWaits (l : Live) : Bool := l.signal.raised && !l.run.stopping

/-- The command that the next step takes. -/
def nextCommand? (l : Live) : Option ResumeCommand :=
  if l.Selects ∧ l.stopWaits = false then l.commands.head? else none

/-- The run has ended, and whatever was not answered is answered now. -/
def closed (l : Live) (saved : Bool) : Live :=
  { l with
    run := l.run.finish
    phase := .closing saved
    commands := []
    answers := l.answers ++ l.commands.map fun c => (c.ticket, dropped) }

/-- One step of a live task. -/
inductive Turn (l : Live) : Live → Prop
  | schedule : l.phase = .scheduling → Turn l { l with run := l.run.schedule, phase := .selecting }
  /-- There is room again for what is ready. -/
  | again : l.phase = .selecting → l.isIdle = true → l.run.ready ≠ [] → l.run.halting = false →
      Turn l { l with phase := .scheduling }
  | close (saved : Bool) : l.phase = .selecting → l.run.isSpent = true → Turn l (l.closed saved)
  | takeStop : l.Selects → l.stopWaits = true → Turn l l.takeStop
  | takeCommand {c : ResumeCommand} {rest : List ResumeCommand} :
      l.nextCommand? = some c → l.commands = c :: rest → Turn l (l.takeCommand c rest)
  | takeReport {a : Arrival} {rest : List Arrival} :
      l.Selects → l.stopWaits = false → l.commands = [] → l.arrivals = a :: rest →
      Turn l (l.takeReport a rest)

/-- What is left in the store by a step: nothing was saved and nothing has changed, or the snapshot
after the step was saved. -/
def Stored (l : Live) (s : Store) (l' : Live) (s' : Store) : Prop :=
  (s' = s ∧ l'.isOver = false ∧ l'.feed = l.feed) ∨
    s' = (s.trySave l'.feed.snapshot).1 ∧
      ∀ saved, l'.phase = .closing saved → saved = (s.trySave l'.feed.snapshot).2

theorem isOver_of_phase {p : Phase} (h : l.phase = p) (hp : ∀ saved, p ≠ .closing saved) :
    l.isOver = false := by
  unfold isOver
  rw [h]
  cases p with
  | closing saved => exact absurd rfl (hp saved)
  | scheduling => rfl
  | selecting => rfl

theorem turn_of_select? {s s' : Store} (hsel : l.Selects) (h : l.select? s = some (l', s')) :
    Turn l l' ∧ Stored l s l' s' := by
  unfold select? at h
  split at h
  · next hstop =>
    cases h
    exact ⟨.takeStop hsel hstop, Or.inr ⟨rfl, nofun⟩⟩
  · next hstop =>
    have hstop : l.stopWaits = false := Bool.eq_false_iff.2 hstop
    split at h
    · next c rest _ hcommands =>
      cases h
      refine ⟨.takeCommand ?_ hcommands, Or.inr ⟨rfl, nofun⟩⟩
      rw [nextCommand?, if_pos ⟨hsel, hstop⟩, hcommands]
      rfl
    · next a rest hcommands harrivals =>
      cases h
      exact ⟨.takeReport hsel hstop hcommands harrivals, Or.inr ⟨rfl, nofun⟩⟩
    · cases h

/-- Every step is one of the six. -/
theorem turn_of_step? {s s' : Store} (h : l.step? s = some (l', s')) :
    Turn l l' ∧ Stored l s l' s' := by
  unfold step? at h
  split at h
  · cases h
  · next hphase =>
    unfold schedule save at h
    dsimp only at h
    split at h
    · next hhalting =>
      cases h
      refine ⟨.schedule hphase, Or.inl ⟨rfl, rfl, ?_⟩⟩
      exact congrArg Run.feed (if_pos hhalting : l.run.schedule = l.run)
    · cases h
      exact ⟨.schedule hphase, Or.inr ⟨rfl, nofun⟩⟩
  · next hphase =>
    split at h
    · next hidle =>
      split at h
      · next hready =>
        cases h
        have hready : (l.run.ready.isEmpty || l.run.halting) = true := by
          rw [Bool.or_eq_true, List.isEmpty_iff]
          exact hready
        refine ⟨.close _ hphase (Bool.and_eq_true_iff.2 ⟨hidle, hready⟩), Or.inr ⟨rfl, ?_⟩⟩
        intro saved hsaved
        cases hsaved
        rfl
      · next hready =>
        cases h
        obtain ⟨hne, hlive⟩ := not_or.1 hready
        exact ⟨.again hphase hidle hne (Bool.eq_false_iff.2 hlive), Or.inl ⟨rfl, rfl, rfl⟩⟩
    · next hidle => exact turn_of_select? ⟨hphase, Bool.eq_false_iff.2 hidle⟩ h

/-- A command is taken at a selection, if no stop waits. -/
theorem selects_of_nextCommand? {c : ResumeCommand} (h : l.nextCommand? = some c) :
    l.Selects ∧ l.stopWaits = false := by
  unfold nextCommand? at h
  split at h
  · next hsel => exact hsel
  · cases h

theorem isOver_of_nextCommand? {c : ResumeCommand} (h : l.nextCommand? = some c) :
    l.isOver = false :=
  isOver_of_phase (selects_of_nextCommand? h).1.1 nofun

/-- Only a task that is not over takes a step. -/
theorem Turn.isOver_eq (h : Turn l l') : l.isOver = false := by
  cases h with
  | schedule hphase => exact isOver_of_phase hphase nofun
  | again hphase => exact isOver_of_phase hphase nofun
  | close _ hphase => exact isOver_of_phase hphase nofun
  | takeStop hsel => exact isOver_of_phase hsel.1 nofun
  | takeCommand hnext => exact isOver_of_nextCommand? hnext
  | takeReport hsel => exact isOver_of_phase hsel.1 nofun

theorem head?_of_nextCommand? {c : ResumeCommand} (h : l.nextCommand? = some c) :
    l.commands.head? = some c := by
  unfold nextCommand? at h
  split at h
  · exact h
  · cases h

end Flowrun.Live
