import Flowrun.Proofs.Feed.Refusals
import Flowrun.Proofs.Run.Steady

/-!
# What a run writes

A run writes to the feed of its task atomically: each of its moves adds a record, updates one or
changes the status, and these writes change nothing when they are refused. The last transition is
the one write that would leave something behind, and it is never refused. A run asks for it when it
is spent and has closed its pauses, and then the lifecycle allows the status with which it ends
(`Steady.finish_accepted`). So the feed becomes what it is by atomic writes (`Steady.becomes_acts`).
-/

namespace Flowrun.Run

variable {w : World} {r r' : Run}

/-- The write with which a run is concluded. -/
def lastWrite (r : Run) : Feed.Write :=
  .finish r.finalStatus (if r.finalStatus = .success then r.outputs else .null) r.failure r.now

theorem Ended.not_refuses (h : r.Ended) : r.feed.refuses r.lastWrite = false := by
  show (!r.feed.status.allows r.finalStatus) = false
  rw [h.allows_finalStatus]
  rfl

theorem Move.becomes (m : Move w r r') : r.feed.Becomes r'.feed := by
  cases m with
  | start => exact .push ..
  | skip => exact .push ..
  | close => exact .update ..
  | fail => exact .update ..
  | complete =>
    rw [complete_eq]
    exact .update ..
  | showOwn => exact .trans (.update ..) (.setStatus ..)
  | showInner => exact .trans (.push ..) (.setStatus ..)
  | reenter => exact .trans (.update ..) (.setStatus ..)
  | answer => exact .trans (.update ..) (.setStatus ..)
  | stopInner => exact .update ..
  | dropActive => exact .update ..
  | dropQueued => exact .update ..
  | _ => exact .refl _

theorem Moves.becomes (hm : Moves w r r') : r.feed.Becomes r'.feed := by
  induction hm with
  | refl => exact .refl _
  | tail _ m ih => exact ih.trans m.becomes

theorem Ended.becomes_conclude (h : r.Ended) : r.feed.Becomes r.conclude.feed :=
  .single (w := r.lastWrite) fun hrefused => by cases h.not_refuses.symm.trans hrefused

theorem Steady.becomes_acts (h : r.Steady) (as : List Action) :
    r.feed.Becomes (r.acts as).feed := by
  rcases h.acts (World.any_admitsAll r as) with ⟨hmoves, -⟩ | ⟨s, hmoves, hended, heq⟩
  · exact hmoves.becomes
  · rw [heq]
    exact hmoves.becomes.trans hended.becomes_conclude

end Flowrun.Run
