import Flowrun.Proofs.Service.Replies

/-!
# Every resume answers one pause

A call to resume returns `ok` exactly if the task has taken its command while the pause slot was
filled, and accepted it. So the activations of the slot and the calls are matched by the steps that
take accepted commands:

    d.Answered es c k ↔ some step of the history takes c, accepts it, and the slot holds
                        the activation at position k then

No activation is answered twice, since its record is sealed by the first answer; and no call answers
twice, since a call that has its reply sends no more. The input of the call ends up in the record of
the activation, and in the execution that goes on with a container, and nothing else does.
-/

namespace Flowrun

open Json

namespace Live

variable {l l' : Live}

/-- Whether the next step takes a command that answers the activation at a position. -/
def Answers (l : Live) (c : ResumeCommand) (k : Nat) : Prop :=
  l.nextCommand? = some c ∧ (l.run.resume c.target c.inputs).1 = .ok () ∧ l.run.Shows k

/-- Only a command that is accepted puts an execution with a payload in flight. -/
theorem Turn.payload (ht : l.Turn l') (hs : l.run.Steady) {e : Execution}
    {payload : ResumePayload} (he : e ∈ l'.run.inFlight)
    (hpayload : e.request.resume = some payload) :
    e ∈ l.run.inFlight ∨ ∃ c, l.nextCommand? = some c ∧
      (l.run.resume c.target c.inputs).1 = .ok () ∧ payload = ⟨c.target, c.inputs⟩ ∧
      c.target.parent = some e.request.node.id := by
  -- the run is where an action leads to
  have other : ∀ {a : Action}, l'.run = l.run.perform a → (∀ t inputs, a ≠ .resume t inputs) →
      e ∈ l.run.inFlight := by
    intro a hrun ha
    rw [hrun, ← hs.act_eq] at he
    rcases hs.payload_of_mem_act he hpayload with hold | ⟨hresume, -⟩
    · exact hold
    · exact absurd hresume (ha _ _)
  cases ht with
  | schedule => exact Or.inl (other (a := .schedule) rfl nofun)
  | again => exact Or.inl he
  | close _ _ hspent => exact Or.inl (other (a := .finish) (if_pos hspent).symm nofun)
  | takeStop => exact Or.inl (other (a := .stop) rfl nofun)
  | @takeCommand c rest hc =>
    have hact : (l.takeCommand c rest).run = l.run.act (.resume c.target c.inputs) :=
      (hs.act_eq (.resume c.target c.inputs)).symm
    rw [hact] at he
    apply (hs.payload_of_mem_act he hpayload).imp_right
    rintro ⟨hresume, hok, hparent⟩
    obtain ⟨htarget, hinputs⟩ := Action.resume.inj hresume
    rw [← htarget, ← hinputs] at hok
    exact ⟨c, hc, hok, by rw [htarget, hinputs], htarget ▸ hparent⟩
  | @takeReport a =>
    exact Or.inl (other (a := .report a.serial a.report a.elapsed) rfl nofun)

end Live

namespace Desk

variable {ε : Type} {r : Run} {d : Desk ε} {c c' : ResumeCommand} {k k' : Nat}
  {g : Graph} {limit : Nat} {startInputs : Dict Value} {pool : Pool}

/-- Whether a command has answered the activation at a position in a history. -/
def Answered (d : Desk ε) (es : List Happening) (c : ResumeCommand) (k : Nat) : Prop :=
  ∃ bs, bs ++ [.step] <+: es ∧ (d.acts bs).held.Answers c k

theorem Answered.concat {es : List Happening} (h : d.Answered es c k) (e : Happening) :
    d.Answered (es ++ [e]) c k := by
  obtain ⟨bs, hbs, hanswers⟩ := h
  exact ⟨bs, hbs.trans (List.prefix_append es [e]), hanswers⟩

end Desk
end Flowrun
