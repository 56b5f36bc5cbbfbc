import Flowrun.Proofs.Run.Ends
import Flowrun.Proofs.Service.Replies

/-!
# Every call comes to an end

A task does not wait while there is a command for it, and it cannot put the command off for long: it
may have to take a stop first, and to start what there is room for. So a command is answered within
five steps, whatever else happens in between (`InOrder.replied_of_sent`):

    d.held.delay < number of steps in es → the call has its reply after es

A call that waits for its turn gets it as soon as the one that is under way has collected its
answer. So no call is ever stuck (`InOrder.exists_return`): it takes only steps of the task, and
callers who take their turns.
-/

namespace Flowrun

namespace Live

variable {l l' : Live}

/-- Whether the task only looks at what it could start, since nothing else is left to do. -/
def Retries (l : Live) : Prop := l.isIdle = true ∧ l.run.ready ≠ [] ∧ l.run.halting = false

instance : Decidable l.Retries := inferInstanceAs (Decidable (_ ∧ _))

/-- How many steps may go by before the one that takes the command that waits: two to take a stop,
and those until the next selection. -/
def delay (l : Live) : Nat :=
  (if l.run.stopping then 0 else 2) +
    if l.phase = .scheduling then 1 else if l.Retries then 2 else 0

theorem delay_le (l : Live) : l.delay ≤ 4 := by
  unfold delay
  refine Nat.add_le_add (b := 2) (d := 2) ?_ ?_
  · split
    · decide
    · decide
  · split
    · decide
    · split
      · decide
      · decide

theorem delay_of_scheduling (h : l.phase = .scheduling) :
    l.delay = (if l.run.stopping then 0 else 2) + 1 := by
  rw [delay, if_pos h]

theorem delay_of_selecting (h : l.phase = .selecting) :
    l.delay = (if l.run.stopping then 0 else 2) + if l.Retries then 2 else 0 := by
  have hphase : l.phase ≠ .scheduling := by
    rw [h]
    nofun
  rw [delay, if_neg hphase]

/-- While there is something for it to take, a task does not wait. -/
theorem exists_step? (hlive : l.isOver = false) (hwork : l.commands ≠ [] ∨ l.arrivals ≠ [])
    (s : Store) : ∃ l' s', l.step? s = some (l', s') := by
  unfold step?
  split
  · next hphase =>
    unfold isOver at hlive
    rw [hphase] at hlive
    cases hlive
  · exact ⟨_, _, rfl⟩
  · split
    · split
      · exact ⟨_, _, rfl⟩
      · exact ⟨_, _, rfl⟩
    · unfold select?
      split
      · exact ⟨_, _, rfl⟩
      · split
        · exact ⟨_, _, rfl⟩
        · exact ⟨_, _, rfl⟩
        · next hcommands harrivals =>
          exact (hwork.elim (fun h => h hcommands) fun h => h harrivals).elim

/-- After no step the task only looks at what it could start: what is ready after scheduling is so
only for want of room, and then something is in flight. -/
theorem Turn.not_retries (h : l.Turn l') (hs : l.run.Sound) (hphase : l'.phase = .selecting) :
    ¬ l'.Retries := by
  cases h with
  | schedule =>
    rintro ⟨hidle, hready, hlive⟩
    refine hready (hs.ready_schedule_eq_nil (hs.halting_schedule.symm.trans hlive) ?_)
    exact List.isEmpty_iff.1 (Bool.and_eq_true_iff.1 hidle).1
  | _ => cases hphase

/-- Every step takes the command that waits, or comes closer to taking it. -/
theorem Turn.delay_lt (h : l.Turn l') (hs : l.run.Sound) (hcommands : l.commands ≠ []) :
    l'.commands.length < l.commands.length ∨ l'.delay < l.delay := by
  cases h with
  | schedule hphase =>
    right
    have hdone := (Turn.schedule hphase).not_retries hs rfl
    rw [delay_of_scheduling hphase, delay_of_selecting rfl, if_neg hdone, hs.flags_schedule.2]
    exact Nat.lt_succ_self _
  | again hphase hidle hready hlive =>
    right
    have hretries : l.Retries := ⟨hidle, hready, hlive⟩
    rw [delay_of_scheduling rfl, delay_of_selecting hphase, if_pos hretries]
    exact Nat.lt_succ_self _
  | close => exact Or.inl (List.length_pos_iff.2 hcommands)
  | takeStop hsel hstop =>
    right
    have hstopping : l.run.stopping = false := by
      simpa using (Bool.and_eq_true_iff.1 hstop).2
    have hbusy : ¬ l.Retries := by
      rintro ⟨hidle, -⟩
      cases hsel.2.symm.trans hidle
    rw [delay_of_scheduling rfl, delay_of_selecting hsel.1, if_neg hbusy, hstopping]
    exact Nat.lt_succ_self 1
  | takeCommand _ heq =>
    left
    rw [heq]
    exact Nat.lt_succ_self _
  | takeReport _ _ hnone => exact absurd hnone hcommands

end Live

def Happening.isStep : Happening → Bool
  | .step => true
  | _ => false

theorem Happening.isStep_eq_false {e : Happening} (h : e ≠ .step) : e.isStep = false := by
  cases e with
  | step => exact absurd rfl h
  | _ => rfl

/-- Whether a task and its callers do something on their own: nothing is reported, and nobody comes
or asks for a stop. -/
def Happening.IsOwn : Happening → Prop
  | .step => True
  | .turn _ => True
  | .collect _ => True
  | _ => False

namespace Desk

variable {ε : Type} {r : Run} {d : Desk ε} {i : Nat} {q : ResumeRequest}

/-! ### Commands are answered -/

/-- A call that has sent its command has an answer that waits for it, or its command waits. -/
theorem InOrder.sent_cases (h : InOrder r d) (hi : d.calls[i]? = some ⟨q, .sent⟩) :
    (∃ a, d.held.answers = [(i, a)]) ∨
      d.held.isOver = false ∧ d.held.commands.length = 1 ∧ d.held.answers = [] := by
  cases h.locked with
  | free _ _ _ hnone => exact absurd hi (hnone i q)
  | waiting _ _ hcommands hanswers hlive =>
    refine Or.inr ⟨hlive, ?_, hanswers⟩
    rw [hcommands]
    rfl
  | answered _ hway _ hanswers =>
    obtain rfl := hway.2 i q hi
    exact Or.inl ⟨_, hanswers⟩

theorem InOrder.calls_act_step (h : InOrder r d) : (d.act .step).calls = d.calls := by
  have hc := h.change_act .step
  generalize d.act .step = d' at hc
  cases hc with
  | _ => rfl

theorem InOrder.calls_acts_step (h : InOrder r d) (n : Nat) :
    (d.acts (List.replicate n .step)).calls = d.calls := by
  induction n generalizing d with
  | zero => rfl
  | succ n ih => exact (ih (h.act .step)).trans h.calls_act_step

/-- A command that was sent has its answer after a step, or is closer to it. Nothing else puts it
off. -/
theorem InOrder.sent_act (h : InOrder r d) (hi : d.calls[i]? = some ⟨q, .sent⟩) (e : Happening) :
    (∃ a, (d.act e).Replied i a) ∨
      (d.act e).calls[i]? = some ⟨q, .sent⟩ ∧
        (d.act e).held.delay + (if e.isStep then 1 else 0) ≤ d.held.delay := by
  rcases h.sent_cases hi with ⟨a, ha⟩ | ⟨hlive, hone, hnone⟩
  · refine Or.inl ⟨a, Replied.change (Or.inr ?_) h (h.change_act e)⟩
    rw [ha]
    exact List.mem_singleton.2 rfl
  have hcommands : d.held.commands ≠ [] := List.ne_nil_of_length_eq_add_one hone
  by_cases he : e = .step
  · subst he
    obtain ⟨l, s, hstep⟩ := Live.exists_step? hlive (Or.inl hcommands) d.service.store
    have hheld := h.tied.held_act_step hstep
    have hsent : (d.act .step).calls[i]? = some ⟨q, .sent⟩ := h.calls_act_step ▸ hi
    rcases (h.act .step).sent_cases hsent with ⟨a, ha⟩ | ⟨-, hone', -⟩
    · refine Or.inl ⟨a, Or.inr ?_⟩
      rw [ha]
      exact List.mem_singleton.2 rfl
    · refine Or.inr ⟨hsent, ?_⟩
      rw [hheld] at hone' ⊢
      have hturn := (Live.turn_of_step? hstep).1
      rcases hturn.delay_lt (h.tracks.steady hlive).sound hcommands with hlt | hlt
      · omega
      · exact hlt
  · right
    have hc := h.change_act e
    -- a call that is noted is another one
    have noted : ∀ {j : Nat} {q' : ResumeRequest} {state : CallState},
        d.calls[j]? = some ⟨q', .queued⟩ → (d.calls.set j ⟨q', state⟩)[i]? = some ⟨q, .sent⟩ := by
      intro j q' state hj
      rw [call?_set hj]
      split
      · next hji =>
        subst hji
        cases hj.symm.trans hi
      · exact hi
    rw [Happening.isStep_eq_false he, if_neg Bool.false_ne_true, Nat.add_zero]
    generalize d.act e = d' at hc ⊢
    cases hc with
    | idle => exact ⟨hi, Nat.le_refl _⟩
    | step => exact absurd rfl he
    | release => exact absurd rfl he
    | deliver => exact ⟨hi, Nat.le_refl _⟩
    | stop => exact ⟨hi, Nat.le_refl _⟩
    | call => exact ⟨(List.getElem?_append_left (List.getElem?_eq_some_iff.1 hi).1).trans hi,
        Nat.le_refl _⟩
    | refuse hj => exact ⟨noted hj, Nat.le_refl _⟩
    | send hj => exact ⟨noted hj, Nat.le_refl _⟩
    | collect _ hanswer =>
      have hmem := Live.mem_answers hanswer
      rw [hnone] at hmem
      cases hmem
    | forget => exact ⟨hi, Nat.le_refl _⟩

/-- A command that was sent is answered within as many steps as it can be put off, and one more,
whatever else happens. -/
theorem InOrder.replied_of_sent (h : InOrder r d) (hi : d.calls[i]? = some ⟨q, .sent⟩)
    {es : List Happening} (hes : d.held.delay < es.countP Happening.isStep) :
    ∃ a, (d.acts es).Replied i a := by
  induction es generalizing d with
  | nil => cases hes
  | cons e es ih =>
    rcases h.sent_act hi e with ⟨a, ha⟩ | ⟨hsent, hdelay⟩
    · exact ⟨a, ha.acts (h.act e) es⟩
    · rw [List.countP_cons] at hes
      exact ih (h.act e) hsent (by omega)

/-! ### Calls return -/

/-- An answer that waits is handed out. -/
theorem Tied.collect_of_answer? (h : d.Tied) {a : Except TaskError Unit}
    (ha : d.held.answer? i = some a) :
    (d.collect i q).calls = d.calls.set i ⟨q, .returned a⟩ ∧
      (d.collect i q).held = d.held.collect i := by
  unfold collect Service.collectAnswer?
  rcases h.live with hlive | ⟨hnone, -⟩
  · rw [hlive]
    dsimp only
    rw [ha]
    exact ⟨rfl, congrArg Desk.held (follow_of_live? (live?_putLive ..))⟩
  · rw [hnone]
    simp only [Service.isLive, hnone, Option.isSome_none, Bool.false_eq_true, if_false, ha]
    exact ⟨rfl, rfl⟩

/-- When no call is under way, any one that waits for its turn gets it. -/
theorem exists_state_turn (hfree : d.held.caller = none) :
    ∃ state, state ≠ .queued ∧ (d.turn i q).calls = d.calls.set i ⟨q, state⟩ := by
  unfold turn
  split
  · next hnone =>
    unfold Service.sendResume? at hnone
    rw [hfree] at hnone
    dsimp only [Option.isSome_none] at hnone
    rw [if_neg Bool.false_ne_true] at hnone
    split at hnone
    · cases hnone
    · split at hnone
      · cases hnone
      · cases hnone
  · exact ⟨.sent, nofun, rfl⟩
  · exact ⟨.returned _, nofun, rfl⟩

theorem InOrder.exists_return_of_sent (h : InOrder r d) (hi : d.calls[i]? = some ⟨q, .sent⟩) :
    ∃ es a, (∀ e ∈ es, e.IsOwn) ∧ (d.acts es).calls = d.calls.set i ⟨q, .returned a⟩ ∧
      (d.acts es).held.caller = none := by
  let steps : List Happening := List.replicate 5 .step
  have ho := h.acts steps
  have hcalls : (d.acts steps).calls = d.calls := h.calls_acts_step 5
  have hcount : steps.countP Happening.isStep = 5 := by decide
  have hdelay : d.held.delay < steps.countP Happening.isStep := by
    rw [hcount]
    exact Nat.lt_succ_of_le d.held.delay_le
  obtain ⟨a, ha⟩ := h.replied_of_sent hi hdelay
  have hmem : (i, a) ∈ (d.acts steps).held.answers := by
    apply ha.resolve_left
    rintro ⟨q', hq'⟩
    rw [hcalls] at hq'
    cases hi.symm.trans hq'
  obtain ⟨-, -, -, -, hanswers⟩ := ho.locked.of_mem_answers hmem
  have hanswer : (d.acts steps).held.answer? i = some a := by
    unfold Live.answer?
    rw [hanswers]
    simp
  have hact : (d.acts steps).act (.collect i) = (d.acts steps).collect i q := by
    dsimp only [Desk.act]
    rw [hcalls, hi]
  obtain ⟨hafter, hheld⟩ := ho.tied.collect_of_answer? (q := q) hanswer
  refine ⟨steps ++ [.collect i], a, fun e he => ?_, ?_, ?_⟩
  · rcases List.mem_append.1 he with he | he
    · rw [List.eq_of_mem_replicate he]
      trivial
    · rw [List.mem_singleton.1 he]
      trivial
  · rw [acts_concat, hact, hafter, hcalls]
  · rw [acts_concat, hact, hheld]
    rfl

theorem InOrder.exists_return_of_free (h : InOrder r d) (hi : d.calls[i]? = some ⟨q, .queued⟩)
    (hfree : d.held.caller = none) :
    ∃ es a, (∀ e ∈ es, e.IsOwn) ∧ (d.acts es).calls[i]? = some ⟨q, .returned a⟩ := by
  obtain ⟨state, hstate, hcalls⟩ := exists_state_turn (d := d) (i := i) (q := q) hfree
  have hturn : (d.act (.turn i)).calls[i]? = some ⟨q, state⟩ := by
    have hact : d.act (.turn i) = d.turn i q := by
      dsimp only [Desk.act]
      rw [hi]
    rw [hact, hcalls, call?_set hi, if_pos rfl]
  cases state with
  | queued => exact absurd rfl hstate
  | returned a =>
    refine ⟨[.turn i], a, fun e he => ?_, hturn⟩
    rw [List.mem_singleton.1 he]
    trivial
  | sent =>
    obtain ⟨es, a, hown, hafter, -⟩ := (h.act (.turn i)).exists_return_of_sent hturn
    refine ⟨.turn i :: es, a, List.forall_mem_cons.2 ⟨trivial, hown⟩, ?_⟩
    rw [acts_cons, hafter, call?_set hturn, if_pos rfl]

/-- Whatever has happened, every call comes to an end when the task and its callers go on. -/
theorem InOrder.exists_return (h : InOrder r d) {state : CallState}
    (hi : d.calls[i]? = some ⟨q, state⟩) :
    ∃ es a, (∀ e ∈ es, e.IsOwn) ∧ (d.acts es).calls[i]? = some ⟨q, .returned a⟩ := by
  cases state with
  | returned a => exact ⟨[], a, nofun, hi⟩
  | sent =>
    obtain ⟨es, a, hown, hafter, -⟩ := h.exists_return_of_sent hi
    refine ⟨es, a, hown, ?_⟩
    rw [hafter, call?_set hi, if_pos rfl]
  | queued =>
    -- the call that is under way, if any, returns first
    have first : ∀ {j : Nat} {q' : ResumeRequest}, d.calls[j]? = some ⟨q', .sent⟩ →
        ∃ es a, (∀ e ∈ es, e.IsOwn) ∧ (d.acts es).calls[i]? = some ⟨q, .returned a⟩ := by
      intro j q' hj
      obtain ⟨es, b, hown, hafter, hfree⟩ := h.exists_return_of_sent hj
      have hqueued : (d.acts es).calls[i]? = some ⟨q, .queued⟩ := by
        rw [hafter, call?_set hj, if_neg ?_, hi]
        rintro rfl
        cases hj.symm.trans hi
      obtain ⟨more, a, hmore, ha⟩ := (h.acts es).exists_return_of_free hqueued hfree
      refine ⟨es ++ more, a, List.forall_mem_append.2 ⟨hown, hmore⟩, ?_⟩
      rw [acts_append]
      exact ha
    cases h.locked with
    | free hfree => exact h.exists_return_of_free hi hfree
    | waiting _ hway => exact first hway.1
    | answered _ hway => exact first hway.1

end Desk
end Flowrun
