import Flowrun.Proofs.Service.Desk

/-!
# What holds of a desk after every history

A desk is `InOrder` if what is held is the task of the service (`Tied`), its run is where some
actions lead to, it has ended if it is over, and the calls take turns (`Locked`): at most one of
them is under way, and either its command is the only one that waits to be taken, or its answer is
the only one that waits to be collected.

    Opened d → InOrder (d.acts es)

The request of a call never changes, and what a call returned is never taken back (`Change.call?`).
-/

namespace Flowrun

open Json

/-! ### Calls take turns -/

/-- The call with a ticket is the only one that is under way. -/
def UnderWay (calls : List Call) (i : Nat) (q : ResumeRequest) : Prop :=
  calls[i]? = some ⟨q, .sent⟩ ∧
    ∀ (j : Nat) (q' : ResumeRequest), calls[j]? = some ⟨q', .sent⟩ → j = i

/-- At most one call is under way, and its command or its answer is the only one. -/
inductive Locked (l : Live) (calls : List Call) : Prop
  | free : l.caller = none → l.commands = [] → l.answers = [] →
      (∀ (j : Nat) (q : ResumeRequest), calls[j]? ≠ some ⟨q, .sent⟩) → Locked l calls
  | waiting {i : Nat} {q : ResumeRequest} : l.caller = some i → UnderWay calls i q →
      l.commands = [⟨i, q.target, q.inputs⟩] → l.answers = [] → l.isOver = false → Locked l calls
  | answered {i : Nat} {q : ResumeRequest} {a : Except TaskError Unit} : l.caller = some i →
      UnderWay calls i q → l.commands = [] → l.answers = [(i, a)] → Locked l calls

theorem Live.mem_answers {l : Live} {i : Nat} {a : Except TaskError Unit}
    (h : l.answer? i = some a) : (i, a) ∈ l.answers := by
  obtain ⟨⟨j, b⟩, hfind, rfl⟩ := Option.map_eq_some_iff.1 h
  have hj : j = i := by simpa using List.find?_some hfind
  exact hj ▸ List.mem_of_find?_eq_some hfind

namespace Locked

variable {l l' : Live} {calls : List Call}

theorem congr (h : Locked l calls) (hcaller : l'.caller = l.caller)
    (hcommands : l'.commands = l.commands) (hanswers : l'.answers = l.answers)
    (hover : l.isOver = false → l'.isOver = false) : Locked l' calls := by
  cases h with
  | free h₁ h₂ h₃ hsent =>
    exact .free (hcaller.trans h₁) (hcommands.trans h₂) (hanswers.trans h₃) hsent
  | waiting h₁ hway h₂ h₃ hlive =>
    exact .waiting (hcaller.trans h₁) hway (hcommands.trans h₂) (hanswers.trans h₃) (hover hlive)
  | answered h₁ hway h₂ h₃ =>
    exact .answered (hcaller.trans h₁) hway (hcommands.trans h₂) (hanswers.trans h₃)

/-- The command that is taken next is that of the call that is under way. -/
theorem of_nextCommand? (h : Locked l calls) {c : ResumeCommand} (hc : l.nextCommand? = some c) :
    ∃ q, c = ⟨c.ticket, q.target, q.inputs⟩ ∧ l.caller = some c.ticket ∧
      UnderWay calls c.ticket q ∧ l.commands = [c] ∧ l.answers = [] := by
  have hhead := Live.head?_of_nextCommand? hc
  cases h with
  | free _ hcommands =>
    rw [hcommands] at hhead
    cases hhead
  | @waiting i q hcaller hway hcommands hanswers =>
    rw [hcommands] at hhead
    obtain rfl := Option.some.inj hhead
    exact ⟨q, rfl, hcaller, hway, hcommands, hanswers⟩
  | answered _ _ hcommands =>
    rw [hcommands] at hhead
    cases hhead

/-- A step may answer the call that is under way. -/
theorem step (h : Locked l calls) (ht : l.Turn l') : Locked l' calls := by
  cases ht with
  | schedule => exact h.congr rfl rfl rfl fun _ => rfl
  | again => exact h.congr rfl rfl rfl fun _ => rfl
  | takeStop => exact h.congr rfl rfl rfl fun _ => rfl
  | takeReport => exact h.congr rfl rfl rfl fun _ => rfl
  | @takeCommand c rest hc hcommands =>
    obtain ⟨q, -, hcaller, hway, hone, hanswers⟩ := h.of_nextCommand? hc
    obtain ⟨-, rfl⟩ := List.cons.inj (hcommands.symm.trans hone)
    refine .answered (a := (l.run.resume c.target c.inputs).1) hcaller hway rfl ?_
    show l.answers ++ _ = _
    rw [hanswers]
    rfl
  | close saved =>
    cases h with
    | free hcaller hcommands hanswers hsent =>
      refine .free hcaller rfl ?_ hsent
      show l.answers ++ l.commands.map _ = []
      rw [hcommands, hanswers]
      rfl
    | @waiting i q hcaller hway hcommands hanswers =>
      refine .answered (a := Live.dropped) hcaller hway rfl ?_
      show l.answers ++ l.commands.map _ = _
      rw [hcommands, hanswers]
      rfl
    | @answered i q a hcaller hway hcommands hanswers =>
      refine .answered (a := a) hcaller hway rfl ?_
      show l.answers ++ l.commands.map _ = _
      rw [hcommands, hanswers]
      rfl

/-! #### Calls -/

/-- Calls of which the same ones are under way. -/
theorem of_sent_iff {calls' : List Call} (h : Locked l calls)
    (hsent : ∀ (j : Nat) (q : ResumeRequest),
      calls'[j]? = some ⟨q, .sent⟩ ↔ calls[j]? = some ⟨q, .sent⟩) : Locked l calls' := by
  have under : ∀ {i : Nat} {q : ResumeRequest}, UnderWay calls i q → UnderWay calls' i q :=
    fun hway => ⟨(hsent _ _).2 hway.1, fun j q' hj => hway.2 j q' ((hsent j q').1 hj)⟩
  cases h with
  | free hcaller hcommands hanswers hnone =>
    exact .free hcaller hcommands hanswers fun j q hj => hnone j q ((hsent j q).1 hj)
  | waiting hcaller hway hcommands hanswers hlive =>
    exact .waiting hcaller (under hway) hcommands hanswers hlive
  | answered hcaller hway hcommands hanswers =>
    exact .answered hcaller (under hway) hcommands hanswers

/-- A new call is not under way yet. -/
theorem concat (h : Locked l calls) {c : Call} (hc : c.state ≠ .sent) :
    Locked l (calls ++ [c]) := by
  apply h.of_sent_iff
  intro j q
  rw [List.getElem?_append]
  split
  · exact Iff.rfl
  · next hj =>
    rw [List.getElem?_eq_none (Nat.le_of_not_lt hj)]
    refine iff_of_false (fun he => ?_) nofun
    obtain rfl := List.mem_singleton.1 (List.mem_of_getElem? he)
    exact hc rfl

/-- A call that is refused was not under way. -/
theorem refuse (h : Locked l calls) {i : Nat} {q : ResumeRequest}
    (hi : calls[i]? = some ⟨q, .queued⟩) (answer : Except TaskError Unit) :
    Locked l (calls.set i ⟨q, .returned answer⟩) := by
  apply h.of_sent_iff
  intro j q'
  rw [call?_set hi]
  split
  · next hij =>
    subst hij
    rw [hi]
    exact iff_of_false nofun nofun
  · exact Iff.rfl

/-- When no call is under way, one that waits for its turn may send its command. -/
theorem send (h : Locked l calls) {i : Nat} {q : ResumeRequest}
    (hi : calls[i]? = some ⟨q, .queued⟩) (hcaller : l.caller = none) (hlive : l.isOver = false) :
    Locked (l.send ⟨i, q.target, q.inputs⟩) (calls.set i ⟨q, .sent⟩) := by
  cases h with
  | free _ hcommands hanswers hnone =>
    refine .waiting (q := q) rfl ⟨?_, fun j q' hj => ?_⟩ ?_ hanswers hlive
    · rw [call?_set hi, if_pos rfl]
    · rw [call?_set hi] at hj
      split at hj
      · next hij => exact hij.symm
      · exact absurd hj (hnone j q')
    · show l.commands ++ _ = _
      rw [hcommands]
      rfl
  | waiting hsome => cases hcaller.symm.trans hsome
  | answered hsome => cases hcaller.symm.trans hsome

/-- An answer that waits is the only one, and that to the call that is under way. -/
theorem of_mem_answers (h : Locked l calls) {i : Nat} {a : Except TaskError Unit}
    (ha : (i, a) ∈ l.answers) :
    ∃ q, UnderWay calls i q ∧ l.caller = some i ∧ l.commands = [] ∧ l.answers = [(i, a)] := by
  cases h with
  | free _ _ hanswers =>
    rw [hanswers] at ha
    cases ha
  | waiting _ _ _ hanswers =>
    rw [hanswers] at ha
    cases ha
  | @answered j q b hcaller hway hcommands hanswers =>
    rw [hanswers] at ha
    obtain ⟨rfl, rfl⟩ := Prod.mk.inj (List.mem_singleton.1 ha)
    exact ⟨q, hway, hcaller, hcommands, hanswers⟩

/-- When the answer is collected, no call is under way. -/
theorem collect (h : Locked l calls) {i : Nat} {q : ResumeRequest}
    {answer : Except TaskError Unit} (ha : l.answer? i = some answer) :
    Locked (l.collect i) (calls.set i ⟨q, .returned answer⟩) := by
  obtain ⟨q', hway, -, hcommands, hanswers⟩ := h.of_mem_answers (Live.mem_answers ha)
  refine .free rfl hcommands ?_ fun j q'' hj => ?_
  · show l.answers.filter _ = []
    rw [hanswers]
    simp
  · rw [call?_set hway.1] at hj
    split at hj
    · cases hj
    · next hij => exact hij (hway.2 j q'' hj).symm

end Locked

/-! ### The run -/

namespace Live

variable {r : Run} {l l' : Live}

/-- A step after which the task is over has ended the run. -/
theorem Tracks.isTerminal_of_step? (h : l.Tracks r) {s s' : Store}
    (hstep : l.step? s = some (l', s')) (hover : l'.isOver = true) :
    l'.feed.isTerminal = true := by
  obtain ⟨hlive, hcases⟩ := step?_run hstep
  rcases hcases with ⟨hgoes, -⟩ | ⟨hgoes, -⟩ | ⟨-, hspent, hrun⟩
  · cases hgoes.symm.trans hover
  · cases hgoes.symm.trans hover
  · obtain ⟨-, hended⟩ := (h.steady hlive).ended_closePauses .any hspent
    unfold feed
    rw [hrun, Run.finish_eq]
    exact hended.isTerminal_conclude

end Live

namespace Desk

variable {ε : Type} {r : Run} {d d' : Desk ε} {e : Happening}

/-- What holds of a desk after every history. -/
structure InOrder (r : Run) (d : Desk ε) : Prop where
  tied : d.Tied
  tracks : d.held.Tracks r
  ended : d.held.isOver = true → d.held.feed.isTerminal = true
  locked : Locked d.held d.calls

theorem InOrder.change_act (h : InOrder r d) (e : Happening) : Change d e (d.act e) :=
  h.tied.change_act h.ended e

theorem Change.task_eq (hc : Change d e d') : d'.task = d.task := by
  cases hc with
  | _ => rfl

theorem Change.own (hc : Change d e d') (h : ∀ c ∈ d.calls, c.request.task = d.task) :
    ∀ c ∈ d'.calls, c.request.task = d'.task := by
  have noted : ∀ {i : Nat} {q : ResumeRequest} {old state : CallState},
      d.calls[i]? = some ⟨q, old⟩ → ∀ c ∈ d.calls.set i ⟨q, state⟩, c.request.task = d.task := by
    intro i q old state hi c hc
    rcases List.mem_or_eq_of_mem_set hc with hc | rfl
    · exact h c hc
    · exact h ⟨q, old⟩ (List.mem_of_getElem? hi)
  cases hc with
  | call hq =>
    intro c hc
    rcases List.mem_append.1 hc with hc | hc
    · exact h c hc
    · obtain rfl := List.mem_singleton.1 hc
      exact hq
  | refuse hi => exact noted hi
  | send hi => exact noted hi
  | collect hi => exact noted hi
  | _ => exact h

theorem InOrder.tied_change (h : InOrder r d) (hc : Change d e d') : d'.Tied where
  own := hc.own h.tied.own
  live := by
    cases hc with
    | idle => exact h.tied.live
    | step _ hlive => exact Or.inl hlive
    | release hphase _ hnone => exact Or.inr ⟨hnone, hphase⟩
    | deliver _ hlive => exact Or.inl hlive
    | stop _ _ hlive => exact Or.inl hlive
    | call => exact h.tied.live
    | refuse => exact h.tied.live
    | send _ _ _ _ hlive => exact Or.inl hlive
    | collect _ _ _ hlive =>
      refine h.tied.live.imp (fun hsome => ?_) (And.imp_left fun hnone => ?_)
      · exact hlive.trans (by rw [hsome]; rfl)
      · exact hlive.trans (by rw [hnone]; rfl)
    | forget _ hlive => exact h.tied.live.imp hlive.trans (And.imp_left hlive.trans)

/-- Whatever happens changes what is held in one of the ways of a live task, or not at all. -/
theorem Change.held (hc : Change d e d') : d'.held = d.held ∨ d.held.Happens d'.held := by
  cases hc with
  | step hstep => exact Or.inr (.step hstep)
  | deliver => exact Or.inr (.deliver _)
  | stop => exact Or.inr .raiseStop
  | send => exact Or.inr (.send _)
  | collect => exact Or.inr (.collect _)
  | _ => exact Or.inl rfl

theorem InOrder.locked_change (h : InOrder r d) (hc : Change d e d') :
    Locked d'.held d'.calls := by
  cases hc with
  | idle => exact h.locked
  | step hstep => exact h.locked.step (Live.turn_of_step? hstep).1
  | release => exact h.locked
  | deliver => exact h.locked.congr rfl rfl rfl id
  | stop => exact h.locked.congr rfl rfl rfl id
  | call =>
    apply h.locked.concat
    show d.opening _ ≠ .sent
    unfold opening
    split
    · nofun
    · nofun
  | refuse hi => exact h.locked.refuse hi _
  | send hi hcaller hlive => exact h.locked.send hi hcaller hlive
  | collect _ hanswer => exact h.locked.collect hanswer
  | forget => exact h.locked

theorem InOrder.over_change (h : InOrder r d) (hc : Change d e d')
    (hover : d'.held.isOver = true) : d'.held.feed.isTerminal = true := by
  cases hc with
  | step hstep => exact h.tracks.isTerminal_of_step? hstep hover
  | _ => exact h.ended hover

theorem InOrder.act (h : InOrder r d) (e : Happening) : InOrder r (d.act e) := by
  have hc := h.change_act e
  refine ⟨h.tied_change hc, ?_, h.over_change hc, h.locked_change hc⟩
  rcases hc.held with hsame | hhappens
  · rw [hsame]
    exact h.tracks
  · exact h.tracks.happens hhappens

theorem InOrder.acts (h : InOrder r d) (es : List Happening) : InOrder r (d.acts es) := by
  induction es generalizing d with
  | nil => exact h
  | cons e es ih => exact ih (h.act e)

theorem InOrder.task_acts (h : InOrder r d) (es : List Happening) : (d.acts es).task = d.task := by
  induction es generalizing d with
  | nil => rfl
  | cons e es ih => exact (ih (h.act e)).trans (h.change_act e).task_eq

/-- Later the run is where some actions lead to. -/
theorem InOrder.exists_acts (h : InOrder r d) (es : List Happening) :
    ∃ as, (d.acts es).held.run = d.held.run.acts as := by
  have hself : InOrder d.held.run d := ⟨h.tied, ⟨h.tracks.steady, [], rfl⟩, h.ended, h.locked⟩
  exact (hself.acts es).tracks.reached

/-! ### The beginning -/

theorem feed_of_begin {g : Graph} {limit : Nat} {startInputs : Dict Value} {pool : Pool}
    {feed : Feed} {now : Instant} (h : Run.begin g limit startInputs pool feed now = .ok r) :
    r.feed = feed := by
  unfold Run.begin at h
  cases horder : g.order with
  | error e =>
    rw [horder] at h
    cases h
  | ok order =>
    rw [horder] at h
    cases h
    rfl

/-- A task that was launched has nothing but its run. -/
theorem Opened.exists_run {s : Service ε} {p : TaskPlan} {conversation request : String}
    (h : d.Opened s p conversation request) :
    ∃ run, d.held = { run } ∧
      Run.Launched p.graph s.config.concurrency p.seed.inputs p.seed.pool run ∧
      run.feed.snapshot.task = d.task ∧ run.feed.snapshot.app = p.app ∧
      run.feed.snapshot.revision = run.feed.journal.length ∧
      d.service.store = (s.store.trySave run.feed.snapshot).1 := by
  have hlaunch := h.launched
  unfold Service.launch at hlaunch
  dsimp only [Service.drawId] at hlaunch
  split at hlaunch
  · cases (Prod.mk.inj hlaunch).1
  · next run hbegin =>
    obtain ⟨hids, hservice⟩ := Prod.mk.inj hlaunch
    have htask := (Prod.mk.inj (Except.ok.inj hids)).1
    have halive := h.alive
    rw [← hservice, ← htask] at halive
    have hheld := Option.some.inj (halive.symm.trans (Dict.at?_put_self ..))
    have hfeed := feed_of_begin hbegin
    have hwritten := Feed.extends_setStatus run.feed .executing none run.now
    refine ⟨_, hheld, ⟨h.built, _, _, run, rfl, rfl, hbegin, rfl⟩, hwritten.task.trans ?_,
      hwritten.app.trans ?_, hwritten.revision ?_, ?_⟩
    · rw [hfeed, ← htask]
      rfl
    · rw [hfeed]
      rfl
    · rw [hfeed]
      rfl
    · rw [← hservice]

theorem Opened.inOrder {s : Service ε} {p : TaskPlan} {conversation request : String}
    (h : d.Opened s p conversation request) :
    InOrder d.held.run d ∧
      Run.Launched p.graph s.config.concurrency p.seed.inputs p.seed.pool d.held.run := by
  obtain ⟨run, hheld, hlaunched, -⟩ := h.exists_run
  rw [hheld]
  refine ⟨⟨⟨Or.inl h.alive, ?_⟩, ?_, ?_, ?_⟩, hlaunched⟩
  · rw [h.uncalled]
    nofun
  · rw [hheld]
    exact ⟨fun _ => hlaunched.steady, [], rfl⟩
  · rw [hheld]
    nofun
  · rw [h.uncalled, hheld]
    exact .free rfl rfl rfl nofun

/-! ### Calls are kept -/

/-- The request of a call never changes, and what it returned is never taken back. -/
theorem Change.call? (hc : Change d e d') {i : Nat} {c : Call} (hi : d.calls[i]? = some c) :
    ∃ state, d'.calls[i]? = some ⟨c.request, state⟩ ∧
      ∀ a, c.state = .returned a → state = .returned a := by
  have noted : ∀ {j : Nat} {q : ResumeRequest} {old state : CallState},
      d.calls[j]? = some ⟨q, old⟩ → (∀ a, old ≠ .returned a) →
      ∃ state', (d.calls.set j ⟨q, state⟩)[i]? = some ⟨c.request, state'⟩ ∧
        ∀ a, c.state = .returned a → state' = .returned a := by
    intro j q old state hj hold
    rw [call?_set hj]
    split
    · next hji =>
      subst hji
      obtain rfl := Option.some.inj (hj.symm.trans hi)
      exact ⟨state, rfl, fun a ha => absurd ha (hold a)⟩
    · exact ⟨c.state, hi, fun _ ha => ha⟩
  cases hc with
  | call =>
    have hlt := (List.getElem?_eq_some_iff.1 hi).1
    exact ⟨c.state, (List.getElem?_append_left hlt).trans hi, fun _ ha => ha⟩
  | refuse hj => exact noted hj nofun
  | send hj => exact noted hj nofun
  | collect hj => exact noted hj nofun
  | _ => exact ⟨c.state, hi, fun _ ha => ha⟩

end Desk
end Flowrun
