import Flowrun.Proofs.Service.Operations
import Flowrun.Service.Read

/-!
# How a task is handed over to the store

A task is read from its feed while it is alive, and from the store after that. In between, the
store may refuse any save, and other tasks are started, go on and are released. A `Dealing` is what
happens to a task or its callers, or an operation on the rest of the service.

A task is only released when its last snapshot was saved (`Filed`), so whoever reads it is always
given the snapshot that its callers hold:

    Filed d → d.service.snapshot d.task = .ok d.held.feed.snapshot

Something may be taken out of the store all the same; it still has nothing newer than the task and
no other last snapshot of a released one (`Housed`).

While all is kept, a task is never lost, its revision never falls, and a terminal snapshot stays as
it is. A task that has ended answers to a stop and to a resume with what its last snapshot says,
whether it is still held by the service or not.
-/

namespace Flowrun

/-! ### What happens to a task and around it -/

/-- Something that happens to a task or its callers, or something that is done with the service. -/
inductive Dealing
  | here (e : Happening)
  /-- An operation that is not about the task. -/
  | elsewhere (o : Service.Operation)

namespace Desk

open Service (Frame Operation)

variable {ε : Type} {r : Run} {d d' : Desk ε} {e : Happening} {x : Dealing} {i : Nat}
  {q : ResumeRequest} {p : Snapshot}

/-- The desk after something happened. -/
def deal (d : Desk ε) : Dealing → Desk ε
  | .here e => d.act e
  | .elsewhere o =>
    if o.task? = some d.task then d else { d with service := d.service.operate o }

def deals (d : Desk ε) (xs : List Dealing) : Desk ε := xs.foldl deal d

theorem deals_append (d : Desk ε) (xs more : List Dealing) :
    d.deals (xs ++ more) = (d.deals xs).deals more := List.foldl_append

theorem deals_here (d : Desk ε) (es : List Happening) : d.deals (es.map .here) = d.acts es :=
  List.foldl_map

/-- What the service has of the task is about it, and follows its run. -/
theorem InOrder.own (h : InOrder r d) (hown : d.held.feed.snapshot.task = d.task) (l : Live)
    (hl : d.service.live? d.task = some l) : l.Own d.task := by
  rcases h.tied.live with hlive | ⟨hnone, -⟩
  · obtain rfl := Option.some.inj (hlive.symm.trans hl)
    exact ⟨hown, r, h.tracks⟩
  · cases hnone.symm.trans hl

/-- What happens to a task touches no other one. -/
theorem InOrder.frame_act (h : InOrder r d) (hown : d.held.feed.snapshot.task = d.task)
    (e : Happening) : Frame d.task d.service (d.act e).service := by
  cases e with
  | step =>
    dsimp only [Desk.act]
    split
    · next s hs => exact (Service.advance_stepTask? (h.own hown) hs).frame
    · exact .refl ..
  | deliver a => exact (Service.advance_deliver d.service d.task a).frame
  | stop => exact (Service.advance_stop d.service d.task).frame
  | call q =>
    dsimp only [Desk.act]
    split
    · exact .refl ..
    · exact .refl ..
  | turn i =>
    dsimp only [Desk.act]
    split
    · next q hi =>
      have hq : q.task = d.task := h.tied.own _ (List.mem_of_getElem? hi)
      have hframe : ∀ {answer s}, d.service.sendResume? d.held q i = some (answer, s) →
          Frame d.task d.service s := by
        intro answer s hs
        rcases Service.sendResume?_cases hs with rfl | rfl
        · exact .refl ..
        · rw [hq]
          exact Service.frame_putLive ..
      unfold Desk.turn
      split
      · exact .refl ..
      · next hs => exact hframe hs
      · next hs => exact hframe hs
    · exact .refl ..
  | collect i =>
    dsimp only [Desk.act]
    split
    · next q hi =>
      unfold Desk.collect
      split
      · next hs => exact (Service.advance_collectAnswer? hs).frame
      · split
        · exact .refl ..
        · split
          · exact .refl ..
          · exact .refl ..
    · exact .refl ..
  | forget => exact Service.frame_delete ..

/-- What holds whatever becomes of the store. It may have nothing of the task, but it has nothing
newer, and what it has of a task that may be released is the last snapshot. -/
structure Housed (d : Desk ε) : Prop where
  tidy : d.service.Tidy
  drawn : ¬ d.service.ids.Ahead d.task
  task : d.held.feed.snapshot.task = d.task
  counted : d.held.feed.snapshot.revision = d.held.feed.journal.length
  stored : ∀ p, d.service.store.rows.at? d.task = some p →
    p.revision ≤ d.held.feed.snapshot.revision ∧
      (d.held.phase = .closing true → p = d.held.feed.snapshot)

/-- What holds while nothing of the task is taken out of the store: the store has nothing newer
than the task, and has the task as it is when that may be released. -/
structure Filed (d : Desk ε) : Prop where
  tidy : d.service.Tidy
  drawn : ¬ d.service.ids.Ahead d.task
  task : d.held.feed.snapshot.task = d.task
  counted : d.held.feed.snapshot.revision = d.held.feed.journal.length
  older : ∀ p, d.service.store.rows.at? d.task = some p →
    p.revision ≤ d.held.feed.snapshot.revision
  filed : d.held.phase = .closing true →
    d.service.store.rows.at? d.task = some d.held.feed.snapshot

theorem Filed.housed (h : d.Filed) : d.Housed where
  tidy := h.tidy
  drawn := h.drawn
  task := h.task
  counted := h.counted
  stored p hp := ⟨h.older p hp, fun hphase => Option.some.inj (hp.symm.trans (h.filed hphase))⟩

theorem Housed.filed (h : d.Housed) (hrow : d.held.phase = .closing true →
    d.service.store.rows.at? d.task = some d.held.feed.snapshot) : d.Filed where
  tidy := h.tidy
  drawn := h.drawn
  task := h.task
  counted := h.counted
  older p hp := (h.stored p hp).1
  filed := hrow

/-- The store has nothing newer than what a task that has gone on saves. -/
theorem Housed.older_of_extends (h : d.Housed) {f : Feed} {added : List Event}
    (hadded : d.held.feed.Extends f added) :
    f.snapshot.task = d.task ∧ ∀ p, d.service.store.rows.at? f.snapshot.task = some p →
      p.revision ≤ f.snapshot.revision := by
  have htask : f.snapshot.task = d.task := hadded.task.trans h.task
  have hrevision : d.held.feed.snapshot.revision ≤ f.snapshot.revision :=
    hadded.revision_le h.counted
  rw [htask]
  exact ⟨rfl, fun p hp => (h.stored p hp).1.trans hrevision⟩

theorem Housed.stored_act (h : d.Housed) (ho : InOrder r d) (e : Happening) {p : Snapshot}
    (hp : (d.act e).service.store.rows.at? d.task = some p) :
    p.revision ≤ (d.act e).held.feed.snapshot.revision ∧
      ((d.act e).held.phase = .closing true → p = (d.act e).held.feed.snapshot) := by
  obtain ⟨added, hadded⟩ := ho.extends_act e
  obtain ⟨htask, holder⟩ := h.older_of_extends hadded
  rcases (ho.change_act e).filing with ⟨hs, hfeed, hphase⟩ | ⟨hs, hsaved⟩ | ⟨-, hs⟩
  · rw [hs] at hp
    rw [hfeed]
    exact ⟨(h.stored p hp).1, fun hclosing => (h.stored p hp).2 (hphase hclosing)⟩
  · rw [hs, ← htask] at hp
    refine ⟨?_, fun hclosing =>
      Option.some.inj (hp.symm.trans (Store.at?_trySave (hsaved hclosing) holder))⟩
    rcases Store.at?_trySave_cases hp with rfl | hbefore
    · exact Nat.le_refl _
    · exact holder p hbefore
  · rw [hs] at hp
    cases hp.symm.trans (Dict.at?_without_self ..)

theorem Housed.act (h : d.Housed) (ho : InOrder r d) (e : Happening) : (d.act e).Housed := by
  obtain ⟨added, hadded⟩ := ho.extends_act e
  have hframe := ho.frame_act h.task e
  have htask : (d.act e).task = d.task := (ho.change_act e).task_eq
  have hown : (d.act e).held.feed.snapshot.task = (d.act e).task :=
    (hadded.task.trans h.task).trans htask.symm
  have hdrawn : ¬ (d.act e).service.ids.Ahead d.task :=
    fun hahead => h.drawn (hframe.drawn _ hahead)
  have hstored := fun p => h.stored_act ho e (p := p)
  rw [← htask] at hframe hdrawn hstored
  exact ⟨h.tidy.frame hframe hdrawn ((ho.act e).own hown), hdrawn, hown,
    hadded.revision h.counted, hstored⟩

theorem Filed.act (h : d.Filed) (ho : InOrder r d) (he : e ≠ .forget) : (d.act e).Filed := by
  obtain ⟨added, hadded⟩ := ho.extends_act e
  obtain ⟨hown, holder⟩ := h.housed.older_of_extends hadded
  have htask : (d.act e).task = d.task := (ho.change_act e).task_eq
  refine (h.housed.act ho e).filed fun hclosing => ?_
  rcases (ho.change_act e).filing with ⟨hs, hfeed, hphase⟩ | ⟨hs, hsaved⟩ | ⟨hforget, -⟩
  · rw [hs, hfeed, htask]
    exact h.filed (hphase hclosing)
  · rw [hs, htask, ← hown]
    exact Store.at?_trySave (hsaved hclosing) holder
  · exact absurd hforget he

/-! ### What is done elsewhere -/

/-- What is not about the task leaves it as it is. -/
theorem Housed.untouched_operate (h : d.Housed) {o : Operation} (ho : o.task? ≠ some d.task) :
    { d with service := d.service.operate o }.Housed ∧
      Service.Untouched d.task d.service (d.service.operate o) := by
  obtain ⟨htidy, hothers⟩ := h.tidy.operate o
  have hsame := hothers d.task ho h.drawn
  refine ⟨⟨htidy, fun hahead => h.drawn (hsame.drawn hahead), h.task, h.counted, ?_⟩, hsame⟩
  show ∀ p, (d.service.operate o).store.rows.at? d.task = some p → _
  rw [hsame.row]
  exact h.stored

theorem InOrder.of_untouched (h : InOrder r d) {s : Service ε}
    (hsame : Service.Untouched d.task d.service s) : InOrder r { d with service := s } := by
  refine ⟨⟨?_, h.tied.own⟩, h.tracks, h.ended, h.locked⟩
  show s.live? d.task = some d.held ∨ s.live? d.task = none ∧ _
  rw [hsame.live]
  exact h.tied.live

/-- A task that is dealt with goes on to be in order. -/
theorem Housed.deal (h : d.Housed) (ho : InOrder r d) (x : Dealing) :
    (d.deal x).Housed ∧ InOrder r (d.deal x) := by
  cases x with
  | here e => exact ⟨h.act ho e, ho.act e⟩
  | elsewhere o =>
    unfold Desk.deal
    dsimp only
    split
    · exact ⟨h, ho⟩
    · next hother =>
      obtain ⟨hhoused, hsame⟩ := h.untouched_operate hother
      exact ⟨hhoused, ho.of_untouched hsame⟩

/-- A desk that is in order stays so, and nothing is taken out of the store. -/
theorem Filed.deal (h : d.Filed) (ho : InOrder r d) (hx : x ≠ .here .forget) :
    (d.deal x).Filed ∧ InOrder r (d.deal x) := by
  obtain ⟨hhoused, hin⟩ := h.housed.deal ho x
  refine ⟨?_, hin⟩
  cases x with
  | here e =>
    refine h.act ho ?_
    rintro rfl
    exact hx rfl
  | elsewhere o =>
    unfold Desk.deal at hhoused ⊢
    dsimp only at hhoused ⊢
    split at hhoused
    · next hself =>
      rw [if_pos hself]
      exact h
    · next hother =>
      rw [if_neg hother]
      refine hhoused.filed fun hclosing => ?_
      show (d.service.operate o).store.rows.at? d.task = _
      rw [(h.housed.untouched_operate hother).2.row]
      exact h.filed hclosing

theorem task_deal (ho : InOrder r d) (x : Dealing) : (d.deal x).task = d.task := by
  cases x with
  | here e => exact (ho.change_act e).task_eq
  | elsewhere o =>
    unfold deal
    dsimp only
    split
    · rfl
    · rfl

/-- The run goes on by actions, whatever happens around it. -/
theorem InOrder.exists_acts_deal (h : InOrder r d) (x : Dealing) :
    ∃ as, (d.deal x).held.run = d.held.run.acts as := by
  cases x with
  | here e => exact h.exists_acts [e]
  | elsewhere o =>
    refine ⟨[], ?_⟩
    unfold deal
    dsimp only
    split
    · rfl
    · rfl

theorem InOrder.extends_deal (h : InOrder r d) (x : Dealing) :
    ∃ added, d.held.feed.Extends (d.deal x).held.feed added := by
  cases x with
  | here e => exact h.extends_act e
  | elsewhere o =>
    refine ⟨[], ?_⟩
    unfold deal
    dsimp only
    split
    · exact .refl _
    · exact .refl _

/-- A task that has ended stays as it is. -/
theorem InOrder.feed_deal (h : InOrder r d) (hended : d.held.feed.isTerminal = true)
    (x : Dealing) : (d.deal x).held.feed = d.held.feed := by
  obtain ⟨as, has⟩ := h.exists_acts_deal x
  unfold Live.feed
  rw [has, Run.acts_of_isTerminal hended]

/-- Whatever happens, all of this goes on to hold, and the task only adds to its feed. -/
theorem Filed.deals (h : d.Filed) (ho : InOrder r d) {xs : List Dealing}
    (hxs : .here .forget ∉ xs) :
    (d.deals xs).Filed ∧ InOrder r (d.deals xs) ∧ (d.deals xs).task = d.task ∧
      (∃ added, d.held.feed.Extends (d.deals xs).held.feed added) ∧
      (d.held.feed.isTerminal = true → (d.deals xs).held.feed = d.held.feed) := by
  induction xs generalizing d with
  | nil => exact ⟨h, ho, rfl, ⟨[], .refl _⟩, fun _ => rfl⟩
  | cons x xs ih =>
    obtain ⟨hx, hxs⟩ := List.ne_and_not_mem_of_not_mem_cons hxs
    obtain ⟨hfiled, hafter⟩ := h.deal ho hx.symm
    obtain ⟨hfiled, hin, htask, ⟨more, hmore⟩, hsame⟩ := ih hfiled hafter hxs
    obtain ⟨added, hadded⟩ := ho.extends_deal x
    refine ⟨hfiled, hin, htask.trans (task_deal ho x), ⟨_, hadded.trans hmore⟩, fun hended => ?_⟩
    have hfeed := ho.feed_deal hended x
    exact (hsame (hfeed ▸ hended)).trans hfeed

/-! ### Reading and stopping -/

/-- Whoever reads the task is given it as its callers hold it. -/
theorem Filed.snapshot_eq (h : d.Filed) (ho : InOrder r d) :
    d.service.snapshot d.task = .ok d.held.feed.snapshot := by
  unfold Service.snapshot
  rcases ho.tied.live with hlive | ⟨hnone, hphase⟩
  · rw [hlive]
  · have hload := Store.load_eq_ok_iff.2 ⟨h.tidy.loads, h.filed hphase⟩
    rw [hnone, hload]

/-- A task that has ended is not stopped. -/
theorem Filed.stop_eq (h : d.Filed) (ho : InOrder r d) (hended : d.held.feed.isTerminal = true) :
    d.service.stop d.task =
      (.error (.terminated d.task d.held.feed.snapshot.status), d.service) := by
  unfold Service.stop
  rcases ho.tied.live with hlive | ⟨hnone, hphase⟩
  · rw [hlive]
    dsimp only
    rw [if_pos hended]
    rfl
  · have hload := Store.load_eq_ok_iff.2 ⟨h.tidy.loads, h.filed hphase⟩
    have hended : d.held.feed.snapshot.isTerminal = true := hended
    rw [hnone, hload]
    dsimp only
    rw [if_pos hended]

/-! ### Resuming -/

/-- The answer to a call that resumes a task of which the last snapshot is known. -/
def refusal (p : Snapshot) (q : ResumeRequest) : Except TaskError Unit :=
  .error (if q.app = "" ∨ p.app = q.app then .staleResume q.target p.resumeTarget p.status
    else .taskNotFound q.task)

/-- A call that waits for its turn, or has got the answer that the last snapshot gives. -/
inductive Refused (p : Snapshot) (d : Desk ε) (i : Nat) (q : ResumeRequest) : Prop
  | queued : (q.app = "" ∨ p.app = q.app) → d.calls[i]? = some ⟨q, .queued⟩ → Refused p d i q
  | returned : d.calls[i]? = some ⟨q, .returned (refusal p q)⟩ → Refused p d i q

/-- A call that comes when the task has ended. -/
theorem Filed.refused_call (h : d.Filed) (ho : InOrder r d)
    (hended : d.held.feed.isTerminal = true) (hq : q.task = d.task) :
    Refused d.held.feed.snapshot (d.act (.call q)) d.calls.length q := by
  have hcall : (d.act (.call q)).calls[d.calls.length]? = some ⟨q, d.opening q⟩ := by
    simp [Desk.act, hq]
  unfold opening Service.resumable at hcall
  rw [hq] at hcall
  rcases ho.tied.live with hlive | ⟨hnone, hphase⟩
  · rw [hlive] at hcall
    dsimp only at hcall
    split at hcall
    · next hfound =>
      refine .queued ?_ hcall
      grind
    · next e herror =>
      refine .returned ?_
      rw [hcall]
      unfold refusal
      rw [if_neg ?_]
      · grind
      · grind
  · have hload := Store.load_eq_ok_iff.2 ⟨h.tidy.loads, h.filed hphase⟩
    have hended : d.held.feed.snapshot.isTerminal = true := hended
    rw [hnone] at hcall
    dsimp only at hcall
    unfold Service.rejectReleased at hcall
    rw [hq, hload] at hcall
    simp only [hended, and_true] at hcall
    refine .returned ?_
    unfold refusal
    rw [hcall, hq]

/-- A call that waits goes on to wait until it gets its turn. -/
theorem Change.queued (hc : Change d e d') (hi : d.calls[i]? = some ⟨q, .queued⟩)
    (he : e ≠ .turn i) : d'.calls[i]? = some ⟨q, .queued⟩ := by
  have other : ∀ {j : Nat} {c : Call}, i ≠ j → (d.calls.set j c)[i]? = some ⟨q, .queued⟩ := by
    intro j c hij
    rw [List.getElem?_set_ne hij.symm]
    exact hi
  cases hc with
  | call =>
    have hlt := (List.getElem?_eq_some_iff.1 hi).1
    exact (List.getElem?_append_left hlt).trans hi
  | refuse =>
    apply other
    rintro rfl
    exact he rfl
  | send =>
    apply other
    rintro rfl
    exact he rfl
  | collect hsent =>
    apply other
    rintro rfl
    cases hsent.symm.trans hi
  | _ => exact hi

/-- A call that gets its turn when the task has ended is refused, unless another call is still
under way. -/
theorem turn_of_isTerminal (ho : InOrder r d) (hended : d.held.feed.isTerminal = true)
    (i : Nat) (q : ResumeRequest) :
    d.turn i q = d ∨ d.turn i q = d.note i q (.returned (.error (.staleResume q.target
      d.held.feed.snapshot.resumeTarget d.held.feed.snapshot.status))) := by
  have hcheck : Service.checkResume d.held.feed q = .error (.staleResume q.target
      d.held.feed.snapshot.resumeTarget d.held.feed.snapshot.status) := by
    unfold Service.checkResume
    rw [if_neg]
    · rfl
    · rintro ⟨hpaused, -⟩
      rw [Feed.isTerminal, hpaused] at hended
      cases hended
  unfold turn Service.sendResume?
  by_cases hcaller : d.held.caller.isSome = true
  · rw [if_pos hcaller]
    exact Or.inl rfl
  · rw [if_neg hcaller, hcheck]
    dsimp only
    rw [ho.tied.follow_self]
    exact Or.inr rfl

/-- After the task has ended, a call can only get the answer that the last snapshot gives. -/
theorem Refused.deal (hr : Refused p d i q) (ho : InOrder r d) (hp : d.held.feed.snapshot = p)
    (hended : d.held.feed.isTerminal = true) (x : Dealing) : Refused p (d.deal x) i q := by
  cases x with
  | elsewhere o =>
    unfold Desk.deal
    dsimp only
    split
    · exact hr
    · cases hr with
      | queued happ hi => exact .queued happ hi
      | returned hi => exact .returned hi
  | here e =>
    have hc := ho.change_act e
    cases hr with
    | returned hi =>
      obtain ⟨state, hstate, hkept⟩ := hc.call? hi
      rw [hkept _ rfl] at hstate
      exact .returned hstate
    | queued happ hi =>
      by_cases he : e = .turn i
      · subst he
        have hturn : d.deal (.here (.turn i)) = d.turn i q := by
          dsimp only [Desk.deal, Desk.act]
          rw [hi]
        rw [hturn]
        rcases turn_of_isTerminal ho hended i q with hwaits | hrefused
        · exact .queued happ (by rw [hwaits, hi])
        · refine .returned ?_
          rw [hrefused, hp]
          unfold note refusal
          rw [call?_set hi, if_pos rfl, if_pos happ]
      · exact .queued happ (hc.queued hi he)

theorem Refused.deals (hr : Refused p d i q) (h : d.Filed) (ho : InOrder r d)
    (hp : d.held.feed.snapshot = p) (hended : d.held.feed.isTerminal = true) {xs : List Dealing}
    (hxs : .here .forget ∉ xs) : Refused p (d.deals xs) i q := by
  induction xs generalizing d with
  | nil => exact hr
  | cons x xs ih =>
    obtain ⟨hx, hxs⟩ := List.ne_and_not_mem_of_not_mem_cons hxs
    obtain ⟨hfiled, hafter⟩ := h.deal ho hx.symm
    have hsame := ho.feed_deal hended x
    exact ih (hr.deal ho hp hended x) hfiled hafter (hsame ▸ hp) (hsame ▸ hended) hxs

/-- What a task and its callers do on their own takes nothing out of the store. -/
theorem forget_notMem {es : List Happening} (h : ∀ e ∈ es, e.IsOwn) :
    .here .forget ∉ es.map Dealing.here := by
  intro hmem
  obtain ⟨e, he, heq⟩ := List.mem_map.1 hmem
  cases heq
  exact (h _ he).elim

/-- A call that comes when the task has ended always comes to an end, and what it returns is the
answer that the last snapshot gives. -/
theorem Filed.answer_of_isTerminal (h : d.Filed) (ho : InOrder r d)
    (hended : d.held.feed.isTerminal = true) (hq : q.task = d.task) {xs : List Dealing}
    (hxs : .here .forget ∉ xs) :
    (∀ a, ((d.act (.call q)).deals xs).calls[d.calls.length]? = some ⟨q, .returned a⟩ →
        a = refusal d.held.feed.snapshot q) ∧
      ∃ es : List Happening, (∀ e ∈ es, e.IsOwn) ∧
        (((d.act (.call q)).deals xs).acts es).calls[d.calls.length]? =
          some ⟨q, .returned (refusal d.held.feed.snapshot q)⟩ := by
  have hcalled := h.refused_call ho hended hq
  have hfiled : (d.act (.call q)).Filed := h.act ho nofun
  have hin := ho.act (.call q)
  have hsame := ho.feed_deal hended (.here (.call q))
  replace hsame : (d.act (.call q)).held.feed = d.held.feed := hsame
  have refused : ∀ {more : List Dealing}, .here .forget ∉ more →
      Refused d.held.feed.snapshot ((d.act (.call q)).deals more) d.calls.length q := fun hmore =>
    hcalled.deals hfiled hin (congrArg Feed.snapshot hsame) (hsame ▸ hended) hmore
  have answer : ∀ {more : List Dealing} {a : Except TaskError Unit}, .here .forget ∉ more →
      ((d.act (.call q)).deals more).calls[d.calls.length]? = some ⟨q, .returned a⟩ →
        a = refusal d.held.feed.snapshot q := by
    intro more a hmore ha
    cases refused hmore with
    | queued _ hi => cases hi.symm.trans ha
    | returned hi =>
      cases hi.symm.trans ha
      rfl
  refine ⟨fun a => answer hxs, ?_⟩
  obtain ⟨-, hafter, -⟩ := hfiled.deals hin hxs
  obtain ⟨state, hstate⟩ : ∃ state, ((d.act (.call q)).deals xs).calls[d.calls.length]? =
      some ⟨q, state⟩ := by
    cases refused hxs with
    | queued _ hi => exact ⟨_, hi⟩
    | returned hi => exact ⟨_, hi⟩
  obtain ⟨es, a, hown, ha⟩ := hafter.exists_return hstate
  refine ⟨es, hown, ?_⟩
  have hmore : .here .forget ∉ xs ++ es.map Dealing.here := fun hmem =>
    (List.mem_append.1 hmem).elim hxs (forget_notMem hown)
  rw [← deals_here, ← deals_append] at ha ⊢
  rw [← answer hmore ha]
  exact ha

end Desk

/-! ### Tasks that were created -/

namespace Service

variable {ε : Type} {s s' : Service ε} {task : String}

/-- A task was created on a published app or on a part of a workflow. -/
inductive Creates (s : Service ε) (task : String) (s' : Service ε) : Prop
  | app {q : CreateRequest} {a : CreateResponse} :
      s.create q = (.ok a, s') → a.task = task → Creates s task s'
  | part {q : PartRequest} {a : PartResponse} :
      s.startPart q = (.ok a, s') → a.task = task → Creates s task s'

/-- A task of a service that nobody has called yet. -/
def desk (s : Service ε) (task : String) : Desk ε :=
  { service := s, task, held := (s.live? task).getD default }

theorem task_of_launch {p : TaskPlan} {conversation request : String}
    (h : s.launch p conversation = (.ok (task, request), s')) : task = s.ids.next := by
  unfold launch at h
  dsimp only [drawId] at h
  split at h
  · cases h
  · cases h
    rfl

/-- A task that was created was planned and launched. -/
theorem Creates.exists_planned (h : s.Creates task s') :
    ∃ s₁ p conversation request, s.Planned p ∧ (s.Tidy → Tidy s₁) ∧
      launch s₁ p conversation = (.ok (task, request), s') := by
  cases h with
  | @app q a hcreate htask =>
    subst htask
    unfold create at hcreate
    split at hcreate
    · cases hcreate
    · next p hp =>
      split at hcreate
      next conversation s₁ hfirst =>
      have htidy : s.Tidy → Tidy s₁ := by
        split at hfirst
        · cases hfirst
          exact id
        · cases hfirst
          exact fun hs => hs.drawId.tidy
      split at hcreate
      · cases hcreate
      · next hlaunch =>
        cases hcreate
        exact ⟨s₁, p, conversation, _, Or.inl ⟨q, hp⟩, htidy, hlaunch⟩
  | @part q a hstart htask =>
    subst htask
    unfold startPart at hstart
    split at hstart
    · cases hstart
    · next p hp =>
      dsimp only at hstart
      split at hstart
      · cases hstart
      · next hlaunch =>
        cases hstart
        exact ⟨_, p, _, _, Or.inr ⟨q, hp⟩, fun hs => hs.drawId.tidy, hlaunch⟩

/-- A task that was created is alive under its id. -/
theorem Creates.exists_opened (h : s.Creates task s') (hs : s.Tidy) :
    ∃ s₁ p conversation request, Tidy s₁ ∧ (s'.desk task).Opened s₁ p conversation request := by
  obtain ⟨s₁, p, conversation, request, hp, htidy, hlaunch⟩ := h.exists_planned
  have hbuilt := hp.built hs.built
  obtain ⟨l, hlive, -⟩ := exists_launched hbuilt hlaunch
  refine ⟨s₁, p, conversation, request, htidy hs, hbuilt, hlaunch, ?_, rfl⟩
  show s'.live? task = some ((s'.live? task).getD default)
  rw [hlive]
  rfl

end Service

namespace Desk

variable {ε : Type} {d : Desk ε}

/-- A task that was launched is read as it is, whether it could be saved or not. -/
theorem Opened.filed {s : Service ε} {p : TaskPlan} {conversation request : String}
    (h : d.Opened s p conversation request) (hs : s.Tidy) : d.Filed := by
  obtain ⟨run, hheld, -, htask, -, hcounted, hstore⟩ := h.exists_run
  have htidy : d.service.Tidy := by
    have hstarts := hs.launch h.built conversation
    rw [h.launched] at hstarts
    exact hstarts.tidy
  have hnone : s.store.rows.at? run.feed.snapshot.task = none := by
    rw [htask, Service.task_of_launch h.launched]
    exact (hs.fresh _ s.ids.ahead_next).2
  refine ⟨htidy, htidy.not_ahead h.alive, ?_, ?_, ?_, ?_⟩
  · rw [hheld]
    exact htask
  · rw [hheld]
    exact hcounted
  · rw [hstore, ← htask, hheld]
    intro p hp
    rcases Store.at?_trySave_cases hp with rfl | hbefore
    · exact Nat.le_refl _
    · cases hnone.symm.trans hbefore
  · rw [hheld]
    nofun

/-- A task is not lost when the service hands it over to the store. Let a service begin with
nothing but a store that can be read, let anything be done with it, and let a task then be created.
Whatever happens from then on, saves that fail included, as long as nothing is taken out of the
store: the task can be read, and it is read as its callers hold it; the revision that is read never
falls; and once a terminal snapshot was read, that one is read forever. From then on a stop is
answered with what this snapshot says, and every call to resume the task that comes comes to an end
with what it says, no matter whether the task was released. -/
theorem handed_over {s s' : Service ε} (hs : s.IsNew) (os : List Service.Operation)
    {task : String} (hcreates : (s.operates os).Creates task s') {xs more : List Dealing}
    (hkept : .here .forget ∉ xs ++ more) :
    let d := (s'.desk task).deals xs
    let d' := (s'.desk task).deals (xs ++ more)
    ∃ p p', d.service.snapshot task = .ok p ∧ d'.service.snapshot task = .ok p' ∧
      p = d.held.feed.snapshot ∧ p.revision ≤ p'.revision ∧
      (p.isTerminal = true → p' = p ∧
        d'.service.stop task = (.error (.terminated task p.status), d'.service) ∧
        ∀ q : ResumeRequest, q.task = task → ∀ rest : List Dealing, .here .forget ∉ rest →
          let called := (d'.act (.call q)).deals rest
          (∀ a, called.calls[d'.calls.length]? = some ⟨q, .returned a⟩ → a = refusal p q) ∧
            ∃ es : List Happening, (∀ e ∈ es, e.IsOwn) ∧
              (called.acts es).calls[d'.calls.length]? = some ⟨q, .returned (refusal p q)⟩) := by
  intro d d'
  obtain ⟨s₁, plan, conversation, request, hs₁, hopened⟩ :=
    hcreates.exists_opened (hs.tidy.operates os)
  obtain ⟨hin, -⟩ := hopened.inOrder
  have hxs : .here .forget ∉ xs := fun hmem => hkept (List.mem_append_left _ hmem)
  have hmore : .here .forget ∉ more := fun hmem => hkept (List.mem_append_right _ hmem)
  obtain ⟨hfiled, hin, htask, -⟩ := (hopened.filed hs₁).deals hin hxs
  have hd : d' = d.deals more := deals_append ..
  obtain ⟨hfiled', hin', htask', ⟨added, hadded⟩, hsame⟩ := hfiled.deals hin hmore
  replace htask : d.task = task := htask
  rw [← hd] at hfiled' hin' htask' hadded hsame
  replace htask' : d'.task = task := htask'.trans htask
  refine ⟨_, _, htask ▸ hfiled.snapshot_eq hin, htask' ▸ hfiled'.snapshot_eq hin', rfl,
    hadded.revision_le hfiled.counted, fun hended => ?_⟩
  have hfeed : d'.held.feed = d.held.feed := hsame hended
  have hended' : d'.held.feed.isTerminal = true := hfeed ▸ hended
  refine ⟨congrArg Feed.snapshot hfeed, ?_, fun q hq rest hrest => ?_⟩
  · have hstop := hfiled'.stop_eq hin' hended'
    rw [htask', hfeed] at hstop
    exact hstop
  · have hanswer := hfiled'.answer_of_isTerminal hin' hended' (hq.trans htask'.symm) hrest
    rw [hfeed] at hanswer
    exact hanswer

end Desk

namespace Sample

/-- A part with one script. -/
def lonePart : PartRequest := { app := "app", nodes := [{ id := "fetch", type := "script" }] }

/-- The script is run while nothing can be saved and another task is started. Just before the task
ends, the store works again. -/
def endedLate : List Dealing :=
  [.here .step, .elsewhere (.startPart lonePart), .here (.deliver ⟨0, succeeded [], 0⟩),
    .here .step, .here .step, .elsewhere (.step "id-4"), .elsewhere (.saves none), .here .step]

end Sample

namespace Desk

/-- A task of which no snapshot could be saved before the last one is released. -/
theorem handed_over_late :
    let os : List Service.Operation := [.saves (some (.storage "full"))]
    let s := Sample.service.operates os
    let s' := (s.startPart Sample.lonePart).2
    let d := (s'.desk "id-1").deals Sample.endedLate
    let d' := (s'.desk "id-1").deals (Sample.endedLate ++ [.here .step])
    Sample.service.IsNew ∧ s.Creates "id-1" s' ∧
      .here .forget ∉ Sample.endedLate ++ [.here .step] ∧
      d.service.isLive "id-1" = true ∧ d'.service.isLive "id-1" = false ∧
      ∃ p, d.service.snapshot "id-1" = .ok p ∧ p.status = .success ∧
        d'.service.snapshot "id-1" = .ok p ∧
        (d'.service.stop "id-1").1 = .error (.terminated "id-1" .success) := by
  intro os
  have hnew : Sample.service.IsNew := ⟨rfl, rfl, fun _ _ => rfl, rfl⟩
  have hstart : ((Sample.service.operates os).startPart Sample.lonePart).1 =
      .ok ⟨"id-1", "id-2"⟩ := by cbv
  have hcreates : (Sample.service.operates os).Creates "id-1"
      ((Sample.service.operates os).startPart Sample.lonePart).2 := .part (Prod.ext hstart rfl) rfl
  have hkept : .here .forget ∉ Sample.endedLate ++ [Dealing.here .step] := by
    simp [Sample.endedLate]
  have hlive : ((((Sample.service.operates os).startPart Sample.lonePart).2.desk "id-1").deals
      Sample.endedLate).service.isLive "id-1" = true := by cbv
  have hreleased : ((((Sample.service.operates os).startPart Sample.lonePart).2.desk "id-1").deals
      (Sample.endedLate ++ [.here .step])).service.isLive "id-1" = false := by cbv
  have hstatus : (((((Sample.service.operates os).startPart Sample.lonePart).2.desk "id-1").deals
      Sample.endedLate).service.snapshot "id-1").map Snapshot.status = .ok .success := by cbv
  obtain ⟨p, p', hp, hp', -, -, hended⟩ := handed_over hnew os hcreates hkept
  rw [hp] at hstatus
  have hsuccess : p.status = .success := Except.ok.inj hstatus
  have hterminal : p.isTerminal = true := by
    unfold Snapshot.isTerminal
    rw [hsuccess]
    rfl
  obtain ⟨rfl, hstop, -⟩ := hended hterminal
  refine ⟨hnew, hcreates, hkept, hlive, hreleased, p', hp, hsuccess, hp', ?_⟩
  rw [hstop, hsuccess]

end Desk
end Flowrun
