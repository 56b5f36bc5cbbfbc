import Flowrun.Proofs.Service.Resume

/-!
# What is done with a service

A service is used by many at once: apps are published, tasks are started, every task takes its
steps, executions report, and callers stop and resume tasks. An `Operation` is any one of these,
and whether the store can save may change at any time.

A service is `Tidy` after all of them: every task that is alive is about the id it is under, its
run is where some actions lead to, and an id that may still be drawn is not in use. So an operation
on one task, or one that starts another task, leaves the rest as it was (`Frame`, `Untouched`).
-/

namespace Flowrun

/-! ### Ids -/

namespace Ids

/-- An id that may still be drawn. -/
def Ahead (ids : Ids) (id : String) : Prop :=
  ∃ n, ids.drawn ≤ n ∧ id = ({ ids with drawn := n } : Ids).next

variable {ids : Ids} {id : String}

theorem ahead_next (ids : Ids) : ids.Ahead ids.next := ⟨ids.drawn, Nat.le_refl _, rfl⟩

theorem Ahead.of_advance (h : ids.advance.Ahead id) : ids.Ahead id := by
  obtain ⟨n, hn, rfl⟩ := h
  exact ⟨n, Nat.le_of_succ_le hn, rfl⟩

/-- No id is drawn twice. -/
theorem not_ahead_next (ids : Ids) : ¬ ids.advance.Ahead ids.next := by
  rintro ⟨n, hn, heq⟩
  obtain rfl : ids.drawn = n := by simpa [next, advance] using heq
  exact Nat.not_succ_le_self _ hn

end Ids

/-! ### Published apps -/

namespace Catalog

theorem get_eq_ok_iff {c : Catalog} {app version : String} {p : PublishedApp} :
    c.get app version = .ok p ↔ (c.apps.at? app).bind (·.at? version) = some p := by
  unfold get
  grind

/-- Of the versions of an app only the new one, which is `latest` too, has another graph. -/
theorem graph_of_withVersion {versions : Dict PublishedApp} {p x : PublishedApp} {v : String}
    (hx : (withVersion versions p).at? v = some x) :
    x.graph = p.graph ∨ versions.at? v = some x := by
  unfold withVersion at hx
  rw [Dict.at?_put] at hx
  split at hx
  · cases hx
    exact Or.inl rfl
  · split at hx
    · exact Or.inr hx
    · rw [Dict.at?_put] at hx
      split at hx
      · cases hx
        exact Or.inl rfl
      · exact Or.inr hx

/-- A version that was published has a graph that was built, and any other one was there before. -/
theorem built_of_get_publish {c c' : Catalog} {app version : String} {w : Workflow} {graph : Graph}
    (h : c.publish app version w = .ok (graph, c')) {a v : String} {p : PublishedApp}
    (hp : c'.get a v = .ok p) : p.graph.Built ∨ c.get a v = .ok p := by
  unfold publish at h
  cases hg : Graph.ofWorkflow w with
  | error e =>
    rw [hg] at h
    cases h
  | ok g =>
    rw [hg] at h
    cases h
    have hbuilt := Graph.built_ofWorkflow hg
    rw [get_eq_ok_iff] at hp ⊢
    rw [Dict.at?_put] at hp
    split at hp
    · next happ =>
      subst happ
      apply (graph_of_withVersion hp).imp
      · intro hgraph
        rw [hgraph]
        exact hbuilt
      · intro hbefore
        cases hversions : c.apps.at? app with
        | none =>
          rw [hversions] at hbefore
          cases hbefore
        | some versions =>
          rw [hversions] at hbefore
          exact hbefore
    · exact Or.inr hp

end Catalog

/-! ### Live tasks -/

namespace Live

variable {l l' : Live} {task : String}

/-- A task under its id, with a run that is where some actions lead to. -/
structure Own (task : String) (l : Live) : Prop where
  task : l.feed.snapshot.task = task
  tracks : ∃ r, l.Tracks r

/-- Whatever happens to a task, it stays the same task. -/
theorem Own.happens (h : l.Own task) (hh : l.Happens l') : l'.Own task := by
  obtain ⟨r, htracks⟩ := h.tracks
  refine ⟨?_, r, htracks.happens hh⟩
  cases hh with
  | raiseStop => exact h.task
  | send => exact h.task
  | deliver => exact h.task
  | collect => exact h.task
  | step hstep =>
    have hsteady := htracks.steady (step?_run hstep).1
    have hself : l.Tracks l.run := ⟨fun _ => hsteady, [], rfl⟩
    obtain ⟨as, has⟩ := (hself.happens (.step hstep)).reached
    obtain ⟨added, hadded⟩ := hsteady.extends_acts as
    unfold feed
    rw [has]
    exact hadded.task.trans h.task

end Live

namespace Service

variable {ε : Type} {s s' s'' : Service ε} {task other : String}

/-! ### Frames -/

/-- A task that is as it was, and whose id is not drawn again. -/
structure Untouched (task : String) (s s' : Service ε) : Prop where
  live : s'.live? task = s.live? task
  row : s'.store.rows.at? task = s.store.rows.at? task
  drawn : s'.ids.Ahead task → s.ids.Ahead task

/-- All that is different is one task. -/
structure Frame (task : String) (s s' : Service ε) : Prop where
  others : ∀ other, other ≠ task → Untouched other s s'
  drawn : ∀ id, s'.ids.Ahead id → s.ids.Ahead id
  catalog : s'.catalog = s.catalog
  loads : s'.store.loadFault = s.store.loadFault

theorem Untouched.refl (task : String) (s : Service ε) : Untouched task s s := ⟨rfl, rfl, id⟩

theorem Untouched.trans (h : Untouched task s s') (h' : Untouched task s' s'') :
    Untouched task s s'' :=
  ⟨h'.live.trans h.live, h'.row.trans h.row, h.drawn ∘ h'.drawn⟩

theorem Frame.refl (task : String) (s : Service ε) : Frame task s s :=
  ⟨fun _ _ => .refl _ s, fun _ => id, rfl, rfl⟩

theorem Frame.trans (h : Frame task s s') (h' : Frame task s' s'') : Frame task s s'' where
  others other hother := (h.others other hother).trans (h'.others other hother)
  drawn id := h.drawn id ∘ h'.drawn id
  catalog := h'.catalog.trans h.catalog
  loads := h'.loads.trans h.loads

theorem frame_putLive (s : Service ε) (task : String) (l : Live) :
    Frame task s (s.putLive task l) where
  others _ hother := ⟨Dict.at?_put_of_ne _ hother.symm _, rfl, id⟩
  drawn _ := id
  catalog := rfl
  loads := rfl

theorem frame_release (s : Service ε) (task : String) :
    Frame task s { s with tasks := s.tasks.without task } where
  others _ hother := ⟨Dict.at?_without_of_ne _ hother.symm, rfl, id⟩
  drawn _ := id
  catalog := rfl
  loads := rfl

theorem frame_delete (s : Service ε) (task : String) :
    Frame task s { s with store := s.store.delete task } where
  others _ hother := ⟨rfl, Dict.at?_without_of_ne _ hother.symm, id⟩
  drawn _ := id
  catalog := rfl
  loads := rfl

theorem frame_trySave (s : Service ε) {p : Snapshot} (h : p.task = task) :
    Frame task s { s with store := (s.store.trySave p).1 } where
  others _ hother :=
    ⟨rfl, s.store.at?_trySave_of_ne (h.trans_ne hother.symm), id⟩
  drawn _ := id
  catalog := rfl
  loads := s.store.loadFault_trySave p

/-! ### Operations on one task -/

/-- One task has gone on or was released, and the rest is as it was. -/
inductive Advance (task : String) (s : Service ε) : Service ε → Prop
  | idle : Advance task s s
  | on {l l' : Live} {s' : Service ε} : s.live? task = some l → l.Happens l' →
      s'.live? task = some l' → Frame task s s' → Advance task s s'
  | release {l : Live} {s' : Service ε} : s.live? task = some l → s'.live? task = none →
      Frame task s s' → Advance task s s'

theorem Advance.frame (h : Advance task s s') : Frame task s s' := by
  cases h with
  | idle => exact .refl task s
  | on _ _ _ hframe => exact hframe
  | release _ _ hframe => exact hframe

theorem advance_putLive {l l' : Live} (hlive : s.live? task = some l) (hh : l.Happens l') :
    Advance task s (s.putLive task l') :=
  .on hlive hh (Desk.live?_putLive ..) (frame_putLive ..)

theorem advance_stepTask? (howns : ∀ l, s.live? task = some l → l.Own task)
    (h : s.stepTask? task = some s') : Advance task s s' := by
  unfold stepTask? at h
  split at h
  · cases h
  · next l hlive =>
    split at h
    · cases h
      exact .release hlive (Dict.at?_without_self ..) (frame_release s task)
    · obtain ⟨⟨l', store⟩, hstep, rfl⟩ := Option.map_eq_some_iff.1 h
      have hown := (howns l hlive).happens (.step hstep)
      refine .on hlive (.step hstep) (Desk.live?_putLive ..) ?_
      have hput := frame_putLive s task l'
      -- what is saved is about this task
      rcases (Live.turn_of_step? hstep).2 with ⟨hstore, -, -⟩ | ⟨hstore, -⟩
      · rw [hstore]
        exact hput
      · rw [hstore]
        exact hput.trans (frame_trySave (s.putLive task l') hown.task)

theorem advance_deliver (s : Service ε) (task : String) (a : Arrival) :
    Advance task s (s.deliver task a) := by
  unfold deliver
  split
  · exact .idle
  · next l hlive => exact advance_putLive hlive (.deliver a)

theorem advance_stop (s : Service ε) (task : String) : Advance task s (s.stop task).2 := by
  unfold stop
  split
  · next l hlive =>
    split
    · exact .idle
    · exact advance_putLive hlive .raiseStop
  · split
    · exact .idle
    · split
      · exact .idle
      · exact .idle
    · exact .idle

/-- Only a command that is sent changes the service. -/
theorem sendResume?_cases {l : Live} {q : ResumeRequest} {ticket : Nat}
    {answer : Except TaskError Unit} (h : s.sendResume? l q ticket = some (answer, s')) :
    s' = s ∨ s' = s.putLive q.task (l.send ⟨ticket, q.target, q.inputs⟩) := by
  unfold sendResume? at h
  split at h
  · cases h
  · split at h
    · cases h
      exact Or.inl rfl
    · split at h
      · cases h
        exact Or.inl rfl
      · cases h
        exact Or.inr rfl

theorem advance_sendResume? {l : Live} {q : ResumeRequest} {ticket : Nat}
    {answer : Except TaskError Unit} (hlive : s.live? q.task = some l)
    (h : s.sendResume? l q ticket = some (answer, s')) : Advance q.task s s' := by
  rcases sendResume?_cases h with rfl | rfl
  · exact .idle
  · exact advance_putLive hlive (.send _)

theorem advance_collectAnswer? {ticket : Nat} {answer : Except TaskError Unit}
    (h : s.collectAnswer? task ticket = some (answer, s')) : Advance task s s' := by
  unfold collectAnswer? at h
  split at h
  · cases h
  · next l hlive =>
    obtain ⟨_, -, heq⟩ := Option.map_eq_some_iff.1 h
    cases heq
    exact advance_putLive hlive (.collect ticket)

/-! ### Operations -/

/-- Something that is done with a service. -/
inductive Operation
  | publish (app version : String) (w : Workflow)
  | create (q : CreateRequest)
  | startPart (q : PartRequest)
  | step (task : String)
  | deliver (task : String) (a : Arrival)
  | stop (task : String)
  /-- The command of a call that has its turn is sent under its ticket. -/
  | send (q : ResumeRequest) (ticket : Nat)
  | collect (task : String) (ticket : Nat)
  /-- From now on nothing can be saved, or everything can. -/
  | saves (fault : Option StoreError)

/-- The task that an operation is about. -/
def Operation.task? : Operation → Option String
  | .step task => some task
  | .deliver task _ => some task
  | .stop task => some task
  | .send q _ => some q.task
  | .collect task _ => some task
  | _ => none

/-- The service after an operation. What cannot be done now leaves it as it is. -/
def operate (s : Service ε) : Operation → Service ε
  | .publish app version w => (s.publish app version w).2
  | .create q => (s.create q).2
  | .startPart q => (s.startPart q).2
  | .step task => (s.stepTask? task).getD s
  | .deliver task a => s.deliver task a
  | .stop task => (s.stop task).2
  | .send q ticket => match s.resumable q with
    | .ok l => ((s.sendResume? l q ticket).map Prod.snd).getD s
    | .error _ => s
  | .collect task ticket => ((s.collectAnswer? task ticket).map Prod.snd).getD s
  | .saves fault => { s with store := { s.store with saveFault := fault } }

def operates (s : Service ε) (os : List Operation) : Service ε := os.foldl operate s

/-- What holds of a service after all operations. -/
structure Tidy (s : Service ε) : Prop where
  /-- The graphs of published apps were made by edits. -/
  built : ∀ app version p, s.catalog.get app version = .ok p → p.graph.Built
  own : ∀ task l, s.live? task = some l → l.Own task
  fresh : ∀ task, s.ids.Ahead task → s.live? task = none ∧ s.store.rows.at? task = none
  loads : s.store.loadFault = none

/-- A service at the beginning: nothing was published and no task was started, and the store can
be read, which has nothing under the ids that the service will draw. -/
structure IsNew (s : Service ε) : Prop where
  catalog : s.catalog = {}
  tasks : s.tasks = []
  rows : ∀ task, s.ids.Ahead task → s.store.rows.at? task = none
  loads : s.store.loadFault = none

theorem IsNew.tidy (h : s.IsNew) : s.Tidy where
  built app version p hp := by
    rw [h.catalog] at hp
    cases hp
  own task l hl := by
    unfold live? at hl
    rw [h.tasks] at hl
    cases hl
  fresh task hahead := by
    refine ⟨?_, h.rows task hahead⟩
    unfold live?
    rw [h.tasks]
    rfl
  loads := h.loads

/-- If all that is different is one task, it is that which has to be in order. -/
theorem Tidy.frame (h : s.Tidy) (hframe : Frame task s s') (hdrawn : ¬ s'.ids.Ahead task)
    (hown : ∀ l, s'.live? task = some l → l.Own task) : s'.Tidy where
  built := by
    rw [hframe.catalog]
    exact h.built
  own other l hl := by
    by_cases hother : other = task
    · subst hother
      exact hown l hl
    · exact h.own other l ((hframe.others other hother).live.symm.trans hl)
  fresh id hahead := by
    have hid : id ≠ task := fun he => hdrawn (he ▸ hahead)
    have hsame := hframe.others id hid
    rw [hsame.live, hsame.row]
    exact h.fresh id (hframe.drawn id hahead)
  loads := hframe.loads.trans h.loads

theorem Tidy.not_ahead (h : s.Tidy) {l : Live} (hlive : s.live? task = some l) :
    ¬ s.ids.Ahead task := by
  intro hahead
  cases (h.fresh task hahead).1.symm.trans hlive

theorem Tidy.advance (h : s.Tidy) (ha : Advance task s s') : s'.Tidy := by
  cases ha with
  | idle => exact h
  | @on l l' _ hlive hh hlive' hframe =>
    refine h.frame hframe (fun hahead => h.not_ahead hlive (hframe.drawn task hahead)) ?_
    intro l'' hl''
    obtain rfl := Option.some.inj (hlive'.symm.trans hl'')
    exact (h.own task l hlive).happens hh
  | release hlive hnone hframe =>
    refine h.frame hframe (fun hahead => h.not_ahead hlive (hframe.drawn task hahead)) ?_
    intro l hl
    cases hnone.symm.trans hl

/-- An operation that is about a task lets that go on. -/
theorem Tidy.advance_operate {o : Operation} (h : s.Tidy) (ho : o.task? = some task) :
    Advance task s (s.operate o) := by
  cases o with
  | publish => cases ho
  | create => cases ho
  | startPart => cases ho
  | saves => cases ho
  | step =>
    cases ho
    show Advance task s ((s.stepTask? task).getD s)
    cases hs : s.stepTask? task with
    | none => exact .idle
    | some s' => exact advance_stepTask? (h.own task) hs
  | deliver _ a =>
    cases ho
    exact advance_deliver s task a
  | stop =>
    cases ho
    exact advance_stop s task
  | send q ticket =>
    cases ho
    unfold operate
    dsimp only
    split
    · next l hl =>
      have hlive : s.live? q.task = some l := by
        unfold resumable at hl
        grind
      cases hs : s.sendResume? l q ticket with
      | none => exact .idle
      | some r => exact advance_sendResume? hlive hs
    · exact .idle
  | collect _ ticket =>
    cases ho
    show Advance task s (((s.collectAnswer? task ticket).map Prod.snd).getD s)
    cases hs : s.collectAnswer? task ticket with
    | none => exact .idle
    | some r => exact advance_collectAnswer? hs

/-! ### Starting tasks -/

/-- What starting a task leads to: ids were drawn, and there may be a task under one of them. -/
structure Starts (s s' : Service ε) : Prop where
  tidy : s'.Tidy
  others : ∀ task, ¬ s.ids.Ahead task → Untouched task s s'

theorem Tidy.starts (h : s.Tidy) : Starts s s := ⟨h, fun _ _ => .refl _ s⟩

theorem Starts.trans (h : Starts s s') (h' : Starts s' s'') : Starts s s'' where
  tidy := h'.tidy
  others task hdrawn :=
    have hfirst := h.others task hdrawn
    hfirst.trans (h'.others task fun hahead => hdrawn (hfirst.drawn hahead))

theorem Tidy.drawId (h : s.Tidy) : Starts s s.drawId.2 where
  tidy := ⟨h.built, h.own, fun id hid => h.fresh id hid.of_advance, h.loads⟩
  others _ _ := ⟨rfl, rfl, .of_advance⟩

theorem Tidy.launch (h : s.Tidy) {p : TaskPlan} (hp : p.graph.Built) (conversation : String) :
    Starts s (s.launch p conversation).2 := by
  have htwice : Starts s s.drawId.2.drawId.2 := h.drawId.trans h.drawId.tidy.drawId
  unfold Service.launch
  dsimp only [Service.drawId]
  split
  · exact htwice
  · next run hbegin =>
    have hlaunched : Run.Launched p.graph s.config.concurrency p.seed.inputs p.seed.pool
        (run.setStatus .executing none) := ⟨hp, _, _, run, rfl, rfl, hbegin, rfl⟩
    have hown : Live.Own s.ids.next { run := run.setStatus .executing none } := by
      refine ⟨?_, _, ⟨fun _ => hlaunched.steady, [], rfl⟩⟩
      refine (Feed.extends_setStatus run.feed .executing none run.now).task.trans ?_
      rw [Desk.feed_of_begin hbegin]
      rfl
    -- the new task is under an id that is not drawn again
    have hframe := (frame_putLive s.drawId.2.drawId.2 s.ids.next
      { run := run.setStatus .executing none }).trans (frame_trySave _ hown.task)
    have hdrawn : ¬ s.ids.advance.advance.Ahead s.ids.next := fun hahead =>
      s.ids.not_ahead_next hahead.of_advance
    constructor
    · refine htwice.tidy.frame hframe hdrawn fun l hl => ?_
      obtain rfl := Option.some.inj ((Desk.live?_putLive ..).symm.trans hl)
      exact hown
    · intro task hother
      have hne : task ≠ s.ids.next := by
        intro he
        exact hother (he ▸ s.ids.ahead_next)
      exact (htwice.others task hother).trans (hframe.others task hne)

theorem built_of_planTask
    (hbuilt : ∀ app version a, s.catalog.get app version = .ok a → a.graph.Built)
    {q : CreateRequest} {p : TaskPlan} (hp : s.planTask q = .ok p) : p.graph.Built := by
  unfold planTask at hp
  cases happ : s.app q.app q.version with
  | error e =>
    rw [happ] at hp
    cases hp
  | ok a =>
    simp only [happ, bind, Except.bind] at hp
    split at hp
    · cases hp
    · split at hp
      · cases hp
      · cases hp
        exact hbuilt _ _ a happ

/-- Something that was planned for a request. -/
def Planned (s : Service ε) (p : TaskPlan) : Prop :=
  (∃ q, s.planTask q = .ok p) ∨ ∃ q, s.planPart q = .ok p

theorem Planned.built {p : TaskPlan} (h : s.Planned p)
    (hbuilt : ∀ app version a, s.catalog.get app version = .ok a → a.graph.Built) :
    p.graph.Built := by
  rcases h with ⟨q, hq⟩ | ⟨q, hq⟩
  · exact built_of_planTask hbuilt hq
  · exact built_of_planPart hq

theorem Tidy.create (h : s.Tidy) (q : CreateRequest) : Starts s (s.create q).2 := by
  unfold Service.create
  split
  · exact h.starts
  · next p hp =>
    have hbuilt := built_of_planTask h.built hp
    split
    next conversation s₁ hs =>
    have hfirst : Starts s s₁ := by
      split at hs
      · cases hs
        exact h.starts
      · cases hs
        exact h.drawId
    have hlaunch := hfirst.trans (hfirst.tidy.launch hbuilt conversation)
    split
    · next heq =>
      rw [heq] at hlaunch
      exact hlaunch
    · next heq =>
      rw [heq] at hlaunch
      exact hlaunch

theorem Tidy.startPart (h : s.Tidy) (q : PartRequest) : Starts s (s.startPart q).2 := by
  unfold Service.startPart
  split
  · exact h.starts
  · next p hp =>
    have hlaunch := h.drawId.trans (h.drawId.tidy.launch (built_of_planPart hp) s.drawId.1)
    dsimp only
    split
    · next heq =>
      rw [heq] at hlaunch
      exact hlaunch
    · next heq =>
      rw [heq] at hlaunch
      exact hlaunch

/-! ### Publishing -/

theorem Tidy.publish (h : s.Tidy) (app version : String) (w : Workflow) :
    Starts s (s.publish app version w).2 := by
  unfold Service.publish
  split
  · exact h.starts
  · next graph catalog hpublish =>
    refine ⟨⟨?_, h.own, h.fresh, h.loads⟩, fun _ _ => ⟨rfl, rfl, id⟩⟩
    intro a v p hp
    rcases Catalog.built_of_get_publish hpublish hp with hbuilt | hbefore
    · exact hbuilt
    · exact h.built a v p hbefore

/-! ### All operations -/

/-- Whatever is done with a service, it stays in order, and a task that it is not about is as it
was. -/
theorem Tidy.operate (h : s.Tidy) (o : Operation) :
    (s.operate o).Tidy ∧
      ∀ task, o.task? ≠ some task → ¬ s.ids.Ahead task → Untouched task s (s.operate o) := by
  have started : ∀ {s'}, Starts s s' → s'.Tidy ∧
      ∀ task, o.task? ≠ some task → ¬ s.ids.Ahead task → Untouched task s s' :=
    fun hs => ⟨hs.tidy, fun task _ => hs.others task⟩
  cases ho : o.task? with
  | some t =>
    have ha := h.advance_operate ho
    refine ⟨h.advance ha, fun task hne _ => ha.frame.others task fun he => ?_⟩
    exact hne (he ▸ rfl)
  | none =>
    rw [ho] at started
    cases o with
    | publish app version w => exact started (h.publish app version w)
    | create q => exact started (h.create q)
    | startPart q => exact started (h.startPart q)
    | saves fault => exact ⟨⟨h.built, h.own, h.fresh, h.loads⟩, fun _ _ _ => ⟨rfl, rfl, id⟩⟩
    | step => cases ho
    | deliver => cases ho
    | stop => cases ho
    | send => cases ho
    | collect => cases ho

theorem Tidy.operates (h : s.Tidy) (os : List Operation) : (s.operates os).Tidy := by
  induction os generalizing s with
  | nil => exact h
  | cons o os ih => exact ih (h.operate o).1

end Service
end Flowrun
