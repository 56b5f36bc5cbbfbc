import Flowrun.Proofs.Feed.Journal
import Flowrun.Proofs.Run.Launches
import Flowrun.Proofs.Run.Resume

/-!
# Which pause a resume answers

The pause slot may be filled many times in a run. Every time it is filled, a record is written with
the status `pause`, so the activations of the slot are counted by the journal, and while a pause is
shown it is the last one of them:

    r.Shows k ↔ the slot holds the activation at position k, the last one so far

A resume that is accepted answers the activation that is shown (`Steady.answeredBy_act`). The record
of that activation gets the user's input and is `Sealed` from then on: no move writes it again, and
no pause is ever shown on it. So no activation is answered twice (`AnsweredBy.not_shows`).
-/

namespace Flowrun.Run

open Json

variable {w : World} {r r' : Run}

/-! ### What a move writes -/

/-- Whatever is written to the feed by a move that shows no pause leaves the activations alone; a
move that shows one adds one activation, which is that of the pause. -/
theorem Sound.writes_move (h : r.Sound) (m : Move w r r') :
    r.feed.Quietly r'.feed ∧ (r'.active = r.active ∨ r'.active = none) ∨
      ∃ added p i x, r.feed.Extends r'.feed added ∧ r'.active = some p ∧ p.record = some i ∧
        added.filterMap Event.activation? = [(i, x)] ∧ x.target = p.target ∧ x.waiter = p.node := by
  cases m with
  | clock => exact Or.inl ⟨.refl _, Or.inl rfl⟩
  | stop => exact Or.inl ⟨.refl _, Or.inl rfl⟩
  | sort => exact Or.inl ⟨.refl _, Or.inl rfl⟩
  | enqueue => exact Or.inl ⟨.refl _, Or.inl rfl⟩
  | wait => exact Or.inl ⟨.refl _, Or.inl rfl⟩
  | start => exact Or.inl ⟨.push _ (s := .executing) nofun rfl _, Or.inl rfl⟩
  | skip => exact Or.inl ⟨.push _ (s := .skip) nofun rfl _, Or.inl rfl⟩
  | close => exact Or.inl ⟨.update _ _ (s := .stop) nofun (fun _ => rfl) _, Or.inl rfl⟩
  | fail => exact Or.inl ⟨.update _ _ (s := .fail) nofun (fun _ => rfl) _, Or.inl rfl⟩
  | complete =>
    rw [complete_eq]
    exact Or.inl ⟨.update _ _ (s := .success) nofun (fun _ => rfl) _, Or.inl rfl⟩
  | reenter =>
    refine Or.inl ⟨Feed.Quietly.trans ?_ (.setStatus ..), Or.inr rfl⟩
    exact .update _ _ (s := .success) nofun (fun _ => rfl) _
  | answer =>
    refine Or.inl ⟨Feed.Quietly.trans ?_ (.setStatus ..), Or.inr rfl⟩
    exact .update _ _ (s := .success) nofun (fun _ => rfl) _
  | stopInner => exact Or.inl ⟨.update _ _ (s := .stop) nofun (fun _ => rfl) _, Or.inl rfl⟩
  | dropActive => exact Or.inl ⟨.update _ _ (s := .stop) nofun (fun _ => rfl) _, Or.inr rfl⟩
  | dropQueued => exact Or.inl ⟨.update _ _ (s := .stop) nofun (fun _ => rfl) _, Or.inl rfl⟩
  | @showOwn p rest i hactive hqueued hinner hi =>
    obtain ⟨x, hx, hnode, hparent⟩ := h.ledger.filed p.node i hi
    have htarget := h.target p (by simp [pauses, hqueued])
    refine Or.inr ⟨_, _, i, _, (Feed.extends_update hx _ r.now).trans
      (Feed.extends_setStatus _ .paused (some p.target) r.now), rfl, rfl,
      Feed.activations_shown rfl (Feed.quiet_status ..), ?_, ?_⟩
    · show ResumeTarget.new x.node x.parent = p.target
      rw [hnode, hparent, htarget, hinner]
      rfl
    · show x.parent.getD x.node = p.node
      rw [hparent, hnode]
      rfl
  | @showInner p rest inner hactive hqueued hinner =>
    have htarget := h.target p (by simp [pauses, hqueued])
    refine Or.inr ⟨_, _, r.nextIndex, _, (Feed.extends_push r.feed _ r.now).trans
      (Feed.extends_setStatus _ .paused (some p.target) r.now), rfl, rfl,
      Feed.activations_shown rfl (Feed.quiet_status ..), ?_, rfl⟩
    show ResumeTarget.new inner.id (some p.node) = p.target
    rw [htarget, hinner]
    rfl

/-- A feed is only ever extended. -/
theorem Sound.extends_move (h : r.Sound) (m : Move w r r') :
    ∃ added, r.feed.Extends r'.feed added := by
  rcases h.writes_move m with ⟨⟨added, hadded, -⟩, -⟩ | ⟨added, -, -, -, hadded, -⟩
  · exact ⟨added, hadded⟩
  · exact ⟨added, hadded⟩

theorem Steady.extends_acts (h : r.Steady) (as : List Action) :
    ∃ added, r.feed.Extends (r.acts as).feed added := by
  have key : ∀ {s : Run}, Moves .any r s → ∃ added, r.feed.Extends s.feed added := fun hm =>
    (hm.keep (P := fun s => ∃ added, r.feed.Extends s.feed added) h.sound ⟨[], .refl _⟩
      fun hsound ⟨_, hadded⟩ m =>
        (hsound.extends_move m).elim fun _ hmore => ⟨_, hadded.trans hmore⟩).2
  rcases h.acts (World.any_admitsAll r as) with ⟨hmoves, -⟩ | ⟨s, hmoves, -, heq⟩
  · exact key hmoves
  · obtain ⟨added, hadded⟩ := key hmoves
    rw [heq]
    exact ⟨_, hadded.trans (Feed.extends_finish ..)⟩

theorem Steady.graph_acts (h : r.Steady) (as : List Action) : (r.acts as).graph = r.graph := by
  rcases h.acts (World.any_admitsAll r as) with ⟨hmoves, -⟩ | ⟨s, hmoves, -, heq⟩
  · exact hmoves.graph_eq
  · rw [heq]
    exact hmoves.graph_eq

/-! ### The pause that is shown -/

/-- Whether the pause that is shown came with the activation at a position, the last one so far. -/
def Shows (r : Run) (k : Nat) : Prop :=
  ∃ p i x, r.active = some p ∧ p.record = some i ∧ r.feed.activations[k]? = some (i, x) ∧
    r.feed.activations.length = k + 1

theorem Shows.eq {k k' : Nat} (h : r.Shows k) (h' : r.Shows k') : k = k' := by
  obtain ⟨-, -, -, -, -, -, hk⟩ := h
  obtain ⟨-, -, -, -, -, -, hk'⟩ := h'
  omega

/-- The pause that is shown is that of the last activation, which says whose it is. -/
def Slotted (r : Run) : Prop :=
  ∀ p, r.active = some p → ∃ before i x, p.record = some i ∧
    r.feed.activations = before ++ [(i, x)] ∧ x.target = p.target ∧ x.waiter = p.node

theorem Slotted.move (hs : r.Slotted) (h : r.Sound) (m : Move w r r') : r'.Slotted := by
  intro p hp
  rcases h.writes_move m with ⟨⟨added, hadded, hquiet⟩, hactive⟩ |
    ⟨added, q, i, x, hadded, hactive, hi, hshown, htarget, hwaiter⟩
  · rcases hactive with hsame | hnone
    · obtain ⟨before, i, x, hi, heq, hx⟩ := hs p (hsame ▸ hp)
      refine ⟨before, i, x, hi, ?_, hx⟩
      rw [hadded.activations, hquiet, List.append_nil, heq]
    · cases hnone.symm.trans hp
  · obtain rfl := Option.some.inj (hactive.symm.trans hp)
    exact ⟨r.feed.activations, i, x, hi, by rw [hadded.activations, hshown], htarget, hwaiter⟩

/-- A record that stays as it is: no pause is shown on it, and if it is that of a node of the graph
then that node is done. -/
structure Sealed (r : Run) (i : Nat) (y : Record) : Prop where
  record : r.feed.record? i = some y
  unshown : ∀ p, r.active = some p → p.record ≠ some i
  done : ∀ id, r.recordOf.at? id = some i → ∃ s, r.standing? id = some (.done s)

variable {i : Nat} {y : Record}

/-- The record of a node that is not done is another one. -/
theorem Sealed.ne_of_open (hs : r.Sealed i y) {id : String} {j : Nat}
    (hj : r.recordOf.at? id = some j) (hopen : ∀ s, r.standing? id ≠ some (.done s)) : j ≠ i := by
  rintro rfl
  obtain ⟨s, hdone⟩ := hs.done id hj
  exact hopen s hdone

/-- Records are entered for new nodes only, and with new indices. -/
theorem Sealed.recordOf_back (hs : r.Sealed i y) (m : Move w r r') {id : String}
    (hi : r'.recordOf.at? id = some i) : r.recordOf.at? id = some i := by
  have hlt : i < r.nextIndex := Feed.lt_length_of_record? hs.record
  have key : ∀ {a : String}, (r.recordOf.put a r.nextIndex).at? id = some i →
      r.recordOf.at? id = some i := by
    intro a ha
    rw [Dict.at?_put] at ha
    split at ha
    · obtain rfl := Option.some.inj ha
      exact absurd hlt (Nat.lt_irrefl _)
    · exact ha
  cases m with
  | start => exact key hi
  | skip => exact key hi
  | complete =>
    rw [complete_eq] at hi
    exact hi
  | _ => exact hi

/-- No move writes the record. -/
theorem Sealed.record_move (hs : r.Sealed i y) (h : r.Sound) (m : Move w r r') :
    r'.feed.record? i = some y := by
  have hy := hs.record
  -- a write of another record
  have other : ∀ {j : Nat} {change : Record → Record}, j ≠ i →
      (r.feed.update j change r.now).record? i = some y := by
    intro j change hne
    rw [Feed.record?_update, if_neg hne, hy]
  have flying : ∀ {x : Execution}, x ∈ r.inFlight →
      ∀ s, r.standing? x.request.node.id ≠ some (.done s) := by
    intro x hx s hdone
    cases (h.standing_flying hx).symm.trans hdone
  have waiting : ∀ {p : Pause}, p ∈ r.pauses → ∀ s, r.standing? p.node ≠ some (.done s) := by
    intro p hp s hdone
    cases (h.standing_waiting hp).symm.trans hdone
  have shown : ∀ {p : Pause} {j : Nat}, r.active = some p → p.record = some j → j ≠ i := by
    rintro p j hactive hj rfl
    exact hs.unshown p hactive hj
  cases m with
  | clock => exact hy
  | stop => exact hy
  | sort => exact hy
  | enqueue => exact hy
  | wait => exact hy
  | start => exact Feed.record?_push_of_eq_some _ hy _
  | skip => exact Feed.record?_push_of_eq_some _ hy _
  | close _ _ hx hj => exact other (hs.ne_of_open hj (flying hx))
  | fail _ hx hj => exact other (hs.ne_of_open hj (flying hx))
  | complete _ hx hj =>
    rw [complete_eq]
    exact other (hs.ne_of_open hj (flying hx))
  | reenter _ _ hactive hj =>
    exact (Feed.record?_setStatus ..).trans (other (shown hactive hj))
  | answer _ hactive hj => exact (Feed.record?_setStatus ..).trans (other (shown hactive hj))
  | stopInner _ hactive hj => exact other (shown hactive hj)
  | dropActive _ hactive hj =>
    exact other (hs.ne_of_open hj (waiting (by simp [pauses, hactive])))
  | dropQueued _ _ hqueued hj =>
    exact other (hs.ne_of_open hj (waiting (by simp [pauses, hqueued])))
  | showOwn _ hqueued _ hj =>
    exact (Feed.record?_setStatus ..).trans
      (other (hs.ne_of_open hj (waiting (by simp [pauses, hqueued]))))
  | showInner =>
    exact (Feed.record?_setStatus ..).trans (Feed.record?_push_of_eq_some _ hy _)

/-- No move shows a pause on the record. -/
theorem Sealed.unshown_move (hs : r.Sealed i y) (h : r.Sound) (m : Move w r r') (p : Pause)
    (hp : r'.active = some p) : p.record ≠ some i := by
  have kept := hs.unshown p
  cases m with
  | @showOwn q rest j _ hqueued _ hj =>
    obtain rfl := Option.some.inj hp
    have hsus := h.standing_queued (p := q) (by rw [hqueued]; exact List.mem_cons_self)
    have hne := hs.ne_of_open hj fun s hdone => by cases hsus.symm.trans hdone
    exact fun he => hne (Option.some.inj he)
  | showInner =>
    obtain rfl := Option.some.inj hp
    have hlt := Feed.lt_length_of_record? hs.record
    exact fun he => absurd (Option.some.inj he) (Nat.ne_of_gt hlt)
  | complete =>
    rw [complete_eq] at hp
    exact kept hp
  | reenter => cases hp
  | answer => cases hp
  | dropActive => cases hp
  | _ => exact kept hp

/-- What is sealed stays sealed. -/
theorem Sealed.move (hs : r.Sealed i y) (h : r.Sound) (m : Move w r r') : r'.Sealed i y where
  record := hs.record_move h m
  unshown := hs.unshown_move h m
  done id hi := by
    obtain ⟨s, hdone⟩ := hs.done id (hs.recordOf_back m hi)
    exact ⟨s, h.done_move m hdone⟩

theorem Sealed.moves (hs : r.Sealed i y) (h : r.Sound) (hm : Moves w r r') : r'.Sealed i y :=
  (hm.keep (P := fun s => s.Sealed i y) h hs fun hsound hs m => hs.move hsound m).2

theorem Sealed.acts (hs : r.Sealed i y) (h : r.Steady) (as : List Action) :
    (r.acts as).Sealed i y := by
  rcases h.acts (World.any_admitsAll r as) with ⟨hmoves, -⟩ | ⟨s, hmoves, -, heq⟩
  · exact hs.moves h.sound hmoves
  · obtain ⟨hrecord, hunshown, hdone⟩ := hs.moves h.sound hmoves
    rw [heq]
    exact ⟨(Feed.record?_finish ..).trans hrecord, hunshown, hdone⟩

/-! ### Answers -/

/-- Whether a value is what the node of a record gets out of the input that the user gives: all of
it for a node inside a container, and else what the node that waits declares. -/
def IsOutput (r : Run) (x : Record) (inputs : Dict Value) (v : Value) : Prop :=
  if x.target.isNested then v = .object inputs else r.resumeOutput x.waiter inputs = .ok v

theorem isOutput_congr (hgraph : r'.graph = r.graph) (x : Record) (inputs : Dict Value)
    (v : Value) : r'.IsOutput x inputs v ↔ r.IsOutput x inputs v := by
  unfold IsOutput resumeOutput
  rw [hgraph]

/-- The record of a node inside a container is sealed when its input arrives. -/
theorem Sound.sealed_reenter (h : r.Sound) {p : Pause} (n : Node) (given inputs : Dict Value)
    (hactive : r.active = some p) (hi : p.record = some i) (hnested : p.target.isNested = true) :
    ∃ y, ({ r with active := none }.reenter p i n given inputs).Sealed i y ∧ y.status = .success ∧
      y.output = .object inputs := by
  have hinner : p.inner ≠ none := ((h.isNested_iff hactive).1 hnested).1
  obtain ⟨x, hx, hparent⟩ := h.record_inner hactive hi hinner
  refine ⟨(answered (.object inputs) x).stamped r.feed.nextRevision, ⟨?_, ?_, ?_⟩, rfl, rfl⟩
  · refine (Feed.record?_setStatus_update ..).trans ?_
    rw [if_pos rfl, hx]
    rfl
  · intro q hq
    cases hq
  -- the record of a node of the graph has no parent
  · intro id hid
    obtain ⟨x', hx', -, hnone⟩ := h.ledger.filed id i hid
    obtain rfl := Option.some.inj (hx.symm.trans hx')
    cases hparent.symm.trans hnone

/-- The record of a node that waits is sealed when its output arrives. -/
theorem Sound.sealed_answer (h : r.Sound) {p : Pause} (output : Value)
    (hactive : r.active = some p) (hi : p.record = some i) :
    ∃ y, ({ r with active := none }.answer p i output).Sealed i y ∧ y.status = .success ∧
      y.output = output := by
  obtain ⟨x, hx, hown⟩ : ∃ x, r.feed.record? i = some x ∧ (x.parent = none → x.node = p.node) := by
    by_cases hinner : p.inner = none
    · obtain ⟨x, hx, hnode, -⟩ := h.ledger.filed p.node i (h.recordOf_own hactive hi hinner)
      exact ⟨x, hx, fun _ => hnode⟩
    · obtain ⟨x, hx, hparent⟩ := h.record_inner hactive hi hinner
      exact ⟨x, hx, fun hnone => by cases hparent.symm.trans hnone⟩
  refine ⟨(answered output x).stamped r.feed.nextRevision, ⟨?_, ?_, ?_⟩, rfl, rfl⟩
  · refine (Feed.record?_setStatus_update ..).trans ?_
    rw [if_pos rfl, hx]
    rfl
  · intro q hq
    cases hq
  · intro id hid
    obtain ⟨x', hx', hnode, hnone⟩ := h.ledger.filed id i hid
    obtain rfl := Option.some.inj (hx.symm.trans hx')
    exact ⟨.success, (congrArg _ (hnode.symm.trans (hown hnone))).trans (Dict.at?_put_self ..)⟩

/-- The activation at a position was answered by a resume: it is one of the target, and its record
has the input as its output and stays as it is. -/
def AnsweredBy (r : Run) (k : Nat) (target : ResumeTarget) (inputs : Dict Value) : Prop :=
  ∃ i x y, r.feed.activations[k]? = some (i, x) ∧ x.target = target ∧ r.Sealed i y ∧
    y.status = .success ∧ r.IsOutput x inputs y.output

variable {k : Nat} {target : ResumeTarget} {inputs : Dict Value}

theorem AnsweredBy.acts (ha : r.AnsweredBy k target inputs) (h : r.Steady) (as : List Action) :
    (r.acts as).AnsweredBy k target inputs := by
  obtain ⟨i, x, y, hk, htarget, hsealed, hsuccess, houtput⟩ := ha
  obtain ⟨added, hadded⟩ := h.extends_acts as
  refine ⟨i, x, y, ?_, htarget, hsealed.acts h as, hsuccess, ?_⟩
  · rw [hadded.activations, List.getElem?_append_left (List.getElem?_eq_some_iff.1 hk).1, hk]
  · exact (isOutput_congr (h.graph_acts as) x inputs y.output).2 houtput

/-- Scheduling starts nodes without a payload, with the inputs that are in the pool. -/
theorem Sound.mem_inFlight_schedule (h : r.Sound) {e : Execution}
    (he : e ∈ r.schedule.inFlight) : e ∈ r.inFlight ∨
      e.request.resume = none ∧ e.request.inputs = r.inputsFor e.request.node := by
  -- starting a node leaves what the inputs are taken from as it is
  let P (s : Run) : Prop := s.inputsFor = r.inputsFor ∧ ∀ e ∈ s.inFlight, e ∈ r.inFlight ∨
    e.request.resume = none ∧ e.request.inputs = r.inputsFor e.request.node
  refine (schedule_induction (P := P) ?_ (fun hs => hs) ⟨rfl, fun _ he => Or.inl he⟩
    h.listed).2 e he
  rintro s n rest ⟨hinputs, hs⟩ _ _ _ _
  refine ⟨hinputs, fun e he => ?_⟩
  rcases List.mem_append.1 he with he | he
  · exact hs e he
  · obtain rfl := List.mem_singleton.1 he
    exact Or.inr ⟨rfl, congrFun hinputs n⟩

/-- An accepted resume of a node inside a container puts the container in flight with the input. -/
theorem Sound.inFlight_reenter (h : r.Sound) {p : Pause} {n : Node} (i : Nat)
    (given inputs : Dict Value) (hactive : r.active = some p) (hnested : p.target.isNested = true)
    (hn : r.graph.node? p.node = some n) :
    ∃ e, ({ r with active := none }.reenter p i n given inputs).activateNext.inFlight =
        r.inFlight ++ [e] ∧ e.serial = r.started ∧ p.target.parent = some e.request.node.id ∧
      e.request.resume = some ⟨p.target, inputs⟩ := by
  refine ⟨_, congrArg Prod.fst (flight_activateNext _), rfl, ?_, rfl⟩
  rw [h.target p (by simp [pauses, hactive])] at hnested ⊢
  show (pauseTarget p.node p.inner).parent = some n.id
  rw [Graph.id_of_node?_eq_some hn]
  exact parent_pauseTarget hnested

/-- An execution with a payload goes on after a resume that was accepted, and is given its input. -/
theorem Steady.payload_of_mem_act (h : r.Steady) {a : Action} {e : Execution}
    {payload : ResumePayload} (he : e ∈ (r.act a).inFlight)
    (hpayload : e.request.resume = some payload) :
    e ∈ r.inFlight ∨ a = .resume payload.target payload.inputs ∧
      (r.resume payload.target payload.inputs).1 = .ok () ∧
      payload.target.parent = some e.request.node.id := by
  rw [h.act_eq] at he
  cases a with
  | schedule =>
    apply (h.sound.mem_inFlight_schedule he).imp_right
    rintro ⟨hnone, -⟩
    cases hnone.symm.trans hpayload
  | report serial result elapsed =>
    have hflight : (r.report serial result elapsed).inFlight =
        r.inFlight.filter (·.serial != serial) := congrArg Prod.fst (flight_report ..)
    rw [perform, hflight] at he
    exact Or.inl (List.mem_filter.1 he).1
  | resume target inputs =>
    rw [perform] at he
    rcases h.sound.resume_cases target inputs with ⟨_, heq⟩ |
      ⟨p, i, n, given, hh, hactive, hi, htarget, hnested, hn, hgiven, heq⟩ |
      ⟨p, i, output, hh, hactive, hi, htarget, hnested, hout, heq⟩
    · rw [heq] at he
      exact Or.inl he
    · subst htarget
      obtain ⟨x, hflight, -, hparent, hx⟩ := h.sound.inFlight_reenter i given inputs hactive
        hnested hn
      rw [heq, hflight] at he
      apply (List.mem_append.1 he).imp_right
      intro he
      obtain rfl := List.mem_singleton.1 he
      obtain rfl := Option.some.inj (hx.symm.trans hpayload)
      exact ⟨rfl, congrArg Prod.fst heq, hparent⟩
    · rw [heq] at he
      have hflight : ((({ r with active := none }.answer p i output).advance
          p.node).activateNext).inFlight = r.inFlight :=
        congrArg Prod.fst ((flight_activateNext _).trans (flight_advance _ _))
      exact Or.inl (hflight ▸ he)
  | stop => exact Or.inl he
  | clock => exact Or.inl he
  | finish =>
    have hflight : (r.perform .finish).inFlight = r.inFlight := by
      show (if r.isSpent then r.finish else r).inFlight = r.inFlight
      split
      · exact congrArg Prod.fst (flight_finish r)
      · rfl
    exact Or.inl (hflight ▸ he)

/-- A container goes on with the input that the user gave. -/
theorem Steady.exists_payload (h : r.Steady) {target : ResumeTarget} {inputs : Dict Value}
    (hok : (r.resume target inputs).1 = .ok ()) (hnested : target.isNested = true) :
    ∃ e ∈ (r.resume target inputs).2.inFlight, e.serial = r.started ∧
      target.parent = some e.request.node.id ∧ e.request.resume = some ⟨target, inputs⟩ := by
  rcases h.sound.resume_cases target inputs with ⟨_, heq⟩ |
    ⟨p, i, n, given, hh, hactive, hi, htarget, -, hn, hgiven, heq⟩ |
    ⟨p, i, output, hh, hactive, hi, htarget, hown, -⟩
  · rw [heq] at hok
    cases hok
  · subst htarget
    obtain ⟨e, hflight, hserial, hparent, hpayload⟩ := h.sound.inFlight_reenter i given
      inputs hactive hnested hn
    refine ⟨e, ?_, hserial, hparent, hpayload⟩
    rw [heq, hflight]
    exact List.mem_append_right _ (List.mem_singleton.2 rfl)
  · cases hown.symm.trans hnested

end Flowrun.Run
