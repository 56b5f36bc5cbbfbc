import Flowrun.Proofs.Run.Lifecycle

/-!
# What the records say about the end

With which status a run ends is a matter of two flags, but whoever looks at the task sees its
records only. They tell the same:

* the failure of a run is that of the first entry in the journal that shows one (`Told`);
* no record is stopped unless the run halts (`Told`);
* if the run stops, a record is stopped or there is something whose record will be (`ShowsStop`).

The last one needs that no stop is taken when there is nothing left to stop, so `Going.perform` has
it as a hypothesis.
-/

namespace Flowrun

/-- What a task says of the failure that an entry shows. -/
def Event.failure? : Event → Option String
  | .record _ x =>
    if x.status = .fail then x.error.map fun e => "Node '" ++ x.node ++ "' failed: " ++ e.message
    else none
  | .status .. => none

theorem Event.failure?_record_of_ne {i : Nat} {x : Record} (h : x.status ≠ .fail) :
    (Event.record i x).failure? = none := if_neg h

theorem Event.failure?_record {i : Nat} {x : Record} (h : x.status = .fail) :
    (Event.record i x).failure? =
      x.error.map fun e => "Node '" ++ x.node ++ "' failed: " ++ e.message := if_pos h

/-- The first failure that entries tell of is that of the first entry with a failed record. -/
theorem findSome?_failure?_eq_some {es : List Event} {message : String}
    (hexplained : ∀ i x, .record i x ∈ es → x.status = .fail → x.error.isSome = true)
    (h : es.findSome? Event.failure? = some message) :
    ∃ before i x after e, es = before ++ .record i x :: after ∧
      (∀ j y, .record j y ∈ before → y.status ≠ .fail) ∧ x.status = .fail ∧ x.error = some e ∧
      message = "Node '" ++ x.node ++ "' failed: " ++ e.message := by
  obtain ⟨before, entry, after, rfl, hentry, hnone⟩ := List.findSome?_eq_some_iff.1 h
  cases entry with
  | status => cases hentry
  | record i x =>
    by_cases hfail : x.status = .fail
    · rw [Event.failure?_record hfail] at hentry
      obtain ⟨e, he, rfl⟩ := Option.map_eq_some_iff.1 hentry
      refine ⟨before, i, x, after, e, rfl, ?_, hfail, he, rfl⟩
      intro j y hy hstatus
      have hsome := hexplained j y (List.mem_append_left _ hy) hstatus
      have hsilent := hnone _ hy
      rw [Event.failure?_record hstatus, Option.map_eq_none_iff] at hsilent
      rw [hsilent] at hsome
      cases hsome
    · cases (Event.failure?_record_of_ne hfail).symm.trans hentry

namespace Run

open Json

variable {w : World} {r r' : Run} {es : List Event}

/-! ### What entries tell of the flags -/

/-- What the entries since the beginning tell of a run. -/
structure Told (es : List Event) (r : Run) : Prop where
  failure : r.failure = es.findSome? Event.failure?
  explained : ∀ i x, .record i x ∈ es → x.status = .fail → x.error.isSome = true
  stopped : ∀ i x, .record i x ∈ es → x.status = .stop → r.halting = true

/-- Entries without failures tell of no failure. -/
theorem findSome?_failure?_eq_none {s : NodeStatus} (hs : s ≠ .fail)
    (h : ∀ i x, .record i x ∈ es → x.status = s) : es.findSome? Event.failure? = none := by
  apply List.findSome?_eq_none_iff.2
  intro entry hentry
  cases entry with
  | status => rfl
  | record i x =>
    apply Event.failure?_record_of_ne
    intro hfail
    exact hs ((h i x hentry).symm.trans hfail)

/-- More writes without failures. If they stop a record, the run halts. -/
theorem Told.marks (ht : r.Told es) {s : NodeStatus} (hs : s ≠ .fail)
    (hfailure : r'.failure = r.failure) (hhalting : r.halting = true → r'.halting = true)
    (hstop : s = .stop → r'.halting = true) (hf : r.feed.Marks s r'.feed) :
    ∃ more, r.feed.Extends r'.feed more ∧ r'.Told (es ++ more) := by
  obtain ⟨more, hmore, hmarked⟩ := hf
  refine ⟨more, hmore, ?_, ?_, ?_⟩
  · rw [List.findSome?_append, findSome?_failure?_eq_none hs hmarked, Option.or_none, hfailure]
    exact ht.failure
  · intro i x hx hfail
    rcases List.mem_append.1 hx with hx | hx
    · exact ht.explained i x hx hfail
    · exact absurd ((hmarked i x hx).symm.trans hfail) hs
  · intro i x hx hstopped
    rcases List.mem_append.1 hx with hx | hx
    · exact hhalting (ht.stopped i x hx hstopped)
    · exact hstop ((hmarked i x hx).symm.trans hstopped)

/-- The failure of a node is written, and it is the failure of the run if it is the first one. -/
theorem Told.fail (ht : r.Told es) (h : r.Sound) {x : Execution} {i : Nat}
    (hi : r.recordOf.at? x.request.node.id = some i) (e : NodeError) (elapsed : Nat) :
    ∃ more, r.feed.Extends ((r.landed x).fail x.request.node.id i e elapsed).feed more ∧
      ((r.landed x).fail x.request.node.id i e elapsed).Told (es ++ more) := by
  obtain ⟨y, hy, hnode, -⟩ := h.ledger.filed x.request.node.id i hi
  let failed : Record :=
    { y with status := .fail, error := some (.ofError e), execTimeMs := elapsed }
  have hadded : r.feed.Extends ((r.landed x).fail x.request.node.id i e elapsed).feed
      [.record i (failed.stamped r.feed.nextRevision)] := Feed.extends_update hy _ r.now
  refine ⟨_, hadded, ?_, ?_, ?_⟩
  · show r.failure.or _ = _
    rw [List.findSome?_append, ht.failure, ← hnode]
    rfl
  · intro j z hz hfail
    rcases List.mem_append.1 hz with hz | hz
    · exact ht.explained j z hz hfail
    · obtain ⟨-, rfl⟩ := Event.record.inj (List.mem_singleton.1 hz)
      rfl
  · exact fun _ _ _ _ => halting_fail ..

/-- Every move writes records of one status, and tells of a failure only if it is one. -/
theorem Told.move (ht : r.Told es) (h : r.Sound) (m : Move w r r') :
    ∃ more, r.feed.Extends r'.feed more ∧ r'.Told (es ++ more) := by
  have hhalting := m.halting
  -- a move that is no failure
  have writes : ∀ {s : NodeStatus}, s ≠ .fail → (s = .stop → r'.halting = true) →
      r'.failure = r.failure → r.feed.Marks s r'.feed →
      ∃ more, r.feed.Extends r'.feed more ∧ r'.Told (es ++ more) :=
    fun hs hstop hfailure hf => ht.marks hs hfailure hhalting hstop hf
  have stops : r.halting = true → r'.failure = r.failure → r.feed.Marks .stop r'.feed →
      ∃ more, r.feed.Extends r'.feed more ∧ r'.Told (es ++ more) :=
    fun hh hfailure hf => writes (s := .stop) nofun (fun _ => hhalting hh) hfailure hf
  cases m with
  | clock => exact writes (s := .skip) nofun nofun rfl (.refl _ _)
  | stop => exact writes (s := .skip) nofun nofun rfl (.refl _ _)
  | sort => exact writes (s := .skip) nofun nofun rfl (.refl _ _)
  | enqueue => exact writes (s := .skip) nofun nofun rfl (.refl _ _)
  | wait => exact writes (s := .skip) nofun nofun rfl (.refl _ _)
  | start => exact writes (s := .executing) nofun nofun rfl (.push _ (s := .executing) rfl _)
  | skip => exact writes (s := .skip) nofun nofun rfl (.push _ (s := .skip) rfl _)
  | close output elapsed hx hi hwhy =>
    have hh : r.halting = true := Bool.or_eq_true_iff.2 (hwhy.imp_right And.left)
    exact stops hh rfl (.update _ _ (s := .stop) (fun _ => rfl) _)
  | fail elapsed hx hi => exact ht.fail h hi _ elapsed
  | complete =>
    rw [complete_eq] at writes ⊢
    refine writes (s := .success) nofun nofun rfl ?_
    exact .update _ _ (s := .success) (fun _ => rfl) _
  | showOwn =>
    refine writes (s := .pause) nofun nofun rfl (Feed.Marks.setStatus ?_ ..)
    exact .update _ _ (s := .pause) (fun _ => rfl) _
  | showInner =>
    refine writes (s := .pause) nofun nofun rfl (Feed.Marks.setStatus ?_ ..)
    exact .push _ (s := .pause) rfl _
  | reenter =>
    refine writes (s := .success) nofun nofun rfl (Feed.Marks.setStatus ?_ ..)
    exact .update _ _ (s := .success) (fun _ => rfl) _
  | answer =>
    refine writes (s := .success) nofun nofun rfl (Feed.Marks.setStatus ?_ ..)
    exact .update _ _ (s := .success) (fun _ => rfl) _
  | stopInner hh => exact stops hh rfl (.update _ _ (s := .stop) (fun _ => rfl) _)
  | dropActive hh => exact stops hh rfl (.update _ _ (s := .stop) (fun _ => rfl) _)
  | dropQueued hh => exact stops hh rfl (.update _ _ (s := .stop) (fun _ => rfl) _)

theorem Told.moves (ht : r.Told es) (h : r.Sound) (hm : Moves w r r') :
    ∃ more, r.feed.Extends r'.feed more ∧ r'.Told (es ++ more) := by
  refine (hm.keep (P := fun s => ∃ more, r.feed.Extends s.feed more ∧ s.Told (es ++ more)) h
    ⟨[], .refl _, by rwa [List.append_nil]⟩ ?_).2
  rintro s s' hsound ⟨more, hmore, htold⟩ m
  obtain ⟨rest, hrest, htold'⟩ := htold.move hsound m
  rw [List.append_assoc] at htold'
  exact ⟨more ++ rest, hmore.trans hrest, htold'⟩

/-- The last change of the status tells of no failure. -/
theorem Told.conclude (ht : r.Told es) :
    ∃ more, r.feed.Extends r.conclude.feed more ∧ r.conclude.Told (es ++ more) := by
  refine ht.marks (s := .skip) nofun rfl id nofun ⟨_, Feed.extends_finish .., fun i x hx => ?_⟩
  split at hx
  · cases List.mem_singleton.1 hx
  · cases hx

variable {g : Graph} {limit : Nat} {startInputs : Dict Value} {pool : Pool}

/-- What the entries of a history tell of the run after it. -/
theorem Launched.told_acts (h : Launched g limit startInputs pool r) (as : List Action) :
    ∃ es, r.feed.Extends (r.acts as).feed es ∧ (r.acts as).Told es := by
  have hbegin : r.Told [] := by
    obtain ⟨_, _, _, _, _, _, rfl⟩ := h.eq
    exact ⟨rfl, nofun, nofun⟩
  rcases h.steady.acts (World.any_admitsAll r as) with ⟨hmoves, -⟩ | ⟨s, hmoves, -, heq⟩
  · exact hbegin.moves h.steady.sound hmoves
  · obtain ⟨es, hes, htold⟩ := hbegin.moves h.steady.sound hmoves
    obtain ⟨more, hmore, htold'⟩ := htold.conclude
    rw [heq]
    exact ⟨_, hes.trans hmore, htold'⟩

/-! ### Stops -/

/-- If a run stops, a record shows it, or there is something whose record will show it. -/
def ShowsStop (r : Run) : Prop :=
  r.stopping = true → (∃ i x, r.feed.record? i = some x ∧ x.status = .stop) ∨
    r.inFlight ≠ [] ∨ r.active.isSome = true

/-- Nothing but a stop makes a run stop. -/
theorem Move.stopping_eq (m : Move w r r') (hw : ¬ w.stops) : r'.stopping = r.stopping := by
  cases m with
  | stop hstops => exact absurd hstops hw
  | complete =>
    rw [complete_eq]
    rfl
  | _ => rfl

theorem Steady.stopping_perform (h : r.Steady) {a : Action} (ha : a ≠ .finish) (hstop : a ≠ .stop) :
    (r.perform a).stopping = r.stopping := by
  let unstopped : World := ⟨fun _ _ => True, False⟩
  have hw : unstopped.Admits r a := by
    cases a with
    | report => exact fun _ _ _ => trivial
    | stop => exact absurd rfl hstop
    | _ => trivial
  obtain ⟨hmoves, -⟩ := h.moves_perform ha hw
  exact (hmoves.keep (P := fun s => s.stopping = r.stopping) h.sound rfl
    fun _ hs m => (m.stopping_eq id).trans hs).2

/-- While a run stops, a report stops the record of its node. -/
theorem Sound.report_of_stopping (h : r.Sound) (hstop : r.stopping = true) (serial : Nat)
    (result : NodeReport) (elapsed : Nat) :
    r.report serial result elapsed = r ∨
      ∃ i x, (r.report serial result elapsed).feed.record? i = some x ∧ x.status = .stop := by
  unfold report
  split
  · exact Or.inl rfl
  · next x hfind =>
    have hx := List.mem_of_find?_eq_some hfind
    obtain ⟨i, _, hi, _⟩ := h.ledger.exists_record (h.standing_flying hx)
    replace hi : r.recordOf.at? x.request.node.id = some i := hi
    obtain ⟨y, hy, -⟩ := h.ledger.filed x.request.node.id i hi
    refine Or.inr ⟨i, ?_⟩
    unfold take
    rw [show Run.recordOf _ = r.recordOf from rfl, hi]
    dsimp only
    rw [if_pos hstop]
    exact exists_stop_update _ r.now hy rfl

/-- A stop is taken only if there is something to stop. -/
theorem ShowsStop.perform (hs : r.ShowsStop) (h : r.Steady) {a : Action} (ha : a ≠ .finish)
    (hbusy : a = .stop → r.inFlight ≠ [] ∨ r.active.isSome = true) : (r.perform a).ShowsStop := by
  intro hstopping
  by_cases hstop : a = .stop
  · subst hstop
    exact Or.inr (hbusy rfl)
  · rw [h.stopping_perform ha hstop] at hstopping
    have hhalting : r.halting = true := Bool.or_eq_true_iff.2 (Or.inl hstopping)
    cases a with
    | schedule =>
      have hsame : r.schedule = r := if_pos hhalting
      rw [Run.perform, hsame]
      exact hs hstopping
    | report serial result elapsed =>
      rw [Run.perform]
      rcases h.sound.report_of_stopping hstopping serial result elapsed with hsame | hshown
      · rw [hsame]
        exact hs hstopping
      · exact Or.inl hshown
    | resume target inputs =>
      rw [Run.perform, resume_of_halting hhalting]
      exact hs hstopping
    | stop => exact absurd rfl hstop
    | clock => exact hs hstopping
    | finish => exact absurd rfl ha

/-! ### Until the end -/

/-- A run that has not ended, if `f₀` is the feed with which it was launched. -/
structure Going (f₀ : Feed) (r : Run) : Prop where
  steady : r.Steady
  underWay : r.UnderWay f₀
  showsStop : r.ShowsStop

variable {f₀ : Feed}

theorem UnderWay.perform (hu : r.UnderWay f₀) (h : r.Steady) {a : Action} (ha : a ≠ .finish) :
    (r.perform a).UnderWay f₀ :=
  h.keep_perform (w := .any) (P := UnderWay f₀)
    (fun hsound hu m hlive => hu.move hsound m hlive)
    (fun now stopping hu _ => hu.flag now stopping)
    (fun hsound hu hl _ => hu.land hsound hl) ha (World.any_admitsAll r [a]).1 hu

theorem Going.perform (hg : r.Going f₀) {a : Action} (ha : a ≠ .finish)
    (hbusy : a = .stop → r.inFlight ≠ [] ∨ r.active.isSome = true) : (r.perform a).Going f₀ where
  steady := (hg.steady.moves_perform ha (World.any_admitsAll r [a]).1).2
  underWay := hg.underWay.perform hg.steady ha
  showsStop := hg.showsStop.perform hg.steady ha hbusy

theorem Launched.going (h : Launched g limit startInputs pool r) : r.Going r.feed where
  steady := h.steady
  underWay := h.underWay
  showsStop := by
    obtain ⟨_, _, _, _, _, _, rfl⟩ := h.eq
    exact nofun

/-! ### At the end -/

theorem finalStatus_eq_fail_iff : r.finalStatus = .fail ↔ r.failure.isSome = true := by
  unfold finalStatus
  split
  · next h => exact iff_of_true rfl h
  · next h =>
    refine iff_of_false ?_ h
    split
    · nofun
    · nofun

theorem finalStatus_eq_stop_iff :
    r.finalStatus = .stop ↔ r.failure.isSome = false ∧ r.stopping = true := by
  unfold finalStatus
  split
  · next h => exact iff_of_false nofun fun hs => Bool.false_ne_true (hs.1.symm.trans h)
  · next h =>
    split
    · next hstop => exact iff_of_true rfl ⟨Bool.eq_false_iff.2 h, hstop⟩
    · next hstop => exact iff_of_false nofun fun hs => hstop hs.2

theorem finalStatus_eq_success_iff : r.finalStatus = .success ↔ r.halting = false := by
  refine ⟨live_of_finalStatus, fun hlive => ?_⟩
  obtain ⟨hstop, hfailure⟩ := Bool.or_eq_false_iff.1 hlive
  unfold finalStatus
  rw [hfailure, hstop]
  rfl

section Records

variable (ht : r.Told es) (ho : r.feed.Orderly es)

include ht ho

/-- A node has failed exactly if a record shows it. -/
theorem Told.failure_iff :
    r.failure.isSome = true ↔ ∃ x ∈ r.feed.snapshot.records, x.status = .fail := by
  rw [ho.exists_record_iff rfl, ht.failure]
  constructor
  · intro hsome
    obtain ⟨message, hmessage⟩ := Option.isSome_iff_exists.1 hsome
    obtain ⟨before, i, x, after, -, rfl, -, hstatus, -⟩ :=
      findSome?_failure?_eq_some ht.explained hmessage
    exact ⟨i, x, List.mem_append_right _ List.mem_cons_self, hstatus⟩
  · rintro ⟨i, x, hx, hstatus⟩
    obtain ⟨e, he⟩ := Option.isSome_iff_exists.1 (ht.explained i x hx hstatus)
    refine List.findSome?_isSome_iff.2 ⟨_, hx, ?_⟩
    rw [Event.failure?_record hstatus, he]
    rfl

theorem Told.no_failure_iff :
    r.failure.isSome = false ↔ ∀ x ∈ r.feed.snapshot.records, x.status ≠ .fail := by
  rw [← Bool.not_eq_true, ht.failure_iff ho]
  exact not_exists.trans (forall_congr' fun _ => not_and)

/-- No record is stopped unless the run halts. -/
theorem Told.halting_of_stop {x : Record} (hx : x ∈ r.feed.snapshot.records)
    (hstop : x.status = .stop) : r.halting = true := by
  obtain ⟨i, y, hy, hstatus⟩ := (ho.exists_record_iff rfl).1 ⟨x, hx, hstop⟩
  exact ht.stopped i y hy hstatus

/-- If all records are closed, and one is stopped if the run stops, they tell the final status. -/
theorem Told.finalStatus_iff
    (hclosed : ∀ x ∈ r.feed.snapshot.records, x.status.isTerminal = true)
    (hstops : r.stopping = true → ∃ x ∈ r.feed.snapshot.records, x.status = .stop) :
    (r.finalStatus = .fail ↔ ∃ x ∈ r.feed.snapshot.records, x.status = .fail) ∧
    (r.finalStatus = .stop ↔ (∀ x ∈ r.feed.snapshot.records, x.status ≠ .fail) ∧
      ∃ x ∈ r.feed.snapshot.records, x.status = .stop) ∧
    (r.finalStatus = .success ↔
      ∀ x ∈ r.feed.snapshot.records, x.status = .success ∨ x.status = .skip) := by
  rw [finalStatus_eq_fail_iff, finalStatus_eq_stop_iff, finalStatus_eq_success_iff]
  refine ⟨ht.failure_iff ho, ⟨?_, ?_⟩, ⟨?_, ?_⟩⟩
  · rintro ⟨hno, hstopping⟩
    exact ⟨(ht.no_failure_iff ho).1 hno, hstops hstopping⟩
  · rintro ⟨hnone, x, hx, hstop⟩
    have hno := (ht.no_failure_iff ho).2 hnone
    refine ⟨hno, (Bool.or_eq_true_iff.1 (ht.halting_of_stop ho hx hstop)).resolve_right ?_⟩
    rw [hno]
    nofun
  · intro hlive x hx
    have hno := (ht.no_failure_iff ho).1 (Bool.or_eq_false_iff.1 hlive).2 x hx
    have hterminal := hclosed x hx
    cases hstatus : x.status with
    | success => exact Or.inl rfl
    | skip => exact Or.inr rfl
    | fail => exact absurd hstatus hno
    | stop => cases (ht.halting_of_stop ho hx hstatus).symm.trans hlive
    | executing =>
      rw [hstatus] at hterminal
      cases hterminal
    | pause =>
      rw [hstatus] at hterminal
      cases hterminal
  · intro hall
    have hnot : ∀ x ∈ r.feed.snapshot.records, x.status ≠ .stop ∧ x.status ≠ .fail := by
      intro x hx
      rcases hall x hx with hs | hs <;> rw [hs] <;> exact ⟨nofun, nofun⟩
    apply Bool.or_eq_false_iff.2
    constructor
    · apply Bool.eq_false_iff.2
      intro hstopping
      obtain ⟨x, hx, hstop⟩ := hstops hstopping
      exact (hnot x hx).1 hstop
    · exact (ht.no_failure_iff ho).2 fun x hx => (hnot x hx).2

end Records

theorem flags_finish (r : Run) : r.finish.failure = r.failure ∧ r.finish.stopping = r.stopping := by
  obtain ⟨feed, standings, heq⟩ := closePauses_eq r
  rw [finish_eq, heq]
  exact ⟨rfl, rfl⟩

/-- If a run that stops ends, a record is stopped. -/
theorem Going.exists_stop (hg : r.Going f₀) (hids : ∀ n ∈ r.graph.nodes, n.id ≠ "")
    (hspent : r.isSpent = true) (hstopping : r.stopping = true) :
    ∃ x ∈ r.finish.feed.snapshot.records, x.status = .stop := by
  obtain ⟨hflight, hinput, -⟩ := isSpent_iff.1 hspent
  have hd := hg.underWay.displays
  obtain ⟨hclosings, hgiven⟩ := hg.steady.closings_closePauses hg.underWay.candid hd hinput
  have hshown : ∃ i x, r.closePauses.feed.record? i = some x ∧ x.status = .stop := by
    rcases hg.showsStop hstopping with ⟨i, x, hx, hstop⟩ | hbusy | hactive
    · exact ⟨i, x, hclosings.record?_of_isTerminal hx (hstop ▸ rfl), hstop⟩
    · exact absurd hflight hbusy
    -- the pause in the slot is given up
    · obtain ⟨p, hp⟩ := Option.isSome_iff_exists.1 hactive
      obtain ⟨i, -, hi, -⟩ := hd.shown p hp
      have hne := hg.steady.sound.id_ne_empty hids (hg.steady.sound.standing_active hp)
      exact ⟨i, hgiven p i hp hi hne⟩
  obtain ⟨i, x, hx, hstop⟩ := hshown
  have hrecord : r.finish.feed.record? i = some x := (Feed.record?_finish ..).trans hx
  exact ⟨x, List.mem_of_getElem? hrecord, hstop⟩

/-- At the end the records tell the status of the task. -/
theorem Going.status_finish_iff (hg : r.Going f₀) (hids : ∀ n ∈ r.graph.nodes, n.id ≠ "")
    (hspent : r.isSpent = true) (ho : r.finish.feed.Orderly es) (ht : r.finish.Told es) :
    (r.finish.feed.status = .fail ↔
      ∃ x ∈ r.finish.feed.snapshot.records, x.status = .fail) ∧
    (r.finish.feed.status = .stop ↔
      (∀ x ∈ r.finish.feed.snapshot.records, x.status ≠ .fail) ∧
        ∃ x ∈ r.finish.feed.snapshot.records, x.status = .stop) ∧
    (r.finish.feed.status = .success ↔
      ∀ x ∈ r.finish.feed.snapshot.records, x.status = .success ∨ x.status = .skip) := by
  obtain ⟨hfailure, hstopping⟩ := flags_finish r
  have hstatus : r.finish.feed.status = r.finish.finalStatus := by
    rw [hg.steady.status_finish hspent]
    unfold finalStatus
    rw [hfailure, hstopping]
  rw [hstatus]
  apply ht.finalStatus_iff ho
  · intro x hx
    exact hg.steady.closed_finish hg.underWay hids hspent hx
  · intro hstops
    rw [hstopping] at hstops
    exact hg.exists_stop hids hspent hstops

end Run
end Flowrun
