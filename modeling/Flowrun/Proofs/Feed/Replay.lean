import Flowrun.Proofs.Feed.Course
import Flowrun.Proofs.Run.Action
import Flowrun.Service.Start

/-!
# Journals and snapshots

A feed keeps the state of a task twice: as a snapshot, and as the journal of the changes that led
to it. A `View` is the part of a snapshot that entries of a journal tell about, and `View.replay?`
updates one with them. The snapshot at any revision, updated with the entries from that revision
on, is the present snapshot:

    (f.writes before).snapshot.view.replay? (f'.eventsFrom r) = some f'.snapshot.view

There are four writes, each with its own reasons to do nothing. What any of them may do is said once
(`Written`): either no entry is added and the view stays, or one entry is added, by which the view
is updated. Everything else follows from that.
-/

namespace Flowrun

open Json

/-! ### Views -/

/-- What entries of a journal tell about a task. -/
structure View where
  records : List Record
  status : TaskStatus
  target : Option ResumeTarget
  deriving DecidableEq, Repr

def Snapshot.view (p : Snapshot) : View := ⟨p.records, p.status, p.resumeTarget⟩

/-- The status that an entry about it gives the task, with the point at which the task waits. -/
def Event.transition? : Event → Option (TaskStatus × Option ResumeTarget)
  | .record .. => none
  | .status s target => some (s, target)

/-- The changes of the status among entries, the first one first. -/
def transitions (es : List Event) : List (TaskStatus × Option ResumeTarget) :=
  es.filterMap Event.transition?

theorem transitions_append (es more : List Event) :
    transitions (es ++ more) = transitions es ++ transitions more := List.filterMap_append

/-- The last version of a record, in the entries: nothing is written about the record after it. -/
theorem exists_append_of_getLast?_versions {es : List Event} {i : Nat} {x : Record}
    (h : (versions es i).getLast? = some x) :
    ∃ before after, es = before ++ .record i x :: after ∧ versions after i = [] := by
  obtain ⟨earlier, hversions⟩ := List.getLast?_eq_some_iff.1 h
  obtain ⟨es₁, es₂, rfl, -, hlast⟩ := List.filterMap_eq_append_iff.1 hversions
  obtain ⟨passed, e, after, rfl, -, he, hafter⟩ := List.filterMap_eq_cons_iff.1 hlast
  refine ⟨es₁ ++ passed, after, ?_, hafter⟩
  obtain rfl : e = .record i x := by
    have hmem : x ∈ versions [e] i := List.mem_filterMap.2 ⟨e, List.mem_singleton_self e, he⟩
    exact (List.mem_singleton.1 (mem_versions.1 hmem)).symm
  rw [List.append_assoc]

namespace View

variable {v v' : View} {e : Event} {es : List Event}

/-- The view of a task that was just created. -/
def created : View := ⟨[], .created, none⟩

/-- A view after an entry. A record takes the place that its index says, which is that of an earlier
one or the next one; there is no view after an entry that would leave a gap. -/
def after? (v : View) : Event → Option View
  | .record i x =>
    if i < v.records.length then some { v with records := v.records.set i x }
    else if i = v.records.length then some { v with records := v.records ++ [x] }
    else none
  | .status status target => some { v with status, target }

/-- A view after some entries. -/
def replay? (v : View) (es : List Event) : Option View := es.foldlM after? v

theorem replay?_append (v : View) (es more : List Event) :
    v.replay? (es ++ more) = (v.replay? es).bind fun v' => v'.replay? more := List.foldlM_append

theorem replay?_cons (v : View) (e : Event) (es : List Event) :
    v.replay? (e :: es) = (v.after? e).bind fun v' => v'.replay? es := List.foldlM_cons

theorem replay?_concat (h : v.replay? es = some v') (e : Event) :
    v.replay? (es ++ [e]) = v'.after? e := by
  rw [replay?_append, h, Option.bind_some, replay?_cons]
  exact Option.bind_fun_some _

/-! ### What a replay tells -/

/-- A record is what an entry about it says, and else what it was. -/
theorem record?_after? (h : v.after? e = some v') (i : Nat) :
    v'.records[i]? = (e.recordAt? i).or v.records[i]? := by
  cases e with
  | status => obtain rfl := Option.some.inj h; rfl
  | record j x =>
    unfold after? at h
    dsimp only at h
    split at h
    · next hj =>
      obtain rfl := Option.some.inj h
      simp only [Event.recordAt?, List.getElem?_set, hj]
      split <;> rfl
    · split at h
      · next hj =>
        obtain rfl := Option.some.inj h
        subst hj
        simp only [Event.recordAt?, List.getElem?_append, List.getElem?_singleton]
        grind
      · cases h

/-- A record is the last one that was written at its index, and else what it was. -/
theorem record?_replay? (h : v.replay? es = some v') (i : Nat) :
    v'.records[i]? = (versions es i).getLast?.or v.records[i]? := by
  induction es generalizing v with
  | nil => obtain rfl := Option.some.inj h; rfl
  | cons e es ih =>
    rw [replay?_cons] at h
    obtain ⟨v₁, hfirst, hrest⟩ := Option.bind_eq_some_iff.1 h
    rw [ih hrest, record?_after? hfirst]
    unfold versions
    rw [List.filterMap_cons]
    cases e.recordAt? i with
    | none => rfl
    | some x => rw [List.getLast?_cons]; cases (es.filterMap (Event.recordAt? i)).getLast? <;> rfl

/-- The status is what an entry about it says, and else what it was. -/
theorem status_after? (h : v.after? e = some v') :
    (v'.status, v'.target) = e.transition?.getD (v.status, v.target) := by
  cases e with
  | status => obtain rfl := Option.some.inj h; rfl
  | record j x =>
    unfold after? at h
    dsimp only at h
    split at h
    · obtain rfl := Option.some.inj h; rfl
    · split at h
      · obtain rfl := Option.some.inj h; rfl
      · cases h

/-- The status is the last one that was written, and else what it was. -/
theorem status_replay? (h : v.replay? es = some v') :
    (v'.status, v'.target) = (transitions es).getLast?.getD (v.status, v.target) := by
  induction es generalizing v with
  | nil => obtain rfl := Option.some.inj h; rfl
  | cons e es ih =>
    rw [replay?_cons] at h
    obtain ⟨v₁, hfirst, hrest⟩ := Option.bind_eq_some_iff.1 h
    rw [ih hrest, status_after? hfirst]
    unfold transitions
    rw [List.filterMap_cons]
    cases e.transition? with
    | none => rfl
    | some x => rw [List.getLast?_cons]; cases (es.filterMap Event.transition?).getLast? <;> rfl

end View

namespace Feed

/-! ### Writes -/

/-- A write of a feed. -/
inductive Write
  | push (x : Record) (now : Instant)
  | update (index : Nat) (change : Record → Record) (now : Instant)
  | setStatus (s : TaskStatus) (target : Option ResumeTarget) (now : Instant)
  | finish (s : TaskStatus) (outputs : Value) (error : Option String) (now : Instant)

/-- The feed after a write. -/
def write (f : Feed) : Write → Feed
  | .push x now => f.push x now
  | .update i change now => f.update i change now
  | .setStatus s target now => f.setStatus s target now
  | .finish s outputs error now => (f.finish s outputs error now).1

/-- The feed after some writes. -/
def writes (f : Feed) (ws : List Write) : Feed := ws.foldl write f

theorem writes_append (f : Feed) (ws more : List Write) :
    f.writes (ws ++ more) = (f.writes ws).writes more := List.foldl_append

theorem writes_concat (f : Feed) (ws : List Write) (w : Write) :
    f.writes (ws ++ [w]) = (f.writes ws).write w := writes_append f ws [w]

/-- What an entry has to be to be added: a record carries the revision of the write, and a change of
the status is one that the lifecycle allows. -/
def Fits (f : Feed) : Event → Prop
  | .record _ x => x.revision = f.nextRevision
  | .status s _ => f.status.allows s = true

/-- What a write may do to a feed. -/
inductive Written (f f' : Feed) : Prop
  /-- The write is refused, or about a record that is not there. -/
  | refused : f'.journal = f.journal → f'.snapshot.revision = f.snapshot.revision →
      f'.announced = f.announced → f'.notices = f.notices → f'.snapshot.view = f.snapshot.view →
      Written f f'
  /-- An entry is added and announced. -/
  | entered {e : Event} : f.Fits e → f'.journal = f.journal ++ [e] →
      f'.snapshot.revision = f.nextRevision → f'.announced = f.nextRevision →
      f'.notices = f.notices + 1 → f.snapshot.view.after? e = some f'.snapshot.view → Written f f'

variable {f f' : Feed}

/-- An entry that is added and announced, if the view is updated by it. -/
theorem written_append {g : Feed} {e : Event} (now : Instant) (hfits : f.Fits e)
    (hjournal : g.journal = f.journal) (hnotices : g.notices = f.notices)
    (hview : f.snapshot.view.after? e = some g.snapshot.view) :
    f.Written (g.append e now).announce := by
  refine .entered hfits ?_ ?_ ?_ ?_ hview
  · show g.journal ++ [e] = f.journal ++ [e]
    rw [hjournal]
  · show g.journal.length + 1 = f.journal.length + 1
    rw [hjournal]
  · show (g.journal ++ [e]).length = f.journal.length + 1
    rw [hjournal, List.length_append]
    rfl
  · show g.notices + 1 = f.notices + 1
    rw [hnotices]

theorem written_transition (f : Feed) (s : TaskStatus) (target : Option ResumeTarget)
    (now : Instant) : f.Written (f.transition s target now).1 := by
  unfold transition
  split
  · next hallowed => exact written_append now hallowed rfl rfl rfl
  · exact .refused rfl rfl rfl rfl rfl

theorem written_push (f : Feed) (x : Record) (now : Instant) : f.Written (f.push x now) := by
  refine written_append now rfl rfl rfl ?_
  have hlast : ¬ f.snapshot.records.length < f.snapshot.records.length := Nat.lt_irrefl _
  exact (if_neg hlast).trans (if_pos rfl)

theorem written_update (f : Feed) (i : Nat) (change : Record → Record) (now : Instant) :
    f.Written (f.update i change now) := by
  cases hx : f.record? i with
  | none =>
    have hsame : f.update i change now = f := by
      unfold update
      rw [hx]
    rw [hsame]
    exact .refused rfl rfl rfl rfl rfl
  | some x =>
    rw [update_eq_of_record? now hx]
    exact written_append now rfl rfl rfl (if_pos (lt_length_of_record? hx))

/-- Every write adds one entry at most, and the entry tells what it does to the view. -/
theorem written (f : Feed) (w : Write) : f.Written (f.write w) := by
  cases w with
  | push x now => exact written_push f x now
  | update i change now => exact written_update f i change now
  | setStatus s target now => exact written_transition f s target now
  | finish s outputs error now =>
    -- the outputs and the error are set first, and are no part of the view
    cases written_transition { f with snapshot := { f.snapshot with outputs, error } } s none now with
    | refused hjournal hrevision hannounced hnotices hview =>
      exact .refused hjournal hrevision hannounced hnotices hview
    | @entered e hfits hjournal hrevision hannounced hnotices hview =>
      refine .entered (e := e) ?_ hjournal hrevision hannounced hnotices hview
      cases e with
      | record => exact hfits
      | status => exact hfits

/-- A journal only grows. -/
theorem exists_journal_writes (f : Feed) (ws : List Write) :
    ∃ added, (f.writes ws).journal = f.journal ++ added := by
  induction ws generalizing f with
  | nil => exact ⟨[], (List.append_nil _).symm⟩
  | cons w ws ih =>
    obtain ⟨added, hadded⟩ := ih (f.write w)
    cases f.written w with
    | refused hjournal => exact ⟨added, hadded.trans (by rw [hjournal])⟩
    | @entered e _ hjournal =>
      refine ⟨e :: added, hadded.trans ?_⟩
      rw [hjournal, List.append_assoc]
      rfl

/-! ### What the journal and the snapshot have in common -/

/-- A feed in which nothing was written yet. -/
structure IsNew (f : Feed) : Prop where
  view : f.snapshot.view = .created
  revision : f.snapshot.revision = 0
  journal : f.journal = []
  announced : f.announced = 0

/-- The journal of a feed tells all that its snapshot says. -/
structure Agrees (f : Feed) : Prop where
  revision : f.snapshot.revision = f.journal.length
  announced : f.announced = f.journal.length
  replayed : View.created.replay? f.journal = some f.snapshot.view
  stamped : ∀ k i x, f.journal[k]? = some (.record i x) → x.revision = k + 1
  chain : (.created :: (transitions f.journal).map Prod.fst).IsChain fun s t => s.allows t = true

theorem IsNew.agrees (h : f.IsNew) : f.Agrees := by
  constructor
  · rw [h.revision, h.journal]
    rfl
  · rw [h.announced, h.journal]
    rfl
  · rw [h.journal, h.view]
    rfl
  · intro k i x hx
    rw [h.journal] at hx
    cases hx
  · rw [h.journal]
    exact List.isChain_singleton _

namespace Agrees

/-- The status is the one that was written last. -/
theorem status_eq (h : f.Agrees) :
    (f.status, f.target) = (transitions f.journal).getLast?.getD (.created, none) :=
  View.status_replay? h.replayed

theorem status_eq_of_getLast? (h : f.Agrees) {s : TaskStatus}
    (hs : (.created :: (transitions f.journal).map Prod.fst).getLast? = some s) : f.status = s := by
  have hstatus : f.status = _ := congrArg Prod.fst h.status_eq
  rw [List.getLast?_cons, List.getLast?_map] at hs
  rw [hstatus, ← Option.some.inj hs]
  cases (transitions f.journal).getLast? <;> rfl

/-- A record is the last one that was written at its index. -/
theorem record?_eq (h : f.Agrees) (i : Nat) : f.record? i = (versions f.journal i).getLast? := by
  have hreplayed := View.record?_replay? h.replayed i
  rwa [show (View.created.records[i]? : Option Record) = none from rfl, Option.or_none]
    at hreplayed

/-- The changes of the status go on as the lifecycle allows. -/
theorem chain_append (h : f.Agrees) {e : Event} (hfits : f.Fits e) :
    (.created :: (transitions (f.journal ++ [e])).map Prod.fst).IsChain
      fun s t => s.allows t = true := by
  rw [transitions_append, List.map_append, ← List.cons_append]
  cases e with
  | record => exact (List.append_nil _).symm ▸ h.chain
  | status s target =>
    refine List.isChain_append.2 ⟨h.chain, List.isChain_singleton _, ?_⟩
    intro t ht u hu
    obtain rfl := Option.some.inj hu
    have hfits : f.status.allows s = true := hfits
    rwa [h.status_eq_of_getLast? ht] at hfits

theorem written (h : f.Agrees) (hw : f.Written f') : f'.Agrees := by
  cases hw with
  | refused hjournal hrevision hannounced _ hview =>
    constructor
    · rw [hrevision, hjournal, h.revision]
    · rw [hannounced, hjournal, h.announced]
    · rw [hjournal, hview, h.replayed]
    · rw [hjournal]
      exact h.stamped
    · rw [hjournal]
      exact h.chain
  | @entered e hfits hjournal hrevision hannounced _ hview =>
    have hlength : f'.journal.length = f.nextRevision := by
      rw [hjournal, List.length_append]
      rfl
    constructor
    · rw [hrevision, hlength]
    · rw [hannounced, hlength]
    · rw [hjournal, View.replay?_concat h.replayed, hview]
    · intro k i x hx
      rw [hjournal] at hx
      rcases Nat.lt_trichotomy k f.journal.length with hlt | rfl | hgt
      · rw [List.getElem?_append_left hlt] at hx
        exact h.stamped k i x hx
      · rw [List.getElem?_concat_length] at hx
        obtain rfl := Option.some.inj hx
        exact hfits
      · rw [List.getElem?_eq_none (by simp; omega)] at hx
        cases hx
    · rw [hjournal]
      exact h.chain_append hfits

theorem writes (h : f.Agrees) (ws : List Write) : (f.writes ws).Agrees := by
  induction ws generalizing f with
  | nil => exact h
  | cons w ws ih => exact ih (h.written (f.written w))

/-- Every record carries the revision of the latest entry about it. -/
theorem revision_record (h : f.Agrees) {i : Nat} {x : Record} (hx : f.record? i = some x) :
    ∃ before after, f.journal = before ++ .record i x :: after ∧ versions after i = [] ∧
      x.revision = before.length + 1 := by
  obtain ⟨before, after, hsplit, hlast⟩ :=
    exists_append_of_getLast?_versions ((h.record?_eq i).symm.trans hx)
  refine ⟨before, after, hsplit, hlast, h.stamped before.length i x ?_⟩
  rw [hsplit, List.getElem?_append_right (Nat.le_refl _), Nat.sub_self]
  rfl

/-- No change of the status follows one to a terminal status. -/
theorem transitions_eq_nil (h : f.Agrees) {before after : List Event} {s : TaskStatus}
    {target : Option ResumeTarget} (hsplit : f.journal = before ++ .status s target :: after)
    (hterminal : s.isTerminal = true) : transitions after = [] := by
  have hchain := h.chain
  rw [hsplit, transitions_append, List.map_append, ← List.cons_append] at hchain
  cases hafter : transitions after with
  | nil => rfl
  | cons t ts =>
    have hnext : transitions (.status s target :: after) = (s, target) :: t :: ts := by
      rw [← hafter]
      rfl
    rw [hnext] at hchain
    have hallowed := (List.isChain_cons_cons.1 (List.isChain_append.1 hchain).2.1).1
    cases (TaskStatus.allows_of_isTerminal hterminal _).symm.trans hallowed

/-- A snapshot is brought up to date by the entries from its revision on. -/
theorem replay?_of_journal (h : f.Agrees) (h' : f'.Agrees) {added : List Event}
    (hjournal : f'.journal = f.journal ++ added) :
    f.snapshot.view.replay? (f'.eventsFrom f.snapshot.revision) = some f'.snapshot.view := by
  have hreplayed := h'.replayed
  rw [hjournal, View.replay?_append, h.replayed] at hreplayed
  unfold eventsFrom
  rw [hjournal, h.revision, List.drop_left]
  exact hreplayed

theorem replay?_writes (h : f.Agrees) (ws : List Write) :
    f.snapshot.view.replay? ((f.writes ws).eventsFrom f.snapshot.revision) =
      some (f.writes ws).snapshot.view := by
  obtain ⟨added, hadded⟩ := f.exists_journal_writes ws
  exact h.replay?_of_journal (h.writes ws) hadded

end Agrees

/-- A write raises the revision by one at most. -/
theorem revision_write_le (h : f.Agrees) (w : Write) :
    (f.write w).snapshot.revision ≤ f.snapshot.revision + 1 := by
  cases f.written w with
  | refused _ hrevision => omega
  | entered _ _ hrevision =>
    rw [hrevision, h.revision]
    exact Nat.le_refl _

/-- No revision is left out. -/
theorem exists_revision (h : f.Agrees) (hnew : f.snapshot.revision = 0) (ws : List Write) {r : Nat}
    (hr : r ≤ (f.writes ws).snapshot.revision) :
    ∃ before, before <+: ws ∧ (f.writes before).snapshot.revision = r := by
  induction ws using List.reverseRecOn with
  | nil =>
    have hr : r ≤ f.snapshot.revision := hr
    exact ⟨[], List.prefix_refl _, show f.snapshot.revision = r by omega⟩
  | append_singleton ws w ih =>
    have hnext := revision_write_le (h.writes ws) w
    rw [← writes_concat] at hnext
    by_cases hle : r ≤ (f.writes ws).snapshot.revision
    · obtain ⟨before, hbefore, heq⟩ := ih hle
      exact ⟨before, hbefore.trans (List.prefix_append ..), heq⟩
    · exact ⟨ws ++ [w], List.prefix_refl _, by omega⟩

/-- After any writes of a new feed, the journal and the snapshot agree. The revision, the length of
the journal and the revision that was announced are one; the journal, replayed by index, gives the
records, the status and the point at which the task waits; every record carries the revision of the
latest entry about it; the status is the one of the latest entry about it; and the status changes as
the lifecycle of tasks allows, not at all after a terminal one. So a snapshot at any revision is
brought up to date by the entries from that revision on. -/
theorem journal_agrees (h : f.IsNew) (ws : List Write) :
    let f' := f.writes ws
    (f'.snapshot.revision = f'.journal.length ∧ f'.announced = f'.journal.length) ∧
    View.created.replay? f'.journal = some f'.snapshot.view ∧
    (∀ i x, f'.record? i = some x → ∃ before after,
      f'.journal = before ++ .record i x :: after ∧ versions after i = [] ∧
        x.revision = before.length + 1) ∧
    (f'.status, f'.target) = (transitions f'.journal).getLast?.getD (.created, none) ∧
    (.created :: (transitions f'.journal).map Prod.fst).IsChain (fun s t => s.allows t = true) ∧
    (∀ before after s target, f'.journal = before ++ .status s target :: after →
      s.isTerminal = true → transitions after = []) ∧
    (∀ before, before <+: ws →
      (f.writes before).snapshot.view.replay?
        (f'.eventsFrom (f.writes before).snapshot.revision) = some f'.snapshot.view) ∧
    ∀ r ≤ f'.snapshot.revision, ∃ before, before <+: ws ∧
      (f.writes before).snapshot.revision = r := by
  have hagrees := h.agrees.writes ws
  refine ⟨⟨hagrees.revision, hagrees.announced⟩, hagrees.replayed, ?_, hagrees.status_eq,
    hagrees.chain, ?_, ?_, ?_⟩
  · exact fun i x hx => hagrees.revision_record hx
  · exact fun before after s target hsplit hterminal => hagrees.transitions_eq_nil hsplit hterminal
  · rintro before ⟨after, rfl⟩
    rw [writes_append]
    exact (h.agrees.writes before).replay?_writes after
  · exact fun r hr => exists_revision h.agrees h.revision ws hr

/-- A record is added, changed and changed where there is none, and the task is paused twice. The
snapshot after the record was added is brought up to date by two entries. -/
theorem journal_agrees_paused :
    let x : Record := .executing "fetch" "fetch" "script" .null
    let before : List Write := [.setStatus .executing none default, .push x default]
    let ws : List Write := before ++ [.update 0 (fun x => { x with status := .pause }) default,
      .update 1 id default, .setStatus .paused (some ⟨"fetch", none⟩) default,
      .setStatus .paused none default]
    let f' := Sample.feed.writes ws
    Sample.feed.IsNew ∧ before <+: ws ∧ f'.snapshot.revision = 4 ∧
      f'.snapshot.view = ⟨[{ x with status := .pause, revision := 3 }], .paused,
        some ⟨"fetch", none⟩⟩ ∧
      (Sample.feed.writes before).snapshot.view.replay?
        (f'.eventsFrom (Sample.feed.writes before).snapshot.revision) = some f'.snapshot.view := by
  intro x before ws f'
  have hnew : Sample.feed.IsNew := ⟨rfl, rfl, rfl, rfl⟩
  have hbefore : before <+: ws := List.prefix_append ..
  obtain ⟨-, -, -, -, -, -, hreplay, -⟩ := journal_agrees hnew ws
  exact ⟨hnew, hbefore, rfl, rfl, hreplay before hbefore⟩

end Feed
end Flowrun
