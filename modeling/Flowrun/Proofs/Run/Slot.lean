import Flowrun.Proofs.Feed.Journal
import Flowrun.Proofs.Run.UnderWay

/-!
# The pause slot

Which pause is shown is written down in four places: in the slot of the run, in the status of the
task, in the point at which the task waits, and in the status of one record. A feed `Displays` a
slot if it agrees with it everywhere:

    f.status = .paused ↔ slot.isSome
    f.target = slot.map Pause.target
    f.record? i = some x ∧ x.status = .pause ↔ the pause in the slot is shown on the record i

Each way to write a feed has a lemma that says which slot is displayed then. A launched run displays
its slot until it ends, in every history (`Launched.displays_acts`), also while it halts.
-/

namespace Flowrun

open Json

/-! ### What a feed displays -/

namespace Feed

/-- A feed agrees with the slot about the pause that is shown. -/
structure Displays (f : Feed) (slot : Option Pause) : Prop where
  status : f.status = if slot.isSome then .paused else .executing
  target : f.target = slot.map Pause.target
  shown : ∀ p, slot = some p → ∃ i x, p.record = some i ∧ f.record? i = some x ∧
    x.status = .pause ∧ x.target = p.target
  only : ∀ i x, f.record? i = some x → x.status = .pause → ∃ p, slot = some p ∧ p.record = some i

namespace Displays

variable {f : Feed} {slot : Option Pause} {p : Pause} {i : Nat} {x : Record}
  {change : Record → Record}

theorem live (h : f.Displays slot) : f.status = .executing ∨ f.status = .paused := by
  rw [h.status]
  cases slot with
  | none => exact Or.inl rfl
  | some p => exact Or.inr rfl

/-- A new record that shows no pause. -/
theorem push (h : f.Displays slot) {s : NodeStatus} (hs : s ≠ .pause) (hx : x.status = s)
    (now : Instant) : (f.push x now).Displays slot where
  status := h.status
  target := h.target
  shown p hp := by
    obtain ⟨i, y, hi, hy, hpause⟩ := h.shown p hp
    exact ⟨i, y, hi, record?_push_of_eq_some now hy x, hpause⟩
  only i y hy hpause := by
    rw [record?_push] at hy
    split at hy
    · obtain rfl := Option.some.inj hy
      exact absurd (hx.symm.trans hpause) hs
    · exact h.only i y hy hpause

/-- A record that does not show the pause is written, and still does not. -/
theorem update (h : f.Displays slot) (hother : ∀ p, slot = some p → p.record ≠ some i)
    {s : NodeStatus} (hs : s ≠ .pause) (hstatus : ∀ y, (change y).status = s) (now : Instant) :
    (f.update i change now).Displays slot where
  status := (status_update ..).trans h.status
  target := (target_update ..).trans h.target
  shown p hp := by
    obtain ⟨j, y, hj, hy, hpause⟩ := h.shown p hp
    have hne : i ≠ j := fun he => hother p hp (he ▸ hj)
    exact ⟨j, y, hj, (record?_update ..).trans ((if_neg hne).trans hy), hpause⟩
  only j y hy hpause := by
    rw [record?_update] at hy
    split at hy
    · obtain ⟨z, -, rfl⟩ := Option.map_eq_some_iff.1 hy
      exact absurd ((hstatus z).symm.trans hpause) hs
    · exact h.only j y hy hpause

/-- The record that shows the pause is written, and the slot is empty then. -/
theorem clear (h : f.Displays (some p)) (hi : p.record = some i) {s : NodeStatus}
    (hs : s ≠ .pause) (hstatus : ∀ y, (change y).status = s) (now : Instant) :
    ((f.update i change now).setStatus .executing none now).Displays none where
  status := by
    refine status_setStatus_of_live ?_ (Or.inl rfl) none now
    exact Or.inr ((status_update ..).trans h.status)
  target := by
    rw [target_setStatus, status_update, h.status]
    rfl
  shown _ hp := nomatch hp
  only j y hy hpause := by
    rw [record?_setStatus_update] at hy
    split at hy
    · obtain ⟨z, -, rfl⟩ := Option.map_eq_some_iff.1 hy
      exact absurd ((hstatus z).symm.trans hpause) hs
    · next hne =>
      obtain ⟨q, hq, hj⟩ := h.only j y hy hpause
      obtain rfl := Option.some.inj hq
      exact absurd (Option.some.inj (hi.symm.trans hj)) hne

/-- A pause is shown on a record that is there. -/
theorem mark (h : f.Displays none) (hx : f.record? i = some x) (hs : (change x).status = .pause)
    (htarget : (change x).target = p.target) (now : Instant) :
    ((f.update i change now).setStatus .paused (some p.target) now).Displays
      (some { p with record := some i }) where
  status := by
    refine status_setStatus_of_live ?_ (Or.inr rfl) _ now
    exact Or.inl ((status_update ..).trans h.status)
  target := by
    rw [target_setStatus, status_update, h.status]
    rfl
  shown q hq := by
    obtain rfl := Option.some.inj hq
    refine ⟨i, (change x).stamped f.nextRevision, rfl, ?_, hs, htarget⟩
    rw [record?_setStatus_update, if_pos rfl, hx]
    rfl
  only j y hy hpause := by
    rw [record?_setStatus_update] at hy
    split at hy
    · next hij => exact ⟨_, rfl, congrArg some hij⟩
    · obtain ⟨q, hq, -⟩ := h.only j y hy hpause
      cases hq

/-- A pause is shown on a new record. -/
theorem add (h : f.Displays none) (hs : x.status = .pause) (htarget : x.target = p.target)
    (now : Instant) :
    ((f.push x now).setStatus .paused (some p.target) now).Displays
      (some { p with record := some f.snapshot.records.length }) where
  status := by
    have hlive : (f.push x now).status = .executing := h.status
    exact status_setStatus_of_live (Or.inl hlive) (Or.inr rfl) _ now
  target := by
    rw [target_setStatus, show (f.push x now).status = .executing from h.status]
    rfl
  shown q hq := by
    obtain rfl := Option.some.inj hq
    refine ⟨_, x.stamped f.nextRevision, rfl, ?_, hs, htarget⟩
    rw [record?_setStatus, record?_push, if_pos rfl]
  only j y hy hpause := by
    rw [record?_setStatus, record?_push] at hy
    split at hy
    · next hj => exact ⟨_, rfl, congrArg some hj.symm⟩
    · obtain ⟨q, hq, -⟩ := h.only j y hy hpause
      cases hq

/-- What is displayed, in terms of all records. -/
theorem filter_records (h : f.Displays (some p)) :
    ∃ i x, p.record = some i ∧ f.record? i = some x ∧ x.target = p.target ∧
      f.snapshot.records.filter (·.status = .pause) = [x] := by
  obtain ⟨i, x, hi, hx, hpause, htarget⟩ := h.shown p rfl
  refine ⟨i, x, hi, hx, htarget, ?_⟩
  refine Run.filter_eq_singleton hx (decide_eq_true hpause) fun j y hy hp => ?_
  obtain ⟨q, hq, hj⟩ := h.only j y hy (of_decide_eq_true hp)
  obtain rfl := Option.some.inj hq
  exact Option.some.inj (hj.symm.trans hi)

theorem status_ne_pause (h : f.Displays none) (hx : x ∈ f.snapshot.records) :
    x.status ≠ .pause := by
  intro hpause
  obtain ⟨i, hi⟩ := List.mem_iff_getElem?.1 hx
  obtain ⟨p, hp, -⟩ := h.only i x hi hpause
  cases hp

end Displays

end Feed

/-! ### A run displays its slot -/

namespace Run

variable {w : World} {r r' : Run}

/-- The record that shows the pause is not that of another node. -/
theorem Sound.record_ne (h : r.Sound) {p : Pause} {id : String} {i : Nat}
    (hp : r.active = some p) (hi : r.recordOf.at? id = some i) (hne : id ≠ p.node) :
    p.record ≠ some i := by
  intro hrecord
  obtain ⟨x, hx, hnode, hnone⟩ := h.ledger.filed id i hi
  by_cases hinner : p.inner = none
  · obtain ⟨y, hy, hnode', -⟩ := h.ledger.filed p.node i (h.recordOf_own hp hrecord hinner)
    obtain rfl := Option.some.inj (hx.symm.trans hy)
    exact hne (hnode.symm.trans hnode')
  · obtain ⟨y, hy, hparent⟩ := h.record_inner hp hrecord hinner
    obtain rfl := Option.some.inj (hx.symm.trans hy)
    cases hparent.symm.trans hnone

/-- A node that runs is not the one that waits. -/
theorem Sound.ne_of_flying (h : r.Sound) {x : Execution} {p : Pause} (hx : x ∈ r.inFlight)
    (hp : r.active = some p) : x.request.node.id ≠ p.node := by
  intro he
  have hrun := h.standing_flying hx
  rw [he, h.standing_active hp] at hrun
  cases hrun

/-- A node that was reached has an id. -/
theorem Sound.id_ne_empty (h : r.Sound) (hids : ∀ n ∈ r.graph.nodes, n.id ≠ "") {id : String}
    {s : Standing} (hs : r.standing? id = some s) : id ≠ "" := by
  obtain ⟨n, hn⟩ := h.reached id (by rw [hs]; nofun)
  exact Graph.id_of_node?_eq_some hn ▸ hids n (Graph.mem_of_node?_eq_some hn)

theorem Sound.displays_land (h : r.Sound) (hd : r.feed.Displays r.active) (hl : r.Lands r') :
    r'.feed.Displays r'.active := by
  cases hl with
  | intro pool chosen failure hx hi hs hstatus =>
    refine hd.update (fun p hp => h.record_ne hp hi (h.ne_of_flying hx hp)) ?_ hstatus r.now
    rcases hs with rfl | rfl | rfl <;> nofun

theorem Sound.displays_showOwn (h : r.Sound) {p : Pause} {rest : List Pause} {i : Nat}
    (hd : r.feed.Displays none) (hqueued : r.queued = p :: rest) (hinner : p.inner = none)
    (hi : r.recordOf.at? p.node = some i) :
    ({ r with queued := rest }.showOwn p i).feed.Displays (some { p with record := some i }) := by
  obtain ⟨x, hx, hnode, hparent⟩ := h.ledger.filed p.node i hi
  refine hd.mark hx rfl ?_ r.now
  show ResumeTarget.new x.node x.parent = p.target
  rw [hnode, hparent, h.target p (by simp [pauses, hqueued]), hinner]
  rfl

theorem Sound.displays_showInner (h : r.Sound) {p : Pause} {rest : List Pause}
    {inner : InnerNode} (hd : r.feed.Displays none) (hqueued : r.queued = p :: rest)
    (hinner : p.inner = some inner) :
    ({ r with queued := rest }.showInner p inner).feed.Displays
      (some { p with record := some r.nextIndex }) := by
  refine hd.add rfl ?_ r.now
  show ResumeTarget.new inner.id (some p.node) = p.target
  rw [h.target p (by simp [pauses, hqueued]), hinner]
  rfl

/-- The moves of a run that goes on keep the feed in step with the slot. -/
theorem Sound.displays_move (h : r.Sound) (hd : r.feed.Displays r.active) (m : Move w r r')
    (hlive : r'.halting = false) : r'.feed.Displays r'.active := by
  have hbefore := m.live hlive
  cases m with
  | clock => exact hd
  | stop => exact hd
  | sort => exact hd
  | enqueue => exact hd
  | wait => exact hd
  | start => exact hd.push (s := .executing) nofun rfl r.now
  | skip => exact hd.push (s := .skip) nofun rfl r.now
  | close output elapsed hx hi => exact h.displays_land hd (lands_close hx hi output elapsed)
  | fail elapsed hx hi => exact h.displays_land hd (lands_fail hx hi _ elapsed)
  | complete elapsed hx hi => exact h.displays_land hd (lands_complete hx hi _ _ elapsed)
  | showOwn hactive hqueued hinner hi =>
    exact h.displays_showOwn (hactive ▸ hd) hqueued hinner hi
  | showInner hactive hqueued hinner => exact h.displays_showInner (hactive ▸ hd) hqueued hinner
  | reenter _ _ hactive hi =>
    rw [hactive] at hd
    exact hd.clear hi (s := .success) nofun (fun _ => rfl) r.now
  | answer _ hactive hi =>
    rw [hactive] at hd
    exact hd.clear hi (s := .success) nofun (fun _ => rfl) r.now
  -- pauses are only given up by a run that halts
  | stopInner hh => cases hh.symm.trans hbefore
  | dropActive hh => cases hh.symm.trans hbefore
  | dropQueued hh => cases hh.symm.trans hbefore

variable {g : Graph} {limit : Nat} {startInputs : Dict Value} {pool : Pool}

theorem Launched.displays (h : Launched g limit startInputs pool r) :
    r.feed.Displays r.active := by
  obtain ⟨feed, now, r₀, hstatus, hrecords, hbegin, rfl⟩ := h.begun
  obtain ⟨order, -, rfl⟩ := begin_eq hbegin
  have hallows : feed.status.allows .executing = true := by
    rw [hstatus]
    rfl
  constructor
  · exact (Feed.status_setStatus ..).trans (if_pos hallows)
  · exact (Feed.target_setStatus ..).trans (if_pos hallows)
  · nofun
  -- there are no records yet
  · intro i x hx
    have hnone : (feed.setStatus .executing none now).record? i = none := by
      rw [Feed.record?_setStatus, Feed.record?, hrecords]
      rfl
    cases hnone.symm.trans hx

/-- Until it ends, a launched run displays its slot in every history; when it ended, it did so just
before. -/
theorem Launched.displays_acts (h : Launched g limit startInputs pool r) (as : List Action) :
    ((r.acts as).Steady ∧ (r.acts as).feed.Displays (r.acts as).active) ∨
      ∃ s : Run, s.Steady ∧ s.feed.Displays s.active ∧ s.isSpent = true ∧ r.acts as = s.finish :=
  h.steady.keep_acts (w := .any) (P := fun s => s.feed.Displays s.active)
    (fun hsound hd m hlive => hsound.displays_move hd m hlive) (fun _ _ hd _ => hd)
    (fun hsound hd hl _ => hsound.displays_land hd hl) h.displays (World.any_admitsAll r as)

end Run
end Flowrun
