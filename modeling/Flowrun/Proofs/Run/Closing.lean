import Flowrun.Proofs.Feed.Closing
import Flowrun.Proofs.Run.Slot

/-!
# What a run closes

The record of a node that was reached and is not done is open; such a run is `Candid`, and every
move keeps it so. So when an execution lands its record is closed (`Sound.closes_land`), and when
the pauses are given up at the end, records are closed and nothing else is written
(`Steady.closings_closePauses`).

If in addition the feed displays the slot, a node that runs or is queued has a record with the
status `executing`.
-/

namespace Flowrun.Run

open Json

variable {w : World} {r r' : Run} {id : String} {i : Nat}

/-- A node that was reached and is not done. -/
def Pending (r : Run) (id : String) : Prop := ∃ s, r.standing? id = some s ∧ s.Open

/-- The records of nodes that are not done are open. -/
def Candid (r : Run) : Prop :=
  ∀ id i x, r.Pending id → r.recordOf.at? id = some i → r.feed.record? i = some x →
    x.status.isTerminal = false

theorem Sound.pending_flying (h : r.Sound) {x : Execution} (hx : x ∈ r.inFlight) :
    r.Pending x.request.node.id := ⟨_, h.standing_flying hx, Or.inl rfl⟩

theorem Sound.pending_waiting (h : r.Sound) {p : Pause} (hp : p ∈ r.pauses) : r.Pending p.node :=
  ⟨_, h.standing_waiting hp, Or.inr rfl⟩

/-- Different nodes have different records. -/
theorem Sound.recordOf_ne (h : r.Sound) {a : String} {j : Nat} (hi : r.recordOf.at? id = some i)
    (hj : r.recordOf.at? a = some j) (hne : a ≠ id) : i ≠ j := by
  rintro rfl
  obtain ⟨x, hx, rfl, -⟩ := h.ledger.filed id i hi
  obtain ⟨y, hy, rfl, -⟩ := h.ledger.filed a i hj
  obtain rfl := Option.some.inj (hx.symm.trans hy)
  exact hne rfl

/-! ### Every move keeps a run candid -/

/-- Nothing but the standing of one node changes, which is done then, and its record. -/
theorem Candid.done (hc : r.Candid) (s : NodeStatus) (hrecordOf : r'.recordOf = r.recordOf)
    (hstand : r'.standings = r.standings.put id (.done s))
    (hfeed : ∀ a j, a ≠ id → r.recordOf.at? a = some j →
      r'.feed.record? j = r.feed.record? j) : r'.Candid := by
  rintro a j x ⟨t, ht, hopen⟩ hj hx
  rw [standing?, hstand, Dict.at?_put] at ht
  rw [hrecordOf] at hj
  split at ht
  · obtain rfl := Option.some.inj ht
    rcases hopen with h | h <;> cases h
  · next hne =>
    rw [hfeed a j (Ne.symm hne) hj] at hx
    exact hc a j x ⟨t, ht, hopen⟩ hj hx

/-- The standings of the nodes that are not done change only among themselves, and their records
are the same or open. -/
theorem Candid.of_pending (hc : r.Candid) (hrecordOf : r'.recordOf = r.recordOf)
    (hpending : ∀ a, r'.Pending a → r.Pending a)
    (hrecord : ∀ a j x, r.Pending a → r.recordOf.at? a = some j → r'.feed.record? j = some x →
      r.feed.record? j = some x ∨ x.status.isTerminal = false) : r'.Candid := by
  intro a j x ha hj hx
  rw [hrecordOf] at hj
  rcases hrecord a j x (hpending a ha) hj hx with hsame | hopen
  · exact hc a j x (hpending a ha) hj hsame
  · exact hopen

/-- A node that is not done goes on waiting or running. -/
theorem pending_of_put {s : Standing} {standings : Dict Standing} (hid : r.Pending id)
    (hstand : standings = r.standings.put id s) {a : String}
    (ha : ∃ t, standings.at? a = some t ∧ t.Open) : r.Pending a := by
  obtain ⟨t, ht, hopen⟩ := ha
  rw [hstand, Dict.at?_put] at ht
  split at ht
  · next he => exact he ▸ hid
  · exact ⟨t, ht, hopen⟩

/-- A new record is behind those of the nodes. -/
theorem Sound.record?_push_of_recordOf (h : r.Sound) {x y : Record} {now : Instant}
    (hi : r.recordOf.at? id = some i) (hx : (r.feed.push y now).record? i = some x) :
    r.feed.record? i = some x := by
  obtain ⟨z, hz, -⟩ := h.ledger.filed id i hi
  have hsame : (r.feed.push y now).record? i = some z :=
    Feed.record?_push_of_eq_some now hz y
  rw [← hx, hsame]
  exact hz

theorem Sound.candid_start (h : r.Sound) (hc : r.Candid) (n : Node) (rest : List String)
    (inputs : Dict Value) :
    (({ r with ready := rest }.openRecord n inputs).launch n inputs none).Candid := by
  rintro a j x ⟨t, ht, hopen⟩ hj hx
  replace ht : (r.standings.put n.id .running).at? a = some t := ht
  replace hj : (r.recordOf.put n.id r.nextIndex).at? a = some j := hj
  replace hx : (r.feed.push _ r.now).record? j = some x := hx
  rw [Dict.at?_put] at ht hj
  split at hj
  · obtain rfl := Option.some.inj hj
    have hlast : r.nextIndex = r.feed.snapshot.records.length := rfl
    rw [Feed.record?_push, if_pos hlast] at hx
    obtain rfl := Option.some.inj hx
    rfl
  · next hne =>
    rw [if_neg hne] at ht
    exact hc a j x ⟨t, ht, hopen⟩ hj (h.record?_push_of_recordOf hj hx)

theorem Sound.candid_skip (h : r.Sound) (hc : r.Candid) (n : Node) : (r.skip n).Candid := by
  rintro a j x ⟨t, ht, hopen⟩ hj hx
  replace ht : (r.standings.put n.id (.done .skip)).at? a = some t := ht
  replace hj : (r.recordOf.put n.id r.nextIndex).at? a = some j := hj
  replace hx : (r.feed.push _ r.now).record? j = some x := hx
  rw [Dict.at?_put] at ht hj
  split at ht
  · obtain rfl := Option.some.inj ht
    rcases hopen with he | he <;> cases he
  · next hne =>
    rw [if_neg hne] at hj
    exact hc a j x ⟨t, ht, hopen⟩ hj (h.record?_push_of_recordOf hj hx)

/-- A record that is not one of a node is written. -/
theorem Sound.candid_aside (h : r.Sound) (hc : r.Candid) {p : Pause} (change : Record → Record)
    (hactive : r.active = some p) (hi : p.record = some i) (hnested : p.target.isNested = true)
    (hparent : ∀ x, (change x).parent = x.parent) (hrecordOf : r'.recordOf = r.recordOf)
    (hpending : ∀ a, r'.Pending a → r.Pending a)
    (hfeed : ∀ j, r'.feed.record? j = (r.feed.update i change r.now).record? j) : r'.Candid := by
  refine hc.of_pending hrecordOf hpending fun a j x _ hj hx => Or.inl ?_
  have hinner : p.inner ≠ none := ((h.isNested_iff hactive).1 hnested).1
  obtain ⟨y, hy, -, hnone⟩ := h.ledger.filed a j hj
  have hsame := (h.aside_update hactive hi hinner change hparent j y hnone).2 hy
  rw [← hx, hfeed, hsame]
  exact hy

theorem Sound.candid_land (h : r.Sound) (hc : r.Candid) (hl : r.Lands r') : r'.Candid := by
  cases hl with
  | intro pool chosen failure hx hi =>
    refine hc.done _ rfl rfl fun a j ha hj => ?_
    exact (Feed.record?_update ..).trans (if_neg (h.recordOf_ne hi hj ha))

theorem Sound.candid_close (h : r.Sound) (hc : r.Candid) (hi : r.recordOf.at? id = some i)
    (s : NodeStatus) (output : Value) (elapsed : Nat) (active : Option Pause)
    (queued : List Pause) :
    ({ r with active, queued }.close id i s output elapsed).Candid := by
  refine hc.done s rfl rfl fun a j ha hj => ?_
  exact (Feed.record?_update ..).trans (if_neg (h.recordOf_ne hi hj ha))

/-- Every move keeps the records of nodes that are not done open. -/
theorem Sound.candid_move (h : r.Sound) (hc : r.Candid) (m : Move w r r') : r'.Candid := by
  cases m with
  | clock => exact hc
  | stop => exact hc
  | sort => exact hc
  | enqueue => exact hc
  | start => exact h.candid_start hc _ _ _
  | skip => exact h.candid_skip hc _
  | close output elapsed hx hi => exact h.candid_land hc (lands_close hx hi output elapsed)
  | fail elapsed hx hi => exact h.candid_land hc (lands_fail hx hi _ elapsed)
  | complete elapsed hx hi => exact h.candid_land hc (lands_complete hx hi _ _ elapsed)
  | wait hx =>
    exact hc.of_pending rfl (fun a ha => pending_of_put (h.pending_flying hx) rfl ha)
      fun _ _ _ _ _ hx => Or.inl hx
  | @showOwn p _ j _ hqueued _ hj =>
    refine hc.of_pending rfl (fun _ ha => ha) fun a k x _ hk hx => ?_
    rw [show (Run.feed _).record? k = _ from Feed.record?_setStatus_update ..] at hx
    split at hx
    · obtain ⟨y, -, rfl⟩ := Option.map_eq_some_iff.1 hx
      exact Or.inr rfl
    · exact Or.inl hx
  | showInner =>
    refine hc.of_pending rfl (fun _ ha => ha) fun a k x _ hk hx => Or.inl ?_
    exact h.record?_push_of_recordOf hk ((Feed.record?_setStatus ..).symm.trans hx)
  | reenter inputs _ hactive hi hnested hn =>
    have hid := Graph.id_of_node?_eq_some hn
    have hpending : r.Pending _ := ⟨_, h.standing_active hactive, Or.inr rfl⟩
    exact h.candid_aside hc (answered (.object inputs)) hactive hi hnested
      (fun _ => rfl) rfl (fun a ha => pending_of_put (hid ▸ hpending) rfl ha)
      fun j => Feed.record?_setStatus ..
  | answer _ hactive hi =>
    refine hc.done .success rfl rfl fun a j ha hj => ?_
    refine (Feed.record?_setStatus_update ..).trans (if_neg fun hij => ?_)
    exact h.record_ne hactive hj ha (hij ▸ hi)
  | stopInner _ hactive hi hnested =>
    exact h.candid_aside hc (fun x => { x with status := .stop }) hactive hi hnested
      (fun _ => rfl) rfl (fun _ ha => ha) fun _ => rfl
  | dropActive _ _ hi => exact h.candid_close hc hi .stop .null 0 none _
  | dropQueued _ _ _ hi => exact h.candid_close hc hi .stop .null 0 _ _

variable {g : Graph} {limit : Nat} {startInputs : Dict Value} {pool : Pool}

theorem Launched.candid (h : Launched g limit startInputs pool r) : r.Candid := by
  rintro id i x ⟨s, hs, -⟩
  obtain ⟨_, _, _, _, _, _, rfl⟩ := h.eq
  cases hs

/-! ### Executions that land -/

/-- A node that is not done and not shown executes, as far as its record says. -/
theorem Sound.executing_of_pending (h : r.Sound) (hc : r.Candid)
    (hd : r.feed.Displays r.active) (hid : r.Pending id) (hi : r.recordOf.at? id = some i)
    (hother : ∀ p, r.active = some p → id ≠ p.node) :
    ∃ x, r.feed.record? i = some x ∧ x.status = .executing := by
  obtain ⟨x, hx, -⟩ := h.ledger.filed id i hi
  refine ⟨x, hx, ?_⟩
  rcases NodeStatus.isTerminal_eq_false_iff.1 (hc id i x hid hi hx) with hs | hpause
  · exact hs
  · obtain ⟨p, hp, hrecord⟩ := hd.only i x hx hpause
    exact absurd hrecord (h.record_ne hp hi (hother p hp))

/-- When an execution lands, the record of its node is closed. -/
theorem Sound.closes_land (h : r.Sound) (hc : r.Candid) (hd : r.feed.Displays r.active)
    (hl : r.Lands r') : r.feed.Closes r'.feed := by
  cases hl with
  | @intro x i s change pool chosen failure hx hi hs hstatus =>
    obtain ⟨y, hy, hexecuting⟩ := h.executing_of_pending hc hd (h.pending_flying hx) hi
      fun p hp => h.ne_of_flying hx hp
    refine .intro r.now hy ?_ ?_
    · rw [hexecuting, hstatus]
      exact hs.imp_right fun hs => hs.imp_right Or.inl
    · rw [hstatus]
      rcases hs with rfl | rfl | rfl <;> rfl

/-! ### Pauses that are given up -/

/-- The record of a node that waits is stopped. -/
theorem Sound.closes_waiting (h : r.Sound) (hc : r.Candid) {p : Pause} (hp : p ∈ r.pauses)
    (hi : r.recordOf.at? p.node = some i) :
    r.feed.Closes (r.close p.node i .stop .null 0).feed := by
  obtain ⟨x, hx, -⟩ := h.ledger.filed p.node i hi
  refine .intro r.now hx ?_ rfl
  exact NodeStatus.leadsTo_stop (hc p.node i x (h.pending_waiting hp) hi hx)

theorem Sound.closings_closeQueued (h : r.Sound) (hc : r.Candid) (hh : r.halting = true)
    (hactive : r.active = none) (ps : List Pause) (hqueued : r.queued = ps) :
    r.feed.Closings (ps.foldl closePause { r with queued := [] }).feed := by
  induction ps generalizing r with
  | nil => exact .refl
  | cons p ps ih =>
    have hmem : p ∈ r.queued := by rw [hqueued]; exact List.mem_cons_self
    obtain ⟨i, _, hi, _⟩ := h.ledger.exists_record (h.standing_queued hmem)
    have hi : ({ r with queued := [] } : Run).recordOf.at? p.node = some i := hi
    have hmove := Move.dropQueued (w := .any) hh hactive hqueued hi
    have hclose := h.closes_waiting hc (List.mem_append_right _ hmem) hi
    rw [List.foldl_cons, closePause_own (Or.inl (h.hidden p hmem)) hi]
    have hrest := ih (h.move hmove) (h.candid_move hc hmove) hh hactive rfl
    exact .head hclose hrest

/-- A pause of a node itself is given up, and then those in the queue. -/
theorem Sound.closings_own (h : r.Sound) (hc : r.Candid) {p : Pause} (hh : r.halting = true)
    (hactive : r.active = some p) (hnested : p.target.isNested = false)
    (hi : r.recordOf.at? p.node = some i) :
    (r.close p.node i .stop .null 0).feed.Closings r.closePauses.feed := by
  have hi : ({ r with active := none, queued := [] } : Run).recordOf.at? p.node = some i := hi
  have hdrop := Move.dropActive (w := .any) hh hactive hi
  unfold closePauses
  rw [hactive]
  show Feed.Closings _ (r.queued.foldl closePause
    (({ r with active := none, queued := [] } : Run).closePause p)).feed
  rw [closePause_own (Or.inr hnested) hi]
  exact (h.move hdrop).closings_closeQueued (h.candid_move hc hdrop) hh rfl r.queued rfl

/-- A pause inside a container is given up after the record that shows it was stopped. -/
theorem Sound.closings_inner (h : r.Sound) (hc : r.Candid) {p : Pause} (hh : r.halting = true)
    (hactive : r.active = some p) (hi : p.record = some i) (hnested : p.target.isNested = true) :
    (r.updateRecord i fun x => { x with status := .stop }).feed.Closings r.closePauses.feed := by
  obtain ⟨j, _, hj, _⟩ := h.ledger.exists_record (h.standing_active hactive)
  have hj : ({ r with active := none, queued := [] } : Run).recordOf.at? p.node = some j := hj
  have hinner := Move.stopInner (w := .any) hh hactive hi hnested
  have hsound := h.move hinner
  have hcandid := h.candid_move hc hinner
  have hdrop := Move.dropActive (w := .any)
    (r := r.updateRecord i fun x => { x with status := .stop }) hh hactive hj
  unfold closePauses
  rw [hactive]
  show Feed.Closings _ (r.queued.foldl closePause
    (({ r with active := none, queued := [] } : Run).closePause p)).feed
  rw [closePause_inner hi hnested hj]
  have hwaits : p ∈ r.pauses := by simp [pauses, hactive]
  exact .head (hsound.closes_waiting hcandid hwaits hj)
    ((hsound.move hdrop).closings_closeQueued (hsound.candid_move hcandid hdrop) hh rfl r.queued
      rfl)

/-- A record that is stopped. -/
theorem exists_stop_update {f : Feed} {x : Record} (change : Record → Record) (now : Instant)
    (hx : f.record? i = some x) (hstop : (change x).status = .stop) :
    ∃ y, (f.update i change now).record? i = some y ∧ y.status = .stop := by
  rw [Feed.record?_update, if_pos rfl, hx]
  exact ⟨_, rfl, hstop⟩

/-- At the end records are closed and nothing else is written. The record that shows the pause in
the slot is stopped. -/
theorem Steady.closings_closePauses (h : r.Steady) (hc : r.Candid)
    (hd : r.feed.Displays r.active) (hspent : r.awaitsInput = false) :
    r.feed.Closings r.closePauses.feed ∧
      ∀ p i, r.active = some p → p.record = some i → p.node ≠ "" →
        ∃ x, r.closePauses.feed.record? i = some x ∧ x.status = .stop := by
  cases hactive : r.active with
  | none =>
    have hsame : r.closePauses = r := by
      unfold closePauses
      rw [hactive, h.queue hactive]
      show ({ r with active := none, queued := [] } : Run) = r
      rw [← hactive, ← h.queue hactive]
    rw [hsame]
    exact ⟨.refl, nofun⟩
  | some p =>
    have hh : r.halting = true := by
      simpa [awaitsInput, hactive] using hspent
    obtain ⟨i, x, hi, hx, hpause, -⟩ := hd.shown p hactive
    -- the record with the pause is that of the node itself, or one inside the container
    cases hnested : p.target.isNested with
    | false =>
      obtain ⟨j, _, hj, _⟩ := h.sound.ledger.exists_record (h.sound.standing_active hactive)
      replace hj : r.recordOf.at? p.node = some j := hj
      have hwaits : p ∈ r.pauses := by simp [pauses, hactive]
      have hrest := h.sound.closings_own hc hh hactive hnested hj
      refine ⟨.head (h.sound.closes_waiting hc hwaits hj) hrest, fun q k hq hk hne => ?_⟩
      obtain rfl := Option.some.inj hq
      obtain rfl := Option.some.inj (hi.symm.trans hk)
      have hnone : p.inner = none := h.sound.inner_eq_none hactive hnested hne
      obtain rfl := Option.some.inj (hj.symm.trans (h.sound.recordOf_own hactive hi hnone))
      obtain ⟨y, hy, hstop⟩ := exists_stop_update (closed .stop .null 0) r.now hx rfl
      exact ⟨y, hrest.record?_of_isTerminal hy (hstop ▸ rfl), hstop⟩
    | true =>
      have hrest := h.sound.closings_inner hc hh hactive hi hnested
      have hfirst : r.feed.Closes (r.updateRecord i fun x => { x with status := .stop }).feed := by
        refine .intro r.now hx ?_ rfl
        exact NodeStatus.leadsTo_stop (hpause ▸ rfl)
      refine ⟨.head hfirst hrest, fun q k hq hk _ => ?_⟩
      obtain rfl := Option.some.inj hq
      obtain rfl := Option.some.inj (hi.symm.trans hk)
      obtain ⟨y, hy, hstop⟩ :=
        exists_stop_update (fun x => { x with status := .stop }) r.now hx rfl
      exact ⟨y, hrest.record?_of_isTerminal hy (hstop ▸ rfl), hstop⟩

end Flowrun.Run
