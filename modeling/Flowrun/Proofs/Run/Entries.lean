import Flowrun.Proofs.Run.Closing
import Flowrun.Proofs.Run.Confluence

/-!
# What a move writes about a node

The record of a node is to show where the node stands. A move leaves both as they are, or writes the
record together with the standing, or turns the node from running to waiting or back, which its
record need not show. There is one exception (`Writing.abandoned`): a pause inside a container with
an empty id is answered as if the container itself had waited, on the record of the inner node; the
container is done then, and its own record is left behind.

So a record that says `success` is that of a node that succeeded, whatever the id of the node, and
where nothing ever waits every record shows where its node stands.
-/

namespace Flowrun

open Json

theorem Standing.Shows.eq_done_success {s : Standing} {t : NodeStatus} (h : s.Shows t)
    (ht : t = .success) : s = .done .success := by
  subst ht
  cases s with
  | done u => exact congrArg _ (Eq.symm h)
  | running => rcases h with h | h <;> cases h
  | suspended => rcases h with h | h <;> cases h

namespace Run

variable {w : World} {r r' : Run} {id : String} {i : Nat}

/-! ### The records of nodes that are not written -/

/-- A record that is filed under a node is the record of that node alone. -/
theorem mem_ownRecords_iff (h : r.ledger.Sound) {x : Record} :
    x ∈ r.ownRecords id ↔ r.ownRecord? id = some x := by
  constructor
  · intro hx
    obtain ⟨i, hi, hnode, hparent⟩ := mem_ownRecords.1 hx
    have hfiled : r.recordOf.at? id = some i := hnode ▸ h.unique i x hi hparent
    unfold ownRecord?
    rw [hfiled]
    exact hi
  · intro hx
    rw [ownRecords_of_ownRecord? h hx]
    exact List.mem_singleton.2 rfl

/-- What is written on other records than those of nodes leaves the records of nodes as they are. -/
theorem ownRecord?_aside (h : r.ledger.Sound) (hfile : r'.recordOf = r.recordOf)
    (hown : ∀ j x, x.parent = none → (r'.feed.record? j = some x ↔ r.feed.record? j = some x)) :
    r'.ownRecord? id = r.ownRecord? id := by
  unfold ownRecord?
  rw [hfile]
  cases hi : r.recordOf.at? id with
  | none => rfl
  | some i =>
    obtain ⟨x, hx, -, hparent⟩ := h.filed id i hi
    have hx : r.feed.record? i = some x := hx
    show r'.feed.record? i = r.feed.record? i
    rw [hx, (hown i x hparent).2 hx]

theorem ownRecord?_of_record?_eq (hfile : r'.recordOf = r.recordOf)
    (hrecord : ∀ j, r'.feed.record? j = r.feed.record? j) :
    r'.ownRecord? id = r.ownRecord? id := by
  unfold ownRecord?
  rw [hfile, show r'.feed.record? = r.feed.record? from funext hrecord]

/-! ### One move -/

/-- What a move does to the standing of a node and to its record. -/
inductive Writing (r r' : Run) (id : String) : Prop
  | kept : r'.standing? id = r.standing? id → r'.ownRecord? id = r.ownRecord? id → Writing r r' id
  /-- The record is written and shows where the node stands. -/
  | shown {s : Standing} {x : Record} : r'.standing? id = some s → r'.ownRecord? id = some x →
      s.Shows x.status → Writing r r' id
  /-- The node goes from running to waiting, or back. -/
  | turned : r.Pending id → r'.Pending id → r'.ownRecord? id = r.ownRecord? id → Writing r r' id
  /-- The node is done with the answer to a pause inside it. -/
  | abandoned {p : Pause} : r.active = some p → p.node = id → p.inner ≠ none →
      p.target.isNested = false → r'.standing? id = some (.done .success) →
      r'.ownRecord? id = r.ownRecord? id → Writing r r' id

/-- The record of one node is amended. -/
theorem Sound.writing_amend (h : r.Sound) {a : String} {t : Standing} {change : Record → Record}
    (hi : r.recordOf.at? a = some i) (hfile : r'.recordOf = r.recordOf)
    (hstand : ∀ b, r'.standing? b = if a = b then some t else r.standing? b)
    (hrecord : ∀ j, r'.feed.record? j = (r.feed.update i change r.now).record? j)
    (hshow : ∀ x, t.Shows (change x).status) : Writing r r' id := by
  let s : Run := { r with feed := r.feed.update i change r.now }
  have hsame : r'.ownRecord? id = s.ownRecord? id := ownRecord?_of_record?_eq hfile hrecord
  by_cases hid : a = id
  · subst hid
    obtain ⟨x, hx, -⟩ := h.ledger.filed a i hi
    have hown : r.ownRecord? a = some x := Option.bind_eq_some_iff.2 ⟨i, hi, hx⟩
    have hamended : s.ownRecord? a = some ((change x).stamped r.feed.nextRevision) :=
      ownRecord?_update_self hi hown rfl rfl
    exact .shown ((hstand a).trans (if_pos rfl)) (hsame.trans hamended) (hshow x)
  · refine .kept ((hstand id).trans (if_neg hid)) ?_
    exact hsame.trans (ownRecord?_update_of_ne h.ledger hi rfl rfl hid)

/-- The record of one node is filed. -/
theorem Sound.writing_file (h : r.Sound) {a : String} {t : Standing} {x : Record}
    (hfile : r'.recordOf = r.recordOf.put a r.nextIndex) (hfeed : r'.feed = r.feed.push x r.now)
    (hstand : ∀ b, r'.standing? b = if a = b then some t else r.standing? b)
    (hshow : t.Shows x.status) : Writing r r' id := by
  by_cases hid : a = id
  · subst hid
    exact .shown ((hstand a).trans (if_pos rfl)) (ownRecord?_push_self hfile hfeed) hshow
  · exact .kept ((hstand id).trans (if_neg hid)) (ownRecord?_push_of_ne h.ledger hfile hfeed hid)

/-- One node that is not done goes on running or waiting. -/
theorem writing_turn {a : String} {t : Standing} (ha : r.Pending a) (ht : t.Open)
    (hstand : ∀ b, r'.standing? b = if a = b then some t else r.standing? b)
    (hown : r'.ownRecord? id = r.ownRecord? id) : Writing r r' id := by
  by_cases hid : a = id
  · subst hid
    exact .turned ha ⟨t, (hstand a).trans (if_pos rfl), ht⟩ hown
  · exact .kept ((hstand id).trans (if_neg hid)) hown

/-- The record of an inner node is written. -/
theorem Sound.ownRecord?_update_inner (h : r.Sound) {p : Pause} (hp : r.active = some p)
    (hi : p.record = some i) (hinner : p.inner ≠ none) (change : Record → Record)
    (hparent : ∀ x, (change x).parent = x.parent) (hfile : r'.recordOf = r.recordOf)
    (hrecord : ∀ j, r'.feed.record? j = (r.feed.update i change r.now).record? j) :
    r'.ownRecord? id = r.ownRecord? id := by
  refine ownRecord?_aside h.ledger hfile fun j x hx => ?_
  rw [hrecord]
  exact h.aside_update hp hi hinner change hparent j x hx

theorem Sound.writing_answer (h : r.Sound) {p : Pause} (output : Value)
    (hactive : r.active = some p) (hi : p.record = some i) (hnested : p.target.isNested = false) :
    Writing r ({ r with active := none }.answer p i output) id := by
  have hrecord : ∀ j, ({ r with active := none }.answer p i output).feed.record? j =
      (r.feed.update i (answered output) r.now).record? j := fun j => Feed.record?_setStatus ..
  by_cases hinner : p.inner = none
  · exact h.writing_amend (h.recordOf_own hactive hi hinner) rfl (fun b => Dict.at?_put ..) hrecord
      fun _ => rfl
  · have hown : ({ r with active := none }.answer p i output).ownRecord? id = r.ownRecord? id :=
      h.ownRecord?_update_inner hactive hi hinner (answered output) (fun _ => rfl) rfl hrecord
    by_cases hid : p.node = id
    · subst hid
      exact .abandoned hactive rfl hinner hnested (Dict.at?_put_self ..) hown
    · exact .kept (Dict.at?_put_of_ne _ hid _) hown

/-- What each move does to the standing of a node and to its record. -/
theorem Sound.writing (h : r.Sound) (m : Move w r r') (id : String) : Writing r r' id := by
  cases m with
  | clock => exact .kept rfl rfl
  | stop => exact .kept rfl rfl
  | sort => exact .kept rfl rfl
  | enqueue => exact .kept rfl rfl
  | start => exact h.writing_file rfl rfl (t := .running) (fun b => Dict.at?_put ..) (Or.inl rfl)
  | skip => exact h.writing_file rfl rfl (t := .done .skip) (fun b => Dict.at?_put ..) rfl
  | close _ _ _ hi =>
    exact h.writing_amend hi rfl (t := .done .stop) (fun b => Dict.at?_put ..) (fun _ => rfl)
      fun _ => rfl
  | fail _ _ hi =>
    exact h.writing_amend hi rfl (t := .done .fail) (fun b => Dict.at?_put ..) (fun _ => rfl)
      fun _ => rfl
  | complete _ _ hi =>
    rw [complete_eq]
    exact h.writing_amend hi rfl (t := .done .success) (fun b => Dict.at?_put ..) (fun _ => rfl)
      fun _ => rfl
  | wait hx =>
    exact writing_turn (h.pending_flying hx) (Or.inr rfl) (fun b => Dict.at?_put ..) rfl
  | @showOwn p _ _ _ hqueued _ hi =>
    have hsus := h.standing_queued (p := p) (by rw [hqueued]; exact List.mem_cons_self)
    refine h.writing_amend hi rfl (t := .suspended) (fun b => ?_)
      (fun j => Feed.record?_setStatus ..) fun _ => Or.inr rfl
    split
    · next hb => exact hb ▸ hsus
    · rfl
  | showInner =>
    refine .kept rfl (ownRecord?_aside h.ledger rfl fun j x hx => ?_)
    show ((r.feed.push _ r.now).setStatus _ _ r.now).record? j = some x ↔ _
    rw [Feed.record?_setStatus, Feed.record?_push]
    split
    -- the new record is one of an inner node
    · next hj =>
      have hnone : r.feed.record? j = none := Feed.record?_eq_none_iff.2 (Nat.le_of_eq hj.symm)
      rw [hnone]
      refine iff_of_false (fun heq => ?_) nofun
      obtain rfl := Option.some.inj heq
      cases hx
    · exact Iff.rfl
  | @reenter p i n given inputs _ hactive hi hnested hn =>
    have hinner := ((h.isNested_iff hactive).1 hnested).1
    have hid := Graph.id_of_node?_eq_some hn
    have hpending : r.Pending n.id := ⟨_, hid ▸ h.standing_active hactive, Or.inr rfl⟩
    refine writing_turn hpending (t := .running) (Or.inl rfl) (fun b => Dict.at?_put ..) ?_
    have hrecord : ∀ j, ({ r with active := none }.reenter p i n given inputs).feed.record? j =
        (r.feed.update i (answered (.object inputs)) r.now).record? j := fun j =>
      Feed.record?_setStatus ..
    exact h.ownRecord?_update_inner hactive hi hinner (answered (.object inputs)) (fun _ => rfl)
      rfl hrecord
  | answer _ hactive hi hnested => exact h.writing_answer _ hactive hi hnested
  | stopInner _ hactive hi hnested =>
    have hinner := ((h.isNested_iff hactive).1 hnested).1
    exact .kept rfl (h.ownRecord?_update_inner hactive hi hinner
      (fun x => { x with status := .stop }) (fun _ => rfl) rfl fun _ => rfl)
  | dropActive _ _ hi =>
    exact h.writing_amend hi rfl (t := .done .stop) (fun b => Dict.at?_put ..) (fun _ => rfl)
      fun _ => rfl
  | dropQueued _ _ _ hi =>
    exact h.writing_amend hi rfl (t := .done .stop) (fun b => Dict.at?_put ..) (fun _ => rfl)
      fun _ => rfl

/-! ### Pauses that are given up -/

theorem standing?_closePause {p : Pause} (hi : r.recordOf.at? p.node = some i) (id : String) :
    (r.closePause p).standing? id =
      if p.node = id then some (.done .stop) else r.standing? id := by
  cases hrecord : p.record with
  | none =>
    rw [closePause_own (Or.inl hrecord) hi]
    exact Dict.at?_put ..
  | some j =>
    cases hnested : p.target.isNested with
    | false =>
      rw [closePause_own (Or.inr hnested) hi]
      exact Dict.at?_put ..
    | true =>
      rw [closePause_inner hrecord hnested hi]
      exact Dict.at?_put ..

theorem standing?_foldl_closePause (id : String) (ps : List Pause) (r : Run)
    (hfiled : ∀ p ∈ ps, r.recordOf.at? p.node ≠ none) :
    (ps.foldl closePause r).standing? id =
      if id ∈ ps.map Pause.node then some (.done .stop) else r.standing? id := by
  induction ps generalizing r with
  | nil => rfl
  | cons p ps ih =>
    obtain ⟨i, hi⟩ := Option.ne_none_iff_exists'.1 (hfiled p List.mem_cons_self)
    have hsame : (r.closePause p).recordOf = r.recordOf := by
      obtain ⟨feed, standings, heq⟩ := closePause_eq r p
      rw [heq]
    have hrest : ∀ q ∈ ps, (r.closePause p).recordOf.at? q.node ≠ none := fun q hq =>
      hsame ▸ hfiled q (List.mem_cons_of_mem _ hq)
    rw [List.foldl_cons, ih (r.closePause p) hrest, standing?_closePause hi]
    simp only [List.map_cons, List.mem_cons]
    split
    · next hlater => rw [if_pos (Or.inr hlater)]
    · next hlater =>
      simp only [hlater, or_false]
      exact if_congr eq_comm rfl rfl

/-- Whoever waits at the end is stopped, and nothing else changes. -/
theorem Sound.standing?_closePauses (h : r.Sound) (id : String) :
    r.closePauses.standing? id =
      if id ∈ r.pauses.map Pause.node then some (.done .stop) else r.standing? id := by
  refine standing?_foldl_closePause id r.pauses _ fun p hp hnone => ?_
  have hfree : r.standings.at? p.node = none := (h.ledger.reached p.node).2 hnone
  cases (h.standing_waiting hp).symm.trans hfree

/-! ### Records that say success -/

/-- A record that says `success` is that of a node that succeeded. -/
def Truthful (r : Run) : Prop :=
  ∀ id x, r.ownRecord? id = some x → x.status = .success →
    r.standing? id = some (.done .success)

theorem Truthful.move (ht : r.Truthful) (h : r.Sound) (m : Move w r r') : r'.Truthful := by
  intro id x hx hsuccess
  cases h.writing m id with
  | kept hstand hown => exact hstand.trans (ht id x (hown.symm.trans hx) hsuccess)
  | shown hstand hown hshows =>
    obtain rfl := Option.some.inj (hx.symm.trans hown)
    rw [hstand, hshows.eq_done_success hsuccess]
  | turned hpending _ hown =>
    obtain ⟨s, hs, hopen⟩ := hpending
    have hdone := ht id x (hown.symm.trans hx) hsuccess
    obtain rfl := Option.some.inj (hs.symm.trans hdone)
    rcases hopen with he | he <;> cases he
  | abandoned _ _ _ _ hstand => exact hstand

variable {g : Graph} {limit : Nat} {startInputs : Dict Value} {pool : Pool}

theorem Launched.truthful (h : Launched g limit startInputs pool r) : r.Truthful := by
  obtain ⟨_, _, _, _, _, _, rfl⟩ := h.eq
  exact fun _ _ hx => by cases hx

theorem ownRecord?_conclude (r : Run) (id : String) :
    r.conclude.ownRecord? id = r.ownRecord? id :=
  ownRecord?_of_record?_eq rfl fun _ => Feed.record?_finish ..

/-- In every history a record that says `success` is that of a node that succeeded. -/
theorem Launched.truthful_acts (h : Launched g limit startInputs pool r) (as : List Action) :
    (r.acts as).Truthful := by
  refine h.steady.keep_all h.truthful (World.any_admitsAll r as)
    (fun hsound ht m => ht.move hsound m) fun ht id x hx => ?_
  rw [ownRecord?_conclude] at hx
  exact ht id x hx

end Run
end Flowrun
