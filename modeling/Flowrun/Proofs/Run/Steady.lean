import Flowrun.Proofs.Run.Advance

/-!
# Actions as moves

Between two actions a run is `Steady`: it is sound, a pause is queued only behind one that is shown,
and unless the run halts nothing is due. Every action of a steady run is a sequence of moves and
leaves it steady, or it ends the run (`Steady.act`). So every history is a sequence of moves,
perhaps followed by the end:

    Moves w r (r.acts as) ∧ Steady (r.acts as) ∨
      ∃ s, Moves w r s ∧ Ended s ∧ r.acts as = s.conclude

and what every move keeps holds in every history.
-/

namespace Flowrun.Run

open Json

variable {w : World} {r r' : Run}

/-! ### Starting nodes -/

/-- The run after the start of a node, with the other ready nodes. -/
def startNode (r : Run) (n : Node) (rest : List String) : Run :=
  ({ r with ready := rest }.openRecord n (r.inputsFor n)).launch n (r.inputsFor n) none

theorem execute_eq_startNode {id : String} {n : Node} (hn : r.graph.node? id = some n) :
    r.execute id none = r.startNode n r.ready := by
  unfold execute
  rw [hn]
  rfl

section Schedule

variable {P : Run → Prop}
  (start : ∀ {s : Run} {n : Node} {rest : List String}, P s → s.halting = false →
    s.ready = n.id :: rest → s.graph.node? n.id = some n →
    (s.limit = 0 ∨ s.inFlight.length < s.limit) → P (s.startNode n rest))

include start

theorem execute_induction (later : List String) (ids : List String) (h : P r)
    (hhalting : r.halting = false) (hready : r.ready = ids ++ later)
    (hnodes : ∀ id ∈ ids, ∃ n, r.graph.node? id = some n)
    (hroom : ids ≠ [] → r.limit = 0 ∨ r.inFlight.length + ids.length ≤ r.limit) :
    P (ids.foldl (fun s id => s.execute id none) { r with ready := later }) := by
  induction ids generalizing r with
  | nil =>
    rw [List.nil_append] at hready
    rw [← hready]
    exact h
  | cons id ids ih =>
    obtain ⟨n, hn⟩ := hnodes id List.mem_cons_self
    obtain rfl := Graph.id_of_node?_eq_some hn
    have hroom := hroom (List.cons_ne_nil _ _)
    rw [List.length_cons] at hroom
    -- the first node is started while the others are still ready
    have hnext : P (r.startNode n (ids ++ later)) := start h hhalting hready hn (by omega)
    have hstep : ({ r with ready := later } : Run).execute n.id none =
        { r.startNode n (ids ++ later) with ready := later } :=
      execute_eq_startNode hn
    rw [List.foldl_cons, hstep]
    refine ih hnext hhalting rfl (fun a ha => hnodes a (List.mem_cons_of_mem _ ha)) fun _ => ?_
    have hlength : (r.startNode n (ids ++ later)).inFlight.length = r.inFlight.length + 1 :=
      List.length_append
    have hlimit : (r.startNode n (ids ++ later)).limit = r.limit := rfl
    rw [hlength, hlimit]
    omega

/-- What is kept when the ready nodes are put in order and when one is started is kept by
scheduling. -/
theorem schedule_induction (sort : P r → P { r with ready := r.sortedReady }) (h : P r)
    (hnodes : ∀ id ∈ r.ready, ∃ n, r.graph.node? id = some n) : P r.schedule := by
  unfold schedule
  split
  · exact h
  · next hhalting =>
    refine execute_induction (r := { r with ready := r.sortedReady }) start _ _ (sort h)
      (Bool.eq_false_iff.2 hhalting)
      (List.take_append_drop _ _).symm ?_ fun hne => ?_
    · intro id hid
      exact hnodes id (List.mem_mergeSort.1 (List.mem_of_mem_take hid))
    · show r.limit = 0 ∨ r.inFlight.length + _ ≤ r.limit
      by_cases hlimit : r.limit = 0
      · exact Or.inl hlimit
      · have hle := List.length_take_le r.room r.sortedReady
        have hpos : 0 < r.room := by
          by_contra hzero
          rw [Nat.eq_zero_of_not_pos hzero, List.take_zero] at hne
          exact hne rfl
        unfold room at hle hpos ⊢
        rw [if_neg hlimit] at hle hpos ⊢
        omega

end Schedule

theorem Sound.moves_schedule (h : r.Sound) (w : World) : Moves w r r.schedule :=
  schedule_induction (P := Moves w r) (fun hm hh hr hn hl => hm.tail (.start hh hr hn hl))
    (fun hm => hm.tail .sort) .refl h.listed

/-- A node that is due was due before a node was started, or went on waiting or running. -/
theorem Due.before_put {n : Node} {id : String} {t : Standing} (h : r'.Due n)
    (hgraph : r'.graph = r.graph) (hready : ∀ a ∈ r.ready, a ∈ r'.ready ∨ id = a)
    (hstand : ∀ a, r'.standing? a = if id = a then some t else r.standing? a)
    (ht : t = .running ∨ t = .suspended) : r.Due n := by
  refine h.before hgraph (fun a ha => ?_) (fun a ha => ?_) fun e _ hp => ?_
  · refine (hready a ha).imp_right fun he => ?_
    rw [hstand, if_pos he]
    nofun
  · rw [hstand] at ha
    split at ha
    · cases ha
    · exact ha
  · by_cases he : id = e.source
    · have hs := hstand e.source
      rw [if_pos he] at hs
      unfold Run.passed succeeded at hp
      rw [hs] at hp
      rcases ht with rfl | rfl <;> simp at hp
    · exact passed_congr ((hstand e.source).trans (if_neg he)) ▸ hp

theorem Sound.not_due_schedule (h : r.Sound) (hdue : ∀ n, ¬ r.Due n) (n : Node) :
    ¬ r.schedule.Due n := by
  refine schedule_induction (P := fun s => ∀ n, ¬ s.Due n) (fun hs _ hready _ _ m hm => ?_)
    (fun hs m hm => ?_) hdue h.listed n
  · refine hs m (hm.before_put rfl (fun a ha => ?_) (fun a => Dict.at?_put ..) (Or.inl rfl))
    rw [hready] at ha
    exact (List.mem_cons.1 ha).symm.imp id Eq.symm
  · exact hs m (hm.before rfl (fun a ha => Or.inl (List.mem_mergeSort.2 ha)) (fun _ ha => ha)
      fun _ _ hp => hp)

theorem pauses_schedule (h : r.Sound) :
    r.schedule.active = r.active ∧ r.schedule.queued = r.queued :=
  schedule_induction (P := fun s => s.active = r.active ∧ s.queued = r.queued)
    (fun hs _ _ _ _ => hs) (fun hs => hs) ⟨rfl, rfl⟩ h.listed

/-! ### Showing pauses -/

/-- Showing the first pause in the queue is a move, and changes only the feed and the pauses. -/
theorem Sound.activate (h : r.Sound) (w : World) {p : Pause} {rest : List Pause}
    (hactive : r.active = none) (hqueued : r.queued = p :: rest) :
    Move w r ({ r with queued := rest }.activate p) ∧
      ∃ feed active, ({ r with queued := rest }.activate p) =
        { r with queued := rest, feed, active := some active } := by
  cases hinner : p.inner with
  | none =>
    have hsus := h.standing_queued (p := p) (by rw [hqueued]; exact List.mem_cons_self)
    obtain ⟨i, _, hi, _⟩ := h.ledger.exists_record hsus
    have hi : ({ r with queued := rest } : Run).recordOf.at? p.node = some i := hi
    rw [activate_of_inner_eq_none hinner hi]
    exact ⟨.showOwn hactive hqueued hinner hi, _, _, rfl⟩
  | some inner =>
    rw [activate_of_inner_eq_some hinner]
    exact ⟨.showInner hactive hqueued hinner, _, _, rfl⟩

/-- Showing the next pause, if there is one. -/
theorem Sound.activateNext (h : r.Sound) (w : World) (hactive : r.active = none) :
    Moves w r r.activateNext ∧ (r.activateNext.active = none → r.activateNext.queued = []) ∧
      ∃ queued feed active, r.activateNext = { r with queued, feed, active } := by
  unfold Run.activateNext
  split
  · next hqueued => exact ⟨.refl, fun _ => hqueued, _, _, _, rfl⟩
  · next p rest hqueued =>
    obtain ⟨hmove, feed, active, heq⟩ := h.activate w hactive hqueued
    refine ⟨.single hmove, ?_, rest, feed, some active, heq⟩
    rw [heq]
    nofun

/-! ### Steady runs -/

/-- What holds of a run between two actions. -/
structure Steady (r : Run) : Prop where
  sound : r.Sound
  queue : r.active = none → r.queued = []
  settled : r.halting = false → ∀ n, ¬ r.Due n

theorem Steady.of_halting (hsound : r.Sound) (queue : r.active = none → r.queued = [])
    (h : r.halting = true) : r.Steady where
  sound := hsound
  queue := queue
  settled hh := by rw [h] at hh; cases hh

/-- Nothing becomes due when the pauses and the feed change. -/
theorem Steady.of_pauses (hsound : r'.Sound) (queue : r'.active = none → r'.queued = [])
    {queued : List Pause} {feed : Feed} {active : Option Pause}
    (heq : r' = { r with queued, feed, active }) (hdue : r.halting = false → ∀ n, ¬ r.Due n) :
    r'.Steady where
  sound := hsound
  queue := queue
  settled hh n hn := by
    subst heq
    exact hdue hh n (hn.before rfl (fun a ha => Or.inl ha) (fun _ ha => ha) fun _ _ hp => hp)

theorem Steady.schedule (h : r.Steady) (w : World) :
    Moves w r r.schedule ∧ r.schedule.Steady := by
  have hmoves := h.sound.moves_schedule w
  obtain ⟨hactive, hqueued⟩ := pauses_schedule h.sound
  refine ⟨hmoves, hmoves.sound h.sound, ?_, fun hh => ?_⟩
  · rw [hactive, hqueued]
    exact h.queue
  · exact h.sound.not_due_schedule (h.settled (hmoves.live hh))

/-! ### Reports -/

/-- When a node is done, only its successors become due. -/
theorem Due.before_put_done {n : Node} {id : String} {s : NodeStatus} (h : r'.Due n)
    (hgraph : r'.graph = r.graph) (hready : r'.ready = r.ready)
    (hstand : ∀ a, r'.standing? a = if id = a then some (.done s) else r.standing? a) :
    r.Due n ∨ ∃ e ∈ r.graph.edgesInto n.id, e.source = id := by
  refine (h.before_done hgraph hready ?_ fun a ha => ?_).2
  · rw [hstand, if_pos rfl]
    nofun
  · rw [hstand, if_neg ha]

theorem Steady.complete (h : r.Steady) {x : Execution} {index : Nat} {output : Value}
    {selected branches : List String} (elapsed : Nat) (hx : x ∈ r.inFlight)
    (hi : r.recordOf.at? x.request.node.id = some index)
    (hw : w.reports x (.ok (.success output selected)))
    (hb : r.checkBranches x.request.node.id selected = .ok branches) :
    Moves w r ((r.landed x).succeed x.request.node.id index output branches elapsed) ∧
      ((r.landed x).succeed x.request.node.id index output branches elapsed).Steady := by
  have hmove := Move.complete (w := w) elapsed hx hi hw hb
  have hsound := h.sound.move hmove
  rw [succeed_eq]
  have hqueue : ((r.landed x).complete x.request.node.id index output branches elapsed).active =
      none →
      ((r.landed x).complete x.request.node.id index output branches elapsed).queued = [] := by
    rw [complete_eq]
    exact h.queue
  split
  · next hh => exact ⟨.single hmove, .of_halting hsound hqueue hh⟩
  -- nothing was due before, so only successors of the node are due until the run has moved on
  · next hh =>
    have hlive : r.halting = false := hmove.live (Bool.eq_false_iff.2 hh)
    have hmoves : Moves w r (((r.landed x).complete x.request.node.id index output branches
        elapsed).advance x.request.node.id) := .head hmove (moves_advance w _ _)
    refine ⟨hmoves, hmoves.sound h.sound, ?_, fun _ => not_due_advance fun n hn => ?_⟩
    · rw [active_advance, queued_advance]
      exact hqueue
    · rw [complete_eq] at hn ⊢
      exact (hn.before_put_done (r := r) rfl rfl fun a => Dict.at?_put ..).resolve_left
        (h.settled hlive n)

/-- A node that waits is queued, and its pause is shown if no other one is. -/
theorem suspend_eq {id : String} {inner : Option InnerNode} (index : Nat)
    (hfailure : r.failure.isSome = false) (hqueue : r.active = none → r.queued = []) :
    r.suspend id index inner =
      if r.active.isNone then (r.enqueuePause id inner).activateNext
      else r.enqueuePause id inner := by
  have hnext : r.active = none → (r.enqueuePause id inner).activateNext =
      (r.setStanding id .suspended).activate (waitingPause id inner) := by
    intro hactive
    have hqueued := hqueue hactive
    have hpaused : (r.enqueuePause id inner).queued = [waitingPause id inner] := by
      show r.queued ++ _ = _
      rw [hqueued]
      rfl
    have hsame : ({ r.enqueuePause id inner with queued := [] } : Run) =
        r.setStanding id .suspended := by
      rw [← hqueued]
      rfl
    unfold activateNext
    rw [hpaused]
    exact congrArg (fun s => activate s (waitingPause id inner)) hsame
  unfold suspend
  rw [hfailure, if_neg Bool.false_ne_true]
  show (if r.active.isNone then _ else _) = _
  split
  · next hactive => exact (hnext (Option.isNone_iff_eq_none.1 hactive)).symm
  · rfl

theorem Steady.wait (h : r.Steady) {x : Execution} {inner : Option InnerNode} (index : Nat)
    (hx : x ∈ r.inFlight) (hh : r.halting = false) (hw : w.reports x (.ok (.paused inner))) :
    Moves w r ((r.landed x).suspend x.request.node.id index inner) ∧
      ((r.landed x).suspend x.request.node.id index inner).Steady := by
  have hmove := Move.wait hx hh hw
  have hsound := h.sound.move hmove
  have hdue : ∀ n, ¬ ((r.landed x).enqueuePause x.request.node.id inner).Due n := fun n hn =>
    h.settled hh n (hn.before_put rfl (fun a ha => Or.inl ha) (fun a => Dict.at?_put ..)
      (Or.inr rfl))
  rw [suspend_eq index (r := r.landed x) (Bool.or_eq_false_iff.1 hh).2 h.queue]
  split
  · next hactive =>
    have hnone := Option.isNone_iff_eq_none.1 hactive
    obtain ⟨hshow, hqueue, _, _, _, heq⟩ := hsound.activateNext w hnone
    have hmoves : Moves w r _ := .head hmove hshow
    exact ⟨hmoves, .of_pauses (hmoves.sound h.sound) hqueue heq fun _ => hdue⟩
  · next hactive =>
    refine ⟨.single hmove, hsound, fun hnone => ?_, fun _ => hdue⟩
    exact absurd (Option.isNone_iff_eq_none.2 hnone) hactive

/-- Every report of an execution in flight is taken in some moves. -/
theorem Steady.take (h : r.Steady) {x : Execution} {result : NodeReport} (elapsed : Nat)
    (hx : x ∈ r.inFlight) (hw : w.reports x result) :
    Moves w r ((r.landed x).take x.request.node.id result elapsed) ∧
      ((r.landed x).take x.request.node.id result elapsed).Steady := by
  obtain ⟨index, _, hi, _⟩ := h.sound.ledger.exists_record (h.sound.standing_flying hx)
  replace hi : r.recordOf.at? x.request.node.id = some index := hi
  have close : ∀ output elapsed, (r.stopping = true ∨
      r.failure.isSome = true ∧ ∃ inner, w.reports x (.ok (.paused inner))) →
      Moves w r ((r.landed x).close x.request.node.id index .stop output elapsed) ∧
        ((r.landed x).close x.request.node.id index .stop output elapsed).Steady := by
    intro output elapsed hwhy
    have hmove := Move.close output elapsed hx hi hwhy
    refine ⟨.single hmove, .of_halting (h.sound.move hmove) h.queue (hmove.halting ?_)⟩
    exact Bool.or_eq_true_iff.2 (hwhy.imp_right And.left)
  have fail : ∀ e, r.FailsWith x.request.node.id result e →
      Moves w r ((r.landed x).fail x.request.node.id index e elapsed) ∧
        ((r.landed x).fail x.request.node.id index e elapsed).Steady := by
    intro e hwhy
    have hmove := Move.fail elapsed hx hi hw hwhy
    exact ⟨.single hmove, .of_halting (h.sound.move hmove) h.queue (halting_fail ..)⟩
  unfold Run.take
  rw [show (r.landed x).recordOf.at? x.request.node.id = some index from hi]
  dsimp only
  split
  · next hstop => exact close _ _ (Or.inl hstop)
  · next hgo =>
    split
    · next output selected =>
      split
      · next branches hb => exact h.complete elapsed hx hi hw hb
      · next e hb => exact fail e (Or.inr ⟨output, selected, rfl, hb⟩)
    · next inner =>
      by_cases hfailure : r.failure.isSome = true
      · unfold suspend
        rw [show (r.landed x).failure.isSome = true from hfailure, if_pos rfl]
        exact close _ _ (Or.inr ⟨hfailure, inner, hw⟩)
      · refine h.wait index hx (Bool.or_eq_false_iff.2 ?_) hw
        exact ⟨Bool.eq_false_iff.2 hgo, Bool.eq_false_iff.2 hfailure⟩
    · next e => exact fail e (Or.inl rfl)

theorem Steady.report (h : r.Steady) {serial : Nat} {result : NodeReport} (elapsed : Nat)
    (hw : ∀ x ∈ r.inFlight, x.serial = serial → w.reports x result) :
    Moves w r (r.report serial result elapsed) ∧ (r.report serial result elapsed).Steady := by
  unfold Run.report
  split
  · exact ⟨.refl, h⟩
  · next x hfind =>
    have hx := List.mem_of_find?_eq_some hfind
    have hserial : x.serial = serial := by simpa using List.find?_some hfind
    subst hserial
    exact h.take elapsed hx (hw x hx rfl)

/-! ### Resumes -/

/-- What becomes of a resume: it is refused, or it goes to a node inside a container, or to a node
that waits itself. -/
theorem Sound.resume_cases (h : r.Sound) (target : ResumeTarget) (inputs : Dict Value) :
    (∃ e, r.resume target inputs = (.error e, r)) ∨
    (∃ p i n given, r.halting = false ∧ r.active = some p ∧ p.record = some i ∧
      p.target = target ∧ target.isNested = true ∧ r.graph.node? p.node = some n ∧
      r.inputsOf.at? p.node = some given ∧
      r.resume target inputs =
        (.ok (), ({ r with active := none }.reenter p i n given inputs).activateNext)) ∨
    (∃ p i output, r.halting = false ∧ r.active = some p ∧ p.record = some i ∧
      p.target = target ∧ target.isNested = false ∧ r.resumeOutput p.node inputs = .ok output ∧
      r.resume target inputs =
        (.ok (), (({ r with active := none }.answer p i output).advance p.node).activateNext)) := by
  unfold Run.resume
  split
  · exact Or.inl ⟨_, rfl⟩
  · next hwaits =>
    have hwaits : r.waitsAt target = true := by simpa using hwaits
    simp only [waitsAt, Bool.and_eq_true, beq_iff_eq, Bool.not_eq_true'] at hwaits
    obtain ⟨⟨-, hhalting⟩, htarget⟩ := hwaits
    cases hactive : r.active with
    | none =>
      rw [hactive] at htarget
      cases htarget
    | some p =>
      rw [hactive] at htarget
      obtain rfl := Option.some.inj htarget
      obtain ⟨i, hi, -⟩ := h.shown p hactive
      have hsus := h.standing_active hactive
      have hreached : r.standing? p.node ≠ none := by
        rw [show r.standing? p.node = _ from hsus]
        exact Option.some_ne_none _
      obtain ⟨n, hn⟩ := h.reached p.node hreached
      have hgiven : r.inputsOf.at? p.node ≠ none := by
        intro hnone
        rcases (h.ledger.given p.node).1 hnone with hs | hs
        · cases hsus.symm.trans hs
        · cases hsus.symm.trans hs
      obtain ⟨given, hgiven⟩ := Option.ne_none_iff_exists'.1 hgiven
      -- the pause has a record and its node has inputs, so the resume is not refused for these
      dsimp only
      rw [hi]
      dsimp only
      split
      · next hnested =>
        refine Or.inr (Or.inl ⟨p, i, n, given, hhalting, rfl, hi, rfl, hnested, hn, hgiven, ?_⟩)
        unfold resumeInner execute
        simp only [updateRecord, setStatus, hn, hgiven]
        rfl
      · next hnested =>
        cases hout : r.resumeOutput p.node inputs with
        | error e =>
          refine Or.inl ⟨e, ?_⟩
          rw [← hactive]
        | ok output =>
          refine Or.inr (Or.inr ⟨p, i, output, hhalting, rfl, hi, rfl, ?_, hout, rfl⟩)
          simpa using hnested

theorem Steady.resume (h : r.Steady) (w : World) (target : ResumeTarget) (inputs : Dict Value) :
    Moves w r (r.resume target inputs).2 ∧ (r.resume target inputs).2.Steady := by
  rcases h.sound.resume_cases target inputs with ⟨e, heq⟩ |
    ⟨p, i, n, given, hh, hactive, hi, htarget, hnested, hn, hgiven, heq⟩ |
    ⟨p, i, output, hh, hactive, hi, htarget, hnested, hout, heq⟩
  · rw [heq]
    exact ⟨.refl, h⟩
  · rw [heq]
    subst htarget
    have hmove := Move.reenter (w := w) inputs hh hactive hi hnested hn hgiven
    have hsound := h.sound.move hmove
    obtain ⟨hnext, hqueue, _, _, _, hpauses⟩ := hsound.activateNext w rfl
    have hmoves : Moves w r _ := .head hmove hnext
    refine ⟨hmoves, .of_pauses (hmoves.sound h.sound) hqueue hpauses fun _ m hm => ?_⟩
    exact h.settled hh m (hm.before_put rfl (fun a ha => Or.inl ha) (fun a => Dict.at?_put ..)
      (Or.inl rfl))
  · rw [heq]
    subst htarget
    have hmove := Move.answer (w := w) hh hactive hi hnested hout
    have hadvance := moves_advance w ({ r with active := none }.answer p i output) p.node
    have hsound := hadvance.sound (h.sound.move hmove)
    obtain ⟨hnext, hqueue, _, _, _, hpauses⟩ := hsound.activateNext w (active_advance _ _)
    have hmoves : Moves w r _ := .head hmove (hadvance.trans hnext)
    refine ⟨hmoves, .of_pauses (hmoves.sound h.sound) hqueue hpauses fun _ => ?_⟩
    refine not_due_advance fun m hm => ?_
    exact (hm.before_put_done (r := r) rfl rfl fun a => Dict.at?_put ..).resolve_left
      (h.settled hh m)

/-! ### The end -/

/-- A run that is about to end. -/
structure Ended (r : Run) : Prop where
  sound : r.Sound
  pauses : r.pauses = []
  inFlight : r.inFlight = []
  ready : r.halting = false → r.ready = []
  settled : r.halting = false → ∀ n, ¬ r.Due n

theorem closePause_inner {p : Pause} {i j : Nat} (hi : p.record = some i)
    (hnested : p.target.isNested = true) (hj : r.recordOf.at? p.node = some j) :
    r.closePause p =
      (r.updateRecord i fun x => { x with status := .stop }).close p.node j .stop .null 0 := by
  unfold closePause
  rw [hi]
  dsimp only
  rw [if_pos hnested]
  dsimp only [updateRecord]
  rw [hj]

theorem closePause_own {p : Pause} {j : Nat} (hown : p.record = none ∨ p.target.isNested = false)
    (hj : r.recordOf.at? p.node = some j) : r.closePause p = r.close p.node j .stop .null 0 := by
  unfold closePause
  rcases hown with hnone | hnested
  · rw [hnone]
    dsimp only
    rw [hj]
  · rw [hnested]
    cases p.record <;> simp only [Bool.false_eq_true, if_false, hj]

theorem Sound.moves_closeQueued (h : r.Sound) (w : World) (hh : r.halting = true)
    (hactive : r.active = none) (ps : List Pause) (hqueued : r.queued = ps) :
    Moves w r (ps.foldl closePause { r with queued := [] }) := by
  induction ps generalizing r with
  | nil =>
    have hsame : ({ r with queued := [] } : Run) = r := by rw [← hqueued]
    rw [hsame]
    exact .refl
  | cons p ps ih =>
    have hmem : p ∈ r.queued := by rw [hqueued]; exact List.mem_cons_self
    obtain ⟨i, _, hi, _⟩ := h.ledger.exists_record (h.standing_queued hmem)
    have hi : ({ r with queued := [] } : Run).recordOf.at? p.node = some i := hi
    have hmove := Move.dropQueued (w := w) hh hactive hqueued hi
    rw [List.foldl_cons, closePause_own (Or.inl (h.hidden p hmem)) hi]
    exact .head hmove (ih (h.move hmove) hh hactive rfl)

/-- Closing the pauses is a sequence of moves, if there are none or the run halts. -/
theorem Steady.moves_closePauses (h : r.Steady) (w : World) (hspent : r.awaitsInput = false) :
    Moves w r r.closePauses := by
  unfold closePauses
  cases hactive : r.active with
  | none =>
    have hsame : ({ r with active := none, queued := [] } : Run) = r := by
      rw [← hactive, ← h.queue hactive]
    rw [hsame, h.queue hactive]
    exact .refl
  | some p =>
    have hh : r.halting = true := by
      simpa [awaitsInput, hactive] using hspent
    obtain ⟨j, _, hj, _⟩ := h.sound.ledger.exists_record (h.sound.standing_active hactive)
    have hj : ({ r with active := none, queued := [] } : Run).recordOf.at? p.node = some j := hj
    obtain ⟨i, hi, -⟩ := h.sound.shown p hactive
    show Moves w r (r.queued.foldl closePause
      (({ r with active := none, queued := [] } : Run).closePause p))
    by_cases hnested : p.target.isNested = true
    · have hinner := Move.stopInner (w := w) hh hactive hi hnested
      have hdrop := Move.dropActive (w := w)
        (r := r.updateRecord i fun x => { x with status := .stop }) hh hactive hj
      have hsound := (h.sound.move hinner).move hdrop
      rw [closePause_inner hi hnested hj]
      exact .head hinner (.head hdrop (hsound.moves_closeQueued w hh rfl r.queued rfl))
    · have hdrop := Move.dropActive (w := w) hh hactive hj
      rw [closePause_own (Or.inr (Bool.eq_false_iff.2 hnested)) hj]
      exact .head hdrop ((h.sound.move hdrop).moves_closeQueued w hh rfl r.queued rfl)

theorem closePause_eq (r : Run) (p : Pause) :
    ∃ feed standings, r.closePause p = { r with feed, standings } := by
  unfold closePause
  cases p.record with
  | none =>
    dsimp only
    split
    · exact ⟨_, _, rfl⟩
    · exact ⟨_, _, rfl⟩
  | some i =>
    dsimp only
    split
    · cases p.target.isNested with
      | true => exact ⟨_, _, rfl⟩
      | false => exact ⟨_, _, rfl⟩
    · cases p.target.isNested with
      | true => exact ⟨_, _, rfl⟩
      | false => exact ⟨_, _, rfl⟩

theorem closePauses_eq (r : Run) :
    ∃ feed standings, r.closePauses = { r with active := none, queued := [], feed, standings } := by
  have key : ∀ (ps : List Pause) (s : Run),
      ∃ feed standings, ps.foldl closePause s = { s with feed, standings } := by
    intro ps
    induction ps with
    | nil => exact fun s => ⟨s.feed, s.standings, rfl⟩
    | cons p ps ih =>
      intro s
      obtain ⟨feed, standings, hp⟩ := closePause_eq s p
      obtain ⟨feed', standings', hps⟩ := ih { s with feed, standings }
      exact ⟨feed', standings', by rw [List.foldl_cons, hp, hps]⟩
  exact key _ _

/-- The run before its end is written down. -/
theorem Steady.ended_closePauses (h : r.Steady) (w : World) (hspent : r.isSpent = true) :
    Moves w r r.closePauses ∧ r.closePauses.Ended := by
  simp only [isSpent, Bool.and_eq_true, List.isEmpty_iff, Bool.not_eq_true', Bool.or_eq_true]
    at hspent
  obtain ⟨⟨hflight, hinput⟩, hready⟩ := hspent
  have hmoves := h.moves_closePauses w hinput
  obtain ⟨feed, standings, heq⟩ := closePauses_eq r
  refine ⟨hmoves, hmoves.sound h.sound, by rw [heq]; rfl, by rw [heq]; exact hflight,
    fun hh => ?_, fun hh n hn => ?_⟩
  · have hlive := hmoves.live hh
    rw [heq]
    exact hready.resolve_right (by rw [hlive]; nofun)
  · have hlive := hmoves.live hh
    have hactive : r.active = none := by simpa [awaitsInput, hlive] using hinput
    have hsame : r.closePauses = r := by
      unfold closePauses
      rw [hactive, h.queue hactive]
      show ({ r with active := none, queued := [] } : Run) = r
      rw [← hactive, ← h.queue hactive]
    exact h.settled hlive n (hsame ▸ hn)

/-- The last change of the status is one that the lifecycle of tasks allows. -/
theorem Ended.allows_finalStatus (h : r.Ended) : r.feed.status.allows r.finalStatus = true := by
  have hlive := h.sound.live
  have hactive : r.active = none := by simpa using (List.append_eq_nil_iff.1 h.pauses).1
  unfold finalStatus
  by_cases hfailure : r.failure.isSome = true
  · rw [if_pos hfailure]
    rcases hlive with hs | hs <;> rw [hs] <;> rfl
  · rw [if_neg hfailure]
    by_cases hstop : r.stopping = true
    · rw [if_pos hstop]
      rcases hlive with hs | hs <;> rw [hs] <;> rfl
    -- a run that does not halt ends with an empty slot, so the task is not paused
    · rw [if_neg hstop]
      have hh : r.halting = false :=
        Bool.or_eq_false_iff.2 ⟨Bool.eq_false_iff.2 hstop, Bool.eq_false_iff.2 hfailure⟩
      rw [h.sound.status hh, hactive]
      rfl

/-- The end is written down in any case. -/
theorem Ended.status_conclude (h : r.Ended) : r.conclude.feed.status = r.finalStatus :=
  (Feed.status_finish ..).trans (if_pos h.allows_finalStatus)

theorem Ended.target_conclude (h : r.Ended) : r.conclude.feed.target = none :=
  (Feed.target_finish ..).trans (if_pos h.allows_finalStatus)

/-- A run that halts ends with no success. -/
theorem live_of_finalStatus (h : r.finalStatus = .success) : r.halting = false := by
  unfold finalStatus at h
  split at h
  · cases h
  · next hfailure =>
    split at h
    · cases h
    · next hstop =>
      exact Bool.or_eq_false_iff.2 ⟨Bool.eq_false_iff.2 hstop, Bool.eq_false_iff.2 hfailure⟩

theorem Ended.isTerminal_conclude (h : r.Ended) : r.conclude.feed.isTerminal = true := by
  unfold Feed.isTerminal
  rw [h.status_conclude, finalStatus]
  split
  · rfl
  · split <;> rfl

/-- A run that is spent and gets to finish has ended. -/
theorem Steady.isTerminal_finish (h : r.Steady) (hspent : r.isSpent = true) :
    r.finish.feed.isTerminal = true :=
  (h.ended_closePauses .any hspent).2.isTerminal_conclude

/-! ### Histories -/

/-- The last action ends a run that is spent, and leaves any other run alone. -/
theorem perform_cases (r : Run) (a : Action) :
    a ≠ .finish ∨ r.perform a = r ∨ r.isSpent = true ∧ r.perform a = r.finish := by
  by_cases ha : a = .finish
  · subst ha
    by_cases hspent : r.isSpent = true
    · exact Or.inr (Or.inr ⟨hspent, if_pos hspent⟩)
    · exact Or.inr (Or.inl (if_neg hspent))
  · exact Or.inl ha

theorem Steady.not_isTerminal (h : r.Steady) : r.feed.isTerminal = false := by
  unfold Feed.isTerminal
  rcases h.sound.live with hs | hs <;> rw [hs] <;> rfl

theorem Steady.act_eq (h : r.Steady) (a : Action) : r.act a = r.perform a := by
  unfold Run.act
  rw [h.not_isTerminal, if_neg Bool.false_ne_true]

/-- Unless it ends the run, an action is a sequence of moves. -/
theorem Steady.moves_perform (h : r.Steady) {a : Action} (ha : a ≠ .finish) (hw : w.Admits r a) :
    Moves w r (r.perform a) ∧ (r.perform a).Steady := by
  cases a with
  | schedule => exact h.schedule w
  | report serial result elapsed => exact h.report elapsed hw
  | resume target inputs => exact h.resume w target inputs
  | stop =>
    have hmove : Move w r r.stop := .stop hw
    exact ⟨.single hmove, .of_halting (h.sound.move hmove) h.queue rfl⟩
  | clock now =>
    have hmove : Move w r { r with now } := .clock now
    refine ⟨.single hmove, h.sound.move hmove, h.queue, fun hh n hn => ?_⟩
    exact h.settled hh n (hn.before rfl (fun _ ha => Or.inl ha) (fun _ ha => ha) fun _ _ hp => hp)
  | finish => exact absurd rfl ha

/-- An action is a sequence of moves, or some moves and the end. -/
theorem Steady.act (h : r.Steady) {a : Action} (hw : w.Admits r a) :
    (Moves w r (r.act a) ∧ (r.act a).Steady) ∨
      ∃ s, Moves w r s ∧ s.Ended ∧ r.act a = s.conclude := by
  rw [h.act_eq]
  rcases r.perform_cases a with ha | hsame | ⟨hspent, hend⟩
  · exact Or.inl (h.moves_perform ha hw)
  · rw [hsame]
    exact Or.inl ⟨.refl, h⟩
  · obtain ⟨hmoves, hended⟩ := h.ended_closePauses w hspent
    exact Or.inr ⟨_, hmoves, hended, hend⟩

/-- A history is a sequence of moves, perhaps followed by the end. -/
theorem Steady.acts (h : r.Steady) {as : List Action} (hw : w.AdmitsAll r as) :
    (Moves w r (r.acts as) ∧ (r.acts as).Steady) ∨
      ∃ s, Moves w r s ∧ s.Ended ∧ r.acts as = s.conclude := by
  induction as generalizing r with
  | nil => exact Or.inl ⟨.refl, h⟩
  | cons a as ih =>
    rw [acts_cons]
    rcases h.act hw.1 with ⟨hmoves, hsteady⟩ | ⟨s, hmoves, hended, heq⟩
    · rcases ih hsteady hw.2 with ⟨hmoves', hsteady'⟩ | ⟨s, hmoves', hended, heq⟩
      · exact Or.inl ⟨hmoves.trans hmoves', hsteady'⟩
      · exact Or.inr ⟨s, hmoves.trans hmoves', hended, heq⟩
    · refine Or.inr ⟨s, hmoves, hended, ?_⟩
      rw [heq, acts_of_isTerminal hended.isTerminal_conclude]

/-- What every move keeps, and the end, holds after every history. -/
theorem Steady.keep_all {P : Run → Prop} (h : r.Steady) (hP : P r) {as : List Action}
    (hw : w.AdmitsAll r as) (move : ∀ {s s' : Run}, s.Sound → P s → Move w s s' → P s')
    (conclude : ∀ {s : Run}, P s → P s.conclude) : P (r.acts as) := by
  have key : ∀ {s : Run}, Moves w r s → P s := fun hmoves => (hmoves.keep h.sound hP move).2
  rcases h.acts hw with ⟨hmoves, -⟩ | ⟨s, hmoves, -, heq⟩
  · exact key hmoves
  · rw [heq]
    exact conclude (key hmoves)

/-- A run does not end while an execution is in flight or a node waits. -/
theorem Steady.steady_of_ne_nil (h : r.Steady) (as : List Action)
    (hleft : (r.acts as).inFlight ≠ [] ∨ (r.acts as).pauses ≠ []) : (r.acts as).Steady := by
  rcases h.acts (World.any_admitsAll r as) with ⟨-, hsteady⟩ | ⟨s, -, hended, heq⟩
  · exact hsteady
  · rw [heq] at hleft
    rcases hleft with hflight | hpauses
    · exact absurd hended.inFlight hflight
    · exact absurd hended.pauses hpauses

/-- After an action a run is steady or has ended. -/
theorem Steady.act_or_isTerminal (h : r.Steady) (a : Action) :
    (r.act a).Steady ∨ (r.act a).feed.isTerminal = true := by
  rcases h.act (World.any_admitsAll r [a]).1 with ⟨-, hsteady⟩ | ⟨s, -, hended, heq⟩
  · exact Or.inl hsteady
  · exact Or.inr (heq ▸ hended.isTerminal_conclude)

/-- After a history a run is steady or has ended. -/
theorem Steady.acts_or_isTerminal (h : r.Steady) (as : List Action) :
    (r.acts as).Steady ∨ (r.acts as).feed.isTerminal = true := by
  rcases h.acts (World.any_admitsAll r as) with ⟨-, hsteady⟩ | ⟨s, -, hended, heq⟩
  · exact Or.inl hsteady
  · exact Or.inr (heq ▸ hended.isTerminal_conclude)

/-- The end changes nothing on the board and in the ledger. -/
theorem board_conclude (r : Run) : r.conclude.board = r.board := rfl

theorem ledger_conclude (r : Run) : r.conclude.ledger = r.ledger := by
  have hrecord : r.conclude.feed.record? = r.feed.record? := funext fun i => Feed.record?_finish ..
  show Ledger.mk _ _ _ _ r.conclude.feed.record? = _
  rw [hrecord]
  rfl

/-- What is on the board and in the ledger after a history is there after some moves. -/
theorem Steady.exists_moves (h : r.Steady) {as : List Action} (hw : w.AdmitsAll r as) :
    ∃ s, Moves w r s ∧ s.Sound ∧ (r.acts as).board = s.board ∧ (r.acts as).ledger = s.ledger := by
  rcases h.acts hw with ⟨hmoves, hsteady⟩ | ⟨s, hmoves, hended, heq⟩
  · exact ⟨_, hmoves, hsteady.sound, rfl, rfl⟩
  · exact ⟨s, hmoves, hended.sound, heq ▸ board_conclude s, heq ▸ ledger_conclude s⟩

/-- What is done stays done. -/
theorem Steady.done_act (h : r.Steady) {id : String} {s : NodeStatus}
    (hs : r.standing? id = some (.done s)) (a : Action) :
    (r.act a).standing? id = some (.done s) := by
  have key : ∀ {r' : Run}, Moves .any r r' → r'.standing? id = some (.done s) := fun hmoves =>
    (hmoves.keep h.sound hs fun hsound hs m => hsound.done_move m hs).2
  rcases h.act (World.any_admitsAll r [a]).1 with ⟨hmoves, -⟩ | ⟨t, hmoves, -, heq⟩
  · exact key hmoves
  · rw [heq]
    show t.standing? id = some (.done s)
    exact key hmoves

/-- Every node is in one place after every history. -/
theorem Steady.tidy_acts (h : r.Steady) (as : List Action) : (r.acts as).board.Tidy := by
  obtain ⟨s, -, hsound, hboard, -⟩ := h.exists_moves (World.any_admitsAll r as)
  exact hboard ▸ hsound.board

/-- What is written down agrees after every history. -/
theorem Steady.ledger_acts (h : r.Steady) (as : List Action) : (r.acts as).ledger.Sound := by
  obtain ⟨s, -, hsound, -, hledger⟩ := h.exists_moves (World.any_admitsAll r as)
  exact hledger ▸ hsound.ledger

/-! ### The beginning -/

/-- A run at its beginning, field by field. -/
theorem begin_eq {g : Graph} {limit : Nat} {startInputs : Dict Value} {pool : Pool} {feed : Feed}
    {now : Instant} (h : begin g limit startInputs pool feed now = .ok r) :
    ∃ order, g.order = .ok order ∧
      r = { graph := g, order, limit, startInputs, now, feed, pool,
            ready := g.entries.map Node.id } := by
  unfold begin at h
  cases horder : g.order with
  | error e =>
    rw [horder] at h
    cases h
  | ok order =>
    rw [horder] at h
    cases h
    exact ⟨order, rfl, rfl⟩

/-- A launched run, field by field. -/
theorem Launched.eq {g : Graph} {limit : Nat} {startInputs : Dict Value} {pool : Pool}
    (h : Launched g limit startInputs pool r) :
    ∃ order feed now, g.order = .ok order ∧ feed.status = .executing ∧
      (∀ i, feed.record? i = none) ∧
      r = { graph := g, order, limit, startInputs, now, feed, pool,
            ready := g.entries.map Node.id } := by
  obtain ⟨feed, now, r₀, hstatus, hrecords, hbegin, rfl⟩ := h.begun
  obtain ⟨order, horder, rfl⟩ := begin_eq hbegin
  refine ⟨order, _, now, horder, ?_, fun i => ?_, rfl⟩
  · rw [Feed.status_setStatus, hstatus]
    rfl
  · rw [Feed.record?_setStatus, Feed.record?, hrecords]
    rfl

/-- A launched run is steady. -/
theorem Launched.steady {g : Graph} {limit : Nat} {startInputs : Dict Value} {pool : Pool}
    (h : Launched g limit startInputs pool r) : r.Steady := by
  have hg := h.built.wellFormed
  obtain ⟨order, feed, now, horder, hstatus, hrecord, rfl⟩ := h.eq
  refine ⟨?_, fun _ => rfl, fun _ n hn => ?_⟩
  · constructor
    · exact {
        ready_nodup := hg.nodup_entries
        ready_free := fun _ _ => rfl
        serial_lt := nofun
        serial_inj := nofun
        flight_inj := nofun
        running_iff := fun id => iff_of_false nofun nofun
        waiting_nodup := List.nodup_nil
        suspended_iff := fun id => iff_of_false nofun nofun }
    · exact {
        filed := nofun
        unique := fun i x hx => absurd ((hrecord i).symm.trans hx) nofun
        reached := fun _ => iff_of_true rfl rfl
        given := fun _ => iff_of_true rfl (Or.inl rfl)
        skipped := fun i x hx => absurd ((hrecord i).symm.trans hx) nofun
        shown := fun i x hx => absurd ((hrecord i).symm.trans hx) nofun
        branches := fun i x hx => absurd ((hrecord i).symm.trans hx) nofun
        succeeded := fun id hc => absurd rfl hc }
    · exact hg
    · exact horder
    · intro id hid
      obtain ⟨n, hn, rfl⟩ := List.mem_map.1 hid
      exact ⟨n, hg.node?_id (Graph.mem_entries.1 hn).1⟩
    · exact fun id hs => absurd rfl hs
    · nofun
    · nofun
    · nofun
    · nofun
    · exact Or.inl hstatus
    · exact fun _ => hstatus
  · -- a node that no edge leads to is ready, and no other one has predecessors that have passed
    have hnone : g.edgesInto n.id = [] := by
      refine List.eq_nil_iff_forall_not_mem.2 fun e he => ?_
      exact absurd (hn.passed e he) (by simp [Run.passed, succeeded, standing?, Dict.at?])
    refine hn.unlisted (List.mem_map_of_mem (Graph.mem_entries.2 ⟨?_, hnone⟩))
    exact Graph.mem_of_node?_eq_some hn.node

theorem Launched.graph_acts {g : Graph} {limit : Nat} {startInputs : Dict Value} {pool : Pool}
    (h : Launched g limit startInputs pool r) (as : List Action) : (r.acts as).graph = g := by
  have hgraph : r.graph = g := by
    obtain ⟨_, _, _, _, _, _, rfl⟩ := h.eq
    rfl
  rcases h.steady.acts (World.any_admitsAll r as) with ⟨hmoves, -⟩ | ⟨s, hmoves, -, heq⟩
  · exact hmoves.graph_eq.trans hgraph
  · rw [heq]
    exact hmoves.graph_eq.trans hgraph

end Flowrun.Run
