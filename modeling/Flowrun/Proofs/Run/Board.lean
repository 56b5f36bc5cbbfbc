import Flowrun.Proofs.Run.Move

/-!
# Where the nodes are

The board of a run says where every node is: in the list of ready nodes, in flight, waiting for the
user, or behind its standing. A node that is not reached may be ready; a running one has exactly one
execution in flight; a suspended one has exactly one pause; and one that is done is in none of these
places. A board with this property is `Tidy`.

Each move of a run is one of a few changes of its board, and each of these has a lemma below that
keeps the board tidy.
-/

namespace Flowrun

/-- Where the nodes of a run are. -/
structure Board where
  standings : Dict Standing
  ready : List String
  inFlight : List Execution
  started : Nat
  /-- The nodes that wait for the user. -/
  waiting : List String

namespace Run

/-- The pauses that are shown or queued. -/
def pauses (r : Run) : List Pause := r.active.toList ++ r.queued

def board (r : Run) : Board :=
  ⟨r.standings, r.ready, r.inFlight, r.started, r.pauses.map Pause.node⟩

end Run

namespace Board

/-- Every node is in one place. -/
structure Tidy (b : Board) : Prop where
  ready_nodup : b.ready.Nodup
  ready_free : ∀ id ∈ b.ready, b.standings.at? id = none
  serial_lt : ∀ x ∈ b.inFlight, x.serial < b.started
  serial_inj : ∀ x ∈ b.inFlight, ∀ y ∈ b.inFlight, x.serial = y.serial → x = y
  flight_inj : ∀ x ∈ b.inFlight, ∀ y ∈ b.inFlight, x.request.node.id = y.request.node.id → x = y
  running_iff : ∀ id, b.standings.at? id = some .running ↔
    ∃ x ∈ b.inFlight, x.request.node.id = id
  waiting_nodup : b.waiting.Nodup
  suspended_iff : ∀ id, b.standings.at? id = some .suspended ↔ id ∈ b.waiting

variable {b : Board}

theorem Tidy.standing_of_mem_inFlight (h : b.Tidy) {x : Execution} (hx : x ∈ b.inFlight) :
    b.standings.at? x.request.node.id = some .running :=
  (h.running_iff _).2 ⟨x, hx, rfl⟩

/-- What is left in flight when an execution reports. -/
theorem Tidy.mem_landed (h : b.Tidy) {x y : Execution} (hx : x ∈ b.inFlight) :
    y ∈ b.inFlight.filter (·.serial != x.serial) ↔
      y ∈ b.inFlight ∧ y.request.node.id ≠ x.request.node.id := by
  rw [List.mem_filter, bne_iff_ne]
  constructor
  · rintro ⟨hy, hne⟩
    exact ⟨hy, fun hid => hne (by rw [h.flight_inj y hy x hx hid])⟩
  · rintro ⟨hy, hne⟩
    exact ⟨hy, fun hs => hne (by rw [h.serial_inj y hy x hx hs])⟩

/-! ### Changes of the list of ready nodes -/

theorem Tidy.sort (h : b.Tidy) {ready : List String} (hp : ready.Perm b.ready) :
    Tidy { b with ready } where
  ready_nodup := hp.nodup_iff.2 h.ready_nodup
  ready_free id hid := h.ready_free id (hp.mem_iff.1 hid)
  serial_lt := h.serial_lt
  serial_inj := h.serial_inj
  flight_inj := h.flight_inj
  running_iff := h.running_iff
  waiting_nodup := h.waiting_nodup
  suspended_iff := h.suspended_iff

theorem Tidy.enqueue (h : b.Tidy) {id : String} (hfree : b.standings.at? id = none)
    (hnew : id ∉ b.ready) : Tidy { b with ready := b.ready ++ [id] } where
  ready_nodup := by
    show (b.ready ++ [id]).Nodup
    rw [List.nodup_append]
    refine ⟨h.ready_nodup, by simp, ?_⟩
    rintro a ha c hc rfl
    exact hnew (List.mem_singleton.1 hc ▸ ha)
  ready_free a ha := by
    rcases List.mem_append.1 ha with ha | ha
    · exact h.ready_free a ha
    · exact List.mem_singleton.1 ha ▸ hfree
  serial_lt := h.serial_lt
  serial_inj := h.serial_inj
  flight_inj := h.flight_inj
  running_iff := h.running_iff
  waiting_nodup := h.waiting_nodup
  suspended_iff := h.suspended_iff

/-- The first ready node is taken from the list. It is in no other place then. -/
theorem Tidy.pop (h : b.Tidy) {id : String} {rest : List String} (hr : b.ready = id :: rest) :
    Tidy { b with ready := rest } where
  ready_nodup := (List.nodup_cons.1 (hr ▸ h.ready_nodup)).2
  ready_free a ha := h.ready_free a (hr ▸ List.mem_cons_of_mem _ ha)
  serial_lt := h.serial_lt
  serial_inj := h.serial_inj
  flight_inj := h.flight_inj
  running_iff := h.running_iff
  waiting_nodup := h.waiting_nodup
  suspended_iff := h.suspended_iff

/-! ### Changes of one standing -/

/-- A node that was not reached is done at once. -/
theorem Tidy.skip (h : b.Tidy) {id : String} (hfree : b.standings.at? id = none)
    (hnew : id ∉ b.ready) (s : NodeStatus) :
    Tidy { b with standings := b.standings.put id (.done s) } where
  ready_nodup := h.ready_nodup
  ready_free a ha := by
    have hne : id ≠ a := fun e => hnew (e ▸ ha)
    simpa [Dict.at?_put, hne] using h.ready_free a ha
  serial_lt := h.serial_lt
  serial_inj := h.serial_inj
  flight_inj := h.flight_inj
  running_iff a := by
    have := h.running_iff a
    grind [Dict.at?_put]
  waiting_nodup := h.waiting_nodup
  suspended_iff a := by
    have := h.suspended_iff a
    grind [Dict.at?_put]

/-- An execution comes to its end, and so does its node. -/
theorem Tidy.land (h : b.Tidy) {x : Execution} (hx : x ∈ b.inFlight) (s : NodeStatus) :
    Tidy { b with
      standings := b.standings.put x.request.node.id (.done s)
      inFlight := b.inFlight.filter (·.serial != x.serial) } where
  ready_nodup := h.ready_nodup
  ready_free a ha := by
    have hfree := h.ready_free a ha
    have := h.standing_of_mem_inFlight hx
    grind [Dict.at?_put]
  serial_lt y hy := h.serial_lt y (List.mem_filter.1 hy).1
  serial_inj y hy z hz := h.serial_inj y (List.mem_filter.1 hy).1 z (List.mem_filter.1 hz).1
  flight_inj y hy z hz := h.flight_inj y (List.mem_filter.1 hy).1 z (List.mem_filter.1 hz).1
  running_iff a := by
    have hrun := h.running_iff a
    simp only [h.mem_landed hx, Dict.at?_put]
    grind
  waiting_nodup := h.waiting_nodup
  suspended_iff a := by
    have hsus := h.suspended_iff a
    have := h.standing_of_mem_inFlight hx
    grind [Dict.at?_put]

/-- An execution comes to its end, and its node waits. -/
theorem Tidy.wait (h : b.Tidy) {x : Execution} (hx : x ∈ b.inFlight) :
    Tidy { b with
      standings := b.standings.put x.request.node.id .suspended
      inFlight := b.inFlight.filter (·.serial != x.serial)
      waiting := b.waiting ++ [x.request.node.id] } where
  ready_nodup := h.ready_nodup
  ready_free a ha := by
    have hfree := h.ready_free a ha
    have := h.standing_of_mem_inFlight hx
    grind [Dict.at?_put]
  serial_lt y hy := h.serial_lt y (List.mem_filter.1 hy).1
  serial_inj y hy z hz := h.serial_inj y (List.mem_filter.1 hy).1 z (List.mem_filter.1 hz).1
  flight_inj y hy z hz := h.flight_inj y (List.mem_filter.1 hy).1 z (List.mem_filter.1 hz).1
  running_iff a := by
    have hrun := h.running_iff a
    simp only [h.mem_landed hx, Dict.at?_put]
    grind
  waiting_nodup := by
    have hrun := h.standing_of_mem_inFlight hx
    have hnot : x.request.node.id ∉ b.waiting := fun hmem => by
      rw [(h.suspended_iff _).2 hmem] at hrun
      cases hrun
    show (b.waiting ++ [x.request.node.id]).Nodup
    rw [List.nodup_append]
    refine ⟨h.waiting_nodup, by simp, ?_⟩
    rintro a ha c hc rfl
    exact hnot (List.mem_singleton.1 hc ▸ ha)
  suspended_iff a := by
    have hsus := h.suspended_iff a
    simp only [Dict.at?_put, List.mem_append, List.mem_singleton]
    grind

/-- A new execution of a node that is nowhere else. -/
theorem Tidy.launch (h : b.Tidy) {x : Execution} (hs : x.serial = b.started)
    (hready : x.request.node.id ∉ b.ready) (hwait : x.request.node.id ∉ b.waiting)
    (hrun : b.standings.at? x.request.node.id ≠ some .running) :
    Tidy { b with
      standings := b.standings.put x.request.node.id .running
      inFlight := b.inFlight ++ [x]
      started := b.started + 1 } where
  ready_nodup := h.ready_nodup
  ready_free a ha := by
    have hfree := h.ready_free a ha
    grind [Dict.at?_put]
  serial_lt y hy := by
    show y.serial < b.started + 1
    rcases List.mem_append.1 hy with hy | hy
    · have := h.serial_lt y hy
      omega
    · have := List.mem_singleton.1 hy
      subst this
      omega
  serial_inj y hy z hz heq := by
    have hlt := h.serial_lt
    have hinj := h.serial_inj y
    simp only [List.mem_append, List.mem_singleton] at hy hz
    rcases hy with hy | rfl <;> rcases hz with hz | rfl
    · exact hinj hy z hz heq
    · have := hlt y hy
      omega
    · have := hlt z hz
      omega
    · rfl
  flight_inj y hy z hz heq := by
    have hnot : ∀ y ∈ b.inFlight, y.request.node.id ≠ x.request.node.id := fun y hy hid =>
      hrun ((h.running_iff _).2 ⟨y, hy, hid⟩)
    simp only [List.mem_append, List.mem_singleton] at hy hz
    rcases hy with hy | rfl <;> rcases hz with hz | rfl
    · exact h.flight_inj y hy z hz heq
    · exact absurd heq (hnot y hy)
    · exact absurd heq.symm (hnot z hz)
    · rfl
  running_iff a := by
    have hiff := h.running_iff a
    simp only [Dict.at?_put, List.mem_append, List.mem_singleton]
    grind
  waiting_nodup := h.waiting_nodup
  suspended_iff a := by
    have hsus := h.suspended_iff a
    grind [Dict.at?_put]

/-- The first node that waits is done. -/
theorem Tidy.leave (h : b.Tidy) {id : String} {rest : List String} (hw : b.waiting = id :: rest)
    (s : NodeStatus) :
    Tidy { b with standings := b.standings.put id (.done s), waiting := rest } where
  ready_nodup := h.ready_nodup
  ready_free a ha := by
    have hfree := h.ready_free a ha
    have := (h.suspended_iff id).2 (hw ▸ List.mem_cons_self)
    grind [Dict.at?_put]
  serial_lt := h.serial_lt
  serial_inj := h.serial_inj
  flight_inj := h.flight_inj
  running_iff a := by
    have hrun := h.running_iff a
    have := (h.suspended_iff id).2 (hw ▸ List.mem_cons_self)
    grind [Dict.at?_put]
  waiting_nodup := (List.nodup_cons.1 (hw ▸ h.waiting_nodup)).2
  suspended_iff a := by
    have hsus := h.suspended_iff a
    have hnot := (List.nodup_cons.1 (hw ▸ h.waiting_nodup)).1
    rw [hw, List.mem_cons] at hsus
    simp only [Dict.at?_put]
    grind

/-- The first ready node is started. -/
theorem Tidy.start (h : b.Tidy) {x : Execution} {rest : List String}
    (hr : b.ready = x.request.node.id :: rest) (hs : x.serial = b.started) :
    Tidy { b with
      standings := b.standings.put x.request.node.id .running
      ready := rest
      inFlight := b.inFlight ++ [x]
      started := b.started + 1 } := by
  have hfree := h.ready_free _ (hr ▸ List.mem_cons_self)
  refine (h.pop hr).launch hs (List.nodup_cons.1 (hr ▸ h.ready_nodup)).1 (fun hw => ?_) ?_
  · rw [(h.suspended_iff _).2 hw] at hfree
    cases hfree
  · show b.standings.at? _ ≠ _
    rw [hfree]
    nofun

/-- The first node that waits is started once more. -/
theorem Tidy.restart (h : b.Tidy) {x : Execution} {rest : List String}
    (hw : b.waiting = x.request.node.id :: rest) (hs : x.serial = b.started) :
    Tidy { b with
      standings := b.standings.put x.request.node.id .running
      inFlight := b.inFlight ++ [x]
      started := b.started + 1
      waiting := rest } := by
  have hsus := (h.suspended_iff _).2 (hw ▸ List.mem_cons_self)
  -- as if the node had been done in between
  have hleft := h.leave hw .success
  rw [← Dict.put_put_self b.standings x.request.node.id (.done .success) .running]
  refine hleft.launch hs (fun hr => ?_) (List.nodup_cons.1 (hw ▸ h.waiting_nodup)).1 ?_
  · rw [h.ready_free _ hr] at hsus
    cases hsus
  · show (b.standings.put _ _).at? _ ≠ _
    rw [Dict.at?_put_self]
    nofun

end Board
end Flowrun
