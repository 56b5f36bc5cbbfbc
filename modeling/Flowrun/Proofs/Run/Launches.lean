import Flowrun.Proofs.Run.Steady

/-!
# What an action puts in flight

Only two actions start executions: when a run schedules, nodes are taken from the list of ready
nodes, and when a resume of a node inside a container is accepted, the container is executed again
(`Steady.launches_cases`). Every other action at most takes an execution away:

    (r.act a).inFlight = kept ++ r.launches a

where `kept` is what is left of the executions that were in flight before.
-/

namespace Flowrun.Run

variable {w : World} {r : Run}

/-! ### The executions in flight after each action -/

/-- The executions in flight, and how many were started so far. -/
def flight (r : Run) : List Execution × Nat := (r.inFlight, r.started)

theorem flight_activate (r : Run) (p : Pause) : (r.activate p).flight = r.flight := by
  unfold activate
  split
  · rfl
  · split <;> rfl

theorem flight_activateNext (r : Run) : r.activateNext.flight = r.flight := by
  unfold activateNext
  split
  · rfl
  · exact flight_activate ..

theorem flight_advance (r : Run) (id : String) : (r.advance id).flight = r.flight :=
  advance_induction (P := fun s => s.flight = r.flight) (fun h _ => h) (fun h _ => h) id rfl

theorem flight_succeed (r : Run) (id : String) (index : Nat) (output : Json.Value)
    (branches : List String) (elapsed : Nat) :
    (r.succeed id index output branches elapsed).flight = r.flight := by
  have hcomplete : (r.complete id index output branches elapsed).flight = r.flight := by
    rw [complete_eq]
    rfl
  rw [succeed_eq]
  split
  · exact hcomplete
  · exact (flight_advance ..).trans hcomplete

theorem flight_take (r : Run) (id : String) (result : NodeReport) (elapsed : Nat) :
    (r.take id result elapsed).flight = r.flight := by
  unfold take
  split
  · rfl
  · split
    · rfl
    · split
      · split
        · exact flight_succeed ..
        · rfl
      · unfold suspend
        split
        · rfl
        · dsimp only
          split
          · exact flight_activate ..
          · rfl
      · rfl

theorem flight_report (r : Run) (serial : Nat) (result : NodeReport) (elapsed : Nat) :
    (r.report serial result elapsed).flight =
      (r.inFlight.filter (·.serial != serial), r.started) := by
  unfold report
  split
  · next hnone =>
    have hsame : r.inFlight.filter (·.serial != serial) = r.inFlight := by
      refine List.filter_eq_self.2 fun x hx => ?_
      simpa using List.find?_eq_none.1 hnone x hx
    rw [hsame]
    rfl
  · exact flight_take ..

theorem flight_finish (r : Run) : r.finish.flight = r.flight := by
  obtain ⟨feed, standings, heq⟩ := closePauses_eq r
  show r.closePauses.flight = r.flight
  rw [heq]
  rfl

/-- What scheduling starts: some of the ready nodes, each once, and the others stay ready. -/
theorem Sound.flight_schedule (h : r.Sound) :
    ∃ news, r.schedule.flight = (r.inFlight ++ news, r.started + news.length) ∧
      (∀ x ∈ news, r.started ≤ x.serial) ∧
      (news.map (·.request.node.id) ++ r.schedule.ready).Perm r.ready := by
  let P (s : Run) : Prop := ∃ news, s.flight = (r.inFlight ++ news, r.started + news.length) ∧
    (∀ x ∈ news, r.started ≤ x.serial) ∧
    (news.map (·.request.node.id) ++ s.ready).Perm r.ready
  have hstart : ∀ {s : Run} {n : Node} {rest : List String}, P s → s.halting = false →
      s.ready = n.id :: rest → s.graph.node? n.id = some n →
      (s.limit = 0 ∨ s.inFlight.length < s.limit) → P (s.startNode n rest) := by
    rintro s n rest ⟨news, hflight, hserial, hperm⟩ _ hready _ _
    obtain ⟨hinFlight, hstarted⟩ := Prod.mk.inj hflight
    let x : Execution := ⟨s.started, ⟨s.feed.snapshot.task, n, s.inputsFor n, none⟩⟩
    refine ⟨news ++ [x], ?_, ?_, ?_⟩
    · show (s.inFlight ++ [x], s.started + 1) = _
      rw [hinFlight, hstarted, List.append_assoc, List.length_append]
      rfl
    · intro y hy
      rcases List.mem_append.1 hy with hy | hy
      · exact hserial y hy
      · obtain rfl := List.mem_singleton.1 hy
        exact Nat.le_trans (Nat.le_add_right ..) (Nat.le_of_eq hstarted.symm)
    · rw [hready] at hperm
      rw [List.map_append, List.append_assoc]
      exact hperm
  have hsort : P r → P { r with ready := r.sortedReady } := by
    rintro ⟨news, hflight, hserial, hperm⟩
    refine ⟨news, hflight, hserial, ?_⟩
    exact ((List.mergeSort_perm _ _).append_left _).trans hperm
  have hnone : P r := by
    refine ⟨[], ?_, nofun, .refl _⟩
    rw [List.append_nil]
    rfl
  exact schedule_induction hstart hsort hnone h.listed

/-! ### What is launched -/

theorem parent_pauseTarget {id : String} {inner : Option InnerNode}
    (h : (pauseTarget id inner).isNested = true) : (pauseTarget id inner).parent = some id := by
  obtain ⟨hinner, hid⟩ := isNested_pauseTarget.1 h
  cases inner with
  | none => exact absurd rfl hinner
  | some i => simp [pauseTarget, ResumeTarget.new, hid]

/-- The executions of before have lower serial numbers than those that are launched. -/
theorem Sound.launches_eq (h : r.Sound) {a : Action} {kept news : List Execution}
    (hflight : (r.act a).inFlight = kept ++ news) (hkept : ∀ x ∈ kept, x ∈ r.inFlight)
    (hserial : ∀ x ∈ news, r.started ≤ x.serial) : r.launches a = news := by
  unfold launches
  rw [hflight, List.filter_append, List.filter_eq_nil_iff.2, List.nil_append,
    List.filter_eq_self.2]
  · simpa using hserial
  · intro x hx
    have hlt : x.serial < r.started := h.board.serial_lt x (hkept x hx)
    simpa using hlt

/-- A run that has ended launches nothing. -/
theorem launches_of_isTerminal (h : r.feed.isTerminal = true) (hb : r.board.Tidy) (a : Action) :
    r.launches a = [] := by
  unfold launches
  rw [act_of_isTerminal h]
  refine List.filter_eq_nil_iff.2 fun x hx => ?_
  have hlt : x.serial < r.started := hb.serial_lt x hx
  simpa using hlt

/-- How an action changes what is in flight. -/
inductive Launching (r : Run) : Action → List Execution → Prop
  /-- Nothing is started, and no resume of a node inside a container is accepted. -/
  | none {a : Action} {kept : List Execution} :
      kept.Sublist r.inFlight → (r.act a).flight = (kept, r.started) →
      (∀ id, r.acceptsInside id a = false) → Launching r a []
  /-- Some of the ready nodes are started, and the others stay ready. -/
  | ready {news : List Execution} :
      (r.act .schedule).flight = (r.inFlight ++ news, r.started + news.length) →
      (news.map (·.request.node.id) ++ (r.act .schedule).ready).Perm r.ready →
      (∀ x ∈ news, r.standing? x.request.node.id = .none) → Launching r .schedule news
  /-- A container is executed again. -/
  | again {p : Pause} {inputs : Dict Json.Value} {x : Execution} :
      r.halting = false → r.active = some p → r.accepts (.resume p.target inputs) = true →
      p.target.parent = some x.request.node.id →
      r.standing? x.request.node.id = some .suspended →
      (r.act (.resume p.target inputs)).flight = (r.inFlight ++ [x], r.started + 1) →
      Launching r (.resume p.target inputs) [x]

/-- What is launched is started in one of the two ways. -/
theorem Steady.launching (h : r.Steady) (a : Action) : Launching r a (r.launches a) := by
  have nothing : ∀ {a : Action} {kept : List Execution}, kept.Sublist r.inFlight →
      (r.act a).flight = (kept, r.started) → (∀ id, r.acceptsInside id a = false) →
      Launching r a (r.launches a) := by
    intro a kept hsub hflight hinside
    have hinFlight := (congrArg Prod.fst hflight).trans (List.append_nil kept).symm
    rw [h.sound.launches_eq hinFlight (fun x hx => hsub.subset hx) nofun]
    exact .none hsub hflight hinside
  cases a with
  | schedule =>
    obtain ⟨news, hflight, hserial, hperm⟩ := h.sound.flight_schedule
    rw [show r.schedule = r.act .schedule from (h.act_eq .schedule).symm] at hflight hperm
    rw [h.sound.launches_eq (congrArg Prod.fst hflight) (fun _ hx => hx) hserial]
    refine .ready hflight hperm fun x hx => h.sound.board.ready_free _ ?_
    exact hperm.subset (List.mem_append_left _ (List.mem_map_of_mem hx))
  | report serial result elapsed =>
    exact nothing List.filter_sublist (by rw [h.act_eq]; exact flight_report ..) fun _ => rfl
  | resume target inputs =>
    rcases h.sound.resume_cases target inputs with ⟨e, heq⟩ |
      ⟨p, i, n, given, hh, hactive, hi, htarget, hnested, hn, hgiven, heq⟩ |
      ⟨p, i, output, hh, hactive, hi, htarget, hnested, hout, heq⟩
    · refine nothing (.refl _) (by rw [h.act_eq, perform, heq]; rfl) fun id => ?_
      simp [acceptsInside, accepts, heq, Except.isOk, Except.toBool]
    · subst htarget
      have hid := Graph.id_of_node?_eq_some hn
      have hreenter : (r.act (.resume p.target inputs)).flight =
          ({ r with active := none }.reenter p i n given inputs).flight := by
        rw [h.act_eq, perform, heq]
        exact flight_activateNext _
      obtain ⟨x, hflight, hnode, hserial⟩ : ∃ x : Execution,
          (r.act (.resume p.target inputs)).flight = (r.inFlight ++ [x], r.started + 1) ∧
            x.request.node = n ∧ x.serial = r.started := ⟨_, hreenter, rfl, rfl⟩
      subst hnode
      rw [h.sound.launches_eq (congrArg Prod.fst hflight) (fun _ hx => hx) (by simp [hserial])]
      refine .again hh hactive ?_ ?_ ?_ hflight
      · show (r.resume p.target inputs).1.isOk = true
        rw [heq]
        rfl
      · rw [h.sound.target p (by simp [pauses, hactive])] at hnested ⊢
        rw [hid]
        exact parent_pauseTarget hnested
      · rw [hid]
        exact h.sound.standing_active hactive
    · refine nothing (.refl _) ?_ fun id => ?_
      · rw [h.act_eq, perform, heq]
        exact (flight_activateNext _).trans (flight_advance _ _)
      · have hparent : target.parent = none := by
          simpa [ResumeTarget.isNested] using hnested
        simp [acceptsInside, hparent]
  | stop => exact nothing (.refl _) (by rw [h.act_eq]; rfl) fun _ => rfl
  | clock now => exact nothing (.refl _) (by rw [h.act_eq]; rfl) fun _ => rfl
  | finish =>
    refine nothing (.refl _) ?_ fun _ => rfl
    rw [h.act_eq]
    show (if r.isSpent then r.finish else r).flight = r.flight
    split
    · exact flight_finish r
    · rfl

/-- No start is missed: the launches of an action are all the executions that it starts. -/
theorem Steady.started_act (h : r.Steady) (a : Action) :
    (r.act a).started = r.started + (r.launches a).length := by
  have hlaunching := h.launching a
  generalize r.launches a = news at hlaunching
  cases hlaunching with
  | none _ hflight => exact congrArg Prod.snd hflight
  | ready hflight => exact congrArg Prod.snd hflight
  | again _ _ _ _ _ hflight => exact congrArg Prod.snd hflight

end Flowrun.Run
