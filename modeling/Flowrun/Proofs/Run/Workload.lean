import Flowrun.Proofs.Run.Answers
import Flowrun.Proofs.Run.Once

/-!
# How much a run has left to do

The workload of a run is the number of nodes that were not started, and of executions in flight.
When a node is started, it leaves the first group for the second. A report that is handled takes one
away from the second group. Only a container that is executed again comes in anew, and this is paid
for by the accepted resume of a node inside it. So in every history

    r.handled as + (r.acts as).workload ≤ r.workload + r.nestedResumes as

and the workload of a run at its beginning is the number of nodes of its graph.

Unless the workload falls, what is in flight stays so (`Steady.mem_inFlight_act`).
-/

namespace Flowrun.Run

variable {r : Run}

/-! ### What is counted -/

/-- Whether an action hands over the report of an execution in flight. -/
def handles (r : Run) : Action → Bool
  | .report serial _ _ => !r.feed.isTerminal && r.inFlight.any (·.serial == serial)
  | _ => false

/-- How many reports are handled in a history. -/
def handled (r : Run) : List Action → Nat
  | [] => 0
  | a :: as => (if r.handles a then 1 else 0) + (r.act a).handled as

/-- Whether an action is an accepted resume of a node inside a container. -/
def acceptsNested (r : Run) (a : Action) : Bool := match a with
  | .resume target _ => r.accepts a && target.isNested
  | _ => false

/-- How many resumes of nodes inside containers a history has accepted. -/
def nestedResumes (r : Run) : List Action → Nat
  | [] => 0
  | a :: as => (if r.acceptsNested a then 1 else 0) + (r.act a).nestedResumes as

/-- The nodes that were not started. -/
def unstarted (r : Run) : List Node := r.graph.nodes.filter fun n => r.credit n.id = 0

def workload (r : Run) : Nat := r.unstarted.length + r.inFlight.length

/-! ### What was not started -/

theorem mem_unstarted {n : Node} : n ∈ r.unstarted ↔ n ∈ r.graph.nodes ∧ r.credit n.id = 0 := by
  simp [unstarted]

theorem nodup_unstarted (h : r.graph.WellFormed) : (r.unstarted.map Node.id).Nodup :=
  h.nodup_ids.sublist (List.filter_sublist.map _)

/-- What was not started after an action was not started before. -/
theorem Steady.unstarted_act_subset (h : r.Steady) (a : Action) :
    (r.act a).unstarted ⊆ r.unstarted := by
  intro n hn
  obtain ⟨hmem, hcredit⟩ := mem_unstarted.1 hn
  rw [show (r.act a).graph = r.graph from h.graph_acts [a]] at hmem
  exact mem_unstarted.2 ⟨hmem, Nat.le_zero.1 (hcredit ▸ h.credit_le_act a n.id)⟩

/-- The nodes that are started for the first time leave those that were not started. -/
theorem Steady.length_unstarted_act_le (h : r.Steady) (a : Action) {ids : List String}
    (hnodup : ids.Nodup) (hbefore : ids ⊆ r.unstarted.map Node.id)
    (hafter : ∀ id ∈ ids, (r.act a).credit id ≠ 0) :
    (r.act a).unstarted.length + ids.length ≤ r.unstarted.length := by
  have hwell : (r.act a).graph.WellFormed := h.graph_acts [a] ▸ h.sound.wellFormed
  have hapart : ∀ id ∈ (r.act a).unstarted.map Node.id, ∀ id' ∈ ids, id ≠ id' := by
    rintro _ hid _ hmem rfl
    obtain ⟨n, hn, rfl⟩ := List.mem_map.1 hid
    exact hafter _ hmem (mem_unstarted.1 hn).2
  have hall := List.nodup_append.2 ⟨nodup_unstarted hwell, hnodup, hapart⟩
  have hsubset := List.append_subset.2
    ⟨List.map_subset Node.id (h.unstarted_act_subset a), hbefore⟩
  simpa using (hall.subperm hsubset).length_le

theorem Steady.length_unstarted_le (h : r.Steady) (a : Action) :
    (r.act a).unstarted.length ≤ r.unstarted.length :=
  h.length_unstarted_act_le a List.nodup_nil (List.nil_subset _) nofun

/-! ### One action -/

/-- What is launched because it was ready was not started before, and is started now. -/
theorem Steady.length_unstarted_schedule_le (h : r.Steady) {news : List Execution}
    (hflight : (r.act .schedule).flight = (r.inFlight ++ news, r.started + news.length))
    (hperm : (news.map (·.request.node.id) ++ (r.act .schedule).ready).Perm r.ready)
    (hfree : ∀ x ∈ news, r.standing? x.request.node.id = none) :
    (r.act .schedule).unstarted.length + news.length ≤ r.unstarted.length := by
  have hnodup : (news.map (·.request.node.id)).Nodup :=
    (List.nodup_append.1 (hperm.nodup_iff.2 h.sound.board.ready_nodup)).1
  have hlength : (news.map (·.request.node.id)).length = news.length := List.length_map _
  rw [← hlength]
  refine h.length_unstarted_act_le .schedule hnodup (fun id hid => ?_) fun id hid => ?_
  · obtain ⟨n, hn⟩ := h.sound.listed id (hperm.subset (List.mem_append_left _ hid))
    obtain rfl := Graph.id_of_node?_eq_some hn
    obtain ⟨x, hx, hnode⟩ := List.mem_map.1 hid
    refine List.mem_map_of_mem (mem_unstarted.2 ⟨Graph.mem_of_node?_eq_some hn, ?_⟩)
    exact credit_of_free h.sound.ledger (hnode ▸ hfree x hx)
  · obtain ⟨x, hx, rfl⟩ := List.mem_map.1 hid
    have hmem : x ∈ (r.act .schedule).inFlight := by
      rw [show (r.act .schedule).inFlight = r.inFlight ++ news from congrArg Prod.fst hflight]
      exact List.mem_append_right _ hx
    have hone := credit_of_mem_inFlight (h.ledger_acts [.schedule]) (h.tidy_acts [.schedule]) hmem
    exact Nat.ne_of_gt (Nat.lt_of_lt_of_eq Nat.zero_lt_one hone.symm)

/-- A report that is handled takes its execution away. -/
theorem Steady.length_inFlight_of_handles (h : r.Steady) {a : Action} (ha : r.handles a = true) :
    (r.act a).inFlight.length < r.inFlight.length := by
  unfold handles at ha
  split at ha
  · next serial result elapsed =>
    obtain ⟨x, hx, hserial⟩ := List.any_eq_true.1 (Bool.and_eq_true_iff.1 ha).2
    have hflight := congrArg Prod.fst (flight_report r serial result elapsed)
    rw [h.act_eq]
    show (r.report serial result elapsed).flight.1.length < _
    rw [hflight]
    refine List.length_filter_lt_length_iff_exists.2 ⟨x, hx, ?_⟩
    simpa using hserial
  · cases ha

/-- The workload falls with every report that is handled, and rises only with an accepted resume of
a node inside a container. -/
theorem Steady.workload_act (h : r.Steady) (a : Action) :
    (if r.handles a then 1 else 0) + (r.act a).workload ≤
      r.workload + if r.acceptsNested a then 1 else 0 := by
  have hle := h.length_unstarted_le a
  unfold workload
  by_cases hhandles : r.handles a = true
  · have hlt := h.length_inFlight_of_handles hhandles
    rw [if_pos hhandles]
    omega
  · rw [if_neg hhandles, Nat.zero_add]
    have hlaunching := h.launching a
    generalize r.launches a = news at hlaunching
    cases hlaunching with
    | @none _ kept hsub hflight =>
      have hkept : (r.act a).inFlight = kept := congrArg Prod.fst hflight
      rw [hkept]
      exact Nat.le_add_right_of_le (Nat.add_le_add hle hsub.length_le)
    | @ready news hflight hperm hfree =>
      have hstarted := h.length_unstarted_schedule_le hflight hperm hfree
      have hmore : (r.act .schedule).inFlight = r.inFlight ++ news := congrArg Prod.fst hflight
      rw [hmore, List.length_append]
      omega
    | @again p inputs x _ _ haccepts hparent _ hflight =>
      have hnested : r.acceptsNested (.resume p.target inputs) = true := by
        simp [acceptsNested, haccepts, ResumeTarget.isNested, hparent]
      have hmore : (r.act (.resume p.target inputs)).inFlight = r.inFlight ++ [x] :=
        congrArg Prod.fst hflight
      rw [hmore, List.length_append, if_pos hnested]
      exact Nat.add_le_add_right hle _

/-- Unless the workload falls, or rises by a resume, what is in flight stays there. -/
theorem Steady.mem_inFlight_act (h : r.Steady) (a : Action) {x : Execution} (hx : x ∈ r.inFlight) :
    x ∈ (r.act a).inFlight ∨ (r.act a).workload < r.workload := by
  have hle := h.length_unstarted_le a
  have hlaunching := h.launching a
  generalize r.launches a = news at hlaunching
  cases hlaunching with
  | @none _ kept hsub hflight =>
    have hinFlight : (r.act a).inFlight = kept := congrArg Prod.fst hflight
    rcases Nat.lt_or_ge kept.length r.inFlight.length with hlt | hge
    · right
      unfold workload
      rw [hinFlight]
      exact Nat.add_lt_add_of_le_of_lt hle hlt
    · left
      rw [hinFlight, hsub.eq_of_length_le hge]
      exact hx
  | @ready news hflight =>
    have hmore : (r.act .schedule).inFlight = r.inFlight ++ news := congrArg Prod.fst hflight
    exact Or.inl (hmore ▸ List.mem_append_left _ hx)
  | @again p inputs y _ _ _ _ _ hflight =>
    have hmore : (r.act (.resume p.target inputs)).inFlight = r.inFlight ++ [y] :=
      congrArg Prod.fst hflight
    exact Or.inl (hmore ▸ List.mem_append_left _ hx)

/-! ### Histories -/

/-- After the end nothing is handled. -/
theorem handled_of_isTerminal (h : r.feed.isTerminal = true) (as : List Action) :
    r.handled as = 0 := by
  induction as with
  | nil => rfl
  | cons a as ih =>
    have hnone : r.handles a = false := by
      cases a with
      | report => exact Bool.and_eq_false_iff.2 (Or.inl (by rw [h]; rfl))
      | _ => rfl
    rw [handled, act_of_isTerminal h, hnone, ih]
    rfl

/-- The reports that are handled in a history, and what is left to do after it, are no more than
what there was to do, and one for each accepted resume of a node inside a container. -/
theorem Steady.handled_add_workload_le (h : r.Steady) (as : List Action) :
    r.handled as + (r.acts as).workload ≤ r.workload + r.nestedResumes as := by
  induction as generalizing r with
  | nil => exact Nat.le_of_eq (Nat.zero_add _)
  | cons a as ih =>
    have hstep := h.workload_act a
    rw [acts_cons, handled, nestedResumes]
    rcases h.act_or_isTerminal a with hsteady | hterminal
    · have := ih hsteady
      omega
    · rw [handled_of_isTerminal hterminal, acts_of_isTerminal hterminal]
      omega

/-- At the beginning no node was started and nothing is in flight. -/
theorem Launched.workload_le {g : Graph} {limit : Nat} {startInputs : Dict Json.Value} {pool : Pool}
    (h : Launched g limit startInputs pool r) : r.workload ≤ g.nodes.length := by
  obtain ⟨order, feed, now, -, -, -, rfl⟩ := h.eq
  exact List.length_filter_le ..

end Flowrun.Run
