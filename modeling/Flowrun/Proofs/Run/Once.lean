import Flowrun.Proofs.Run.Launches
import Mathlib

/-!
# No node is started more often than it should be

A node is started when it is ready, and it is ready only before it was reached. A container is
started again when a resume of a node inside it is accepted, and that is all. So

    r.starts id as + credit r id ≤ 1 + r.reentries id as

where the credit of a node is 1 once it was started: the first start turns the credit from 0 to 1,
every other one is paid for by a resume. A node that is done has no place from which it could be
started, and it stays done.
-/

namespace Flowrun.Run

variable {w : World} {r r' : Run}

/-! ### What a node owes to its first start -/

/-- Whether a node was started, as a number. -/
def credit (r : Run) (id : String) : Nat := if r.inputsOf.at? id = none then 0 else 1

theorem credit_le_one (r : Run) (id : String) : r.credit id ≤ 1 := by
  unfold credit
  split <;> omega

/-- The inputs of a node are never forgotten. -/
theorem Move.credit_le (m : Move w r r') (id : String) : r.credit id ≤ r'.credit id := by
  have key : ∀ {s : Run}, (r.inputsOf.at? id ≠ none → s.inputsOf.at? id ≠ none) →
      r.credit id ≤ s.credit id := by
    intro s h
    unfold credit
    by_cases hr : r.inputsOf.at? id = none
    · rw [if_pos hr]
      exact Nat.zero_le _
    · refine Nat.le_of_eq ?_
      rw [if_neg hr, if_neg (h hr)]
  cases m with
  | @start n _ =>
    refine key fun hr => ?_
    show (r.inputsOf.put n.id _).at? id ≠ none
    rw [Dict.at?_put]
    split
    · nofun
    · exact hr
  | complete =>
    rw [complete_eq]
    exact key fun hr => hr
  | _ => exact key fun hr => hr

theorem Moves.credit_le (hm : Moves w r r') (id : String) : r.credit id ≤ r'.credit id := by
  induction hm with
  | refl => exact Nat.le_refl _
  | tail _ m ih => exact Nat.le_trans ih (m.credit_le id)

theorem Steady.credit_le_act (h : r.Steady) (a : Action) (id : String) :
    r.credit id ≤ (r.act a).credit id := by
  rcases h.act (World.any_admitsAll r [a]).1 with ⟨hmoves, -⟩ | ⟨s, hmoves, -, heq⟩
  · exact hmoves.credit_le id
  · rw [heq]
    exact hmoves.credit_le id

/-- What is in flight has its credit. -/
theorem credit_of_mem_inFlight (h : r.ledger.Sound) (hb : r.board.Tidy) {x : Execution}
    (hx : x ∈ r.inFlight) : r.credit x.request.node.id = 1 := by
  refine if_neg fun hnone => ?_
  have hrun : r.standings.at? x.request.node.id = some .running :=
    hb.standing_of_mem_inFlight hx
  rcases (h.given _).1 hnone with hs | hs
  · cases hrun.symm.trans hs
  · cases hrun.symm.trans hs

/-- A node that was not reached has no credit. -/
theorem credit_of_free (h : r.ledger.Sound) {id : String} (hs : r.standing? id = none) :
    r.credit id = 0 :=
  if_pos ((h.given id).2 (Or.inl hs))

/-! ### Counting starts -/

/-- One action: a start is the first one, or is paid for by a resume. -/
theorem Steady.count_launches_le (h : r.Steady) (a : Action) (id : String) :
    (r.launches a).countP (·.request.node.id = id) + r.credit id ≤
      (r.act a).credit id + if r.acceptsInside id a then 1 else 0 := by
  have hcredit := h.credit_le_act a id
  have hlaunching := h.launching a
  generalize hnews : r.launches a = news at hlaunching
  cases hlaunching with
  | none => exact Nat.le_add_right_of_le (by simpa using hcredit)
  | @ready _ hflight hperm hfree =>
    by_cases hmem : ∃ x ∈ news, x.request.node.id = id
    -- the first start: the node was ready once and had no credit, and has some afterwards
    · obtain ⟨x, hx, rfl⟩ := hmem
      have hnodup : (news.map (·.request.node.id)).Nodup :=
        (List.nodup_append.1 (hperm.nodup_iff.2 h.sound.board.ready_nodup)).1
      have hcount : news.countP (·.request.node.id = x.request.node.id) ≤ 1 := by
        have := List.nodup_iff_count_le_one.1 hnodup x.request.node.id
        rw [List.count, List.countP_map] at this
        refine Nat.le_trans (Nat.le_of_eq (List.countP_congr fun y _ => ?_)) this
        simp
      have hafter : (r.act .schedule).credit x.request.node.id = 1 := by
        have hmem : x ∈ (r.act .schedule).inFlight := by
          rw [show (r.act .schedule).inFlight = r.inFlight ++ news from congrArg Prod.fst hflight]
          exact List.mem_append_right _ hx
        have hacts := h.ledger_acts [.schedule]
        exact credit_of_mem_inFlight hacts (h.tidy_acts [.schedule]) hmem
      have hbefore := credit_of_free h.sound.ledger (hfree x hx)
      omega
    · have hzero : news.countP (·.request.node.id = id) = 0 := by
        rw [List.countP_eq_zero]
        intro x hx
        simpa using fun he => hmem ⟨x, hx, he⟩
      omega
  | @again p inputs x _ _ haccepts hparent =>
    by_cases hid : x.request.node.id = id
    · have hinside : r.acceptsInside id (.resume p.target inputs) = true := by
        simp [acceptsInside, haccepts, hparent, hid]
      simpa [hid, hinside, Nat.add_comm] using hcredit
    · simpa [hid] using Nat.le_add_right_of_le hcredit

theorem starts_of_isTerminal (h : r.feed.isTerminal = true) (hb : r.board.Tidy) (id : String)
    (as : List Action) : r.starts id as = 0 := by
  induction as with
  | nil => rfl
  | cons a as ih =>
    show (r.launches a).countP _ + (r.act a).starts id as = 0
    rw [launches_of_isTerminal h hb, act_of_isTerminal h, ih]
    rfl

/-- A whole history: every start is the first one, or is paid for by a resume. -/
theorem Steady.starts_le (h : r.Steady) (as : List Action) (id : String) :
    r.starts id as + r.credit id ≤ 1 + r.reentries id as := by
  induction as generalizing r with
  | nil => exact Nat.le_trans (Nat.le_of_eq (Nat.zero_add _)) (r.credit_le_one id)
  | cons a as ih =>
    have hstep := h.count_launches_le a id
    show (r.launches a).countP _ + (r.act a).starts id as + r.credit id ≤
      1 + ((if r.acceptsInside id a then 1 else 0) + (r.act a).reentries id as)
    rcases h.act_or_isTerminal a with hsteady | hterminal
    · have := ih hsteady
      omega
    -- after the end nothing is started
    · have hzero := starts_of_isTerminal hterminal (h.tidy_acts [a]) id as
      have := (r.act a).credit_le_one id
      omega

/-! ### What is done, and what was skipped -/

/-- A node that is done is never started again. -/
theorem Steady.starts_of_done (h : r.Steady) {id : String} {s : NodeStatus}
    (hs : r.standing? id = some (.done s)) (as : List Action) : r.starts id as = 0 := by
  induction as generalizing r with
  | nil => rfl
  | cons a as ih =>
    -- what is started was ready and not reached, or suspended
    have hnone : (r.launches a).countP (·.request.node.id = id) = 0 := by
      rw [List.countP_eq_zero]
      intro x hx
      have hlaunching := h.launching a
      generalize r.launches a = news at hlaunching hx
      suffices x.request.node.id ≠ id by simpa using this
      rintro rfl
      cases hlaunching with
      | none => cases hx
      | ready _ _ hfree => cases hs.symm.trans (hfree x hx)
      | again _ _ _ _ hsus =>
        obtain rfl := List.mem_singleton.1 hx
        cases hs.symm.trans hsus
    have hnext : (r.act a).starts id as = 0 := by
      rcases h.act_or_isTerminal a with hsteady | hterminal
      · exact ih hsteady (h.done_act hs a)
      · exact starts_of_isTerminal hterminal (h.tidy_acts [a]) id as
    show (r.launches a).countP _ + (r.act a).starts id as = 0
    rw [hnone, hnext]

/-- A node without credit at the end of a history was not started in it. -/
theorem Steady.starts_of_credit (h : r.Steady) {id : String} (as : List Action)
    (hcredit : (r.acts as).credit id = 0) : r.credit id = 0 ∧ r.starts id as = 0 := by
  induction as generalizing r with
  | nil => exact ⟨hcredit, rfl⟩
  | cons a as ih =>
    have hnext : (r.act a).credit id = 0 ∧ (r.act a).starts id as = 0 := by
      rcases h.act_or_isTerminal a with hsteady | hterminal
      · exact ih hsteady hcredit
      · rw [acts_cons, acts_of_isTerminal hterminal] at hcredit
        exact ⟨hcredit, starts_of_isTerminal hterminal (h.tidy_acts [a]) id as⟩
    have hnone : (r.launches a).countP (·.request.node.id = id) = 0 := by
      rw [List.countP_eq_zero]
      intro x hx
      suffices x.request.node.id ≠ id by simpa using this
      rintro rfl
      have hone := credit_of_mem_inFlight (h.ledger_acts [a]) (h.tidy_acts [a])
        (List.mem_filter.1 hx).1
      exact absurd (hone.symm.trans hnext.1) nofun
    refine ⟨Nat.le_zero.1 (hnext.1 ▸ h.credit_le_act a id), ?_⟩
    show (r.launches a).countP _ + (r.act a).starts id as = 0
    rw [hnone, hnext.2]

/-- A node that was skipped was not started. -/
theorem Steady.starts_of_skipped (h : r.Steady) {id : String} (as : List Action)
    (hs : (r.acts as).standing? id = some (.done .skip)) : r.starts id as = 0 := by
  refine (h.starts_of_credit as ?_).2
  exact if_pos (((h.ledger_acts as).given id).2 (Or.inr hs))

/-! ### The theorem -/

/-- In every state that a history of a run leads to, a node has at most one record of its own, it is
not both started and skipped, and it is ready at most once and only before it was reached. It is
started at most once, and once more for each accepted resume of a node inside it; once it is done it
is never started again. -/
theorem executes_at_most_once {g : Graph} {limit : Nat} {startInputs : Dict Json.Value}
    {pool : Pool} (h : Launched g limit startInputs pool r) (as : List Action) (id : String) :
    ((r.acts as).ownRecords id).length ≤ 1 ∧
    ¬ (0 < r.starts id as ∧ ∃ x ∈ (r.acts as).ownRecords id, x.status = .skip) ∧
    (r.acts as).ready.count id ≤ 1 ∧
    (id ∈ (r.acts as).ready → (r.acts as).standing? id = none) ∧
    r.starts id as ≤ 1 + r.reentries id as ∧
    ∀ s, (r.acts as).standing? id = some (.done s) → ∀ bs, (r.acts as).starts id bs = 0 := by
  have hsteady := h.steady
  have hledger := hsteady.ledger_acts as
  have htidy := hsteady.tidy_acts as
  refine ⟨length_ownRecords_le_one hledger id, ?_, ?_, htidy.ready_free id, ?_, ?_⟩
  · rintro ⟨hstarts, x, hx, hskip⟩
    have hs := (status_ownRecord_eq_skip_iff hledger hx).1 hskip
    have := hsteady.starts_of_skipped as hs
    omega
  · exact List.nodup_iff_count_le_one.1 htidy.ready_nodup id
  · have := hsteady.starts_le as id
    omega
  · intro s hs bs
    rcases hsteady.acts_or_isTerminal as with hafter | hterminal
    · exact hafter.starts_of_done hs bs
    · exact starts_of_isTerminal hterminal htidy id bs

/-- A container whose inner node waits for the user once is started twice. -/
theorem executes_at_most_once_container :
    let as : List Action := [.schedule, .report 0 (.ok (.paused (some (.new "step" "script")))) 0,
      .resume ⟨"step", some "batch"⟩ [], .report 2 (.ok (.success .null [])) 0]
    (Sample.run 0).starts "batch" as = 2 ∧
      (Sample.run 0).starts "batch" as ≤ 1 + (Sample.run 0).reentries "batch" as := by
  refine ⟨by cbv, ?_⟩
  exact (executes_at_most_once (Sample.launched 0) _ "batch").2.2.2.2.1

end Flowrun.Run
