import Flowrun.Proofs.Run.Lifecycle
import Flowrun.Proofs.Run.Once

/-!
# Halting freezes a run

From the action on after which a run halts, no node is started and no resume is accepted, whatever
happens. What was ready stays ready, no record is added, and what is written closes records that
were there and open, until the end writes down how the task ends:

    (r.acts bs).feed.journal = r.feed.journal ++ closings ++ last

The last entry is the only one about the task itself.
-/

namespace Flowrun.Run

open Json

variable {r s s' : Run} {a : Action} {f₀ : Feed}

/-! ### What a run that halts does -/

/-- A later stage of a run in which nothing was started or became ready, and some records were
closed. -/
structure Frozen (r s : Run) : Prop where
  ready : s.ready = r.ready
  started : s.started = r.started
  closings : r.feed.Closings s.feed
  displays : s.feed.Displays s.active
  candid : s.Candid

theorem Frozen.refl (hd : r.feed.Displays r.active) (hc : r.Candid) : r.Frozen r :=
  ⟨rfl, rfl, .refl, hd, hc⟩

theorem Frozen.flag (hf : r.Frozen s) (now : Instant) (stopping : Bool) :
    r.Frozen { s with now, stopping } :=
  ⟨hf.ready, hf.started, hf.closings, hf.displays, hf.candid⟩

theorem Frozen.land (hf : r.Frozen s) (h : s.Sound) (hl : s.Lands s') : r.Frozen s' where
  ready := by
    cases hl
    exact hf.ready
  started := by
    cases hl
    exact hf.started
  closings := hf.closings.tail (h.closes_land hf.candid hf.displays hl)
  displays := h.displays_land hf.displays hl
  candid := h.candid_land hf.candid hl

/-- The action after which the run halts freezes it, or is its end. -/
theorem Steady.frozen_act (h : r.Steady) (hd : r.feed.Displays r.active) (hc : r.Candid)
    (hh : (r.act a).halting = true) :
    ((r.act a).Steady ∧ r.Frozen (r.act a)) ∨ r.isSpent = true ∧ r.act a = r.finish := by
  rw [h.act_eq] at hh ⊢
  rcases r.perform_cases a with ha | hsame | hends
  · refine Or.inl ⟨(h.moves_perform ha (World.any_admitsAll r [a]).1).2, ?_⟩
    rcases h.perform_of_halting ha hh with ⟨now, stopping, heq⟩ | hlands
    · rw [heq]
      exact (Frozen.refl hd hc).flag now stopping
    · exact (Frozen.refl hd hc).land h.sound hlands
  · rw [hsame]
    exact Or.inl ⟨h, .refl hd hc⟩
  · exact Or.inr hends

/-- A run stays frozen until it ends. -/
theorem Steady.frozen_acts (h : r.Steady) (hd : r.feed.Displays r.active) (hc : r.Candid)
    (hh : (r.act a).halting = true) (bs : List Action) :
    ((r.acts (a :: bs)).Steady ∧ r.Frozen (r.acts (a :: bs))) ∨
      ∃ s : Run, s.Steady ∧ r.Frozen s ∧ s.isSpent = true ∧ r.acts (a :: bs) = s.finish := by
  rw [acts_cons]
  rcases h.frozen_act hd hc hh with ⟨hsteady, hfrozen⟩ | ⟨hspent, heq⟩
  · have hkeep := hsteady.keep_acts (w := .any) (P := fun s => s.halting = true ∧ r.Frozen s)
      (fun _ hP m hlive => by cases (m.halting hP.1).symm.trans hlive)
      (fun now stopping hP hh => ⟨hh, hP.2.flag now stopping⟩)
      (fun hsound hP hl hh => ⟨hh, hP.2.land hsound hl⟩) ⟨hh, hfrozen⟩
      (World.any_admitsAll _ bs)
    rcases hkeep with ⟨hsteady', -, hfrozen'⟩ | ⟨s, hs, ⟨-, hfrozen'⟩, hspent, heq⟩
    · exact Or.inl ⟨hsteady', hfrozen'⟩
    · exact Or.inr ⟨s, hs, hfrozen', hspent, heq⟩
  · refine Or.inr ⟨r, h, .refl hd hc, hspent, ?_⟩
    rw [heq, acts_of_isTerminal (h.isTerminal_finish hspent)]

/-! ### Starts and resumes -/

/-- A run that starts no execution starts no node. -/
theorem Steady.starts_eq_zero (h : r.Steady) (id : String) {as : List Action}
    (hs : ∀ bs, bs <+: as → (r.acts bs).started = r.started) : r.starts id as = 0 := by
  induction as generalizing r with
  | nil => rfl
  | cons a as ih =>
    have hstarted : (r.act a).started = r.started := hs [a] (List.prefix_append [a] as)
    have hnone : r.launches a = [] := by
      apply List.filter_eq_nil_iff.2
      intro x hx hle
      have hlt := (h.tidy_acts [a]).serial_lt x hx
      replace hlt : x.serial < (r.act a).started := hlt
      have hle := of_decide_eq_true hle
      omega
    rw [starts, hnone, List.countP_nil, Nat.zero_add]
    rcases h.act_or_isTerminal a with hsteady | hterminal
    · apply ih hsteady
      intro bs hbs
      rw [hstarted]
      exact hs (a :: bs) ((List.prefix_cons_inj a).2 hbs)
    · exact starts_of_isTerminal hterminal (h.tidy_acts [a]) id as

theorem accepts_of_halting (h : r.halting = true) (a : Action) : r.accepts a = false := by
  cases a with
  | resume target inputs =>
    show (r.resume target inputs).1.isOk = false
    rw [resume_of_halting h]
    rfl
  | _ => rfl

theorem Steady.accepts_of_halting_act (h : r.Steady) (hh : (r.act a).halting = true) :
    r.accepts a = false := by
  cases a with
  | resume target inputs =>
    rw [h.act_eq] at hh
    obtain ⟨e, heq⟩ := h.sound.resume_eq_error_of_halting hh
    show (r.resume target inputs).1.isOk = false
    rw [heq]
    rfl
  | _ => rfl

/-- A run that halts goes on halting. -/
theorem Steady.halting_acts (h : r.Steady) (hh : r.halting = true) (as : List Action) :
    (r.acts as).halting = true := by
  have key : ∀ {s : Run}, Moves .any r s → s.halting = true := fun hm =>
    (hm.keep (P := fun s => s.halting = true) h.sound hh fun _ hh m => m.halting hh).2
  rcases h.acts (World.any_admitsAll r as) with ⟨hmoves, -⟩ | ⟨s, hmoves, -, heq⟩
  · exact key hmoves
  · rw [heq]
    show s.halting = true
    exact key hmoves

/-! ### What is left to be written -/

/-- What is written after a run halts: records that were there and open are closed, and at last the
end is written down. -/
structure WindsDown (r s : Run) : Prop where
  length_records : s.feed.snapshot.records.length = r.feed.snapshot.records.length
  ready : s.ready = r.ready
  started : s.started = r.started
  entries : ∃ closings last, s.feed.journal = r.feed.journal ++ closings ++ last ∧
    (∀ e ∈ closings, ∃ i x y, e = .record i y ∧ r.feed.record? i = some x ∧
      x.status.isTerminal = false ∧ y.status.isTerminal = true) ∧
    (last = [] ∨ last = [.status s.feed.status none] ∧ s.feed.isTerminal = true)

theorem WindsDown.refl (r : Run) : r.WindsDown r :=
  ⟨rfl, rfl, rfl, [], [], by simp, nofun, Or.inl rfl⟩

theorem Frozen.windsDown (hf : r.Frozen s) : r.WindsDown s := by
  obtain ⟨closings, hclosings, hclosed⟩ := hf.closings.exists_entries
  refine ⟨hf.closings.length_records, hf.ready, hf.started, closings, [], ?_, hclosed, Or.inl rfl⟩
  rw [hclosings.journal, List.append_nil]

/-- The end of a run that is frozen. -/
theorem Frozen.windsDown_finish (hf : r.Frozen s) (h : s.Steady) (hspent : s.isSpent = true) :
    r.WindsDown s.finish := by
  obtain ⟨-, hended⟩ := h.ended_closePauses .any hspent
  obtain ⟨hclosing, -⟩ := h.closings_closePauses hf.candid hf.displays (isSpent_iff.1 hspent).2.1
  have hall : r.feed.Closings s.closePauses.feed := hf.closings.trans hclosing
  obtain ⟨closings, hclosings, hclosed⟩ := hall.exists_entries
  obtain ⟨feed, standings, heq⟩ := closePauses_eq s
  have hlast := (Feed.extends_finish s.closePauses.feed s.closePauses.finalStatus
    (if s.closePauses.finalStatus = .success then s.closePauses.outputs else .null)
    s.closePauses.failure s.closePauses.now).journal
  rw [if_pos hended.allows_finalStatus, hclosings.journal] at hlast
  constructor
  · refine Eq.trans ?_ hall.length_records
    exact congrArg List.length (Feed.records_finish ..)
  · refine Eq.trans ?_ hf.ready
    show s.closePauses.ready = s.ready
    rw [heq]
  · refine Eq.trans ?_ hf.started
    show s.closePauses.started = s.started
    rw [heq]
  · refine ⟨closings, _, hlast, hclosed, Or.inr ⟨?_, h.isTerminal_finish hspent⟩⟩
    rw [show s.finish.feed.status = s.closePauses.finalStatus from hended.status_conclude]

/-- A run that halts after an action winds down, in every history that begins with this action. -/
theorem Steady.windsDown_acts (h : r.Steady) (hd : r.feed.Displays r.active) (hc : r.Candid)
    (hh : (r.act a).halting = true) (bs : List Action) : r.WindsDown (r.acts (a :: bs)) := by
  rcases h.frozen_acts hd hc hh bs with ⟨-, hfrozen⟩ | ⟨s, hsteady, hfrozen, hspent, heq⟩
  · exact hfrozen.windsDown
  · rw [heq]
    exact hfrozen.windsDown_finish hsteady hspent

variable {g : Graph} {limit : Nat} {startInputs : Dict Value} {pool : Pool}

/-- From the action on after which a run halts: no node is started and no resume is accepted, the
nodes that are ready stay so and never run, no record is added, and all that is written closes
records that were there and open, except for one last entry with the status with which the task
ends. -/
theorem halting_freezes (h : Launched g limit startInputs pool r) (as : List Action) (a : Action)
    (hh : (r.acts (as ++ [a])).halting = true) (bs : List Action) :
    (∀ id, (r.acts as).starts id (a :: bs) = 0) ∧
    (r.acts as).accepts a = false ∧ (∀ b, (r.acts (as ++ a :: bs)).accepts b = false) ∧
    (r.acts (as ++ a :: bs)).ready = (r.acts as).ready ∧
    (∀ id ∈ (r.acts as).ready, (r.acts (as ++ a :: bs)).standing? id = none) ∧
    (r.acts (as ++ a :: bs)).feed.snapshot.records.length =
      (r.acts as).feed.snapshot.records.length ∧
    ∃ closings last, (r.acts (as ++ a :: bs)).feed.journal =
        (r.acts as).feed.journal ++ closings ++ last ∧
      (∀ e ∈ closings, ∃ i x y, e = .record i y ∧ (r.acts as).feed.record? i = some x ∧
        x.status.isTerminal = false ∧ y.status.isTerminal = true) ∧
      (last = [] ∨ last = [.status (r.acts (as ++ a :: bs)).feed.status none] ∧
        (r.acts (as ++ a :: bs)).feed.isTerminal = true) := by
  have hhalts : (r.acts (as ++ a :: bs)).halting = true := by
    rw [show as ++ a :: bs = (as ++ [a]) ++ bs by simp, acts_append]
    rcases h.steady.acts_or_isTerminal (as ++ [a]) with hsteady | hterminal
    · exact hsteady.halting_acts hh bs
    · rw [acts_of_isTerminal hterminal]
      exact hh
  have htidy := h.steady.tidy_acts (as ++ a :: bs)
  have hnever : (∀ id, (r.acts as).starts id (a :: bs) = 0) ∧ (r.acts as).accepts a = false ∧
      (r.acts as).WindsDown (r.acts (as ++ a :: bs)) := by
    rw [acts_append] at hh ⊢
    rcases h.underWay_acts as with ⟨hsteady, hu⟩ | ⟨s, hsteady, -, hspent, heq⟩
    · have hdown := hsteady.windsDown_acts hu.displays hu.candid hh
      refine ⟨fun id => hsteady.starts_eq_zero id fun cs hcs => ?_,
        hsteady.accepts_of_halting_act hh, hdown bs⟩
      cases cs with
      | nil => rfl
      | cons b cs =>
        obtain ⟨rfl, -⟩ := List.cons_prefix_cons.1 hcs
        exact (hdown cs).started
    -- a run that has ended does nothing at all
    · have hterminal : (r.acts as).feed.isTerminal = true := heq ▸ hsteady.isTerminal_finish hspent
      rw [acts_of_isTerminal hterminal] at hh ⊢
      exact ⟨fun id => starts_of_isTerminal hterminal (h.steady.tidy_acts as) id _,
        accepts_of_halting hh a, .refl _⟩
  obtain ⟨hstarts, haccepts, hdown⟩ := hnever
  refine ⟨hstarts, haccepts, accepts_of_halting hhalts, hdown.ready, fun id hid => ?_,
    hdown.length_records, hdown.entries⟩
  rw [← hdown.ready] at hid
  exact htidy.ready_free id hid

/-- The script fails while the container is in flight. The container then asks for user input, which
just closes its record, and the resume is refused. -/
theorem halting_freezes_fail :
    let fail : Action := .report 1 (.error (.execution "no such table")) 0
    let bs : List Action := [.report 0 (.ok (.paused (some (.new "step" "script")))) 0, .schedule,
      .resume ⟨"step", some "batch"⟩ [], .finish]
    let before := (Sample.run 0).acts [.schedule]
    let after := (Sample.run 0).acts ([.schedule] ++ fail :: bs)
    Launched Sample.graph 0 [] {} (Sample.run 0) ∧
      ((Sample.run 0).acts ([.schedule] ++ [fail])).halting = true ∧
      (∀ id, before.starts id (fail :: bs) = 0) ∧
      after.feed.snapshot.records.length = before.feed.snapshot.records.length ∧
      after.feed.snapshot.records.map (fun x => (x.node, x.status)) =
        [("batch", .stop), ("fetch", .fail)] ∧ after.feed.status = .fail := by
  intro fail bs before after
  have hh : ((Sample.run 0).acts ([.schedule] ++
      [.report 1 (.error (.execution "no such table")) 0])).halting = true := by cbv
  have hafter : after = (Sample.run 0).acts [.schedule,
      .report 1 (.error (.execution "no such table")) 0,
      .report 0 (.ok (.paused (some (.new "step" "script")))) 0, .schedule,
      .resume ⟨"step", some "batch"⟩ [], .finish] := rfl
  obtain ⟨hstarts, -, -, -, -, hlength, -⟩ :=
    halting_freezes (Sample.launched 0) [.schedule] fail hh bs
  refine ⟨Sample.launched 0, hh, hstarts, hlength, ?_, ?_⟩
  · rw [hafter]
    cbv
  · rw [hafter]
    cbv

end Flowrun.Run
