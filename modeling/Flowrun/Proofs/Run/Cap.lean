import Flowrun.Config
import Flowrun.Proofs.Run.Launches
import Mathlib

/-!
# How many executions are in flight

Scheduling starts only what there is room for, so it never takes a run over its limit. An accepted
resume of a node inside a container does not ask for room: it puts the container in flight at once.
So the limit holds throughout a history exactly if no such resume is accepted while the limit is
used up.
-/

namespace Flowrun.Run

variable {w : World} {r r' : Run}

/-- Scheduling keeps to the limit. -/
theorem Sound.length_schedule_le (h : r.Sound) (hlimit : r.limit ≠ 0)
    (hle : r.inFlight.length ≤ r.limit) : r.schedule.inFlight.length ≤ r.limit := by
  let P (s : Run) : Prop := s.limit = r.limit ∧ s.inFlight.length ≤ r.limit
  have hstart : ∀ {s : Run} {n : Node} {rest : List String}, P s → s.halting = false →
      s.ready = n.id :: rest → s.graph.node? n.id = some n →
      (s.limit = 0 ∨ s.inFlight.length < s.limit) → P (s.startNode n rest) := by
    rintro s n rest ⟨hs, _⟩ _ _ _ hroom
    have hlength : (s.startNode n rest).inFlight.length = s.inFlight.length + 1 :=
      List.length_append
    refine ⟨hs, ?_⟩
    rw [hlength]
    omega
  exact (schedule_induction (P := P) hstart (fun hs => hs) ⟨rfl, hle⟩ h.listed).2

theorem Moves.limit_eq (hm : Moves w r r') : r'.limit = r.limit := by
  induction hm with
  | refl => rfl
  | tail _ m ih => exact m.fixed.2.2.1.trans ih

theorem Steady.limit_acts (h : r.Steady) (as : List Action) : (r.acts as).limit = r.limit := by
  rcases h.acts (World.any_admitsAll r as) with ⟨hmoves, -⟩ | ⟨s, hmoves, -, heq⟩
  · exact hmoves.limit_eq
  · rw [heq]
    exact hmoves.limit_eq

/-- One action keeps to the limit exactly if it is no resume that would need more room. -/
theorem Steady.length_act_le_iff (h : r.Steady) (hlimit : r.limit ≠ 0)
    (hle : r.inFlight.length ≤ r.limit) (a : Action) :
    (r.act a).inFlight.length ≤ r.limit ↔
      ((∃ id, r.acceptsInside id a = true) → r.inFlight.length < r.limit) := by
  have hlaunching := h.launching a
  generalize hnews : r.launches a = news at hlaunching
  cases hlaunching with
  | @none _ kept hsub hflight hinside =>
    have hkept : (r.act a).inFlight.length ≤ r.limit := by
      rw [show (r.act a).inFlight = kept from congrArg Prod.fst hflight]
      exact Nat.le_trans hsub.length_le hle
    refine iff_of_true hkept ?_
    rintro ⟨id, haccepts⟩
    exact absurd ((hinside id).symm.trans haccepts) nofun
  | ready hflight =>
    refine iff_of_true ?_ nofun
    rw [h.act_eq]
    exact h.sound.length_schedule_le hlimit hle
  -- the container is put in flight whether there is room or not
  | @again p inputs x _ _ haccepts hparent _ hflight =>
    have hlength : (r.act (.resume p.target inputs)).inFlight.length = r.inFlight.length + 1 := by
      rw [show (r.act (.resume p.target inputs)).inFlight = r.inFlight ++ [x] from
        congrArg Prod.fst hflight]
      exact List.length_append
    have hinside : r.acceptsInside x.request.node.id (.resume p.target inputs) = true := by
      simp [acceptsInside, haccepts, hparent]
    rw [hlength]
    exact ⟨fun hlt _ => hlt, fun hlt => hlt ⟨_, hinside⟩⟩

/-- A task that has ended accepts nothing. -/
theorem acceptsInside_of_isTerminal (h : r.feed.isTerminal = true) (id : String) (a : Action) :
    r.acceptsInside id a = false := by
  cases a with
  | resume target inputs =>
    have hwaits : r.waitsAt target = false := by
      have hstatus : r.feed.status ≠ .paused := fun hs => by
        rw [Feed.isTerminal, hs] at h
        cases h
      simp [waitsAt, hstatus]
    simp [acceptsInside, accepts, resume, hwaits, Except.isOk, Except.toBool]
  | _ => rfl

/-- With a cap, the executions in flight never exceed it in a history exactly if, whenever a resume
of a node inside a container is accepted in it, fewer executions than that are in flight. -/
theorem inFlight_le_concurrency_iff {c : Config} (hc : 0 < c.concurrency) {g : Graph}
    {startInputs : Dict Json.Value} {pool : Pool}
    (h : Launched g c.concurrency startInputs pool r) (as : List Action) :
    (∀ bs, bs <+: as → (r.acts bs).inFlight.length ≤ c.concurrency) ↔
      ∀ bs a, bs ++ [a] <+: as → (∃ id, (r.acts bs).acceptsInside id a = true) →
        (r.acts bs).inFlight.length < c.concurrency := by
  have hlimit : r.limit = c.concurrency := by
    obtain ⟨_, _, _, _, _, _, rfl⟩ := h.eq
    rfl
  have hnone : r.inFlight = [] := by
    obtain ⟨_, _, _, _, _, _, rfl⟩ := h.eq
    rfl
  -- one more action at the end of a history that kept to the cap
  have step : ∀ bs a, (r.acts bs).inFlight.length ≤ c.concurrency →
      ((r.acts (bs ++ [a])).inFlight.length ≤ c.concurrency ↔
        ((∃ id, (r.acts bs).acceptsInside id a = true) →
          (r.acts bs).inFlight.length < c.concurrency)) := by
    intro bs a hle
    have hbs : (r.acts bs).limit = c.concurrency := (h.steady.limit_acts bs).trans hlimit
    rw [acts_append, ← hbs]
    rw [← hbs] at hle
    rcases h.steady.acts_or_isTerminal bs with hsteady | hterminal
    · exact hsteady.length_act_le_iff (by omega) hle a
    · rw [acts_of_isTerminal hterminal]
      refine iff_of_true hle ?_
      rintro ⟨id, haccepts⟩
      exact absurd ((acceptsInside_of_isTerminal hterminal id a).symm.trans haccepts) nofun
  constructor
  · intro hcap bs a hprefix
    have hbs : bs <+: as := (List.prefix_append bs [a]).trans hprefix
    exact (step bs a (hcap bs hbs)).1 (hcap _ hprefix)
  · intro hroom bs
    induction bs using List.reverseRecOn with
    | nil =>
      intro _
      rw [acts_nil, hnone]
      exact Nat.zero_le _
    | append_singleton bs a ih =>
      intro hprefix
      have hbs : bs <+: as := (List.prefix_append bs [a]).trans hprefix
      exact (step bs a (ih hbs)).2 (hroom bs a hprefix)

/-- While nobody resumes, the nodes of the small graph run one at a time. -/
theorem inFlight_le_concurrency_iff_serial :
    let c : Config := { parallelEnabled := false }
    let as : List Action := [.schedule, .report 0 (.ok (.success .null [])) 0, .schedule]
    0 < c.concurrency ∧ Launched Sample.graph c.concurrency [] {} (Sample.run 1) ∧
      ∀ bs, bs <+: as → ((Sample.run 1).acts bs).inFlight.length ≤ c.concurrency := by
  refine ⟨by decide, Sample.launched 1, ?_⟩
  refine (inFlight_le_concurrency_iff (c := { parallelEnabled := false }) (by decide)
    (Sample.launched 1) _).2 ?_
  rintro bs a hprefix ⟨id, hinside⟩
  have hmem := hprefix.subset (List.mem_append_right bs (List.mem_singleton.2 rfl))
  simp only [List.mem_cons, List.not_mem_nil, or_false] at hmem
  rcases hmem with rfl | rfl | rfl <;> cases hinside

/-- The cap does not hold in every history. While the container waits for the user, the script takes
the only place; the resume then puts the container in flight beside it. -/
theorem not_forall_inFlight_le_concurrency :
    ¬ ∀ (c : Config) (g : Graph) (startInputs : Dict Json.Value) (pool : Pool) (r : Run),
      0 < c.concurrency → Launched g c.concurrency startInputs pool r →
        ∀ as, (r.acts as).inFlight.length ≤ c.concurrency := by
  intro hcap
  let as : List Action := [.schedule, .report 0 (.ok (.paused (some (.new "step" "script")))) 0,
    .schedule, .resume ⟨"step", some "batch"⟩ []]
  have htwo : ((Sample.run 1).acts as).inFlight.length = 2 := by cbv
  have hle := hcap { parallelEnabled := false } Sample.graph [] {} (Sample.run 1) (by decide)
    (Sample.launched 1) as
  rw [htwo] at hle
  exact absurd hle (by decide)

end Flowrun.Run
