import Flowrun.Proofs.Run.Steady
import Mathlib

/-!
# Which resumes are accepted

A resume is accepted exactly if the run waits at its target and does not halt, and, unless the pause
is one of a node inside a container, the input has every required output of the node that waits. One
that is refused leaves the whole run as it was:

    (r.resume target inputs).1 ≠ .ok () → (r.resume target inputs).2 = r

so it can be struck from any history. The answer to it says that it is stale or that an input is
missing; the other errors of a resume do not occur.
-/

namespace Flowrun

open Json

/-- Whether an input has every required output of a node. -/
def Node.SatisfiedBy (n : Node) (inputs : Dict Value) : Prop :=
  ∀ p ∈ n.config.outputs, p.required = true → ∃ v, inputs.at? p.key = some v ∧ v ≠ .null

/-- A required output of a node that an input does not have. -/
def Node.Lacks (n : Node) (inputs : Dict Value) (key : String) : Prop :=
  ∃ p ∈ n.config.outputs, p.key = key ∧ p.required = true ∧
    ((inputs.at? p.key).getD .null).isNull = true

theorem Json.Value.isNull_iff {v : Value} : v.isNull = true ↔ v = .null := by
  cases v <;> simp [Value.isNull]

theorem Node.SatisfiedBy.not_lacks {n : Node} {inputs : Dict Value} (h : n.SatisfiedBy inputs)
    (key : String) : ¬ n.Lacks inputs key := by
  rintro ⟨p, hp, -, hrequired, hnull⟩
  obtain ⟨v, hv, hne⟩ := h p hp hrequired
  rw [hv] at hnull
  exact hne (Value.isNull_iff.1 hnull)

namespace Run

variable {r : Run}

/-! ### The output of a node that is given its input -/

/-- The declared outputs are there, or the first one that is missing is named. -/
theorem declaredOutput_cases (id : String) (inputs : Dict Value) (ps : List OutputParam) :
    (∃ fs, declaredOutput id inputs ps = .ok fs) ∧
        (∀ p ∈ ps, p.required = true → ∃ v, inputs.at? p.key = some v ∧ v ≠ .null) ∨
      ∃ p ∈ ps, p.required = true ∧ ((inputs.at? p.key).getD .null).isNull = true ∧
        declaredOutput id inputs ps = .error (.missingInput id p.key) := by
  induction ps with
  | nil => exact Or.inl ⟨⟨[], rfl⟩, nofun⟩
  | cons p ps ih =>
    unfold declaredOutput
    dsimp only
    split
    · next hmissing =>
      obtain ⟨hrequired, hnull⟩ := Bool.and_eq_true_iff.1 hmissing
      exact Or.inr ⟨p, List.mem_cons_self, hrequired, hnull, rfl⟩
    · next hgiven =>
      rcases ih with ⟨⟨fs, hfs⟩, hall⟩ | ⟨q, hq, hrequired, hnull, herror⟩
      · refine Or.inl ⟨⟨_, by rw [hfs]; rfl⟩, fun q hq hrequired => ?_⟩
        rcases List.mem_cons.1 hq with rfl | hq
        · have hnull : ¬ ((inputs.at? q.key).getD .null).isNull = true := fun hnull =>
            hgiven (Bool.and_eq_true_iff.2 ⟨hrequired, hnull⟩)
          cases hv : inputs.at? q.key with
          | none => exact absurd (by rw [hv]; rfl) hnull
          | some v =>
            rw [hv] at hnull
            exact ⟨v, rfl, fun he => hnull (Value.isNull_iff.2 he)⟩
        · exact hall q hq hrequired
      · exact Or.inr ⟨q, List.mem_cons_of_mem _ hq, hrequired, hnull, by rw [herror]; rfl⟩

/-- A node gets an output exactly if nothing that it requires is missing. -/
theorem resumeOutput_cases {id : String} {n : Node} (hn : r.graph.node? id = some n)
    (inputs : Dict Value) :
    (∃ output, r.resumeOutput id inputs = .ok output) ∧ n.SatisfiedBy inputs ∨
      ∃ key, r.resumeOutput id inputs = .error (.missingInput id key) ∧ n.Lacks inputs key := by
  unfold resumeOutput
  rw [hn]
  dsimp only
  split
  · next hnone =>
    refine Or.inl ⟨⟨_, rfl⟩, fun p hp => ?_⟩
    rw [hnone] at hp
    exact absurd hp List.not_mem_nil
  · rcases declaredOutput_cases id inputs n.config.outputs with ⟨⟨fs, hfs⟩, hall⟩ |
      ⟨p, hp, hrequired, hnull, herror⟩
    · exact Or.inl ⟨⟨_, by rw [hfs]; rfl⟩, hall⟩
    · exact Or.inr ⟨p.key, by rw [herror]; rfl, p, hp, rfl, hrequired, hnull⟩

/-! ### Answers to resumes -/

/-- When a run takes a resume: it waits at the target, and the input will do. -/
structure Takes (r : Run) (target : ResumeTarget) (inputs : Dict Value) : Prop where
  paused : r.feed.status = .paused
  live : r.halting = false
  waits : ∃ p n, r.active = some p ∧ p.target = target ∧ r.graph.node? p.node = some n ∧
    (target.isNested = false → n.SatisfiedBy inputs)

theorem waitsAt_iff {target : ResumeTarget} :
    r.waitsAt target = true ↔
      r.feed.status = .paused ∧ r.halting = false ∧ ∃ p, r.active = some p ∧ p.target = target := by
  simp only [waitsAt, Bool.and_eq_true, beq_iff_eq, Bool.not_eq_true', Option.map_eq_some_iff,
    and_assoc]

/-- A resume at the pause that is shown is accepted if the pause is inside a container, and
otherwise depends on the output that it gives the node. -/
theorem resume_of_waitsAt {p : Pause} {i : Nat} (hwaits : r.waitsAt p.target = true)
    (hactive : r.active = some p) (hi : p.record = some i) (inputs : Dict Value) :
    (p.target.isNested = true → (r.resume p.target inputs).1 = .ok ()) ∧
      (p.target.isNested = false →
        (∀ output, r.resumeOutput p.node inputs = .ok output →
          (r.resume p.target inputs).1 = .ok ()) ∧
        ∀ e, r.resumeOutput p.node inputs = .error e →
          r.resume p.target inputs = (.error e, r)) := by
  have hgoes : ¬ (!true) = true := Bool.false_ne_true
  unfold Run.resume
  rw [hwaits, if_neg hgoes, hactive]
  dsimp only
  rw [hi]
  dsimp only
  refine ⟨fun hnested => ?_, fun hnested => ⟨fun output hout => ?_, fun e herror => ?_⟩⟩
  · rw [if_pos hnested]
  · rw [hnested, if_neg Bool.false_ne_true, hout]
  · rw [hnested, if_neg Bool.false_ne_true, herror]
    dsimp only
    rw [← hactive]

/-- What a resume is answered, and what a refused one leaves behind. -/
theorem Sound.resume_outcome (h : r.Sound) (target : ResumeTarget) (inputs : Dict Value) :
    (r.resume target inputs).1 = .ok () ∧ r.Takes target inputs ∨
      (∃ p n key, r.active = some p ∧ p.target = target ∧ r.graph.node? p.node = some n ∧
        target.isNested = false ∧ n.Lacks inputs key ∧
        r.resume target inputs = (.error (.missingInput p.node key), r)) ∨
      (r.waitsAt target = false ∧ r.resume target inputs =
        (.error (.staleResume target (r.active.map Pause.target) r.feed.status), r)) := by
  cases hwaits : r.waitsAt target with
  | false =>
    refine Or.inr (Or.inr ⟨rfl, ?_⟩)
    unfold Run.resume
    rw [hwaits]
    rfl
  | true =>
    obtain ⟨hpaused, hlive, p, hactive, rfl⟩ := waitsAt_iff.1 hwaits
    have hreached : r.standing? p.node ≠ none := by
      rw [standing?, h.standing_active hactive]
      exact Option.some_ne_none _
    obtain ⟨n, hn⟩ := h.reached p.node hreached
    obtain ⟨i, hi, -⟩ := h.shown p hactive
    obtain ⟨hinner, hown⟩ := resume_of_waitsAt hwaits hactive hi inputs
    cases hnested : p.target.isNested with
    | true =>
      refine Or.inl ⟨hinner hnested, hpaused, hlive, p, n, hactive, rfl, hn, fun hnot => ?_⟩
      cases hnested.symm.trans hnot
    | false =>
      obtain ⟨haccepted, hrefused⟩ := hown hnested
      rcases resumeOutput_cases hn inputs with ⟨⟨output, hout⟩, hall⟩ | ⟨key, herror, hlacks⟩
      · exact Or.inl ⟨haccepted output hout, hpaused, hlive, p, n, hactive, rfl, hn, fun _ => hall⟩
      · exact Or.inr (Or.inl ⟨p, n, key, hactive, rfl, hn, rfl, hlacks, hrefused _ herror⟩)

theorem Sound.resume_ok_iff_takes (h : r.Sound) (target : ResumeTarget) (inputs : Dict Value) :
    (r.resume target inputs).1 = .ok () ↔ r.Takes target inputs := by
  rcases h.resume_outcome target inputs with ⟨hok, htakes⟩ |
    ⟨p, n, key, hactive, rfl, hn, hnested, hlacks, heq⟩ | ⟨hwaits, heq⟩
  · exact iff_of_true hok htakes
  · rw [heq]
    refine iff_of_false nofun fun htakes => ?_
    obtain ⟨q, m, hq, -, hm, hall⟩ := htakes.waits
    obtain rfl := Option.some.inj (hq.symm.trans hactive)
    obtain rfl := Option.some.inj (hm.symm.trans hn)
    exact (hall hnested).not_lacks key hlacks
  · rw [heq]
    refine iff_of_false nofun fun htakes => ?_
    obtain ⟨p, -, hactive, htarget, -⟩ := htakes.waits
    rw [waitsAt_iff.2 ⟨htakes.paused, htakes.live, p, hactive, htarget⟩] at hwaits
    cases hwaits

/-- A resume that is refused changes nothing. -/
theorem Sound.resume_of_ne_ok (h : r.Sound) {target : ResumeTarget} {inputs : Dict Value}
    (hne : (r.resume target inputs).1 ≠ .ok ()) : (r.resume target inputs).2 = r := by
  rcases h.resume_outcome target inputs with ⟨hok, -⟩ | ⟨_, _, _, -, -, -, -, -, heq⟩ | ⟨-, heq⟩
  · exact absurd hok hne
  · rw [heq]
  · rw [heq]

/-- A run that has ended waits nowhere. -/
theorem waitsAt_of_isTerminal (h : r.feed.isTerminal = true) (target : ResumeTarget) :
    r.waitsAt target = false := by
  apply Bool.eq_false_iff.2
  intro hwaits
  rw [Feed.isTerminal, (waitsAt_iff.1 hwaits).1] at h
  cases h

theorem resume_of_isTerminal (h : r.feed.isTerminal = true) (target : ResumeTarget)
    (inputs : Dict Value) : r.resume target inputs =
      (.error (.staleResume target (r.active.map Pause.target) r.feed.status), r) := by
  unfold Run.resume
  rw [waitsAt_of_isTerminal h]
  rfl

/-- In every history a resume is accepted exactly if the task is paused, the run does not halt, the
pause that is shown has the target, and a node of the graph itself is given all that it requires. A
resume that is refused leaves the run as it was, so it can be struck from the history. -/
theorem resume_eq_ok_iff {g : Graph} {limit : Nat} {startInputs : Dict Value} {pool : Pool}
    (h : Launched g limit startInputs pool r) (as : List Action) (target : ResumeTarget)
    (inputs : Dict Value) :
    ((((r.acts as).resume target inputs).1 = .ok ()) ↔
        (r.acts as).feed.status = .paused ∧ (r.acts as).halting = false ∧
          ∃ p n, (r.acts as).active = some p ∧ p.target = target ∧ g.node? p.node = some n ∧
            (target.isNested = false → ∀ o ∈ n.config.outputs, o.required = true →
              ∃ v, inputs.at? o.key = some v ∧ v ≠ .null)) ∧
      (((r.acts as).resume target inputs).1 ≠ .ok () →
        ((r.acts as).resume target inputs).2 = r.acts as ∧
          ∀ bs, r.acts (as ++ .resume target inputs :: bs) = r.acts (as ++ bs)) := by
  have hgraph := h.graph_acts as
  rcases h.steady.acts_or_isTerminal as with hsteady | hterminal
  · constructor
    · rw [hsteady.sound.resume_ok_iff_takes]
      constructor
      · rintro ⟨hpaused, hlive, p, n, hactive, htarget, hn, hall⟩
        exact ⟨hpaused, hlive, p, n, hactive, htarget, hgraph ▸ hn, hall⟩
      · rintro ⟨hpaused, hlive, p, n, hactive, htarget, hn, hall⟩
        exact ⟨hpaused, hlive, p, n, hactive, htarget, hgraph.symm ▸ hn, hall⟩
    · intro hne
      have hsame := hsteady.sound.resume_of_ne_ok hne
      refine ⟨hsame, fun bs => ?_⟩
      rw [acts_append, acts_append, acts_cons, hsteady.act_eq]
      show ((r.acts as).resume target inputs).2.acts bs = _
      rw [hsame]
  · rw [resume_of_isTerminal hterminal]
    refine ⟨iff_of_false nofun ?_, fun _ => ⟨rfl, fun bs => ?_⟩⟩
    · rintro ⟨hpaused, -⟩
      rw [Feed.isTerminal, hpaused] at hterminal
      cases hterminal
    · rw [acts_append, acts_append, acts_of_isTerminal hterminal, acts_of_isTerminal hterminal]

/-- The script of the small graph waits: it takes its input, and one for another node is refused. -/
theorem resume_eq_ok_iff_script :
    let as : List Action := [.schedule, .report 1 (.ok (.paused none)) 0]
    let paused := (Sample.run 0).acts as
    Launched Sample.graph 0 [] {} (Sample.run 0) ∧
      (paused.resume ⟨"fetch", none⟩ [("rows", .bool true)]).1 = .ok () ∧
      (paused.resume ⟨"repair", none⟩ []).2 = paused := by
  have hactive : ((Sample.run 0).acts [.schedule, .report 1 (.ok (.paused none)) 0]).active =
      some ⟨⟨"fetch", none⟩, "fetch", none, some 1⟩ := by cbv
  intro as paused
  refine ⟨Sample.launched 0, ?_, ?_⟩
  · refine (resume_eq_ok_iff (Sample.launched 0) as _ _).1.2 ⟨by cbv, by cbv, ?_⟩
    refine ⟨_, Sample.fetch, hactive, rfl, by cbv, fun _ o ho hrequired => ?_⟩
    obtain rfl := List.mem_singleton.1 ho
    cases hrequired
  · refine ((resume_eq_ok_iff (Sample.launched 0) as _ _).2 fun hok => ?_).1
    obtain ⟨-, -, p, n, hp, htarget, -⟩ := (resume_eq_ok_iff (Sample.launched 0) as _ _).1.1 hok
    obtain rfl := Option.some.inj (hactive.symm.trans hp)
    exact absurd htarget (by decide)

end Run
end Flowrun
