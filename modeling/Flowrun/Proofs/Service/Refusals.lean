import Flowrun.Proofs.Graph.Selection
import Flowrun.Proofs.Service.Operations

/-!
# Refused starts

A request to start a task is refused before an id is drawn for it, or it is accepted. So a refusal
leaves the whole service as it was:

    (s.create q).1 = .error e → (s.create q).2 = s

What could still be refused when ids were drawn is a graph without an order (`Run.begin`). A plan
has a graph with an order: an app is asked for one, and so is a part when its graph is built
(`Planned.exists_order`). A task on an app is started exactly if the version is there, its graph has
no cycle, and no required input is missing (`create_ok_iff`).
-/

namespace Flowrun

open Json

/-! ### What is asked of the inputs -/

/-- The check passes inputs in which nothing is missing. -/
theorem Node.checkRequired_eq_ok {n : Node} {inputs : Dict Value} :
    n.checkRequired inputs = .ok () ↔ n.SatisfiedBy inputs := by
  have hgiven : ∀ {v : Option Value},
      ¬ (v.getD .null).isNull = true ↔ ∃ x, v = some x ∧ x ≠ .null := by
    intro v
    cases v with
    | none => simp [Value.isNull_iff]
    | some x => simp [Value.isNull_iff]
  unfold checkRequired SatisfiedBy
  split
  · next p hp =>
    have hmissing := List.find?_some hp
    obtain ⟨hrequired, hnull⟩ := Bool.and_eq_true_iff.1 hmissing
    refine iff_of_false nofun fun h => ?_
    exact hgiven.2 (h p (List.mem_of_find?_eq_some hp) hrequired) hnull
  · next hnone =>
    refine iff_of_true rfl fun p hp hrequired => hgiven.1 fun hnull => ?_
    exact List.find?_eq_none.1 hnone p hp (Bool.and_eq_true_iff.2 ⟨hrequired, hnull⟩)

theorem Graph.seed_eq_ok {g : Graph} {params : List RunParam} {seed : Seed} :
    g.seed params = .ok seed ↔ Seed.ofParams (.ofGlobals g.globals) params = seed ∧
      ∀ n, g.start? = some n → n.SatisfiedBy seed.inputs := by
  unfold Graph.seed
  cases g.start? with
  | none => simp
  | some n =>
    simp only [Option.some.injEq, forall_eq', ← Node.checkRequired_eq_ok]
    constructor
    · intro h
      obtain ⟨⟨⟩, hcheck, rfl⟩ := map_eq_ok h
      exact ⟨rfl, hcheck⟩
    · rintro ⟨rfl, hcheck⟩
      rw [hcheck]
      rfl

namespace Service

variable {ε : Type} {s : Service ε} {p : TaskPlan}

/-! ### Plans -/

theorem planTask_eq_ok {q : CreateRequest} : s.planTask q = .ok p ↔
    ∃ app, s.app q.app q.version = .ok app ∧ (∃ ids, app.graph.order = .ok ids) ∧
      ∃ seed, app.graph.seed q.inputs = .ok seed ∧
        (⟨q.app, some (s.versionOrDefault q.version), app.graph, seed⟩ : TaskPlan) = p := by
  unfold planTask
  simp only [Graph.bind_eq_ok, Unique.exists_iff, PUnit.default_eq_unit, Graph.checkAcyclic_eq_ok,
    pure, Except.pure, Except.ok.injEq]

theorem planPart_eq_ok {q : PartRequest} : s.planPart q = .ok p ↔
    ∃ g, Graph.ofSelection q.nodes q.edges (s.partGlobals q.app) = .ok g ∧
      ∃ seed, g.seed q.params = .ok seed ∧ (⟨q.app, none, g, seed⟩ : TaskPlan) = p := by
  unfold planPart
  simp only [Graph.bind_eq_ok, pure, Except.pure, Except.ok.injEq]

/-- The graph of a plan has an order. -/
theorem Planned.exists_order (h : s.Planned p) : ∃ ids, p.graph.order = .ok ids := by
  rcases h with ⟨q, hq⟩ | ⟨q, hq⟩
  · obtain ⟨app, -, horder, seed, -, rfl⟩ := planTask_eq_ok.1 hq
    exact horder
  · obtain ⟨g, hg, seed, -, rfl⟩ := planPart_eq_ok.1 hq
    obtain ⟨-, built, -, horder, rfl⟩ := Graph.ofSelection_eq_ok.1 hg
    exact horder

/-- A plan begins with what its graph and the parameters of the request make. -/
theorem Planned.exists_seed (h : s.Planned p) :
    ∃ params, Seed.ofParams (.ofGlobals p.graph.globals) params = p.seed := by
  rcases h with ⟨q, hq⟩ | ⟨q, hq⟩
  · obtain ⟨app, -, -, seed, hseed, rfl⟩ := planTask_eq_ok.1 hq
    exact ⟨q.inputs, (Graph.seed_eq_ok.1 hseed).1⟩
  · obtain ⟨g, -, seed, hseed, rfl⟩ := planPart_eq_ok.1 hq
    exact ⟨q.params, (Graph.seed_eq_ok.1 hseed).1⟩

/-! ### Launching -/

/-- Launching a task is refused for want of an order only. -/
theorem exists_launch (s : Service ε) (h : ∃ ids, p.graph.order = .ok ids)
    (conversation : String) :
    ∃ task request s', s.launch p conversation = (.ok (task, request), s') := by
  obtain ⟨ids, hids⟩ := h
  unfold launch
  dsimp only [drawId]
  split
  · next e he =>
    unfold Run.begin at he
    rw [hids] at he
    cases he
  · exact ⟨_, _, _, rfl⟩

/-- A task on an app is refused while it is planned, or it is launched. -/
theorem create_cases (s : Service ε) (q : CreateRequest) :
    (∃ e, s.planTask q = .error e ∧ s.create q = (.error e, s)) ∨
      ∃ p a, s.planTask q = .ok p ∧ (s.create q).1 = .ok a := by
  unfold create
  split
  · next e hp => exact Or.inl ⟨e, hp, rfl⟩
  · next p hp =>
    split
    next conversation s₁ _ =>
    obtain ⟨task, request, s', hlaunch⟩ :=
      s₁.exists_launch (Planned.exists_order (Or.inl ⟨q, hp⟩)) conversation
    rw [hlaunch]
    exact Or.inr ⟨p, _, hp, rfl⟩

/-- A task on a part is refused while it is planned, or it is launched. -/
theorem startPart_cases (s : Service ε) (q : PartRequest) :
    (∃ e, s.planPart q = .error e ∧ s.startPart q = (.error e, s)) ∨
      ∃ p a, s.planPart q = .ok p ∧ (s.startPart q).1 = .ok a := by
  unfold startPart
  split
  · next e hp => exact Or.inl ⟨e, hp, rfl⟩
  · next p hp =>
    obtain ⟨task, request, s', hlaunch⟩ :=
      s.drawId.2.exists_launch (Planned.exists_order (Or.inr ⟨q, hp⟩)) s.drawId.1
    dsimp only
    rw [hlaunch]
    exact Or.inr ⟨p, _, hp, rfl⟩

/-- What it takes to start a task on an app whose graph was made by edits. -/
theorem create_ok_iff (hbuilt : ∀ app version a, s.catalog.get app version = .ok a → a.graph.Built)
    (q : CreateRequest) : (∃ a, (s.create q).1 = .ok a) ↔
      ∃ app, s.app q.app q.version = .ok app ∧ (∀ id, ¬ app.graph.Upstream id id) ∧
        ∀ n, app.graph.start? = some n →
          n.SatisfiedBy (Seed.ofParams (.ofGlobals app.graph.globals) q.inputs).inputs := by
  have hplan : (∃ a, (s.create q).1 = .ok a) ↔ ∃ p, s.planTask q = .ok p := by
    rcases s.create_cases q with ⟨e, hp, hcreate⟩ | ⟨p, a, hp, ha⟩
    · rw [hp, hcreate]
      simp
    · exact iff_of_true ⟨a, ha⟩ ⟨p, hp⟩
  rw [hplan]
  simp only [planTask_eq_ok, Graph.seed_eq_ok]
  constructor
  · rintro ⟨p, app, happ, horder, seed, ⟨rfl, hgiven⟩, rfl⟩
    exact ⟨app, happ, (hbuilt _ _ app happ).wellFormed.exists_order_iff.1 horder, hgiven⟩
  · rintro ⟨app, happ, hacyclic, hgiven⟩
    have horder := (hbuilt _ _ app happ).wellFormed.exists_order_iff.2 hacyclic
    exact ⟨_, app, happ, horder, _, ⟨rfl, hgiven⟩, rfl⟩

/-- A request to start a task that is refused leaves the whole service as it was, whether it is one
for an app or for a part of a workflow. What was planned is launched wherever and whenever that is
done, so nothing fails any more when ids were drawn. And a task on an app, whose graph was made by
edits, is started if the version is there, its graph has no cycle and no required input is missing,
and only then. -/
theorem refused_start_changes_nothing (s : Service ε) :
    (∀ q e, (s.create q).1 = .error e → (s.create q).2 = s) ∧
      (∀ q e, (s.startPart q).1 = .error e → (s.startPart q).2 = s) ∧
      (∀ p, s.Planned p → ∀ (s₁ : Service ε) (conversation : String),
        ∃ task request s', s₁.launch p conversation = (.ok (task, request), s')) ∧
      ((∀ app version a, s.catalog.get app version = .ok a → a.graph.Built) →
        ∀ q, (∃ a, (s.create q).1 = .ok a) ↔
          ∃ app, s.app q.app q.version = .ok app ∧ (∀ id, ¬ app.graph.Upstream id id) ∧
            ∀ n, app.graph.start? = some n →
              n.SatisfiedBy (Seed.ofParams (.ofGlobals app.graph.globals) q.inputs).inputs) := by
  refine ⟨fun q e he => ?_, fun q e he => ?_, fun p hp s₁ => ?_, create_ok_iff⟩
  · rcases s.create_cases q with ⟨e', -, hcreate⟩ | ⟨p, a, -, ha⟩
    · rw [hcreate]
    · cases ha.symm.trans he
  · rcases s.startPart_cases q with ⟨e', -, hstart⟩ | ⟨p, a, -, ha⟩
    · rw [hstart]
    · cases ha.symm.trans he
  · exact s₁.exists_launch hp.exists_order

end Service

namespace Sample

/-- A start node that asks for a query, and a script. -/
def asked : Workflow where
  nodes := [{ id := "begin", type := "start", config := {
    outputs := [{ key := "query", required := true }] } }, .new "fetch" "script"]
  edges := [.new "e1" "begin" "fetch"]

/-- Without the query nothing is started, and with it a task is. -/
theorem refused_start_asked :
    let s := service.operates [.publish "app" "1" asked]
    (∀ app version a, s.catalog.get app version = .ok a → a.graph.Built) ∧
      (s.create { app := "app" }).1 = .error (.missingInput "begin" "query") ∧
      (s.create { app := "app" }).2 = s ∧
      ∃ app, s.app "app" none = .ok app ∧ (∀ id, ¬ app.graph.Upstream id id) ∧
        (s.create { app := "app", inputs := [.user "query" (.string "news")] }).1 =
          .ok ⟨"id-1", "id-0", "id-2"⟩ := by
  intro s
  have hnew : service.IsNew := ⟨rfl, rfl, fun _ _ => rfl, rfl⟩
  have hbuilt : ∀ app version a, s.catalog.get app version = .ok a → a.graph.Built :=
    (hnew.tidy.operates [.publish "app" "1" asked]).built
  have hrefused : (s.create { app := "app" }).1 = .error (.missingInput "begin" "query") := by cbv
  have hstarted : (s.create { app := "app", inputs := [.user "query" (.string "news")] }).1 =
      .ok ⟨"id-1", "id-0", "id-2"⟩ := by cbv
  obtain ⟨hcreate, -, -, hstarts⟩ := s.refused_start_changes_nothing
  obtain ⟨app, happ, hacyclic, -⟩ := (hstarts hbuilt _).1 ⟨_, hstarted⟩
  exact ⟨hbuilt, hrefused, hcreate _ _ hrefused, app, happ, hacyclic, hstarted⟩

end Sample
end Flowrun
