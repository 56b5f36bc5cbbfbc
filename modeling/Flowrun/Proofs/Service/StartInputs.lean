import Flowrun.Proofs.Service.HandOver
import Flowrun.Proofs.Service.Refusals

/-!
# What start nodes are given

Every start node of a run is given the inputs that its task was created with, each time it is
executed. Before a task is created, these inputs are checked against one start node, the one that is
found first in the graph. So of another start node a required output may be missing, unless the
first one requires it too:

    n.SatisfiedBy inputs ↔ every output that n requires and the first one does not is there
-/

namespace Flowrun

open Json

/-- Whether a node has a required output with a key. -/
def Node.Requires (n : Node) (key : String) : Prop :=
  ∃ p ∈ n.config.outputs, p.required = true ∧ p.key = key

namespace Run

variable {w : World} {r r' : Run} {g : Graph} {limit : Nat} {startInputs : Dict Value}
  {pool : Pool}

/-- The inputs that are written down for start nodes are those of the task. -/
def FeedsStarts (r : Run) : Prop :=
  ∀ id n given, r.graph.node? id = some n → n.kind = .start → r.inputsOf.at? id = some given →
    given = r.startInputs

theorem FeedsStarts.move (hf : r.FeedsStarts) (m : Move w r r') : r'.FeedsStarts := by
  intro id n given hn hstart hgiven
  rw [m.graph_eq] at hn
  rw [m.fixed.2.2.2]
  cases m with
  | @start a rest _ _ ha =>
    replace hgiven : (r.inputsOf.put a.id (r.inputsFor a)).at? id = some given := hgiven
    rw [Dict.at?_put] at hgiven
    split at hgiven
    · next hid =>
      subst hid
      obtain rfl := Option.some.inj (ha.symm.trans hn)
      obtain rfl := Option.some.inj hgiven
      exact if_pos hstart
    · exact hf id n given hn hstart hgiven
  | complete =>
    rw [complete_eq] at hgiven
    exact hf id n given hn hstart hgiven
  | _ => exact hf id n given hn hstart hgiven

/-- In every history a start node is executed with the inputs of the task, also when it is executed
again. -/
theorem Launched.inputs_of_start (h : Launched g limit startInputs pool r) (as : List Action)
    {x : Execution} (hx : x ∈ (r.acts as).inFlight) (hstart : x.request.node.kind = .start) :
    x.request.inputs = startInputs := by
  have hbegin : r.FeedsStarts ∧ r.startInputs = startInputs := by
    obtain ⟨_, _, _, _, _, _, rfl⟩ := h.eq
    exact ⟨fun _ _ _ _ _ (hgiven : none = some _) => (nomatch hgiven), rfl⟩
  obtain ⟨hfeeds, hinputs⟩ := h.steady.keep_all
    (P := fun s => s.FeedsStarts ∧ s.startInputs = startInputs) hbegin (World.any_admitsAll r as)
    (fun _ hs m => ⟨hs.1.move m, m.fixed.2.2.2.trans hs.2⟩) fun hs => hs
  have hsteady := h.steady.steady_of_ne_nil as (Or.inl (List.ne_nil_of_mem hx))
  obtain ⟨hn, hgiven⟩ := hsteady.sound.flying x hx
  exact (hfeeds _ _ _ hn hstart hgiven).trans hinputs

/-- What is in flight is an execution of a node of the graph. -/
theorem Launched.mem_nodes_of_mem_inFlight (h : Launched g limit startInputs pool r)
    (as : List Action) {x : Execution} (hx : x ∈ (r.acts as).inFlight) :
    x.request.node ∈ g.nodes := by
  have hsteady := h.steady.steady_of_ne_nil as (Or.inl (List.ne_nil_of_mem hx))
  rw [← h.graph_acts as]
  exact Graph.mem_of_node?_eq_some (hsteady.sound.flying x hx).1

end Run

namespace Service

variable {ε : Type} {s s' : Service ε}

/-- What is planned has the inputs that the first start node requires. -/
theorem Planned.satisfied {p : TaskPlan} (h : s.Planned p) {n : Node}
    (hn : p.graph.start? = some n) : n.SatisfiedBy p.seed.inputs := by
  rcases h with ⟨q, hq⟩ | ⟨q, hq⟩
  · obtain ⟨app, -, -, seed, hseed, rfl⟩ := planTask_eq_ok.1 hq
    exact (Graph.seed_eq_ok.1 hseed).2 n hn
  · obtain ⟨g, -, seed, hseed, rfl⟩ := planPart_eq_ok.1 hq
    exact (Graph.seed_eq_ok.1 hseed).2 n hn

/-- What the start nodes of a task are given. Take any service whose published graphs were made by
edits, and let a task be created, on one of these or on a part of a workflow and with any
parameters. Whenever a start node of it is executed, it is given the inputs that the task was
created with, and these have everything that the first start node requires. They have everything
that the executed node requires exactly if nothing of it is missing that the first start node does
not require; so they do if it is the first one. -/
theorem start_inputs
    (hbuilt : ∀ app version a, s.catalog.get app version = .ok a → a.graph.Built) {task : String}
    (hcreates : s.Creates task s') {l : Live} (hlive : s'.live? task = some l) (as : List Action)
    {x : Execution} (hx : x ∈ (l.run.acts as).inFlight) (hstart : x.request.node.kind = .start) :
    x.request.inputs = l.run.startInputs ∧
      ∃ first, l.run.graph.start? = some first ∧ first.SatisfiedBy x.request.inputs ∧
        (x.request.node.SatisfiedBy x.request.inputs ↔
          ∀ p ∈ x.request.node.config.outputs, p.required = true → ¬ first.Requires p.key →
            ∃ v, x.request.inputs.at? p.key = some v ∧ v ≠ .null) := by
  obtain ⟨s₁, p, conversation, request, hp, -, hlaunch⟩ := hcreates.exists_planned
  obtain ⟨l', hlive', -, hlaunched⟩ := exists_launched (hp.built hbuilt) hlaunch
  obtain rfl := Option.some.inj (hlive'.symm.trans hlive)
  have hinputs := hlaunched.inputs_of_start as hx hstart
  have hsame : l'.run.startInputs = p.seed.inputs ∧ l'.run.graph = p.graph := by
    obtain ⟨_, _, _, _, _, _, heq⟩ := hlaunched.eq
    rw [heq]
    exact ⟨rfl, rfl⟩
  have hnode := hlaunched.mem_nodes_of_mem_inFlight as hx
  obtain ⟨first, hfirst⟩ : ∃ first, p.graph.start? = some first := by
    apply Option.isSome_iff_exists.1
    unfold Graph.start?
    rw [List.find?_isSome]
    exact ⟨_, hnode, by rw [hstart]; rfl⟩
  have hsatisfied := hp.satisfied hfirst
  rw [hsame.1, hsame.2, hinputs]
  refine ⟨rfl, first, hfirst, hsatisfied, fun hall q hq hrequired _ => hall q hq hrequired, ?_⟩
  intro hrest q hq hrequired
  by_cases hboth : first.Requires q.key
  · obtain ⟨q', hq', hrequired', hkey⟩ := hboth
    exact hkey ▸ hsatisfied q' hq' hrequired'
  · exact hrest q hq hrequired hboth

end Service

namespace Sample

/-- A start node that requires nothing, and another one that requires a query. -/
def askedLater : Workflow where
  nodes := [.new "begin" "start", { id := "ask", type := "start", config := {
    outputs := [{ key := "query", required := true }] } }]

/-- A service on which a workflow is published. -/
def offering (w : Workflow) : Service Builtin := service.operates [.publish "app" "1" w]

/-- A request with a query. -/
def news : CreateRequest := { app := "app", inputs := [.user "query" (.string "news")] }

/-- With the query a task is created, and the start node is given it. -/
theorem start_inputs_asked :
    let s' := ((offering asked).create news).2
    (∀ app version a, (offering asked).catalog.get app version = .ok a → a.graph.Built) ∧
      (offering asked).Creates "id-1" s' ∧ ∃ l, s'.live? "id-1" = some l ∧
        ∃ x ∈ (l.run.acts [.schedule]).inFlight, x.request.node.id = "begin" ∧
          x.request.node.kind = .start ∧
          x.request.inputs = l.run.startInputs ∧ x.request.node.Requires "query" ∧
          ∃ first, l.run.graph.start? = some first ∧ first.SatisfiedBy x.request.inputs := by
  have hnew : service.IsNew := ⟨rfl, rfl, fun _ _ => rfl, rfl⟩
  have hbuilt : ∀ app version a, (offering asked).catalog.get app version = .ok a →
      a.graph.Built :=
    (hnew.tidy.operates [.publish "app" "1" asked]).built
  have hcreate : ((offering asked).create news).1 = .ok ⟨"id-1", "id-0", "id-2"⟩ := by cbv
  have hcreates : (offering asked).Creates "id-1" ((offering asked).create news).2 :=
    .app (Prod.ext hcreate rfl) rfl
  have hall : (((offering asked).create news).2.live? "id-1").map (fun l =>
      (l.run.acts [.schedule]).inFlight.map fun x =>
        (x.request.node.id, x.request.node.kind, x.request.node.config.outputs)) =
      some [("begin", .start, [{ key := "query", required := true }])] := by cbv
  obtain ⟨l, hlive, hall⟩ := Option.map_eq_some_iff.1 hall
  obtain ⟨x, hx, hvalue⟩ := List.mem_map.1 (hall ▸ List.mem_singleton.2 rfl)
  simp only [Prod.mk.injEq] at hvalue
  obtain ⟨hid, hstart, houtputs⟩ := hvalue
  obtain ⟨hinputs, first, hfirst, hsatisfied, -⟩ :=
    Service.start_inputs hbuilt hcreates hlive [.schedule] hx hstart
  have hrequires : x.request.node.Requires "query" :=
    ⟨_, houtputs ▸ List.mem_singleton.2 rfl, rfl, rfl⟩
  exact ⟨hbuilt, hcreates, l, hlive, x, hx, hid, hstart, hinputs, hrequires, first, hfirst,
    hsatisfied⟩

/-- It is not so that every start node has what it requires. The second one of these is executed
without its query. -/
theorem not_forall_satisfied_starts :
    ¬ ∀ s s' : Service Builtin,
      (∀ app version a, s.catalog.get app version = .ok a → a.graph.Built) →
      ∀ task, s.Creates task s' → ∀ l, s'.live? task = some l → ∀ as,
        ∀ x ∈ (l.run.acts as).inFlight, x.request.node.kind = .start →
          x.request.node.SatisfiedBy x.request.inputs := by
  intro hall
  have hnew : service.IsNew := ⟨rfl, rfl, fun _ _ => rfl, rfl⟩
  have hbuilt : ∀ app version a, (offering askedLater).catalog.get app version = .ok a →
      a.graph.Built :=
    (hnew.tidy.operates [.publish "app" "1" askedLater]).built
  have hcreate : ((offering askedLater).create { app := "app" }).1 =
      .ok ⟨"id-1", "id-0", "id-2"⟩ := by cbv
  have hcreates : (offering askedLater).Creates "id-1"
      ((offering askedLater).create { app := "app" }).2 :=
    .app (Prod.ext hcreate rfl) rfl
  have hvalues : (((offering askedLater).create { app := "app" }).2.live? "id-1").map (fun l =>
      (l.run.acts [.schedule]).inFlight.map fun x =>
        (x.request.node.kind, x.request.node.config.outputs, x.request.inputs)) =
      some [(.start, [{ key := "query", required := true }], []), (.start, [], [])] := by cbv
  obtain ⟨l, hlive, hvalues⟩ := Option.map_eq_some_iff.1 hvalues
  have hmem : (NodeKind.start, [{ key := "query", required := true : OutputParam }], []) ∈
      (l.run.acts [.schedule]).inFlight.map fun x =>
        (x.request.node.kind, x.request.node.config.outputs, x.request.inputs) := by
    rw [hvalues]
    exact List.mem_cons_self
  obtain ⟨x, hx, hvalue⟩ := List.mem_map.1 hmem
  simp only [Prod.mk.injEq] at hvalue
  obtain ⟨hstart, houtputs, hinputs⟩ := hvalue
  obtain ⟨v, hv, -⟩ := hall _ _ hbuilt _ hcreates l hlive [.schedule] x hx hstart
    _ (houtputs ▸ List.mem_singleton.2 rfl) rfl
  rw [hinputs] at hv
  cases hv

end Sample
end Flowrun
