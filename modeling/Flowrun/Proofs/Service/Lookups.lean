import Flowrun.Proofs.Run.Lookups
import Flowrun.Proofs.Service.HandOver
import Flowrun.Proofs.Service.Refusals

/-!
# A clean check and the inputs of a task

The check of a graph is made before it is run, and reads the references of its nodes; a run looks
its inputs up in a pool, when a node starts. For every task that the service creates the two agree:
whatever is looked up is a global variable, which is found, or belongs to a node upstream that was
not left for later. So a lookup finds nothing only where a node upstream was skipped or did not
publish what it declares.
-/

namespace Flowrun

open Json

/-! ### What a task begins with -/

namespace Seed

variable {owner key : String}

theorem holds_add {s : Seed} (p : RunParam) (h : s.pool.Holds owner key) :
    (s.add p).pool.Holds owner key := by
  unfold add
  split
  · exact Pool.holds_set.2 (Or.inr h)
  · exact h

theorem holds_withQuery {s : Seed} (h : s.pool.Holds owner key) :
    s.withQuery.pool.Holds owner key := by
  unfold withQuery
  split
  · split
    · exact Pool.holds_set.2 (Or.inr h)
    · exact h
  · exact h

/-- Parameters are only added to a pool. -/
theorem holds_ofParams {pool : Pool} (params : List RunParam) (h : pool.Holds owner key) :
    (ofParams pool params).pool.Holds owner key := by
  have hadd : ∀ s : Seed, s.pool.Holds owner key → (params.foldl add s).pool.Holds owner key := by
    induction params with
    | nil => exact fun _ h => h
    | cons p params ih => exact fun s h => ih (s.add p) (holds_add p h)
  exact holds_withQuery (hadd { pool } h)

end Seed

namespace Service

variable {ε : Type} {s s' : Service ε}

/-- A task begins with a value for each global variable of its graph. -/
theorem Planned.holds_globals {p : TaskPlan} (h : s.Planned p) {x : GlobalVariable}
    (hx : x ∈ p.graph.globals) : p.seed.pool.Holds x.namespaceName x.key := by
  obtain ⟨params, hseed⟩ := h.exists_seed
  rw [← hseed]
  exact Seed.holds_ofParams params (Pool.holds_ofGlobals hx)

/-- A clean check is sound for runs. Take any service whose published graphs were made by edits, and
let a task be created, on one of these or on a part of a workflow and with any parameters. If the
check of its graph has nothing to report, then in every history of the task, when a node starts, it
is given what the pool has for its inputs, and everything that is looked up there is a declared
global variable, which is found, or belongs to a node upstream that was a success or was skipped. So
what is reported as unresolved belongs to a node upstream that was skipped, or that succeeded and
did not publish it. -/
theorem clean_check_sound
    (hbuilt : ∀ app version a, s.catalog.get app version = .ok a → a.graph.Built) {task : String}
    (hcreates : s.Creates task s') {l : Live} (hlive : s'.live? task = some l)
    (hcheck : l.run.graph.checkAll = []) (hids : ∀ n ∈ l.run.graph.nodes, n.id ≠ "")
    (as : List Action) {a : Action} {x : Execution} (hx : x ∈ (l.run.acts as).launches a) :
    let r := l.run.acts as
    let n := x.request.node
    (x.request.resume = none → x.request.inputs = r.inputsFor n) ∧
      (∀ y ∈ n.lookups,
        y.isGlobal = true ∧ r.graph.declaresGlobal y.owner y.key = true ∧
          (r.pool.get? y).isSome = true ∨
        y.isGlobal = false ∧ r.graph.isAncestor y.owner n.id = true ∧
          ∃ z, r.ownRecords y.owner = [z] ∧ (z.status = .success ∨ z.status = .skip)) ∧
      ∀ y ∈ r.pool.unresolved n, r.graph.isAncestor y.owner n.id = true ∧
        ∃ z, r.ownRecords y.owner = [z] ∧
          (z.status = .skip ∨ z.status = .success ∧ y.key ∉ Pool.publishedKeys z.output) := by
  intro r n
  obtain ⟨s₁, p, conversation, request, hp, -, hlaunch⟩ := hcreates.exists_planned
  obtain ⟨l', hlive', -, hlaunched⟩ := exists_launched (hp.built hbuilt) hlaunch
  obtain rfl := Option.some.inj (hlive'.symm.trans hlive)
  have hgraph := hlaunched.graph_acts []
  have hwf : r.graph.WellFormed := by
    rw [hlaunched.graph_acts as]
    exact hlaunched.built.wellFormed
  have hprovides : ∀ y ∈ n.lookups, r.Provides n.id y := fun y hy =>
    hlaunched.provides (hgraph ▸ hcheck) (hgraph ▸ hids) (fun _ hv => hp.holds_globals hv) as hx hy
  refine ⟨fun hnone => ?_, fun y hy => ?_, fun y hy => ?_⟩
  · rcases hlaunched.steady.acts_or_isTerminal as with hsteady | hterminal
    · exact hsteady.inputs_of_launches hx hnone
    · rw [Run.launches_of_isTerminal hterminal (hlaunched.steady.tidy_acts as)] at hx
      cases hx
  · cases hprovides y hy with
    | ofGlobal hglobal hoffers hholds =>
      exact Or.inl ⟨hglobal, Graph.declaresGlobal_iff.2 hoffers, Pool.get?_isSome_iff.2 hholds⟩
    | ofOutput hglobal hoffers hown hpassed =>
      refine Or.inr ⟨hglobal, hwf.isAncestor_iff.2 ⟨hoffers.1, hoffers.2.1⟩, _, hown, ?_⟩
      exact hpassed.elim Or.inr fun hsuccess => Or.inl hsuccess.1
  · rw [Pool.unresolved_eq] at hy
    obtain ⟨hy, hmissing⟩ := List.mem_filter.1 hy
    have hnot : ¬ r.pool.Holds y.owner y.key := by
      rw [← Pool.get?_isSome_iff, Option.isNone_iff_eq_none.1 hmissing]
      exact Bool.false_ne_true
    cases hprovides y hy with
    | ofGlobal _ _ hholds => exact absurd hholds hnot
    | ofOutput _ hoffers hown hpassed =>
      refine ⟨hwf.isAncestor_iff.2 ⟨hoffers.1, hoffers.2.1⟩, _, hown, ?_⟩
      exact hpassed.imp_right fun hsuccess => ⟨hsuccess.1, fun hkey => hnot (hsuccess.2 hkey)⟩

end Service

namespace Sample

/-- A script that declares two outputs, and a report that refers to both and to the query. -/
def referring : Workflow where
  nodes := [
    ((NodeSpec.new "fetch" "script").withOutput "rows" "String").withOutput "total" "Number",
    (((NodeSpec.new "report" "output").withReference "rows" "fetch.rows").withReference "total"
      "fetch.total").withReference "query" "sys.query"]
  edges := [.new "e1" "fetch" "report"]

/-- A service on which the workflow is published. -/
def stocked : Service Builtin := service.operates [.publish "app" "1" referring]

/-- The script publishes the rows and no total. -/
def fetched : List Action :=
  [.schedule, .report 0 (.ok (.success (.object [("rows", .string "news")]) [])) 0]

/-- When the report starts, the query is found and the total is unresolved, which the script did not
publish. -/
theorem clean_check_sound_referring :
    let s' := (stocked.create { app := "app" }).2
    (∀ app version a, stocked.catalog.get app version = .ok a → a.graph.Built) ∧
      stocked.Creates "id-1" s' ∧ ∃ l, s'.live? "id-1" = some l ∧ l.run.graph.checkAll = [] ∧
        (∀ n ∈ l.run.graph.nodes, n.id ≠ "") ∧
        ∃ x ∈ (l.run.acts fetched).launches .schedule,
          x.request.node.lookups = [⟨"fetch", "rows", []⟩, ⟨"fetch", "total", []⟩, query] ∧
          (l.run.acts fetched).pool.unresolved x.request.node = [⟨"fetch", "total", []⟩] ∧
          ((l.run.acts fetched).pool.get? query).isSome = true ∧
          ∃ z, (l.run.acts fetched).ownRecords "fetch" = [z] ∧
            (z.status = .skip ∨ z.status = .success ∧ "total" ∉ Pool.publishedKeys z.output) := by
  have hnew : service.IsNew := ⟨rfl, rfl, fun _ _ => rfl, rfl⟩
  have hbuilt : ∀ app version a, stocked.catalog.get app version = .ok a → a.graph.Built :=
    (hnew.tidy.operates [.publish "app" "1" referring]).built
  have hcreate : (stocked.create { app := "app" }).1 = .ok ⟨"id-1", "id-0", "id-2"⟩ := by cbv
  have hcreates : stocked.Creates "id-1" (stocked.create { app := "app" }).2 :=
    .app (Prod.ext hcreate rfl) rfl
  have hall : ((stocked.create { app := "app" }).2.live? "id-1").map (fun l =>
      (l.run.graph.checkAll, l.run.graph.nodes.map Node.id,
        ((l.run.acts fetched).launches .schedule).map fun x =>
          (x.request.node.lookups, (l.run.acts fetched).pool.unresolved x.request.node))) =
      some ([], ["fetch", "report"],
        [([⟨"fetch", "rows", []⟩, ⟨"fetch", "total", []⟩, query], [⟨"fetch", "total", []⟩])]) := by
    cbv
  obtain ⟨l, hlive, hall⟩ := Option.map_eq_some_iff.1 hall
  simp only [Prod.mk.injEq] at hall
  obtain ⟨hcheck, hnodes, hlaunches⟩ := hall
  have hids : ∀ n ∈ l.run.graph.nodes, n.id ≠ "" := by
    intro n hn hempty
    have hmem : n.id ∈ ["fetch", "report"] := hnodes ▸ List.mem_map_of_mem hn
    rw [hempty] at hmem
    exact absurd hmem (by decide)
  obtain ⟨x, hx, hvalue⟩ := List.mem_map.1 (hlaunches ▸ List.mem_singleton.2 rfl)
  obtain ⟨hlookups, hunresolved⟩ := Prod.mk.inj hvalue
  obtain ⟨-, hfound, hmissing⟩ :=
    Service.clean_check_sound hbuilt hcreates hlive hcheck hids fetched hx
  refine ⟨hbuilt, hcreates, l, hlive, hcheck, hids, x, hx, hlookups, hunresolved, ?_, ?_⟩
  · rcases hfound query (by rw [hlookups]; decide) with ⟨-, -, hquery⟩ | ⟨hother, -⟩
    · exact hquery
    · exact absurd hother (by decide)
  · exact (hmissing ⟨"fetch", "total", []⟩ (by rw [hunresolved]; decide)).2

end Sample
end Flowrun
