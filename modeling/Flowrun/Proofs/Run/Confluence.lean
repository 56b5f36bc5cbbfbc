import Flowrun.Proofs.Run.Stage

/-!
# The order of reports does not matter

Two runs of one graph, with the same start inputs and seeds and with executors that compute, may
start their nodes under different limits and take up the reports in different orders. If one of them
succeeds, every node that passes in the other one `Agree`s:

    s.passed id → Agree r s id

This is seen by following the edges forward. A node takes its inputs from nodes upstream, on which
the runs agree, so it is started with the same inputs and does the same; and it is skipped in both
runs or in none, since the edges that lead to it are alive in both or in none. So nothing fails in
the other run, all nodes pass in it, and it ends with the same outputs.
-/

namespace Flowrun

open Json

namespace Run

variable {f : Node → Dict Value → NodeReport} {start : Pool} {r s : Run}

/-! ### Agreement -/

/-- Two runs agree on a node that both have done with. -/
structure Agree (r s : Run) (id : String) : Prop where
  standing : s.standing? id = r.standing? id
  outputs : s.pool.outputs? id = r.pool.outputs? id
  chosen : (s.chosen.at? id).getD [] = (r.chosen.at? id).getD []
  record : ∃ x y, r.ownRecord? id = some x ∧ s.ownRecord? id = some y ∧
    y.status = x.status ∧ y.input = x.input ∧ y.output = x.output

theorem Agree.succeeded {id : String} (h : Agree r s id) : s.succeeded id = r.succeeded id := by
  unfold Run.succeeded
  rw [h.standing]

theorem Agree.alive {e : Edge} (h : Agree r s e.source) : s.alive e = r.alive e := by
  unfold Run.alive branchChosen
  rw [h.succeeded, h.chosen]

/-! ### Regular runs -/

/-- Everything that holds of a run in which executors compute. -/
structure Regular (f : Node → Dict Value → NodeReport) (start : Pool) (r : Run) : Prop where
  sound : r.Sound
  justified : r.Justified
  supplied : r.Supplied
  accounted : r.Accounted
  computed : Computed f start r
  closed : r.graph.Closed

theorem Regular.move {r' : Run} (h : Regular f start r) (hf : Pauseless f)
    (m : Move (.computing f) r r') : Regular f start r' where
  sound := h.sound.move m
  justified := h.justified.move h.sound m
  supplied := h.supplied.move h.sound h.justified h.closed m
  accounted := h.accounted.move m
  computed := h.computed.move hf h.sound m
  closed := m.graph_eq ▸ h.closed

theorem Launched.regular {g : Graph} {limit : Nat} {startInputs : Dict Value} {pool : Pool}
    (h : Launched g limit startInputs pool r) (hg : g.Closed) : Regular f pool r where
  sound := h.steady.sound
  justified := h.justified
  supplied := by
    obtain ⟨_, _, _, _, _, _, rfl⟩ := h.eq
    exact fun _ _ _ hgiven => nomatch hgiven
  accounted := h.accounted
  computed := h.computed
  closed := by
    obtain ⟨_, _, _, _, _, _, rfl⟩ := h.eq
    exact hg

/-- A node that is skipped in one run is not entered in another one in which the same edges are
alive. -/
theorem Justified.not_entered (hr : r.Justified) (hs : s.Justified) (hgraph : s.graph = r.graph)
    {id : String} (halive : ∀ e ∈ r.graph.edgesInto id, s.alive e = r.alive e)
    (hskip : r.standing? id = some (.done .skip)) : ¬ s.Entered id := by
  intro hentered
  have hcut := hr.skipped id hskip
  have hcalled := hs.entered id hentered
  rw [hgraph] at hcalled
  rcases hcalled with hnone | hcalled
  · exact hcut.nonempty hnone
  · obtain ⟨e, he, hlive⟩ := hcalled.alive
    have he : e ∈ r.graph.edgesInto id := hgraph ▸ he
    rw [halive e he, hcut.dead e he] at hlive
    cases hlive

theorem Regular.chosen_of_skip (h : Regular f start r) {id : String}
    (hskip : r.standing? id = some (.done .skip)) : r.chosen.at? id = none := by
  by_contra hchosen
  cases hskip.symm.trans (h.sound.ledger.succeeded id hchosen)

/-! ### From what is upstream to a node -/

section

variable (hr : Regular f start r) (hs : Regular f start s) (hgraph : s.graph = r.graph)
  {n : Node} (hn : n ∈ r.graph.nodes)

include hr hs hgraph hn

/-- Runs that agree on what is upstream of a node start it with the same inputs. -/
theorem Regular.inputsFor_eq (hinputs : s.startInputs = r.startInputs)
    (hup : ∀ a, r.graph.Upstream a n.id → Agree r s a) : s.inputsFor n = r.inputsFor n := by
  have hpool : s.pool.inputs n = r.pool.inputs n := by
    refine Pool.inputs_congr fun x hx => ?_
    rcases hr.closed.inScope n hn x hx with hglobal | hupstream
    · have hforeign : ∀ m ∈ r.graph.nodes, m.id ≠ x.selector.owner := fun m hm he =>
        hr.closed.ids m hm (he ▸ of_decide_eq_true hglobal)
      rw [hr.computed.foreign _ hforeign, hs.computed.foreign _ (hgraph ▸ hforeign)]
    · exact (hup _ hupstream).outputs
  unfold inputsFor
  rw [hinputs, hpool]

/-- A node that is skipped in both runs. -/
theorem Regular.agree_of_skip (hskip : r.standing? n.id = some (.done .skip))
    (hskip' : s.standing? n.id = some (.done .skip)) : Agree r s n.id := by
  obtain ⟨hp, x, hx, hstatus, hinput, houtput⟩ := (hr.computed.stages n hn).of_skip hskip
  obtain ⟨hp', y, hy, hstatus', hinput', houtput'⟩ :=
    (hs.computed.stages n (hgraph ▸ hn)).of_skip hskip'
  refine ⟨hskip'.trans hskip.symm, hp'.trans hp.symm, ?_, x, y, hx, hy, hstatus'.trans hstatus.symm,
    hinput'.trans hinput.symm, houtput'.trans houtput.symm⟩
  rw [hr.chosen_of_skip hskip, hs.chosen_of_skip hskip']

/-- A node that succeeds in both runs, with the same inputs. -/
theorem Regular.agree_of_success (hinputs : s.inputsFor n = r.inputsFor n)
    (hdone : r.standing? n.id = some (.done .success))
    (hdone' : s.standing? n.id = some (.done .success)) : Agree r s n.id := by
  have hn' : n ∈ s.graph.nodes := hgraph ▸ hn
  obtain ⟨given, output, branches, x, hg, hyields, hp, hc, hx, hstatus, hinput, houtput⟩ :=
    (hr.computed.stages n hn).of_success hdone
  obtain ⟨given', output', branches', y, hg', hyields', hp', hc', hy, hstatus', hinput',
    houtput'⟩ := (hs.computed.stages n hn').of_success hdone'
  obtain rfl : given' = given := by
    rw [hr.supplied n hn given hg, hs.supplied n hn' given' hg', hinputs]
  obtain ⟨rfl, rfl⟩ := hyields.unique hyields' hgraph
  exact ⟨hdone'.trans hdone.symm, hp'.trans hp.symm, hc'.trans hc.symm, x, y, hx, hy,
    hstatus'.trans hstatus.symm, hinput'.trans hinput.symm, houtput'.trans houtput.symm⟩

/-- If a node passes in one run, it does not fail in the other, and the runs agree on it once it
has passed there too. -/
theorem Regular.agree_step (hinputs : s.startInputs = r.startInputs)
    (hpassed : r.passed n.id = true)
    (hup : ∀ a, r.graph.Upstream a n.id → s.passed a = true → Agree r s a) :
    s.standing? n.id ≠ some (.done .fail) ∧ (s.passed n.id = true → Agree r s n.id) := by
  have hn' : n ∈ s.graph.nodes := hgraph ▸ hn
  cases hreached : s.standing? n.id with
  | none =>
    refine ⟨nofun, fun hp => ?_⟩
    obtain ⟨_, hdone⟩ := exists_done_of_passed hp
    cases hreached.symm.trans hdone
  | some t =>
    have hagree : ∀ a, r.graph.Upstream a n.id → Agree r s a := fun a ha =>
      hup a ha (hs.justified.passed_of_upstream (Or.inr (by rw [hreached]; nofun)) (hgraph ▸ ha))
    have halive : ∀ e ∈ r.graph.edgesInto n.id, s.alive e = r.alive e := fun e he =>
      (hagree e.source (.single ⟨e, he, rfl⟩)).alive
    have hsame := hr.inputsFor_eq hs hgraph hn hinputs hagree
    -- a node that was started in the other run was not skipped in this one
    have started : t ≠ .done .skip → r.standing? n.id = some (.done .success) := by
      intro hne
      refine (passed_iff.1 hpassed).resolve_right fun hskip => ?_
      exact hr.justified.not_entered hs.justified hgraph halive hskip
        (entered_of_standing hreached hne)
    cases hs.computed.stages n hn' with
    | unreached hstand => cases hstand.symm.trans hreached
    | running _ _ hstand =>
      obtain rfl : t = .running := Option.some.inj (hreached.symm.trans hstand)
      refine ⟨nofun, fun hp => ?_⟩
      obtain ⟨_, hdone⟩ := exists_done_of_passed hp
      cases hstand.symm.trans hdone
    | skipped _ hstand =>
      obtain rfl : t = .done .skip := Option.some.inj (hreached.symm.trans hstand)
      refine ⟨nofun, fun _ => ?_⟩
      have hskip : r.standing? n.id = some (.done .skip) := by
        refine (passed_iff.1 hpassed).resolve_left fun hdone => ?_
        exact hs.justified.not_entered hr.justified hgraph.symm
          (fun e he => (halive e (hgraph ▸ he)).symm) hstand (entered_of_standing hdone nofun)
      exact hr.agree_of_skip hs hgraph hn hskip hstand
    | failed given' e hstand hg' hfails =>
      obtain rfl : t = .done .fail := Option.some.inj (hreached.symm.trans hstand)
      obtain ⟨given, _, _, _, hg, hyields, -⟩ :=
        (hr.computed.stages n hn).of_success (started nofun)
      obtain rfl : given' = given := by
        rw [hr.supplied n hn given hg, hs.supplied n hn' given' hg', hsame]
      exact absurd hfails (hyields.not_failsWith hgraph e)
    | succeeded _ _ _ _ hstand =>
      obtain rfl : t = .done .success := Option.some.inj (hreached.symm.trans hstand)
      exact ⟨nofun, fun _ => hr.agree_of_success hs hgraph hn hsame (started nofun) hstand⟩

end

/-! ### From the nodes to the task -/

section

variable (hr : Regular f start r) (hs : Regular f start s) (hgraph : s.graph = r.graph)
  (hinputs : s.startInputs = r.startInputs) (hall : ∀ n ∈ r.graph.nodes, r.passed n.id = true)

include hr hs hgraph hinputs hall

/-- If all nodes pass in one run, the other run agrees on all that pass there. -/
theorem Regular.agree_of_passed {id : String} (hp : s.passed id = true) : Agree r s id := by
  revert hp
  refine hr.sound.wellFormed.upstream_induction hr.sound.ordered
    (motive := fun id => s.passed id = true → Agree r s id) (fun id ih hp => ?_) id
  obtain ⟨t, hdone⟩ := exists_done_of_passed hp
  obtain ⟨n, hnode⟩ := hs.sound.reached id (hdone ▸ Option.some_ne_none _)
  obtain rfl := Graph.id_of_node?_eq_some hnode
  have hn : n ∈ r.graph.nodes := hgraph ▸ Graph.mem_of_node?_eq_some hnode
  exact (hr.agree_step hs hgraph hn hinputs (hall n hn) ih).2 hp

/-- Nothing fails in the other run. -/
theorem Regular.live_of_passed : s.halting = false := by
  have hfailure : s.failure.isSome = false := by
    refine Bool.eq_false_iff.2 fun hfailure => ?_
    obtain ⟨n, hn, hfail⟩ := hs.computed.blamed hfailure
    have hn : n ∈ r.graph.nodes := hgraph ▸ hn
    exact (hr.agree_step hs hgraph hn hinputs (hall n hn) fun a _ hp =>
      hr.agree_of_passed hs hgraph hinputs hall hp).1 hfail
  exact Bool.or_eq_false_iff.2 ⟨hs.computed.stopping, hfailure⟩

end

/-- Runs that agree on all nodes have the same outputs. -/
theorem outputs_congr (hgraph : s.graph = r.graph)
    (hagree : ∀ n ∈ r.graph.nodes, Agree r s n.id) : s.outputs = r.outputs := by
  have hsinks : s.finishedSinks = r.finishedSinks := by
    unfold finishedSinks
    rw [hgraph]
    refine congrArg Graph.sortNodes (List.filter_congr fun n hn => ?_)
    exact (hagree n (List.mem_filter.1 hn).1).succeeded
  unfold outputs
  rw [hsinks]
  refine congrArg Value.object (List.foldl_ext _ _ _ fun out n hn => ?_)
  have hn : n ∈ r.graph.nodes :=
    (List.mem_filter.1 (List.mem_filter.1 (List.mem_mergeSort.1 hn)).1).1
  obtain ⟨x, y, hx, hy, -, -, houtput⟩ := (hagree n hn).record
  unfold ownRecord? at hx hy
  simp only [hx, hy, houtput]

/-! ### The end of both runs -/

theorem ownRecords_of_ownRecord? (h : r.ledger.Sound) {id : String} {x : Record}
    (hx : r.ownRecord? id = some x) : r.ownRecords id = [x] := by
  obtain ⟨i, hi, hx⟩ := Option.bind_eq_some_iff.1 hx
  exact ownRecords_eq h hi hx

theorem branches_ownRecord? (h : r.ledger.Sound) {id : String} {x : Record}
    (hx : r.ownRecord? id = some x) : x.branches = (r.chosen.at? id).getD [] := by
  obtain ⟨i, hi, hx⟩ := Option.bind_eq_some_iff.1 hx
  obtain ⟨y, hy, hnode, hparent⟩ := h.filed id i hi
  obtain rfl : x = y := Option.some.inj (hx.symm.trans hy)
  rw [h.branches i x hx hparent, hnode]
  rfl

theorem ownRecords_conclude (r : Run) (id : String) :
    r.conclude.ownRecords id = r.ownRecords id :=
  congrArg (List.filter _) (Feed.records_finish ..)

/-- A history of executors that compute which has come to its end. -/
theorem Regular.exists_ended {g : Graph} {limit : Nat} {startInputs : Dict Value} {pool : Pool}
    (h : Launched g limit startInputs pool r) (hg : g.Closed) (hf : Pauseless f)
    {as : List Action} (hw : (World.computing f).AdmitsAll r as)
    (hterminal : (r.acts as).feed.isTerminal = true) :
    ∃ s, Regular f pool s ∧ s.Ended ∧ s.graph = g ∧ s.startInputs = startInputs ∧
      r.acts as = s.conclude := by
  rcases h.steady.acts hw with ⟨-, hsteady⟩ | ⟨s, hmoves, hended, heq⟩
  · cases hsteady.not_isTerminal.symm.trans hterminal
  · have hfixed : r.graph = g ∧ r.startInputs = startInputs := by
      obtain ⟨_, _, _, _, _, _, rfl⟩ := h.eq
      exact ⟨rfl, rfl⟩
    have hkept := hmoves.keep (P := fun s => Regular f pool s ∧ s.startInputs = startInputs)
      h.steady.sound ⟨h.regular hg, hfixed.2⟩ fun _ hs m =>
        ⟨hs.1.move hf m, m.fixed.2.2.2.trans hs.2⟩
    exact ⟨s, hkept.2.1, hended, hmoves.graph_eq.trans hfixed.1, hkept.2.2, heq⟩

/-- Confluence. Take two complete runs without a stop of one graph whose references are in scope
and none of whose nodes has the id of a global namespace, with the same start inputs and seeds and
with executors whose outcome is a function of the node and its inputs and never a pause. The limits
and the orders in which executions report may differ. If one run succeeds, so does the other one,
with the same outputs and, for every node, a record with the same status, input, output and
branches. -/
theorem outcome_eq_of_success {g : Graph} {limit₁ limit₂ : Nat} {startInputs : Dict Value}
    {pool : Pool} {r₁ r₂ : Run} (h₁ : Launched g limit₁ startInputs pool r₁)
    (h₂ : Launched g limit₂ startInputs pool r₂) (hcheck : g.checkAll = [])
    (hids : ∀ n ∈ g.nodes, n.id ∉ globalNamespaces) {f : Node → Dict Value → NodeReport}
    (hf : Pauseless f) {as₁ as₂ : List Action} (hw₁ : (World.computing f).AdmitsAll r₁ as₁)
    (hw₂ : (World.computing f).AdmitsAll r₂ as₂)
    (hsuccess : (r₁.acts as₁).feed.status = .success)
    (hend : (r₂.acts as₂).feed.isTerminal = true) :
    (r₂.acts as₂).feed.status = .success ∧
    (r₂.acts as₂).feed.snapshot.outputs = (r₁.acts as₁).feed.snapshot.outputs ∧
    ∀ n ∈ g.nodes, ∃ x y, (r₁.acts as₁).ownRecords n.id = [x] ∧
      (r₂.acts as₂).ownRecords n.id = [y] ∧ y.status = x.status ∧ y.input = x.input ∧
      y.output = x.output ∧ y.branches = x.branches := by
  have hclosed := h₁.built.wellFormed.closed hcheck hids
  have hterminal : (r₁.acts as₁).feed.isTerminal = true := by
    unfold Feed.isTerminal
    rw [hsuccess]
    rfl
  obtain ⟨s₁, hr, hended₁, hg₁, hin₁, heq₁⟩ := Regular.exists_ended h₁ hclosed hf hw₁ hterminal
  obtain ⟨s₂, hs, hended₂, hg₂, hin₂, heq₂⟩ := Regular.exists_ended h₂ hclosed hf hw₂ hend
  have hgraph : s₂.graph = s₁.graph := hg₂.trans hg₁.symm
  have hinputs : s₂.startInputs = s₁.startInputs := hin₂.trans hin₁.symm
  -- all nodes pass in the first run, so nothing fails in the second, and all nodes pass there too
  have hfinal₁ : s₁.finalStatus = .success := by
    rw [← hended₁.status_conclude, ← heq₁, hsuccess]
  have hall : ∀ n ∈ s₁.graph.nodes, s₁.passed n.id = true := fun n hn =>
    hended₁.passed hr.accounted (live_of_finalStatus hfinal₁) hn
  have hlive := hr.live_of_passed hs hgraph hinputs hall
  have hfinal₂ : s₂.finalStatus = .success := by
    obtain ⟨hstop, hfailure⟩ := Bool.or_eq_false_iff.1 hlive
    unfold finalStatus
    rw [hfailure, hstop]
    rfl
  have hagree : ∀ n ∈ s₁.graph.nodes, Agree s₁ s₂ n.id := fun n hn =>
    hr.agree_of_passed hs hgraph hinputs hall
      (hended₂.passed hs.accounted hlive (hgraph.symm ▸ hn))
  refine ⟨?_, ?_, fun n hn => ?_⟩
  · rw [heq₂, hended₂.status_conclude, hfinal₂]
  · have houtputs : ∀ {s : Run}, s.finalStatus = .success →
        s.conclude.feed.snapshot.outputs = s.outputs := by
      intro s hfinal
      refine (Feed.outputs_finish ..).trans ?_
      rw [if_pos hfinal]
    rw [heq₁, heq₂, houtputs hfinal₁, houtputs hfinal₂, outputs_congr hgraph hagree]
  · have hn : n ∈ s₁.graph.nodes := hg₁.symm ▸ hn
    obtain ⟨x, y, hx, hy, hstatus, hinput, houtput⟩ := (hagree n hn).record
    refine ⟨x, y, ?_, ?_, hstatus, hinput, houtput, ?_⟩
    · rw [heq₁, ownRecords_conclude, ownRecords_of_ownRecord? hr.sound.ledger hx]
    · rw [heq₂, ownRecords_conclude, ownRecords_of_ownRecord? hs.sound.ledger hy]
    · rw [branches_ownRecord? hr.sound.ledger hx, branches_ownRecord? hs.sound.ledger hy,
        (hagree n hn).chosen]

end Run

/-! ### Two runs of the small graph -/

namespace Sample

/-- The script makes rows and the judge says yes; everything else passes its inputs on. -/
def outcome (n : Node) (given : Dict Value) : NodeReport :=
  .ok (.success (if n.id = "fetch" then .object [("rows", .bool true)] else .object given)
    (if n.id = "check" then ["yes"] else []))

/-- Container and script run at the same time, and the script reports first. -/
def parallel : List Action := [.schedule, .report 1 (outcome fetch []) 5, .schedule,
  .report 2 (outcome check []) 1, .report 0 (outcome batch []) 7, .schedule,
  .report 3 (outcome report [("rows", .bool true)]) 1, .finish]

/-- One node runs at a time. -/
def serial : List Action := [.schedule, .report 0 (outcome batch []) 7, .schedule,
  .report 1 (outcome fetch []) 5, .schedule, .report 2 (outcome check []) 1, .schedule,
  .report 3 (outcome report [("rows", .bool true)]) 1, .finish]

theorem isAncestor_fetch : graph.isAncestor "fetch" "report" = true := by
  have hfirst : graph.Feeds "fetch" "check" :=
    ⟨.new "e2" "fetch" "check", Graph.mem_edgesInto.2 ⟨by simp [graph, Slots.newest], rfl⟩, rfl⟩
  have hsecond : graph.Feeds "check" "report" :=
    ⟨boundExit "e3" "yes" "report", Graph.mem_edgesInto.2 ⟨by simp [graph, Slots.newest], rfl⟩, rfl⟩
  refine built.wellFormed.isAncestor_iff.2 ⟨by decide, ?_⟩
  exact .tail (.single hfirst) hsecond

theorem checkReferences_report : graph.checkReferences "report" = [] := by
  have hself : graph.node? "report" = some report := by cbv
  have hnode : graph.node? "fetch" = some fetch := by cbv
  have hrefs : report.references = [⟨⟨"fetch", "rows", []⟩, "input_params.rows"⟩] := by cbv
  have hcheck : graph.checkReference "report" ⟨"fetch", "rows", []⟩ = .ok () := by
    unfold Graph.checkReference
    rw [if_neg (by decide)]
    simp only [hnode]
    rw [if_neg (by decide), show fetch.id = "fetch" from rfl, isAncestor_fetch]
    rfl
  unfold Graph.checkReferences
  simp only [hself, hrefs, List.filterMap_cons, Graph.diagnose?, hcheck, List.filterMap_nil]

theorem checkAll_graph : graph.checkAll = [] := by
  refine List.flatMap_eq_nil_iff.2 fun n hn => ?_
  rcases mem_nodes.1 (List.mem_mergeSort.1 hn) with rfl | rfl | rfl | rfl | rfl
  · exact checkReferences_report
  · cbv
  · cbv
  · cbv
  · cbv

end Sample

/-- The serial run of the small graph ends as the parallel one does. -/
theorem Run.outcome_eq_of_success_serial :
    ((Sample.run 0).acts Sample.parallel).feed.status = .success ∧
    ((Sample.run 1).acts Sample.serial).feed.status = .success ∧
    ((Sample.run 1).acts Sample.serial).feed.snapshot.outputs =
      ((Sample.run 0).acts Sample.parallel).feed.snapshot.outputs := by
  have hids : ∀ n ∈ Sample.graph.nodes, n.id ∉ globalNamespaces := by
    intro n hn
    rcases Sample.mem_nodes.1 hn with rfl | rfl | rfl | rfl | rfl <;> decide
  have hpauseless : Run.Pauseless Sample.outcome := fun _ _ _ hreport => nomatch hreport
  have hparallel : (World.computing Sample.outcome).AdmitsAll (Sample.run 0) Sample.parallel :=
    of_decide_eq_true (by cbv)
  have hserial : (World.computing Sample.outcome).AdmitsAll (Sample.run 1) Sample.serial :=
    of_decide_eq_true (by cbv)
  have hsuccess : ((Sample.run 0).acts Sample.parallel).feed.status = .success := by cbv
  have hend : ((Sample.run 1).acts Sample.serial).feed.isTerminal = true := by cbv
  have hsame := Run.outcome_eq_of_success (Sample.launched 0) (Sample.launched 1)
    Sample.checkAll_graph hids hpauseless hparallel hserial hsuccess hend
  exact ⟨hsuccess, hsame.1, hsame.2.1⟩

end Flowrun
