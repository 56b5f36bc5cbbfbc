import Flowrun.Proofs.Run.Inputs

/-!
# What has become of each node

If no stop arrives, nothing waits for the user and every report is computed from the node and its
inputs, a run is `Computed`: every node is in a `Stage`, which tells where it stands, with which
inputs it was started, what its record shows and what it has published. All this is determined by
the inputs:

    r.standing? n.id = some (.done .success) → Yields r f n given output branches

The moves keep it because each of them changes the stage of one node (`Stage.frame`).
-/

namespace Flowrun.Run

open Json

variable {f : Node → Dict Value → NodeReport} {start : Pool} {r r' : Run}

/-! ### The record of a node -/

/-- The record that is filed under a node. -/
def ownRecord? (r : Run) (id : String) : Option Record :=
  (r.recordOf.at? id).bind r.feed.record?

theorem ownRecord?_push_self {a : String} {x : Record}
    (hfile : r'.recordOf = r.recordOf.put a r.nextIndex) (hfeed : r'.feed = r.feed.push x r.now) :
    r'.ownRecord? a = some (x.stamped r.feed.nextRevision) := by
  unfold ownRecord?
  rw [hfile, hfeed, Dict.at?_put_self]
  exact (Feed.record?_push ..).trans (if_pos rfl)

theorem ownRecord?_push_of_ne (h : r.ledger.Sound) {a id : String} {x : Record}
    (hfile : r'.recordOf = r.recordOf.put a r.nextIndex) (hfeed : r'.feed = r.feed.push x r.now)
    (hne : a ≠ id) : r'.ownRecord? id = r.ownRecord? id := by
  unfold ownRecord?
  rw [hfile, hfeed, Dict.at?_put_of_ne _ hne]
  cases hi : r.recordOf.at? id with
  | none => rfl
  | some i =>
    obtain ⟨y, hy, -⟩ := h.filed id i hi
    have hy : r.feed.record? i = some y := hy
    show (r.feed.push x r.now).record? i = r.feed.record? i
    rw [Feed.record?_push_of_eq_some r.now hy, hy]

theorem ownRecord?_update_self {a : String} {i : Nat} {change : Record → Record} {x : Record}
    (hi : r.recordOf.at? a = some i) (hx : r.ownRecord? a = some x)
    (hfile : r'.recordOf = r.recordOf) (hfeed : r'.feed = r.feed.update i change r.now) :
    r'.ownRecord? a = some ((change x).stamped r.feed.nextRevision) := by
  unfold ownRecord? at hx ⊢
  rw [hi] at hx
  have hx : r.feed.record? i = some x := hx
  rw [hfile, hfeed, hi]
  show (r.feed.update i change r.now).record? i = _
  rw [Feed.record?_update, if_pos rfl, hx]
  rfl

theorem ownRecord?_update_of_ne (h : r.ledger.Sound) {a id : String} {i : Nat}
    {change : Record → Record} (hi : r.recordOf.at? a = some i) (hfile : r'.recordOf = r.recordOf)
    (hfeed : r'.feed = r.feed.update i change r.now) (hne : a ≠ id) :
    r'.ownRecord? id = r.ownRecord? id := by
  unfold ownRecord?
  rw [hfile, hfeed]
  cases hj : r.recordOf.at? id with
  | none => rfl
  | some j =>
    -- one record is not filed under two nodes
    have hij : i ≠ j := by
      rintro rfl
      obtain ⟨x, hx, hxa, -⟩ := h.filed a i hi
      obtain ⟨y, hy, hyid, -⟩ := h.filed id i hj
      obtain rfl : x = y := Option.some.inj (hx.symm.trans hy)
      exact hne (hxa.symm.trans hyid)
    exact (Feed.record?_update ..).trans (if_neg hij)

/-! ### Stages -/

/-- A node succeeds on its inputs, with an output and branches. -/
def Yields (r : Run) (f : Node → Dict Value → NodeReport) (n : Node) (given : Dict Value)
    (output : Value) (branches : List String) : Prop :=
  ∃ selected, f n given = .ok (.success output selected) ∧
    r.checkBranches n.id selected = .ok branches

/-- Where a node stands, and everything that follows from it. The pool is compared with the one at
the beginning. -/
inductive Stage (f : Node → Dict Value → NodeReport) (start : Pool) (r : Run) (n : Node) : Prop
  | unreached :
      r.standing? n.id = none → r.pool.outputs? n.id = start.outputs? n.id → Stage f start r n
  | running (given : Dict Value) (x : Record) :
      r.standing? n.id = some .running → r.pool.outputs? n.id = start.outputs? n.id →
      r.inputsOf.at? n.id = some given → r.ownRecord? n.id = some x → x.input = .object given →
      Stage f start r n
  | skipped (x : Record) :
      r.standing? n.id = some (.done .skip) → r.pool.outputs? n.id = start.outputs? n.id →
      r.ownRecord? n.id = some x → x.status = .skip → x.input = .null → x.output = .null →
      Stage f start r n
  | failed (given : Dict Value) (e : NodeError) :
      r.standing? n.id = some (.done .fail) → r.inputsOf.at? n.id = some given →
      r.FailsWith n.id (f n given) e → Stage f start r n
  | succeeded (given : Dict Value) (output : Value) (branches : List String) (x : Record) :
      r.standing? n.id = some (.done .success) → r.inputsOf.at? n.id = some given →
      r.Yields f n given output branches →
      r.pool.outputs? n.id = (start.publish n.id output).outputs? n.id →
      (r.chosen.at? n.id).getD [] = branches →
      r.ownRecord? n.id = some x → x.status = .success → x.input = .object given →
      x.output = output → Stage f start r n

theorem checkBranches_congr (hgraph : r'.graph = r.graph) (id : String) (selected : List String) :
    r'.checkBranches id selected = r.checkBranches id selected := by
  unfold checkBranches
  rw [hgraph]

/-- A node is in the same stage if what the stage tells of is the same. -/
theorem Stage.frame {n : Node} (h : Stage f start r n) (hgraph : r'.graph = r.graph)
    (hstand : r'.standing? n.id = r.standing? n.id)
    (hpool : r'.pool.outputs? n.id = r.pool.outputs? n.id)
    (hgiven : r'.inputsOf.at? n.id = r.inputsOf.at? n.id)
    (hchosen : r'.chosen.at? n.id = r.chosen.at? n.id)
    (hrecord : r'.ownRecord? n.id = r.ownRecord? n.id) : Stage f start r' n := by
  cases h with
  | unreached hs hp => exact .unreached (hstand.trans hs) (hpool.trans hp)
  | running given x hs hp hg hx hinput =>
    exact .running given x (hstand.trans hs) (hpool.trans hp) (hgiven.trans hg)
      (hrecord.trans hx) hinput
  | skipped x hs hp hx hstatus hinput houtput =>
    exact .skipped x (hstand.trans hs) (hpool.trans hp) (hrecord.trans hx) hstatus hinput houtput
  | failed given e hs hg hfails =>
    refine .failed given e (hstand.trans hs) (hgiven.trans hg) ?_
    simpa only [FailsWith, checkBranches_congr hgraph] using hfails
  | succeeded given output branches x hs hg hyields hp hc hx hstatus hinput houtput =>
    refine .succeeded given output branches x (hstand.trans hs) (hgiven.trans hg) ?_
      (hpool.trans hp) ((congrArg (·.getD []) hchosen).trans hc) (hrecord.trans hx) hstatus hinput
      houtput
    simpa only [Yields, checkBranches_congr hgraph] using hyields

/-- A node that was not reached has published nothing. -/
theorem Stage.of_unreached {n : Node} (h : Stage f start r n) (hfree : r.standing? n.id = none) :
    r.pool.outputs? n.id = start.outputs? n.id := by
  cases h with
  | unreached _ hp => exact hp
  | running _ _ hs => cases hs.symm.trans hfree
  | skipped _ hs => cases hs.symm.trans hfree
  | failed _ _ hs => cases hs.symm.trans hfree
  | succeeded _ _ _ _ hs => cases hs.symm.trans hfree

/-- What is known of a node that runs. -/
theorem Stage.of_running {n : Node} (h : Stage f start r n)
    (hrun : r.standing? n.id = some .running) :
    r.pool.outputs? n.id = start.outputs? n.id ∧
      ∃ given x, r.inputsOf.at? n.id = some given ∧ r.ownRecord? n.id = some x ∧
        x.input = .object given := by
  cases h with
  | running given x hs hp hg hx hinput => exact ⟨hp, given, x, hg, hx, hinput⟩
  | unreached hs => cases hs.symm.trans hrun
  | skipped _ hs => cases hs.symm.trans hrun
  | failed _ _ hs => cases hs.symm.trans hrun
  | succeeded _ _ _ _ hs => cases hs.symm.trans hrun

/-- What is known of a node that succeeded. -/
theorem Stage.of_success {n : Node} (h : Stage f start r n)
    (hdone : r.standing? n.id = some (.done .success)) :
    ∃ given output branches x, r.inputsOf.at? n.id = some given ∧
      r.Yields f n given output branches ∧
      r.pool.outputs? n.id = (start.publish n.id output).outputs? n.id ∧
      (r.chosen.at? n.id).getD [] = branches ∧ r.ownRecord? n.id = some x ∧
      x.status = .success ∧ x.input = .object given ∧ x.output = output := by
  cases h with
  | succeeded given output branches x _ hg hyields hp hc hx hstatus hinput houtput =>
    exact ⟨given, output, branches, x, hg, hyields, hp, hc, hx, hstatus, hinput, houtput⟩
  | unreached hs => cases hs.symm.trans hdone
  | running _ _ hs => cases hs.symm.trans hdone
  | skipped _ hs => cases hs.symm.trans hdone
  | failed _ _ hs => cases hs.symm.trans hdone

/-- What is known of a node that was skipped. -/
theorem Stage.of_skip {n : Node} (h : Stage f start r n)
    (hdone : r.standing? n.id = some (.done .skip)) :
    r.pool.outputs? n.id = start.outputs? n.id ∧
      ∃ x, r.ownRecord? n.id = some x ∧ x.status = .skip ∧ x.input = .null ∧ x.output = .null := by
  cases h with
  | skipped x _ hp hx hstatus hinput houtput => exact ⟨hp, x, hx, hstatus, hinput, houtput⟩
  | unreached hs => cases hs.symm.trans hdone
  | running _ _ hs => cases hs.symm.trans hdone
  | failed _ _ hs => cases hs.symm.trans hdone
  | succeeded _ _ _ _ hs => cases hs.symm.trans hdone

/-- What a node yields is determined by its inputs. -/
theorem Yields.unique {n : Node} {given : Dict Value} {output output' : Value}
    {branches branches' : List String} (h : r.Yields f n given output branches)
    (h' : r'.Yields f n given output' branches') (hgraph : r'.graph = r.graph) :
    output' = output ∧ branches' = branches := by
  obtain ⟨selected, hreport, hcheck⟩ := h
  obtain ⟨selected', hreport', hcheck'⟩ := h'
  rw [hreport] at hreport'
  cases hreport'
  rw [checkBranches_congr hgraph, hcheck] at hcheck'
  cases hcheck'
  exact ⟨rfl, rfl⟩

/-- A node that yields something does not fail. -/
theorem Yields.not_failsWith {n : Node} {given : Dict Value} {output : Value}
    {branches : List String} (h : r.Yields f n given output branches) (hgraph : r'.graph = r.graph)
    (e : NodeError) : ¬ r'.FailsWith n.id (f n given) e := by
  obtain ⟨selected, hreport, hcheck⟩ := h
  rintro (herror | ⟨output', selected', hreport', herror⟩)
  · cases hreport.symm.trans herror
  · rw [hreport] at hreport'
    cases hreport'
    rw [checkBranches_congr hgraph, hcheck] at herror
    cases herror

/-! ### Computed runs -/

/-- A run in which nothing waits and every node is in a stage. -/
structure Computed (f : Node → Dict Value → NodeReport) (start : Pool) (r : Run) : Prop where
  stopping : r.stopping = false
  active : r.active = none
  queued : r.queued = []
  /-- Only nodes publish. -/
  foreign : ∀ id, (∀ n ∈ r.graph.nodes, n.id ≠ id) → r.pool.outputs? id = start.outputs? id
  stages : ∀ n ∈ r.graph.nodes, Stage f start r n
  /-- A failure is that of a node. -/
  blamed : r.failure.isSome = true → ∃ n ∈ r.graph.nodes, r.standing? n.id = some (.done .fail)

theorem Sound.eq_of_id_eq (h : r.Sound) {n a : Node} (hn : n ∈ r.graph.nodes)
    (ha : r.graph.node? a.id = some a) (hid : n.id = a.id) : n = a :=
  Option.some.inj ((h.wellFormed.node?_id hn).symm.trans (hid ▸ ha))

section

variable {n : Node} (h : r.Sound) (hn : n ∈ r.graph.nodes) (hstage : Stage f start r n)

include h hn hstage

theorem Sound.stage_start {a : Node} {rest : List String} (hready : r.ready = a.id :: rest)
    (ha : r.graph.node? a.id = some a) :
    Stage f start
      (({ r with ready := rest }.openRecord a (r.inputsFor a)).launch a (r.inputsFor a) none)
      n := by
  by_cases hid : a.id = n.id
  · obtain rfl := h.eq_of_id_eq hn ha hid.symm
    have hmem : n.id ∈ r.ready := by rw [hready]; exact List.mem_cons_self
    have hp := hstage.of_unreached (h.board.ready_free n.id hmem)
    exact .running (r.inputsFor n) _ (Dict.at?_put_self ..) hp (Dict.at?_put_self ..)
      (ownRecord?_push_self rfl rfl) rfl
  · exact hstage.frame rfl (Dict.at?_put_of_ne _ hid _) rfl (Dict.at?_put_of_ne _ hid _) rfl
      (ownRecord?_push_of_ne h.ledger rfl rfl hid)

theorem Sound.stage_skip {a : Node} (hdue : r.Due a) : Stage f start (r.skip a) n := by
  by_cases hid : a.id = n.id
  · obtain rfl := h.eq_of_id_eq hn hdue.node hid.symm
    have hp := hstage.of_unreached hdue.free
    exact .skipped _ (Dict.at?_put_self ..) hp (ownRecord?_push_self rfl rfl) rfl rfl rfl
  · exact hstage.frame rfl (Dict.at?_put_of_ne _ hid _) rfl rfl rfl
      (ownRecord?_push_of_ne h.ledger rfl rfl hid)

variable {x : Execution} {i : Nat} (elapsed : Nat) (hx : x ∈ r.inFlight)
  (hi : r.recordOf.at? x.request.node.id = some i)

include hx hi

theorem Sound.stage_fail {e : NodeError}
    (hfails : r.FailsWith x.request.node.id (f x.request.node x.request.inputs) e) :
    Stage f start ((r.landed x).fail x.request.node.id i e elapsed) n := by
  obtain ⟨hnode, hgiven⟩ := h.flying x hx
  by_cases hid : x.request.node.id = n.id
  · obtain rfl := h.eq_of_id_eq hn hnode hid.symm
    exact .failed x.request.inputs e (Dict.at?_put_self ..) hgiven hfails
  · exact hstage.frame rfl (Dict.at?_put_of_ne _ hid _) rfl rfl rfl
      (ownRecord?_update_of_ne h.ledger hi rfl rfl hid)

theorem Sound.stage_complete {output : Value} {selected branches : List String}
    (hreport : f x.request.node x.request.inputs = .ok (.success output selected))
    (hcheck : r.checkBranches x.request.node.id selected = .ok branches) :
    Stage f start ((r.landed x).complete x.request.node.id i output branches elapsed) n := by
  rw [complete_eq]
  obtain ⟨hnode, hgiven⟩ := h.flying x hx
  have hrun : r.standing? x.request.node.id = some .running := h.standing_flying hx
  by_cases hid : x.request.node.id = n.id
  · obtain rfl := h.eq_of_id_eq hn hnode hid.symm
    obtain ⟨hp, given, y, hg, hy, hinput⟩ := hstage.of_running hrun
    -- what is in flight was started with the inputs that are written down
    obtain rfl : given = x.request.inputs := Option.some.inj (hg.symm.trans hgiven)
    have hchosen : ((if branches = [] then r.chosen
        else r.chosen.put x.request.node.id branches).at? x.request.node.id).getD [] =
          branches := by
      have hnone : r.chosen.at? x.request.node.id = none := h.ledger.unchosen hrun (Or.inl rfl)
      split
      · next hbranches => rw [hnone, hbranches]; rfl
      · rw [Dict.at?_put_self]; rfl
    exact .succeeded x.request.inputs output branches _ (Dict.at?_put_self ..) hgiven
      ⟨selected, hreport, hcheck⟩ (Pool.outputs?_publish_congr hp output) hchosen
      (ownRecord?_update_self hi hy rfl rfl) rfl hinput rfl
  · refine hstage.frame rfl (Dict.at?_put_of_ne _ hid _) (Pool.outputs?_publish_of_ne _ hid _) rfl
      ?_ (ownRecord?_update_of_ne h.ledger hi rfl rfl hid)
    show (if branches = [] then r.chosen else _).at? n.id = _
    split
    · rfl
    · exact Dict.at?_put_of_ne _ hid _

end

/-- No outcome is a pause. -/
def Pauseless (f : Node → Dict Value → NodeReport) : Prop :=
  ∀ n given inner, f n given ≠ .ok (.paused inner)

theorem Computed.stage_move (hc : Computed f start r) (hf : Pauseless f) (h : r.Sound)
    (m : Move (.computing f) r r') {n : Node} (hn : n ∈ r.graph.nodes) : Stage f start r' n := by
  have hstage := hc.stages n hn
  cases m with
  | clock => exact hstage.frame rfl rfl rfl rfl rfl rfl
  | sort => exact hstage.frame rfl rfl rfl rfl rfl rfl
  | enqueue => exact hstage.frame rfl rfl rfl rfl rfl rfl
  | start _ hready ha => exact h.stage_start hn hstage hready ha
  | skip hs => exact h.stage_skip hn hstage (due_of_settle_eq_skip hs).2.1
  | fail elapsed hx hi hreport hfails =>
    have hreport : _ = f _ _ := hreport
    exact h.stage_fail hn hstage elapsed hx hi (hreport ▸ hfails)
  | complete elapsed hx hi hreport hcheck =>
    have hreport : _ = f _ _ := hreport
    exact h.stage_complete hn hstage elapsed hx hi hreport.symm hcheck
  -- nothing stops and nothing waits
  | stop hstops => exact hstops.elim
  | close _ _ _ _ hwhy =>
    rcases hwhy with hstop | ⟨-, inner, hreport⟩
    · cases hc.stopping.symm.trans hstop
    · exact absurd (Eq.symm hreport) (hf _ _ _)
  | wait _ _ hreport => exact absurd (Eq.symm hreport) (hf _ _ _)
  | showOwn _ hqueued => cases hc.queued.symm.trans hqueued
  | showInner _ hqueued => cases hc.queued.symm.trans hqueued
  | dropQueued _ _ hqueued => cases hc.queued.symm.trans hqueued
  | reenter _ _ hactive => cases hc.active.symm.trans hactive
  | answer _ hactive => cases hc.active.symm.trans hactive
  | stopInner _ hactive => cases hc.active.symm.trans hactive
  | dropActive _ hactive => cases hc.active.symm.trans hactive

theorem Computed.move (hc : Computed f start r) (hf : Pauseless f) (h : r.Sound)
    (m : Move (.computing f) r r') : Computed f start r' where
  stopping := by
    cases m with
    | stop hstops => exact hstops.elim
    | complete => rw [complete_eq]; exact hc.stopping
    | _ => exact hc.stopping
  active := by
    cases m with
    | showOwn _ hqueued => cases hc.queued.symm.trans hqueued
    | showInner _ hqueued => cases hc.queued.symm.trans hqueued
    | reenter => rfl
    | answer => rfl
    | dropActive => rfl
    | complete => rw [complete_eq]; exact hc.active
    | _ => exact hc.active
  queued := by
    cases m with
    | wait _ _ hreport => exact absurd (Eq.symm hreport) (hf _ _ _)
    | showOwn _ hqueued => cases hc.queued.symm.trans hqueued
    | showInner _ hqueued => cases hc.queued.symm.trans hqueued
    | dropQueued _ _ hqueued => cases hc.queued.symm.trans hqueued
    | complete => rw [complete_eq]; exact hc.queued
    | _ => exact hc.queued
  foreign id hid := by
    rw [m.graph_eq] at hid
    rw [h.outputs?_move_of_unknown m hid, hc.foreign id hid]
  stages n hn := hc.stage_move hf h m (m.graph_eq ▸ hn)
  blamed hfailure := by
    rw [m.graph_eq]
    have before : r.failure.isSome = true →
        ∃ n ∈ r.graph.nodes, r'.standing? n.id = some (.done .fail) := by
      intro hfailure
      obtain ⟨n, hn, hs⟩ := hc.blamed hfailure
      exact ⟨n, hn, h.done_move m hs⟩
    cases m with
    | fail _ hx =>
      have hnode := Graph.mem_of_node?_eq_some (h.flying _ hx).1
      exact ⟨_, hnode, Dict.at?_put_self ..⟩
    | complete =>
      rw [complete_eq] at hfailure
      exact before hfailure
    | _ => exact before hfailure

/-- A launched run is computed: no node was reached yet. -/
theorem Launched.computed {g : Graph} {limit : Nat} {startInputs : Dict Value} {pool : Pool}
    (h : Launched g limit startInputs pool r) : Computed f pool r := by
  obtain ⟨_, _, _, _, _, _, rfl⟩ := h.eq
  exact {
    stopping := rfl
    active := rfl
    queued := rfl
    foreign := fun _ _ => rfl
    stages := fun _ _ => .unreached rfl rfl
    blamed := nofun }

end Flowrun.Run
