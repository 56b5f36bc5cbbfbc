import Flowrun.Proofs.Graph.Acyclic
import Flowrun.Proofs.Run.Cap
import Flowrun.Proofs.Run.Ends
import Flowrun.Proofs.Run.Entries
import Flowrun.Proofs.Run.Lookups
import Flowrun.Proofs.Run.Once

/-!
# Runs with one execution at a time

With a limit of one and executors that never ask for user input, a run starts its nodes in the order
of the graph. When a node is started, nothing is in flight and nothing waits, nothing is due, and no
node that is ready comes before it. So every node that comes before it has passed, as is seen by
following the edges forward (`Steady.passed_before`): it cannot be ready, and if it was not reached
it would be due.

Nodes that have passed are never started. So no node comes after one that it precedes

    ∀ id ∈ started, ∀ n, order.idxOf n.id < order.idxOf id → r.passed n.id

and the starts form an increasing list, which in a run that ends with success has all nodes that
were not skipped.
-/

namespace Flowrun

open Json

/-! ### What may happen -/

/-- No execution asks for user input. -/
def World.pauseless : World := ⟨fun _ result => ∀ inner, result ≠ .ok (.paused inner), True⟩

theorem Standing.Shows.of_open {s t : Standing} {u : NodeStatus} (h : s.Shows u) (hs : s.Open)
    (ht : t.Open) : t.Shows u := by
  rcases hs with rfl | rfl <;> rcases ht with rfl | rfl <;> exact h

namespace Run

/-- The ids of the nodes that are started in a history, in the order in which they are. -/
def startOrder (r : Run) : List Action → List String
  | [] => []
  | a :: as => (r.launches a).map (·.request.node.id) ++ (r.act a).startOrder as

variable {w : World} {r r' : Run} {order : List String} {g : Graph} {startInputs : Dict Value}
  {pool : Pool}

/-- What holds of a run with one execution at a time in which nothing waits. -/
structure Serial (r : Run) : Prop where
  limit : r.limit = 1
  alone : r.inFlight.length ≤ 1
  active : r.active = none
  queued : r.queued = []
  accounted : r.Accounted
  /-- Every record shows where its node stands, whatever the id of the node. -/
  shown : ∀ id s, r.standing? id = some s → ∃ x, r.ownRecord? id = some x ∧ s.Shows x.status

/-! ### Every move keeps a run serial -/

theorem Serial.alone_move (hs : r.Serial) (m : Move .pauseless r r') :
    r'.inFlight.length ≤ 1 := by
  have landed : ∀ x : Execution, (r.landed x).inFlight.length ≤ 1 := fun x =>
    Nat.le_trans (List.length_filter_le ..) hs.alone
  cases m with
  | start _ _ _ hroom =>
    have hfree : r.inFlight.length = 0 := by
      have := hs.limit
      omega
    have hlength := List.eq_nil_of_length_eq_zero hfree
    simp [launch, openRecord, pushRecord, hlength]
  | close => exact landed _
  | fail => exact landed _
  | complete =>
    rw [complete_eq]
    exact landed _
  | wait => exact landed _
  | reenter _ _ hactive => cases hs.active.symm.trans hactive
  | _ => exact hs.alone

theorem Serial.pauses_move (hs : r.Serial) (m : Move .pauseless r r') :
    r'.active = none ∧ r'.queued = [] := by
  have hsame : r.active = none ∧ r.queued = [] := ⟨hs.active, hs.queued⟩
  cases m with
  | wait _ _ hreports => exact absurd rfl (hreports _)
  | showOwn _ hqueued => cases hs.queued.symm.trans hqueued
  | showInner _ hqueued => cases hs.queued.symm.trans hqueued
  | dropQueued _ _ hqueued => cases hs.queued.symm.trans hqueued
  | reenter _ _ hactive => cases hs.active.symm.trans hactive
  | answer _ hactive => cases hs.active.symm.trans hactive
  | stopInner _ hactive => cases hs.active.symm.trans hactive
  | dropActive _ hactive => cases hs.active.symm.trans hactive
  | complete =>
    rw [complete_eq]
    exact hsame
  | _ => exact hsame

theorem Serial.shown_move (hs : r.Serial) (h : r.Sound) (m : Move w r r') (id : String)
    (s : Standing) (hstand : r'.standing? id = some s) :
    ∃ x, r'.ownRecord? id = some x ∧ s.Shows x.status := by
  cases h.writing m id with
  | kept hsame hown =>
    obtain ⟨x, hx, hshows⟩ := hs.shown id s (hsame.symm.trans hstand)
    exact ⟨x, hown.trans hx, hshows⟩
  | shown hnew hown hshows =>
    obtain rfl := Option.some.inj (hnew.symm.trans hstand)
    exact ⟨_, hown, hshows⟩
  | turned hbefore hafter hown =>
    obtain ⟨t, ht, hopen⟩ := hbefore
    obtain ⟨t', ht', hopen'⟩ := hafter
    obtain rfl := Option.some.inj (ht'.symm.trans hstand)
    obtain ⟨x, hx, hshows⟩ := hs.shown id t ht
    exact ⟨x, hown.trans hx, hshows.of_open hopen hopen'⟩
  | abandoned hactive => cases hs.active.symm.trans hactive

theorem Serial.move (hs : r.Serial) (h : r.Sound) (m : Move .pauseless r r') : r'.Serial where
  limit := m.fixed.2.2.1.trans hs.limit
  alone := hs.alone_move m
  active := (hs.pauses_move m).1
  queued := (hs.pauses_move m).2
  accounted := hs.accounted.move m
  shown := hs.shown_move h m

theorem Launched.serial (h : Launched g 1 startInputs pool r) : r.Serial where
  accounted := h.accounted
  limit := by
    obtain ⟨_, _, _, _, _, _, rfl⟩ := h.eq
    rfl
  alone := by
    obtain ⟨_, _, _, _, _, _, rfl⟩ := h.eq
    exact Nat.zero_le 1
  active := by
    obtain ⟨_, _, _, _, _, _, rfl⟩ := h.eq
    rfl
  queued := by
    obtain ⟨_, _, _, _, _, _, rfl⟩ := h.eq
    rfl
  shown := by
    obtain ⟨_, _, _, _, _, _, rfl⟩ := h.eq
    exact fun _ _ hs => by cases hs

/-- The record of a node that has passed says so. -/
theorem Serial.exists_record_of_passed (hs : r.Serial) (h : r.ledger.Sound) {id : String}
    (hp : r.passed id = true) :
    ∃ y, r.ownRecords id = [y] ∧ (y.status = .success ∨ y.status = .skip) := by
  obtain ⟨t, ht⟩ := exists_done_of_passed hp
  obtain ⟨y, hy, hshows⟩ := hs.shown id (.done t) ht
  refine ⟨y, ownRecords_of_ownRecord? h hy, ?_⟩
  have hstatus : y.status = t := hshows
  rw [hstatus]
  rcases passed_iff.1 hp with hdone | hdone
  · exact Or.inl (by simpa using Option.some.inj (ht.symm.trans hdone))
  · exact Or.inr (by simpa using Option.some.inj (ht.symm.trans hdone))

/-! ### One start -/

/-- The node that is started first comes before all that are ready. -/
theorem rank_le_of_mem_sortedReady {id : String} {rest : List String}
    (hsorted : r.sortedReady = id :: rest) {b : String} (hb : b ∈ r.ready) :
    r.rank id ≤ r.rank b := by
  have htrans : ∀ a b c : String, decide (r.rank a ≤ r.rank b) = true →
      decide (r.rank b ≤ r.rank c) = true → decide (r.rank a ≤ r.rank c) = true := by
    simpa using fun a b c => Nat.le_trans
  have htotal : ∀ a b : String,
      (decide (r.rank a ≤ r.rank b) || decide (r.rank b ≤ r.rank a)) = true := by
    simpa using fun a b => Nat.le_total _ _
  have hpairwise : r.sortedReady.Pairwise fun a b => r.rank a ≤ r.rank b := by
    simpa [sortedReady] using List.pairwise_mergeSort htrans htotal r.ready
  have hmem : b ∈ r.sortedReady := List.mem_mergeSort.2 hb
  rw [hsorted] at hpairwise hmem
  rcases List.mem_cons.1 hmem with rfl | hrest
  · exact Nat.le_refl _
  · exact (List.pairwise_cons.1 hpairwise).1 b hrest

/-- Where there is room for one node and one is started, it is the first one in order. -/
theorem rank_le_of_perm {id : String} (hroom : r.room = 1)
    (hperm : ([id] ++ r.sortedReady.drop r.room).Perm r.ready) {b : String} (hb : b ∈ r.ready) :
    r.rank id ≤ r.rank b := by
  have hsorted : ([id] ++ r.sortedReady.drop 1).Perm r.sortedReady :=
    (hroom ▸ hperm).trans (List.mergeSort_perm r.ready _).symm
  cases hlist : r.sortedReady with
  | nil =>
    have hmem : b ∈ r.sortedReady := List.mem_mergeSort.2 hb
    rw [hlist] at hmem
    cases hmem
  | cons first rest =>
    have hfirst : ([id] ++ rest).Perm ([first] ++ rest) := by
      rwa [hlist] at hsorted
    have hid := List.singleton_perm.1 ((List.perm_append_right_iff rest).1 hfirst)
    obtain rfl : id = first := by simpa using hid
    exact rank_le_of_mem_sortedReady hlist hb

/-- What is started is one node that was not reached. It was the first of the nodes that were ready,
and nothing was in flight. -/
theorem Steady.launches_serial (h : r.Steady) (hs : r.Serial) {a : Action} {x : Execution}
    (hx : x ∈ r.launches a) : r.launches a = [x] ∧ r.halting = false ∧ r.inFlight = [] ∧
      r.standing? x.request.node.id = none ∧
      ∀ b ∈ r.ready, r.rank x.request.node.id ≤ r.rank b := by
  have hlaunching := h.launching a
  generalize r.launches a = news at hlaunching hx
  cases hlaunching with
  | none => cases hx
  | again _ hactive => cases hs.active.symm.trans hactive
  | ready hflight hperm hfree =>
    have hact : r.act .schedule = r.schedule := h.act_eq .schedule
    rw [hact] at hflight hperm
    have hinFlight : r.schedule.inFlight = r.inFlight ++ news := congrArg Prod.fst hflight
    have hle := h.sound.length_schedule_le (by rw [hs.limit]; nofun) (hs.limit ▸ hs.alone)
    rw [hinFlight, List.length_append, hs.limit] at hle
    have hpos := List.length_pos_of_mem hx
    have hnone : r.inFlight = [] := List.eq_nil_of_length_eq_zero (by omega)
    obtain ⟨y, rfl⟩ := List.length_eq_one_iff.1 (show news.length = 1 by omega)
    obtain rfl := List.mem_singleton.1 hx
    have hlive : r.halting = false := by
      by_contra hh
      have hsame : r.schedule = r := if_pos (Bool.not_eq_false _ ▸ hh)
      rw [hsame, hnone] at hinFlight
      cases hinFlight
    have hroom : r.room = 1 := by
      unfold room
      rw [hs.limit, hnone]
      rfl
    rw [ready_schedule hlive] at hperm
    exact ⟨rfl, hlive, hnone, hfree x hx, fun b hb => rank_le_of_perm hroom hperm hb⟩

/-- When a node is started, every node that comes before it has passed. -/
theorem Steady.passed_before (h : r.Steady) (hs : r.Serial) {a : Action} {x : Execution}
    (hx : x ∈ r.launches a) {id : String} (hn : ∃ n, r.graph.node? id = some n)
    (hlt : r.rank id < r.rank x.request.node.id) : r.passed id = true := by
  obtain ⟨-, hlive, hnone, -, hfirst⟩ := h.launches_serial hs hx
  have hwf := h.sound.wellFormed
  revert hn hlt
  -- from the predecessors of a node, which come before it too, to the node
  refine hwf.forward_induction h.sound.ordered (motive := fun id =>
    (∃ n, r.graph.node? id = some n) → r.rank id < r.rank x.request.node.id →
      r.passed id = true) (fun id ih hn hlt => ?_) id
  obtain ⟨n, hn⟩ := hn
  obtain rfl := Graph.id_of_node?_eq_some hn
  have hpassed : ∀ e ∈ r.graph.edgesInto n.id, r.passed e.source = true := by
    intro e he
    obtain ⟨hmem, htarget⟩ := Graph.mem_edgesInto.1 he
    have hforward : r.rank e.source < r.rank n.id :=
      htarget ▸ hwf.idxOf_lt h.sound.ordered hmem
    exact ih e he (hwf.exists_source hmem) (Nat.lt_trans hforward hlt)
  cases hstand : r.standing? n.id with
  | none =>
    have hready : n.id ∉ r.ready := fun hmem => absurd (hfirst n.id hmem) (Nat.not_le.2 hlt)
    exact absurd ⟨hstand, hready, hn, hpassed⟩ (h.settled hlive n)
  | some s =>
    cases s with
    | running =>
      obtain ⟨y, hy, -⟩ := (h.sound.board.running_iff n.id).1 hstand
      rw [show r.board.inFlight = [] from hnone] at hy
      cases hy
    | suspended =>
      have hmem := (h.sound.board.suspended_iff n.id).1 hstand
      have hwaiting : r.board.waiting = [] := by
        simp [Run.board, pauses, hs.active, hs.queued]
      rw [hwaiting] at hmem
      cases hmem
    | done s =>
      rcases hs.accounted n.id s hstand with rfl | rfl | hhalting
      · exact passed_iff.2 (Or.inl hstand)
      · exact passed_iff.2 (Or.inr hstand)
      · cases hlive.symm.trans hhalting

/-! ### Which inputs are written down -/

/-- A move that starts no execution writes down no inputs. -/
theorem Move.inputsOf_of_started (m : Move w r r') :
    r.started ≤ r'.started ∧ (r'.started = r.started → r'.inputsOf = r.inputsOf) := by
  cases m with
  | start => exact ⟨Nat.le_succ _, fun heq => absurd heq (Nat.succ_ne_self _)⟩
  | reenter => exact ⟨Nat.le_succ _, fun heq => absurd heq (Nat.succ_ne_self _)⟩
  | complete =>
    rw [complete_eq]
    exact ⟨Nat.le_refl _, fun _ => rfl⟩
  | _ => exact ⟨Nat.le_refl _, fun _ => rfl⟩

theorem Moves.inputsOf_of_started (hm : Moves w r r') :
    r.started ≤ r'.started ∧ (r'.started = r.started → r'.inputsOf = r.inputsOf) := by
  induction hm with
  | refl => exact ⟨Nat.le_refl _, fun _ => rfl⟩
  | tail _ m ih =>
    obtain ⟨hle, hsame⟩ := m.inputsOf_of_started
    refine ⟨Nat.le_trans ih.1 hle, fun heq => ?_⟩
    have hmid := ih.1
    rw [hsame (by omega), ih.2 (by omega)]

/-- Scheduling writes down the inputs of the nodes that it starts. -/
theorem Sound.launched_of_inputs_schedule (h : r.Sound) {id : String}
    (hinputs : r.schedule.inputsOf.at? id ≠ none) :
    r.inputsOf.at? id ≠ none ∨
      ∃ x ∈ r.schedule.inFlight, r.started ≤ x.serial ∧ x.request.node.id = id := by
  let P (s : Run) : Prop := r.started ≤ s.started ∧ (s.inputsOf.at? id ≠ none →
    r.inputsOf.at? id ≠ none ∨ ∃ x ∈ s.inFlight, r.started ≤ x.serial ∧ x.request.node.id = id)
  refine (schedule_induction (P := P) ?_ (fun hs => hs) ⟨Nat.le_refl _, Or.inl⟩ h.listed).2 hinputs
  rintro s n rest ⟨hstarted, hs⟩ _ _ _ _
  refine ⟨Nat.le_succ_of_le hstarted, fun hnew => ?_⟩
  by_cases hid : n.id = id
  · exact Or.inr ⟨_, List.mem_append_right _ (List.mem_singleton.2 rfl), hstarted, hid⟩
  · replace hnew : (s.inputsOf.put n.id (s.inputsFor n)).at? id ≠ none := hnew
    rw [Dict.at?_put_of_ne _ hid] at hnew
    refine (hs hnew).imp_right ?_
    rintro ⟨x, hx, hserial⟩
    exact ⟨x, List.mem_append_left _ hx, hserial⟩

/-- In a serial run inputs are written down for the nodes that are started. -/
theorem Steady.given_act_iff (h : r.Steady) (hs : r.Serial) (a : Action) (id : String) :
    (r.act a).inputsOf.at? id ≠ none ↔
      r.inputsOf.at? id ≠ none ∨ id ∈ (r.launches a).map (·.request.node.id) := by
  constructor
  · intro hinputs
    have hstarted := h.started_act a
    have hlaunching := h.launching a
    generalize hnews : r.launches a = news at hlaunching hstarted
    cases hlaunching with
    | none =>
      rw [List.length_nil, Nat.add_zero] at hstarted
      have hsame : (r.act a).inputsOf = r.inputsOf := by
        rcases h.act (World.any_admitsAll r [a]).1 with ⟨hmoves, -⟩ | ⟨s, hmoves, -, heq⟩
        · exact hmoves.inputsOf_of_started.2 hstarted
        · rw [heq] at hstarted ⊢
          exact hmoves.inputsOf_of_started.2 hstarted
      exact Or.inl (hsame ▸ hinputs)
    | ready =>
      rw [h.act_eq] at hinputs
      refine (h.sound.launched_of_inputs_schedule hinputs).imp_right ?_
      rintro ⟨x, hx, hserial, hid⟩
      rw [← hnews, List.mem_map]
      refine ⟨x, List.mem_filter.2 ⟨?_, decide_eq_true hserial⟩, hid⟩
      rw [h.act_eq]
      exact hx
    | again _ hactive => cases hs.active.symm.trans hactive
  · have hcredit : ∀ {s : Run}, s.inputsOf.at? id ≠ none ↔ 0 < s.credit id := by
      intro s
      unfold credit
      split <;> simp_all
    rintro (hbefore | hmem)
    · exact hcredit.2 (Nat.lt_of_lt_of_le (hcredit.1 hbefore) (h.credit_le_act a id))
    · obtain ⟨x, hx, rfl⟩ := List.mem_map.1 hmem
      have hone := credit_of_mem_inFlight (h.ledger_acts [a]) (h.tidy_acts [a])
        (List.mem_filter.1 hx).1
      exact hcredit.2 (Nat.lt_of_lt_of_eq Nat.one_pos hone.symm)

/-! ### The order of the starts -/

/-- The nodes that were started so far are in order, and all that come before one of them have
passed. -/
structure InOrder (r : Run) (started : List String) : Prop where
  increasing : started.Pairwise fun a b => r.rank a < r.rank b
  passed : ∀ id ∈ started, ∀ n ∈ r.graph.nodes, r.rank n.id < r.rank id → r.passed n.id = true
  given : ∀ id, r.inputsOf.at? id ≠ none ↔ id ∈ started

theorem Steady.fixed_acts (h : r.Steady) (as : List Action) :
    (r.acts as).graph = r.graph ∧ (r.acts as).order = r.order :=
  h.keep_all (P := fun s => s.graph = r.graph ∧ s.order = r.order) ⟨rfl, rfl⟩
    (World.any_admitsAll r as)
    (fun _ hs m => ⟨m.fixed.1.trans hs.1, m.fixed.2.1.trans hs.2⟩) fun hs => hs

theorem Steady.passed_act (h : r.Steady) {id : String} (hp : r.passed id = true) (a : Action) :
    (r.act a).passed id = true :=
  passed_iff.2 ((passed_iff.1 hp).imp (fun hs => h.done_act hs a) fun hs => h.done_act hs a)

/-- A node that is started stands in the order behind all that were started before. -/
theorem Steady.rank_lt_of_launches (h : r.Steady) (hs : r.Serial) {started : List String}
    (ho : r.InOrder started) {a : Action} {x : Execution} (hx : x ∈ r.launches a) {id : String}
    (hid : id ∈ started) : r.rank id < r.rank x.request.node.id := by
  obtain ⟨-, -, -, hfree, -⟩ := h.launches_serial hs hx
  have hnode := h.node?_of_launches hx
  have hmem := Graph.mem_of_node?_eq_some hnode
  rcases Nat.lt_trichotomy (r.rank id) (r.rank x.request.node.id) with hlt | heq | hgt
  · exact hlt
  -- it was not started before
  · have hgiven : r.inputsOf.at? x.request.node.id = none :=
      (h.sound.ledger.given _).2 (Or.inl hfree)
    have hinOrder : x.request.node.id ∈ r.order :=
      (h.sound.wellFormed.perm_order h.sound.ordered).mem_iff.2 (List.mem_map_of_mem hmem)
    obtain rfl := (List.idxOf_inj hinOrder).1 heq.symm
    exact absurd hgiven ((ho.given _).2 hid)
  -- and it has not passed
  · obtain ⟨s, hdone⟩ := exists_done_of_passed (ho.passed id hid _ hmem hgt)
    cases hfree.symm.trans hdone

/-- An action keeps the starts in order. -/
theorem Steady.inOrder_act (h : r.Steady) (hs : r.Serial) {started : List String}
    (ho : r.InOrder started) (a : Action) :
    (r.act a).InOrder (started ++ (r.launches a).map (·.request.node.id)) := by
  obtain ⟨hgraph, horder⟩ : (r.act a).graph = r.graph ∧ (r.act a).order = r.order :=
    h.fixed_acts [a]
  have hrank : (r.act a).rank = r.rank := by
    unfold rank
    rw [horder]
  constructor
  · rw [hrank]
    refine List.pairwise_append.2 ⟨ho.increasing, ?_, ?_⟩
    · rcases hlist : r.launches a with _ | ⟨x, rest⟩
      · exact List.Pairwise.nil
      · have hx : x ∈ r.launches a := by rw [hlist]; exact List.mem_cons_self
        rw [← hlist, (h.launches_serial hs hx).1]
        exact List.pairwise_singleton ..
    · intro id hid b hb
      obtain ⟨x, hx, rfl⟩ := List.mem_map.1 hb
      exact h.rank_lt_of_launches hs ho hx hid
  · intro id hid n hn hlt
    rw [hgraph] at hn
    rw [hrank] at hlt
    refine h.passed_act ?_ a
    rcases List.mem_append.1 hid with hold | hnew
    · exact ho.passed id hold n hn hlt
    · obtain ⟨x, hx, rfl⟩ := List.mem_map.1 hnew
      exact h.passed_before hs hx ⟨n, h.sound.wellFormed.node?_id hn⟩ hlt
  · intro id
    rw [h.given_act_iff hs, ho.given, List.mem_append]

theorem startOrder_of_isTerminal (h : r.feed.isTerminal = true) (hb : r.board.Tidy)
    (as : List Action) : r.startOrder as = [] := by
  induction as with
  | nil => rfl
  | cons a as ih =>
    rw [startOrder, launches_of_isTerminal h hb, act_of_isTerminal h, ih]
    rfl

/-- A history of a serial run keeps the starts in order. -/
theorem Steady.inOrder_acts (h : r.Steady) (hs : r.Serial) {started : List String}
    (ho : r.InOrder started) {as : List Action} (hw : World.pauseless.AdmitsAll r as) :
    (r.acts as).InOrder (started ++ r.startOrder as) := by
  induction as generalizing r started with
  | nil =>
    rw [startOrder, List.append_nil]
    exact ho
  | cons a as ih =>
    have hnext := h.inOrder_act hs ho a
    rw [acts_cons, startOrder, ← List.append_assoc]
    rcases h.act hw.1 with ⟨hmoves, hsteady⟩ | ⟨s, -, hended, heq⟩
    · have hserial := (hmoves.keep h.sound hs fun hsound hs m => hs.move hsound m).2
      exact ih hsteady hserial hnext hw.2
    -- after the end nothing is started
    · have hterminal : (r.act a).feed.isTerminal = true := heq ▸ hended.isTerminal_conclude
      rw [acts_of_isTerminal hterminal, startOrder_of_isTerminal hterminal (h.tidy_acts [a]),
        List.append_nil]
      exact hnext

theorem Serial.conclude (hs : r.Serial) : r.conclude.Serial where
  limit := hs.limit
  alone := hs.alone
  active := hs.active
  queued := hs.queued
  accounted := hs.accounted
  shown id s hstand := by
    obtain ⟨x, hx, hshows⟩ := hs.shown id s hstand
    exact ⟨x, (ownRecord?_conclude r id).trans hx, hshows⟩

theorem Launched.serial_acts (h : Launched g 1 startInputs pool r) {as : List Action}
    (hw : World.pauseless.AdmitsAll r as) : (r.acts as).Serial :=
  h.steady.keep_all h.serial hw (fun hsound hs m => hs.move hsound m) fun hs => hs.conclude

/-- At first nothing was started. -/
theorem Launched.inOrder (h : Launched g 1 startInputs pool r) : r.InOrder [] := by
  obtain ⟨_, _, _, _, _, _, rfl⟩ := h.eq
  exact ⟨List.Pairwise.nil, nofun, fun _ => iff_of_false (fun hne => hne rfl) nofun⟩

/-- Two increasing lists with the same items are the same. -/
theorem eq_of_increasing {f : String → Nat} {as bs : List String}
    (ha : as.Pairwise fun a b => f a < f b) (hb : bs.Pairwise fun a b => f a < f b)
    (hmem : ∀ c, c ∈ as ↔ c ∈ bs) : as = bs := by
  have nodup : ∀ {cs : List String}, cs.Pairwise (fun a b => f a < f b) → cs.Nodup := by
    intro cs hc
    refine hc.imp ?_
    rintro a _ hlt rfl
    exact Nat.lt_irrefl _ hlt
  have hperm : as.Perm bs := (List.perm_ext_iff_of_nodup (nodup ha) (nodup hb)).2 hmem
  exact hperm.eq_of_pairwise (fun a b _ _ hab hba => absurd hab (Nat.lt_asymm hba)) ha hb

theorem pairwise_idxOf {ids : List String} (h : ids.Nodup) :
    ids.Pairwise fun a b => ids.idxOf a < ids.idxOf b := by
  rw [List.pairwise_iff_getElem]
  intro i j hi hj hij
  rwa [List.Nodup.idxOf_getElem h, List.Nodup.idxOf_getElem h]

/-- When a run has ended with success, every node has passed. -/
theorem Launched.passed_of_success {limit : Nat} (h : Launched g limit startInputs pool r)
    {as : List Action} (hsuccess : (r.acts as).feed.status = .success) {n : Node}
    (hn : n ∈ g.nodes) : (r.acts as).passed n.id = true := by
  have hgraph := h.graph_acts as
  rcases h.steady.acts (World.any_admitsAll r as) with ⟨-, hsteady⟩ | ⟨s, hmoves, hended, heq⟩
  · rcases hsteady.sound.live with hs | hs <;> cases hs.symm.trans hsuccess
  · have hfinal : s.finalStatus = .success := by
      rw [← hended.status_conclude, ← heq, hsuccess]
    have haccounted : s.Accounted :=
      (hmoves.keep h.steady.sound h.accounted fun _ ha m => ha.move m).2
    rw [heq] at hgraph ⊢
    have hgraph : s.graph = g := hgraph
    exact hended.passed haccounted (live_of_finalStatus hfinal) (hgraph ▸ hn)

/-- Only nodes of the graph are reached. -/
theorem Launched.mem_ids_of_reached {limit : Nat} (h : Launched g limit startInputs pool r)
    (as : List Action) {id : String} (hs : (r.acts as).standing? id ≠ none) :
    id ∈ g.nodes.map Node.id := by
  have hgraph := h.graph_acts as
  have known : ∀ {s : Run}, s.Sound → s.graph = g → s.standing? id ≠ none →
      id ∈ g.nodes.map Node.id := by
    intro s hsound hgraph hs
    obtain ⟨n, hn⟩ := hsound.reached id hs
    obtain rfl := Graph.id_of_node?_eq_some hn
    exact hgraph ▸ List.mem_map_of_mem (Graph.mem_of_node?_eq_some hn)
  rcases h.steady.acts (World.any_admitsAll r as) with ⟨-, hsteady⟩ | ⟨s, -, hended, heq⟩
  · exact known hsteady.sound hgraph hs
  · rw [heq] at hgraph hs
    exact known hended.sound hgraph hs

/-- In a serial run that has ended with success, the nodes that were started are those without a
record of a skip. -/
theorem Launched.given_iff_of_success (h : Launched g 1 startInputs pool r) {as : List Action}
    (hw : World.pauseless.AdmitsAll r as) (hsuccess : (r.acts as).feed.status = .success)
    (id : String) : (r.acts as).inputsOf.at? id ≠ none ↔
      id ∈ g.nodes.map Node.id ∧ ∀ y ∈ (r.acts as).ownRecords id, y.status ≠ .skip := by
  have hledger := h.steady.ledger_acts as
  have hgiven := hledger.given id
  constructor
  · intro hne
    have hreached : (r.acts as).standing? id ≠ none := fun hs => hne (hgiven.2 (Or.inl hs))
    constructor
    · exact h.mem_ids_of_reached as hreached
    · intro y hy hskip
      exact hne (hgiven.2 (Or.inr ((status_ownRecord_eq_skip_iff hledger hy).1 hskip)))
  · rintro ⟨hmem, hunskipped⟩ hnone
    obtain ⟨n, hn, rfl⟩ := List.mem_map.1 hmem
    have hp := h.passed_of_success hsuccess hn
    obtain ⟨y, hy, -⟩ := (h.serial_acts hw).exists_record_of_passed hledger hp
    have hy : y ∈ (r.acts as).ownRecords n.id := by
      rw [hy]
      exact List.mem_singleton.2 rfl
    obtain ⟨t, ht⟩ := exists_done_of_passed hp
    rcases hgiven.1 hnone with hs | hs
    · cases ht.symm.trans hs
    · exact hunskipped y hy ((status_ownRecord_eq_skip_iff hledger hy).2 hs)

/-- A run of an acyclic graph with one execution at a time, in which no execution asks for user
input. In every state that a history leads to, the nodes were started in the order of the graph; all
nodes that come before one that was started, or that is started next, have one record, of a success
or a skip; and if the run has ended with success, the nodes that were started are all nodes in order
without those that were skipped. -/
theorem serial_order {c : Config} (hc : c.concurrency = 1)
    (h : Launched g c.concurrency startInputs pool r) {as : List Action}
    (hw : World.pauseless.AdmitsAll r as) : ∃ order, g.order = .ok order ∧
    ((r.startOrder as).Pairwise fun a b => order.idxOf a < order.idxOf b) ∧
    (∀ id ∈ r.startOrder as, ∀ n ∈ g.nodes, order.idxOf n.id < order.idxOf id →
      ∃ y, (r.acts as).ownRecords n.id = [y] ∧ (y.status = .success ∨ y.status = .skip)) ∧
    (∀ a, ∀ x ∈ (r.acts as).launches a, ∀ n ∈ g.nodes,
      order.idxOf n.id < order.idxOf x.request.node.id →
      ∃ y, (r.acts as).ownRecords n.id = [y] ∧ (y.status = .success ∨ y.status = .skip)) ∧
    ((r.acts as).feed.status = .success → r.startOrder as =
      order.filter fun id => ((r.acts as).ownRecords id).all fun y => y.status ≠ .skip) := by
  rw [hc] at h
  have hledger := h.steady.ledger_acts as
  have hserial := h.serial_acts hw
  have horder : g.order = .ok r.order := by
    have := h.steady.sound.ordered
    rwa [show r.graph = g from h.graph_acts []] at this
  have hgraph := h.graph_acts as
  have hrank : ∀ id, (r.acts as).rank id = r.order.idxOf id := fun id => by
    rw [rank, (h.steady.fixed_acts as).2]
  have ho := h.steady.inOrder_acts h.serial h.inOrder hw
  rw [List.nil_append] at ho
  obtain ⟨hincreasing, hpassed, hgiven⟩ := ho
  simp only [hrank, hgraph] at hincreasing hpassed
  refine ⟨r.order, horder, hincreasing, fun id hid n hn hlt => ?_, fun a x hx n hn hlt => ?_,
    fun hsuccess => ?_⟩
  · exact hserial.exists_record_of_passed hledger (hpassed id hid n hn hlt)
  · rcases h.steady.acts_or_isTerminal as with hsteady | hterminal
    · refine hserial.exists_record_of_passed hledger (hsteady.passed_before hserial hx ?_ ?_)
      · exact ⟨n, hgraph ▸ h.built.wellFormed.node?_id hn⟩
      · rwa [hrank, hrank]
    · rw [launches_of_isTerminal hterminal (h.steady.tidy_acts as)] at hx
      cases hx
  · have hperm := h.built.wellFormed.perm_order horder
    have hnodup : r.order.Nodup := hperm.nodup_iff.2 h.built.wellFormed.nodup_ids
    refine eq_of_increasing hincreasing ((pairwise_idxOf hnodup).filter _) fun id => ?_
    rw [← hgiven, h.given_iff_of_success hw hsuccess, List.mem_filter, hperm.mem_iff]
    simp

/-- The judge says yes, so the repair is skipped, and the other nodes are started in order. -/
theorem serial_order_yes :
    let c : Config := { parallelEnabled := false }
    let as : List Action := [.schedule, .report 0 (.ok (.success .null [])) 0, .schedule,
      .report 1 (.ok (.success .null [])) 0, .schedule,
      .report 2 (.ok (.success .null ["yes"])) 0, .schedule,
      .report 3 (.ok (.success .null [])) 0, .finish]
    c.concurrency = 1 ∧ Launched Sample.graph c.concurrency [] {} (Sample.run 1) ∧
      World.pauseless.AdmitsAll (Sample.run 1) as ∧
      ((Sample.run 1).acts as).feed.status = .success ∧
      (Sample.run 1).startOrder as = ["batch", "fetch", "check", "report"] := by
  intro c as
  have hw : World.pauseless.AdmitsAll (Sample.run 1) as :=
    ⟨trivial, fun _ _ _ => nofun, trivial, fun _ _ _ => nofun, trivial, fun _ _ _ => nofun,
      trivial, fun _ _ _ => nofun, trivial, trivial⟩
  have hsuccess : ((Sample.run 1).acts as).feed.status = .success := by
    show ((Sample.run 1).acts [.schedule, .report 0 (.ok (.success .null [])) 0, .schedule,
      .report 1 (.ok (.success .null [])) 0, .schedule,
      .report 2 (.ok (.success .null ["yes"])) 0, .schedule,
      .report 3 (.ok (.success .null [])) 0, .finish]).feed.status = .success
    cbv
  refine ⟨rfl, Sample.launched 1, hw, hsuccess, ?_⟩
  obtain ⟨order, horder, -, -, -, hall⟩ := serial_order (c := c) rfl (Sample.launched 1) hw
  obtain rfl := Except.ok.inj (horder.symm.trans Sample.order_graph)
  refine (hall hsuccess).trans ?_
  show (["batch", "fetch", "check", "repair", "report"].filter fun id =>
    (((Sample.run 1).acts [.schedule, .report 0 (.ok (.success .null [])) 0, .schedule,
      .report 1 (.ok (.success .null [])) 0, .schedule,
      .report 2 (.ok (.success .null ["yes"])) 0, .schedule,
      .report 3 (.ok (.success .null [])) 0, .finish]).ownRecords id).all
        fun y => y.status ≠ .skip) = _
  cbv

end Run
end Flowrun
