import Flowrun.Proofs.Run.Answers
import Flowrun.Proofs.Run.Closing
import Flowrun.Proofs.Run.Inputs
import Flowrun.Proofs.Scope.Offers

/-!
# What a node that starts finds in the pool

A node that succeeded has published what its record says, and both stay as they are: nothing is
taken out of a pool, and the record is sealed. So if the check of the graph is clean, a lookup of a
node that starts has one of two outcomes (`Launched.provides`). It leads to a declared global
variable, which the pool has held from the beginning; or it leads to a node upstream, which has
passed by then, and finds its value unless that node was skipped or did not publish it.
-/

namespace Flowrun.Run

open Json

variable {w : World} {r r' : Run} {id owner key : String}

/-! ### The pool only grows -/

theorem Move.holds (m : Move w r r') (h : r.pool.Holds owner key) : r'.pool.Holds owner key := by
  cases m with
  | complete =>
    rw [complete_eq]
    exact Pool.holds_publish.2 (Or.inr h)
  | answer => exact Pool.holds_publish.2 (Or.inr h)
  | _ => exact h

/-! ### What was published -/

/-- A node has a record of a success that stays as it is, and the pool holds what the record says
that it published. -/
def Published (r : Run) (id : String) : Prop :=
  ∃ i y, r.recordOf.at? id = some i ∧ r.Sealed i y ∧ y.status = .success ∧
    ∀ key ∈ Pool.publishedKeys y.output, r.pool.Holds id key

theorem Published.move (hp : r.Published id) (h : r.Sound) (m : Move w r r') :
    r'.Published id := by
  obtain ⟨i, y, hi, hsealed, hsuccess, hholds⟩ := hp
  exact ⟨i, y, h.recordOf_move m hi, hsealed.move h m, hsuccess,
    fun key hkey => m.holds (hholds key hkey)⟩

theorem Sound.published_complete (h : r.Sound) {x : Execution} {i : Nat} (output : Value)
    (branches : List String) (elapsed : Nat) (hx : x ∈ r.inFlight)
    (hi : r.recordOf.at? x.request.node.id = some i) :
    ((r.landed x).complete x.request.node.id i output branches elapsed).Published
      x.request.node.id := by
  obtain ⟨y, hy, -⟩ := h.ledger.filed _ i hi
  let z : Record := { y with status := .success, output, branches, execTimeMs := elapsed }
  rw [complete_eq]
  refine ⟨i, z.stamped r.feed.nextRevision, hi, ⟨?_, fun p hp => ?_, fun a ha => ?_⟩, rfl,
    fun key hkey => Pool.holds_publish.2 (Or.inl ⟨rfl, hkey⟩)⟩
  · refine (Feed.record?_update ..).trans ?_
    rw [if_pos rfl, show (r.landed x).feed.record? i = some y from hy]
    rfl
  · exact h.record_ne hp hi (h.ne_of_flying hx hp)
  · obtain rfl : a = x.request.node.id := by_contra fun hne => h.recordOf_ne hi ha hne rfl
    exact ⟨.success, Dict.at?_put_self ..⟩

theorem Sound.published_answer (h : r.Sound) (hids : ∀ n ∈ r.graph.nodes, n.id ≠ "") {p : Pause}
    {i : Nat} (output : Value) (hactive : r.active = some p) (hi : p.record = some i)
    (hnested : p.target.isNested = false) :
    ({ r with active := none }.answer p i output).Published p.node := by
  have hid : p.node ≠ "" := h.id_ne_empty hids (h.standing_active hactive)
  have hinner : p.inner = none := h.inner_eq_none hactive hnested hid
  obtain ⟨y, hsealed, hsuccess, houtput⟩ := h.sealed_answer output hactive hi
  refine ⟨i, y, h.recordOf_own hactive hi hinner, hsealed, hsuccess, fun key hkey => ?_⟩
  exact Pool.holds_publish.2 (Or.inl ⟨rfl, houtput ▸ hkey⟩)

/-- Whatever succeeds has published its output. -/
theorem Sound.published_move (h : r.Sound) (hids : ∀ n ∈ r.graph.nodes, n.id ≠ "")
    (hp : ∀ id, r.standing? id = some (.done .success) → r.Published id) (m : Move w r r')
    (id : String) (hs : r'.standing? id = some (.done .success)) : r'.Published id := by
  have before : r.standing? id = some (.done .success) → r'.Published id := fun hs =>
    (hp id hs).move h m
  -- any other standing that a move writes is not that of a success
  have other : ∀ {a : String} {t : Standing},
      (r.standings.put a t).at? id = some (.done .success) → t ≠ .done .success →
        r'.Published id := by
    intro a t hput ht
    rw [Dict.at?_put] at hput
    split at hput
    · exact absurd (Option.some.inj hput) ht
    · exact before hput
  cases m with
  | start => exact other hs nofun
  | skip => exact other hs nofun
  | close => exact other hs nofun
  | fail => exact other hs nofun
  | wait => exact other hs nofun
  | reenter => exact other hs nofun
  | dropActive => exact other hs nofun
  | dropQueued => exact other hs nofun
  | @complete x i output _ branches elapsed hx hi =>
    by_cases hid : x.request.node.id = id
    · exact hid ▸ h.published_complete output branches elapsed hx hi
    · rw [complete_eq] at hs
      exact before ((Dict.at?_put_of_ne _ hid _).symm.trans hs)
  | @answer p _ _ output _ hactive hi hnested =>
    by_cases hid : p.node = id
    · exact hid ▸ h.published_answer hids output hactive hi hnested
    · exact before ((Dict.at?_put_of_ne _ hid _).symm.trans hs)
  | _ => exact before hs

variable {g : Graph} {limit : Nat} {startInputs : Dict Value} {pool : Pool}

/-- In every history, what succeeded has published its output, and the pool holds what it held at
the beginning. -/
theorem Launched.published_acts (h : Launched g limit startInputs pool r)
    (hids : ∀ n ∈ g.nodes, n.id ≠ "") (as : List Action) :
    (∀ id, (r.acts as).standing? id = some (.done .success) → (r.acts as).Published id) ∧
      ∀ owner key, pool.Holds owner key → (r.acts as).pool.Holds owner key := by
  let P (s : Run) : Prop := s.graph = g ∧
    (∀ id, s.standing? id = some (.done .success) → s.Published id) ∧
    ∀ owner key, pool.Holds owner key → s.pool.Holds owner key
  have hstart : P r := by
    obtain ⟨_, _, _, _, _, _, rfl⟩ := h.eq
    exact ⟨rfl, nofun, fun _ _ hholds => hholds⟩
  have key : ∀ {s : Run}, Moves .any r s → P s := by
    intro s hmoves
    refine (hmoves.keep h.steady.sound hstart ?_).2
    rintro s s' hs ⟨hgraph, hp, hholds⟩ m
    exact ⟨m.graph_eq.trans hgraph, hs.published_move (hgraph ▸ hids) hp m,
      fun owner key hk => m.holds (hholds owner key hk)⟩
  rcases h.steady.acts (World.any_admitsAll r as) with ⟨hmoves, -⟩ | ⟨s, hmoves, -, heq⟩
  · exact (key hmoves).2
  · obtain ⟨-, hp, hholds⟩ := key hmoves
    rw [heq]
    refine ⟨fun id hs => ?_, hholds⟩
    obtain ⟨i, y, hi, ⟨hrecord, hunshown, hdone⟩, hrest⟩ := hp id hs
    exact ⟨i, y, hi, ⟨(Feed.record?_finish ..).trans hrecord, hunshown, hdone⟩, hrest⟩

/-! ### What is launched -/

/-- What is started is a node of the graph. -/
theorem Steady.node?_of_launches (h : r.Steady) {a : Action} {x : Execution}
    (hx : x ∈ r.launches a) : r.graph.node? x.request.node.id = some x.request.node := by
  obtain ⟨hx, -⟩ := List.mem_filter.1 hx
  rcases h.act (World.any_admitsAll r [a]).1 with ⟨hmoves, hsteady⟩ | ⟨s, hmoves, hended, heq⟩
  · rw [← hmoves.graph_eq]
    exact (hsteady.sound.flying x hx).1
  · rw [heq] at hx
    rw [← hmoves.graph_eq]
    exact (hended.sound.flying x hx).1

/-- Unless it goes on with a payload, a node is started with the inputs that the pool has for it. -/
theorem Steady.inputs_of_launches (h : r.Steady) {a : Action} {x : Execution}
    (hx : x ∈ r.launches a) (hnone : x.request.resume = none) :
    x.request.inputs = r.inputsFor x.request.node := by
  obtain ⟨hmem, hserial⟩ := List.mem_filter.1 hx
  have hnew : x ∉ r.inFlight := fun hold =>
    Nat.not_lt.2 (of_decide_eq_true hserial) (h.sound.board.serial_lt x hold)
  have hlaunching := h.launching a
  generalize r.launches a = news at hlaunching hx
  cases hlaunching with
  | none => cases hx
  | ready =>
    rw [h.act_eq] at hmem
    exact ((h.sound.mem_inFlight_schedule hmem).resolve_left hnew).2
  | @again p inputs y _ _ haccepted hparent _ hflight =>
    -- the container that goes on is given a payload
    have hok : (r.resume p.target inputs).1 = .ok () := by
      replace haccepted : (r.resume p.target inputs).1.isOk = true := haccepted
      cases hanswer : (r.resume p.target inputs).1 with
      | ok => rfl
      | error e =>
        rw [hanswer] at haccepted
        cases haccepted
    have hnested : p.target.isNested = true := by simp [ResumeTarget.isNested, hparent]
    obtain ⟨e, he, hfirst, -, hpayload⟩ := h.exists_payload hok hnested
    have hinFlight : (r.act (.resume p.target inputs)).inFlight = r.inFlight ++ [y] :=
      congrArg Prod.fst hflight
    rw [h.act_eq] at hinFlight
    rcases List.mem_append.1 (hinFlight ▸ he) with hold | he
    · exact absurd (h.sound.board.serial_lt e hold) (by rw [hfirst]; exact Nat.lt_irrefl _)
    · obtain rfl := List.mem_singleton.1 he
      obtain rfl := List.mem_singleton.1 hx
      cases hnone.symm.trans hpayload

/-! ### Lookups -/

/-- What a lookup of a node leads to when it starts: a declared global variable that the pool holds,
or an output of a node upstream that has passed, which the pool holds if it was published. -/
inductive Provides (r : Run) (id : String) (s : Selector) : Prop
  | ofGlobal : s.isGlobal = true → r.graph.OffersGlobal s → r.pool.Holds s.owner s.key →
      Provides r id s
  | ofOutput {x : Record} : s.isGlobal = false → r.graph.OffersOutput id s →
      r.ownRecords s.owner = [x] →
      (x.status = .skip ∨ x.status = .success ∧
        (s.key ∈ Pool.publishedKeys x.output → r.pool.Holds s.owner s.key)) →
      Provides r id s

/-- If the check of a graph has nothing to report, every lookup of a node that starts leads to a
global variable or to a node upstream that has passed. -/
theorem Launched.provides (h : Launched g limit startInputs pool r) (hcheck : g.checkAll = [])
    (hids : ∀ n ∈ g.nodes, n.id ≠ "")
    (hglobals : ∀ x ∈ g.globals, pool.Holds x.namespaceName x.key) (as : List Action)
    {a : Action} {x : Execution} (hx : x ∈ (r.acts as).launches a) {s : Selector}
    (hs : s ∈ x.request.node.lookups) : (r.acts as).Provides x.request.node.id s := by
  have hg := h.built.wellFormed
  have hgraph := h.graph_acts as
  have hledger := h.steady.ledger_acts as
  obtain ⟨hpublished, hkept⟩ := h.published_acts hids as
  rcases h.steady.acts_or_isTerminal as with hsteady | hterminal
  · have hn : x.request.node ∈ g.nodes :=
      Graph.mem_of_node?_eq_some (hgraph ▸ hsteady.node?_of_launches hx)
    obtain ⟨found, hfound, rfl⟩ := Node.exists_reference_of_mem_lookups hs
    have hcheck := hg.checkReference_of_checkAll hcheck hn hfound
    cases hglobal : found.selector.isGlobal with
    | true =>
      obtain ⟨v, hv, hnamespace, hkey⟩ := (Graph.checkReference_of_isGlobal hglobal).1 hcheck
      refine .ofGlobal hglobal (hgraph ▸ ⟨v, hv, hnamespace, hkey⟩) (hkept _ _ ?_)
      rw [← hnamespace, ← hkey]
      exact hglobals v hv
    | false =>
      have hoffers := (hg.checkReference_of_not_isGlobal hglobal).1 hcheck
      have ⟨_, hup, owner, howner, _⟩ := hoffers
      have hreached : x.request.node.id ∈ (r.acts as).ready ∨
          (r.acts as).standing? x.request.node.id ≠ none := by
        rcases hsteady.entered_of_launches hx with hready | ⟨t, ht, -⟩
        · exact Or.inl hready
        · exact Or.inr (ht ▸ Option.some_ne_none _)
      have hpassed := (h.justified_acts as).passed_of_upstream hreached (hgraph ▸ hup)
      have hid : found.selector.owner ≠ "" :=
        Graph.id_of_node?_eq_some howner ▸ hids owner (Graph.mem_of_node?_eq_some howner)
      rcases passed_iff.1 hpassed with hdone | hdone
      · obtain ⟨i, y, hi, hsealed, hsuccess, hheld⟩ := hpublished _ hdone
        exact .ofOutput hglobal (hgraph ▸ hoffers) (ownRecords_eq hledger hi hsealed.record)
          (Or.inr ⟨hsuccess, hheld _⟩)
      · obtain ⟨y, hy, hshows⟩ := exists_ownRecords_shows hledger hid hdone
        exact .ofOutput hglobal (hgraph ▸ hoffers) hy (Or.inl hshows)
  · rw [launches_of_isTerminal hterminal (h.steady.tidy_acts as)] at hx
    cases hx

end Flowrun.Run
