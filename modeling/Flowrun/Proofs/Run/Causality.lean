import Flowrun.Proofs.Feed.Replay
import Flowrun.Proofs.Run.Confluence
import Flowrun.Proofs.Run.Lifecycle
import Flowrun.Proofs.Run.Skips
import Flowrun.Proofs.Run.Writes

/-!
# The causal order of records

A record of a node is added when all predecessors of the node have passed, so their records stand
before it in the history and have a final status by then. The journal tells what the records were at
that moment: if the entries `before` are those before the first one about the record `j`, then

    (versions before i).getLast?

is the record `i` as it was when the record `j` was added. A run is `Grounded` if its journal shows
this of every record that it has. A final record stays as it is, so what is said about predecessors
carries over to all that is upstream (`SettledBefore.trans`).

A record of a node inside a container stands behind the record of the container.
-/

namespace Flowrun

open Json

/-! ### What the journal tells about the records -/

namespace Feed

variable {f₀ f f' : Feed} {es : List Event} {i : Nat} {x : Record}

/-- A feed after some more entries. Every record is what the last entry about it says. -/
structure Tells (f₀ f : Feed) (es : List Event) : Prop where
  journal : f.journal = f₀.journal ++ es
  last : ∀ i, (versions es i).getLast? = f.record? i

theorem Tells.unique {es' : List Event} (h : f₀.Tells f es) (h' : f₀.Tells f es') : es = es' :=
  List.append_cancel_left (h.journal.symm.trans h'.journal)

theorem Tells.written (h : f₀.Tells f es) (hw : f.Written f') :
    ∃ more, f₀.Tells f' (es ++ more) := by
  cases hw with
  | refused hjournal _ _ _ hview =>
    refine ⟨[], ?_, fun i => ?_⟩
    · rw [List.append_nil, hjournal, h.journal]
    · have hrecord : f'.record? i = f.record? i := congrArg (fun v => v.records[i]?) hview
      rw [List.append_nil, hrecord, h.last]
  | @entered e _ hjournal _ _ _ hview =>
    refine ⟨[e], ?_, fun i => ?_⟩
    · rw [hjournal, h.journal, List.append_assoc]
    · have hrecord : f'.record? i = (e.recordAt? i).or (f.record? i) :=
        View.record?_after? hview i
      rw [hrecord, versions_append, List.getLast?_append, h.last]
      unfold versions
      rw [List.filterMap_cons]
      cases e.recordAt? i <;> rfl

theorem Tells.writes (h : f₀.Tells f es) (hw : Relation.ReflTransGen Written f f') :
    ∃ more, f₀.Tells f' (es ++ more) := by
  induction hw with
  | refl =>
    refine ⟨[], ?_⟩
    rw [List.append_nil]
    exact h
  | tail _ hw ih =>
    obtain ⟨more, hmore⟩ := ih
    obtain ⟨last, hlast⟩ := hmore.written hw
    refine ⟨more ++ last, ?_⟩
    rw [← List.append_assoc]
    exact hlast

theorem Tells.push (h : f₀.Tells f es) (x : Record) (now : Instant) :
    f₀.Tells (f.push x now)
      (es ++ [.record f.snapshot.records.length (x.stamped f.nextRevision)]) := by
  obtain ⟨more, hmore⟩ := h.written (written_push f x now)
  have hjournal := (extends_push f x now).journal.symm.trans hmore.journal
  rw [h.journal, List.append_assoc] at hjournal
  obtain rfl := List.append_cancel_left (List.append_cancel_left hjournal)
  exact hmore

/-- Nothing is written about a record after it has become final. -/
theorem Orderly.versions_rest {before rest : List Event} (h : f.Orderly (before ++ rest))
    (hx : (versions before i).getLast? = some x) (hterminal : x.status.isTerminal = true) :
    versions rest i = [] := by
  cases hrest : versions rest i with
  | nil => rfl
  | cons y ys =>
    have hchain := h.chain i
    rw [versions_append, hrest, List.isChain_append] at hchain
    have hlead := hchain.2.2 x hx y rfl
    cases hterminal.symm.trans hlead.isTerminal_eq

end Feed

namespace Run

variable {w : World} {r r' : Run} {f₀ : Feed} {es : List Event} {a : String} {i j : Nat}

/-! ### What the moves add -/

/-- A record that was added: it is that of a node whose predecessors have all passed, and nothing
else is written; or it is that of a node inside one that was reached. -/
inductive Adds (r r' : Run) (y : Record) : Prop
  | own (x : Record) : r'.feed = r.feed.push x r.now → y.parent = none →
      (∀ e ∈ r.graph.edgesInto y.node, r.passed e.source = true) → Adds r r' y
  | inner {id : String} : y.parent = some id → (∃ i, r.recordOf.at? id = some i) → Adds r r' y

/-- Whatever is pushed is the record at an index at which there was none. -/
theorem eq_of_record?_push {f : Feed} {x y : Record} {now : Instant} (hnone : f.record? j = none)
    (hy : (f.push x now).record? j = some y) : y = x.stamped f.nextRevision := by
  rw [Feed.record?_push] at hy
  split at hy
  · exact (Option.some.inj hy).symm
  · cases hnone.symm.trans hy

/-- An update adds no record. -/
theorem record?_update_of_none {f : Feed} {change : Record → Record} {now : Instant}
    (hnone : f.record? j = none) : (f.update i change now).record? j = none := by
  rw [Feed.record?_update]
  split
  · next hij => rw [hij, hnone]; rfl
  · exact hnone

theorem Sound.adds_of_move (h : r.Sound) (hj : r.Justified) (m : Move w r r') {y : Record}
    (hnone : r.feed.record? j = none) (hy : r'.feed.record? j = some y) : r.Adds r' y := by
  have update : ∀ {i : Nat} {change : Record → Record} {P : Prop},
      (r.feed.update i change r.now).record? j = some y → P := fun hy => by
    cases (record?_update_of_none hnone).symm.trans hy
  cases m with
  | @start n rest _ hready =>
    obtain rfl := eq_of_record?_push hnone hy
    refine .own _ rfl rfl fun e he => ?_
    have hentered : r.Entered n.id := Or.inl (hready ▸ List.mem_cons_self)
    rcases hj.entered n.id hentered with hempty | hcalled
    · have he : e ∈ r.graph.edgesInto n.id := he
      rw [hempty] at he
      cases he
    · exact hcalled.passed e he
  | skip hskip =>
    obtain ⟨-, hdue, -⟩ := due_of_settle_eq_skip hskip
    obtain rfl := eq_of_record?_push hnone hy
    exact .own _ rfl rfl hdue.passed
  | @showInner p rest inner _ hqueued =>
    obtain rfl := eq_of_record?_push hnone ((Feed.record?_setStatus ..).symm.trans hy)
    have hmem : p ∈ r.queued := hqueued ▸ List.mem_cons_self
    obtain ⟨i, _, hi, -⟩ := h.ledger.exists_record (h.standing_queued hmem)
    exact .inner rfl ⟨i, hi⟩
  | close => exact update hy
  | fail => exact update hy
  | complete =>
    rw [complete_eq] at hy
    exact update hy
  | showOwn => exact update ((Feed.record?_setStatus ..).symm.trans hy)
  | reenter => exact update ((Feed.record?_setStatus ..).symm.trans hy)
  | answer => exact update ((Feed.record?_setStatus ..).symm.trans hy)
  | stopInner => exact update hy
  | dropActive => exact update hy
  | dropQueued => exact update hy
  | _ => cases hnone.symm.trans hy

/-! ### Grounded runs -/

/-- The record of a node stands before an index and says, after some entries, that the node
succeeded or was skipped. -/
def PassedIn (r : Run) (before : List Event) (a : String) (j : Nat) : Prop :=
  ∃ i x, i < j ∧ r.recordOf.at? a = some i ∧ (versions before i).getLast? = some x ∧
    (x.status = .success ∨ x.status = .skip)

/-- The journal shows that all predecessors of a node had passed when its record was added, and the
record of a node inside a container stands behind that of the container. -/
structure Grounded (r : Run) (es : List Event) : Prop where
  own : ∀ j y, r.feed.record? j = some y → y.parent = none → ∃ before y₀ after,
    es = before ++ .record j y₀ :: after ∧ versions before j = [] ∧
      ∀ e ∈ r.graph.edgesInto y.node, r.PassedIn before e.source j
  inner : ∀ j y id, r.feed.record? j = some y → y.parent = some id →
    ∃ i < j, r.recordOf.at? id = some i

/-- The record of a node that has passed says so. -/
theorem Sound.passedIn (h : r.Sound) (hids : ∀ n ∈ r.graph.nodes, n.id ≠ "")
    (ht : f₀.Tells r.feed es) (hp : r.passed a = true) : r.PassedIn es a r.nextIndex := by
  obtain ⟨s, hs, hcase⟩ : ∃ s, r.standing? a = some (.done s) ∧ (s = .success ∨ s = .skip) := by
    rcases passed_iff.1 hp with hs | hs
    · exact ⟨_, hs, Or.inl rfl⟩
    · exact ⟨_, hs, Or.inr rfl⟩
  obtain ⟨i, x, hi, hx, rfl, hparent⟩ := h.ledger.exists_record hs
  obtain ⟨t, ht', hshows⟩ := h.ledger.shown i x hx hparent (h.id_ne_empty hids hs)
  obtain rfl := Option.some.inj (hs.symm.trans ht')
  have hstatus : x.status = s := hshows
  exact ⟨i, x, Feed.lt_length_of_record? hx, hi, (ht.last i).trans hx, hstatus ▸ hcase⟩

theorem Sound.passedIn_move (h : r.Sound) (m : Move w r r') {before : List Event}
    (hp : r.PassedIn before a j) : r'.PassedIn before a j := by
  obtain ⟨i, x, hij, hi, hx⟩ := hp
  exact ⟨i, x, hij, h.recordOf_move m hi, hx⟩

/-- Every move keeps a run grounded in what it writes. -/
theorem Sound.grounded_move (h : r.Sound) (hids : ∀ n ∈ r.graph.nodes, n.id ≠ "")
    (hj : r.Justified) (ht : f₀.Tells r.feed es) (hg : r.Grounded es) (m : Move w r r') :
    ∃ more, f₀.Tells r'.feed (es ++ more) ∧ r'.Grounded (es ++ more) := by
  obtain ⟨more, hmore⟩ := ht.writes m.becomes.written
  refine ⟨more, hmore, fun j y hy hparent => ?_, fun j y id hy hparent => ?_⟩
  · rw [m.graph_eq]
    cases hx : r.feed.record? j with
    | some x =>
      -- the record was there, and is one of the same node
      obtain ⟨y', hy', hnode, hparent'⟩ := m.exists_record hx
      obtain rfl := Option.some.inj (hy.symm.trans hy')
      obtain ⟨before, y₀, after, rfl, hfirst, hpassed⟩ :=
        hg.own j x hx (hparent'.symm.trans hparent)
      refine ⟨before, y₀, after ++ more, List.append_assoc .., hfirst, fun e he => ?_⟩
      exact h.passedIn_move m (hpassed e (hnode ▸ he))
    | none =>
      cases h.adds_of_move hj m hx hy with
      | inner hsome => cases hparent.symm.trans hsome
      | own x hfeed _ hpassed =>
        have hpush := ht.push x r.now
        rw [← hfeed] at hpush
        obtain rfl := List.append_cancel_left (hmore.unique hpush)
        obtain rfl : j = r.nextIndex := by
          by_contra hne
          have hne : ¬ j = r.feed.snapshot.records.length := hne
          rw [hfeed, Feed.record?_push, if_neg hne, hx] at hy
          cases hy
        refine ⟨es, _, [], rfl, List.getLast?_eq_none_iff.1 ((ht.last _).trans hx), ?_⟩
        exact fun e he => h.passedIn_move m (h.passedIn hids ht (hpassed e he))
  · cases hx : r.feed.record? j with
    | some x =>
      obtain ⟨y', hy', -, hparent'⟩ := m.exists_record hx
      obtain rfl := Option.some.inj (hy.symm.trans hy')
      obtain ⟨i, hij, hi⟩ := hg.inner j x id hx (hparent'.symm.trans hparent)
      exact ⟨i, hij, h.recordOf_move m hi⟩
    | none =>
      cases h.adds_of_move hj m hx hy with
      | own _ _ hnone => cases hnone.symm.trans hparent
      | inner hsome hfiled =>
        obtain rfl := Option.some.inj (hsome.symm.trans hparent)
        obtain ⟨i, hi⟩ := hfiled
        obtain ⟨x, hx', -⟩ := h.ledger.filed _ i hi
        have hlt : i < j := Nat.lt_of_lt_of_le (Feed.lt_length_of_record? hx')
          (Feed.record?_eq_none_iff.1 hx)
        exact ⟨i, hlt, h.recordOf_move m hi⟩

variable {g : Graph} {limit : Nat} {startInputs : Dict Value} {pool : Pool}

/-- Every history is grounded in what it has written. -/
theorem Launched.grounded_acts (h : Launched g limit startInputs pool r)
    (hids : ∀ n ∈ g.nodes, n.id ≠ "") (as : List Action) :
    ∃ es, r.feed.Tells (r.acts as).feed es ∧ (r.acts as).Grounded es := by
  have hgraph : r.graph = g := h.graph_acts []
  have hstart : r.feed.Tells r.feed [] ∧ r.Grounded [] := by
    obtain ⟨_, _, _, _, _, hnone, rfl⟩ := h.eq
    refine ⟨⟨(List.append_nil _).symm, fun i => (hnone i).symm⟩, ?_, ?_⟩
    · exact fun j y hy => nomatch (hnone j).symm.trans hy
    · exact fun j y id hy => nomatch (hnone j).symm.trans hy
  have key : ∀ {s : Run}, Moves .any r s →
      ∃ es, r.feed.Tells s.feed es ∧ s.Grounded es := by
    intro s hmoves
    refine (hmoves.keep h.steady.sound (P := fun s => s.graph = g ∧ s.Justified ∧
      ∃ es, r.feed.Tells s.feed es ∧ s.Grounded es) ⟨hgraph, h.justified, [], hstart⟩ ?_).2.2.2
    rintro s s' hs ⟨hgraph, hj, es, ht, hg⟩ m
    obtain ⟨more, hmore⟩ := hs.grounded_move (hgraph ▸ hids) hj ht hg m
    exact ⟨m.graph_eq.trans hgraph, hj.move hs m, es ++ more, hmore⟩
  rcases h.steady.acts (World.any_admitsAll r as) with ⟨hmoves, -⟩ | ⟨s, hmoves, -, heq⟩
  · exact key hmoves
  · obtain ⟨es, ht, hg⟩ := key hmoves
    obtain ⟨more, hmore⟩ := ht.written (Feed.written s.feed (.finish ..))
    rw [heq]
    refine ⟨es ++ more, hmore, ?_, ?_⟩
    · intro j y hy hparent
      obtain ⟨before, y₀, after, rfl, hrest⟩ :=
        hg.own j y ((Feed.record?_finish ..).symm.trans hy) hparent
      exact ⟨before, y₀, after ++ more, List.append_assoc .., hrest⟩
    · exact fun j y id hy => hg.inner j y id ((Feed.record?_finish ..).symm.trans hy)

/-! ### Upstream -/

/-- The record of a node stands before an index, is one of a success or a skip, and was so already
when the record at the index was added, as the entries tell. -/
def SettledBefore (r : Run) (es : List Event) (a : String) (j : Nat) : Prop :=
  ∃ i x before y after, i < j ∧ r.feed.record? i = some x ∧ x.node = a ∧ x.parent = none ∧
    (x.status = .success ∨ x.status = .skip) ∧ es = before ++ .record j y :: after ∧
    versions before j = [] ∧ (versions before i).getLast? = some x

/-- What was settled before a record was settled before everything that came after that record. -/
theorem SettledBefore.trans (ho : r.feed.Orderly es) {b : String}
    (hab : ∀ i x, r.feed.record? i = some x → x.node = b → x.parent = none →
      r.SettledBefore es a i)
    (hb : r.SettledBefore es b j) : r.SettledBefore es a j := by
  obtain ⟨i, x, before, y, after, hij, hx, hnode, hparent, -, hsplit, hfirst, hlast⟩ := hb
  obtain ⟨k, z, before', y', after', hki, hz, hz', hzp, hzs, hsplit', hfirst', hlast'⟩ :=
    hab i x hx hnode hparent
  refine ⟨k, z, before, y, after, Nat.lt_trans hki hij, hz, hz', hzp, hzs, hsplit, hfirst, ?_⟩
  -- the record of the node between was added before, so what was written by then was written
  have hprefix : before' <+: before := by
    rcases List.prefix_or_prefix_of_prefix ⟨_, hsplit'.symm⟩ ⟨_, hsplit.symm⟩ with h | ⟨rest, h⟩
    · exact h
    · rw [← h, versions_append] at hfirst'
      rw [(List.append_eq_nil_iff.1 hfirst').1] at hlast
      cases hlast
  obtain ⟨rest, rfl⟩ := hprefix
  have hterminal : z.status.isTerminal = true := by
    rcases hzs with hs | hs <;> rw [hs] <;> rfl
  rw [hsplit, List.append_assoc] at ho
  have hnone := ho.versions_rest hlast' hterminal
  rw [versions_append] at hnone
  rw [versions_append, (List.append_eq_nil_iff.1 hnone).1, List.append_nil, hlast']

theorem settledBefore_of_upstream (ho : r.feed.Orderly es)
    (hedges : ∀ j y, r.feed.record? j = some y → y.parent = none →
      ∀ e ∈ r.graph.edgesInto y.node, r.SettledBefore es e.source j)
    {b : String} (hup : r.graph.Upstream a b) {y : Record} (hy : r.feed.record? j = some y)
    (hnode : y.node = b) (hparent : y.parent = none) : r.SettledBefore es a j := by
  induction hup generalizing j y with
  | single hfeeds =>
    obtain ⟨e, he, rfl⟩ := hfeeds
    exact hedges j y hy hparent e (hnode ▸ he)
  | tail _ hfeeds ih =>
    obtain ⟨e, he, rfl⟩ := hfeeds
    exact .trans ho (fun i x hx hxn hxp => ih hx hxn hxp) (hedges j y hy hparent e (hnode ▸ he))

/-! ### Records inside containers -/

/-- While a record of a node inside a container shows a pause, the record of the container
executes. -/
theorem UnderWay.executing_container (hu : r.UnderWay f₀) (h : r.Sound) {y : Record} {id : String}
    (hy : r.feed.record? j = some y) (hparent : y.parent = some id) (hpause : y.status = .pause)
    {x : Record} (hi : r.recordOf.at? id = some i) (hx : r.feed.record? i = some x) :
    x.status = .executing := by
  obtain ⟨p, hactive, hj⟩ := hu.displays.only j y hy hpause
  have hinner : p.inner ≠ none := by
    intro hnone
    obtain ⟨z, hz, -, hnone⟩ := h.ledger.filed _ j (h.recordOf_own hactive hj hnone)
    obtain rfl := Option.some.inj (hy.symm.trans hz)
    cases hparent.symm.trans hnone
  obtain ⟨z, hz, hcontainer⟩ := h.record_inner hactive hj hinner
  obtain rfl := Option.some.inj (hy.symm.trans hz)
  obtain rfl := Option.some.inj (hcontainer.symm.trans hparent)
  have hpending := h.pending_waiting (p := p) (by simp [pauses, hactive])
  rcases NodeStatus.isTerminal_eq_false_iff.1 (hu.candid _ i x hpending hi hx) with hs | hs
  · exact hs
  -- only one record shows a pause, and it is the one inside
  · obtain ⟨q, hactive', hi'⟩ := hu.displays.only i x hx hs
    obtain rfl := Option.some.inj (hactive.symm.trans hactive')
    obtain rfl := Option.some.inj (hi'.symm.trans hj)
    obtain ⟨z, hz, -, hnone⟩ := h.ledger.filed _ _ hi
    obtain rfl := Option.some.inj (hy.symm.trans hz)
    cases hparent.symm.trans hnone

/-! ### The theorem -/

/-- In every history the records stand in causal order. If a node has a record of its own, every
node that an edge leads from to it, and every node that is an ancestor of it, has one before, which
is of a success or a skip and was so already when the record of the node was added. A record of a
node inside a container stands behind the record of the container, which executes while the node
inside waits. -/
theorem records_in_causal_order (h : Launched g limit startInputs pool r)
    (hids : ∀ n ∈ g.nodes, n.id ≠ "") (as : List Action) :
    ∃ es, (r.acts as).feed.journal = r.feed.journal ++ es ∧
      (∀ j y, (r.acts as).feed.record? j = some y → y.parent = none →
        (∀ e ∈ g.edgesInto y.node, (r.acts as).SettledBefore es e.source j) ∧
        ∀ a, g.isAncestor a y.node = true → (r.acts as).SettledBefore es a j) ∧
      ∀ j y id, (r.acts as).feed.record? j = some y → y.parent = some id →
        ∃ i x, i < j ∧ (r.acts as).feed.record? i = some x ∧ x.node = id ∧ x.parent = none ∧
          (y.status = .pause → x.status = .executing) := by
  have hgraph := h.graph_acts as
  have hledger := h.steady.ledger_acts as
  obtain ⟨es, ht, hg⟩ := h.grounded_acts hids as
  obtain ⟨es', hes', ho⟩ := h.orderlySince_acts as
  obtain rfl := List.append_cancel_left (ht.journal.symm.trans hes'.journal)
  have hedges : ∀ j y, (r.acts as).feed.record? j = some y → y.parent = none →
      ∀ e ∈ (r.acts as).graph.edgesInto y.node, (r.acts as).SettledBefore es e.source j := by
    intro j y hy hparent e he
    obtain ⟨before, y₀, after, hsplit, hfirst, hpassed⟩ := hg.own j y hy hparent
    obtain ⟨i, x, hij, hi, hx, hs⟩ := hpassed e he
    have hmem : .record i x ∈ es := by
      rw [hsplit]
      exact List.mem_append_left _ (mem_versions.1 (List.mem_of_getLast? hx))
    have hnow : (r.acts as).feed.record? i = some x := by
      apply ho.record?_of_mem hmem
      rcases hs with hs | hs <;> rw [hs] <;> rfl
    obtain ⟨z, hz, hnode, hzp⟩ := hledger.filed _ i hi
    obtain rfl := Option.some.inj (hnow.symm.trans hz)
    exact ⟨i, x, before, y₀, after, hij, hnow, hnode, hzp, hs, hsplit, hfirst, hx⟩
  refine ⟨es, ht.journal, fun j y hy hparent => ⟨?_, fun a ha => ?_⟩, fun j y id hy hparent => ?_⟩
  · exact hgraph ▸ hedges j y hy hparent
  · obtain ⟨-, hup⟩ := h.built.wellFormed.isAncestor_iff.1 ha
    exact settledBefore_of_upstream ho hedges (hgraph ▸ hup) hy rfl hparent
  · obtain ⟨i, hij, hi⟩ := hg.inner j y id hy hparent
    obtain ⟨x, hx, hnode, hxp⟩ := hledger.filed _ i hi
    refine ⟨i, x, hij, hx, hnode, hxp, fun hpause => ?_⟩
    rcases h.underWay_acts as with ⟨hsteady, hu⟩ | ⟨s, hsteady, hu, hspent, heq⟩
    · exact hu.executing_container hsteady.sound hy hparent hpause hi hx
    -- no record shows a pause at the end
    · have hids' : ∀ n ∈ s.graph.nodes, n.id ≠ "" := by
        rw [← graph_finish, ← heq, hgraph]
        exact hids
      have hclosed := hsteady.closed_finish hu hids' hspent
        (List.mem_of_getElem? (heq ▸ hy : s.finish.feed.record? j = some y))
      rw [hpause] at hclosed
      cases hclosed

/-- A history in which the judge says yes, and the output is about to be made. -/
def judged : List Action := [.schedule, .report 0 (.ok (.success .null [])) 0,
  .report 1 (.ok (.success .null [])) 0, .schedule, .report 2 (.ok (.success .null ["yes"])) 0,
  .schedule]

/-- When the output is made, the repair, which was skipped, and the script far up are settled
before. While a node inside the container waits, the container executes. -/
theorem records_in_causal_order_judged :
    let made := (Sample.run 0).acts judged
    let waiting := (Sample.run 0).acts Sample.bothWait
    Launched Sample.graph 0 [] {} (Sample.run 0) ∧ (∀ n ∈ Sample.graph.nodes, n.id ≠ "") ∧
      (made.feed.record? 4).map (fun x => (x.node, x.parent)) = some ("report", none) ∧
      (∃ es, made.feed.journal = (Sample.run 0).feed.journal ++ es ∧
        made.SettledBefore es "repair" 4 ∧ made.SettledBefore es "fetch" 4) ∧
      (waiting.feed.record? 2).map (fun x => (x.parent, x.status)) = some (some "batch", .pause) ∧
      ∃ i x, i < 2 ∧ waiting.feed.record? i = some x ∧ x.node = "batch" ∧ x.parent = none ∧
        x.status = .executing := by
  have hreport : (((Sample.run 0).acts judged).feed.record? 4).map (fun x => (x.node, x.parent)) =
      some ("report", none) := by cbv
  have hstep : (((Sample.run 0).acts Sample.bothWait).feed.record? 2).map
      (fun x => (x.parent, x.status)) = some (some "batch", .pause) := by cbv
  have hrepair : Edge.new "e5" "repair" "report" ∈ Sample.graph.edgesInto "report" :=
    Graph.mem_edgesInto.2 ⟨by simp [Sample.graph, Slots.newest], rfl⟩
  refine ⟨Sample.launched 0, Sample.id_ne_empty, hreport, ?_, hstep, ?_⟩
  · obtain ⟨es, hes, hown, -⟩ :=
      records_in_causal_order (Sample.launched 0) Sample.id_ne_empty judged
    obtain ⟨y, hy, hvalue⟩ := Option.map_eq_some_iff.1 hreport
    obtain ⟨hnode, hparent⟩ := Prod.mk.inj hvalue
    obtain ⟨hedges, hancestors⟩ := hown 4 y hy hparent
    rw [hnode] at hedges hancestors
    exact ⟨es, hes, hedges _ hrepair, hancestors "fetch" Sample.isAncestor_fetch⟩
  · obtain ⟨-, -, -, hinner⟩ :=
      records_in_causal_order (Sample.launched 0) Sample.id_ne_empty Sample.bothWait
    obtain ⟨y, hy, hvalue⟩ := Option.map_eq_some_iff.1 hstep
    obtain ⟨hparent, hpause⟩ := Prod.mk.inj hvalue
    obtain ⟨i, x, hlt, hx, hnode, hown, hexecuting⟩ := hinner 2 y "batch" hy hparent
    exact ⟨i, x, hlt, hx, hnode, hown, hexecuting hpause⟩

end Run
end Flowrun
