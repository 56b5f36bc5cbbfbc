import Flowrun.Proofs.Pool
import Flowrun.Proofs.Run.Skips
import Flowrun.Proofs.Scope.Basic

/-!
# Inputs stay what they were

A node is started with inputs that it takes from the pool at that moment. If the references of the
graph are in scope, the inputs would be the same at any later time:

    r.inputsOf.at? n.id = some given → given = r.inputsFor n

All that is upstream of a node has passed when the node is reached, and a node that has passed
publishes nothing any more. Global variables are never written, as no node has the id of their
namespace.
-/

namespace Flowrun.Run

open Json

variable {w : World} {r r' : Run}

/-! ### What is upstream has passed -/

theorem Justified.passed_of_feeds (hj : r.Justified) {a id : String}
    (hid : id ∈ r.ready ∨ r.standing? id ≠ none) (ha : r.graph.Feeds a id) :
    r.passed a = true := by
  obtain ⟨e, he, rfl⟩ := ha
  have entered : r.Entered id → r.passed e.source = true := by
    intro hentered
    rcases hj.entered id hentered with hnone | hcalled
    · rw [hnone] at he
      cases he
    · exact hcalled.passed e he
  rcases hid with hready | hreached
  · exact entered (Or.inl hready)
  · obtain ⟨s, hs⟩ := Option.ne_none_iff_exists'.1 hreached
    by_cases hskip : s = .done .skip
    · exact (hj.skipped id (hskip ▸ hs)).passed e he
    · exact entered (entered_of_standing hs hskip)

/-- Whatever is upstream of a node that is ready or was reached has passed. -/
theorem Justified.passed_of_upstream (hj : r.Justified) {a id : String}
    (hid : id ∈ r.ready ∨ r.standing? id ≠ none) (ha : r.graph.Upstream a id) :
    r.passed a = true := by
  induction ha with
  | single hfeeds => exact hj.passed_of_feeds hid hfeeds
  | tail _ hfeeds ih =>
    have hpassed := hj.passed_of_feeds hid hfeeds
    -- a node that has passed was reached, so the same goes for what leads to it
    obtain ⟨s, hs⟩ := exists_done_of_passed hpassed
    refine ih (Or.inr ?_)
    rw [hs]
    exact Option.some_ne_none _

/-! ### Only open nodes publish -/

/-- The values of an owner change only while it runs or waits. -/
theorem Sound.outputs?_move (h : r.Sound) (m : Move w r r') {id : String}
    (hid : ∀ s, r.standing? id = some s → ¬ s.Open) :
    r'.pool.outputs? id = r.pool.outputs? id := by
  cases m with
  | complete _ hx =>
    rw [complete_eq]
    refine Pool.outputs?_publish_of_ne _ ?_ _
    rintro rfl
    exact hid _ (h.standing_flying hx) (Or.inl rfl)
  | answer _ hactive =>
    refine Pool.outputs?_publish_of_ne _ ?_ _
    rintro rfl
    exact hid _ (h.standing_active hactive) (Or.inr rfl)
  | _ => rfl

theorem Sound.outputs?_move_of_passed (h : r.Sound) (m : Move w r r') {id : String}
    (hp : r.passed id = true) : r'.pool.outputs? id = r.pool.outputs? id := by
  obtain ⟨t, hdone⟩ := exists_done_of_passed hp
  refine h.outputs?_move m fun s hs hopen => ?_
  cases hdone.symm.trans hs
  rcases hopen with hs | hs
  · cases hs
  · cases hs

/-- What is no node of the graph never publishes anything. -/
theorem Sound.outputs?_move_of_unknown (h : r.Sound) (m : Move w r r') {id : String}
    (hid : ∀ n ∈ r.graph.nodes, n.id ≠ id) : r'.pool.outputs? id = r.pool.outputs? id := by
  refine h.outputs?_move m fun s hs _ => ?_
  obtain ⟨n, hn⟩ := h.reached id (by rw [hs]; nofun)
  exact hid n (Graph.mem_of_node?_eq_some hn) (Graph.id_of_node?_eq_some hn)

/-! ### Inputs -/

/-- What a node refers to has its final value when the node is ready. -/
theorem Sound.outputs?_move_of_reference (h : r.Sound) (hj : r.Justified) (hg : r.graph.Closed)
    (m : Move w r r') {n : Node} (hn : n ∈ r.graph.nodes)
    (hid : n.id ∈ r.ready ∨ r.standing? n.id ≠ none) {x : FoundReference}
    (hx : x ∈ n.references) :
    r'.pool.outputs? x.selector.owner = r.pool.outputs? x.selector.owner := by
  rcases hg.inScope n hn x hx with hglobal | hup
  -- a global namespace is no node
  · refine h.outputs?_move_of_unknown m fun a ha hid => ?_
    exact hg.ids a ha (hid ▸ of_decide_eq_true hglobal)
  · exact h.outputs?_move_of_passed m (hj.passed_of_upstream hid hup)

/-- The inputs that a ready node would be started with do not change any more. -/
theorem Sound.inputsFor_move (h : r.Sound) (hj : r.Justified) (hg : r.graph.Closed)
    (m : Move w r r') {n : Node} (hn : n ∈ r.graph.nodes)
    (hid : n.id ∈ r.ready ∨ r.standing? n.id ≠ none) : r'.inputsFor n = r.inputsFor n := by
  have hpool : r'.pool.inputs n = r.pool.inputs n :=
    Pool.inputs_congr fun x hx => h.outputs?_move_of_reference hj hg m hn hid hx
  unfold inputsFor
  rw [m.fixed.2.2.2, hpool]

/-- Every node that was started would be started with the same inputs again. -/
def Supplied (r : Run) : Prop :=
  ∀ n ∈ r.graph.nodes, ∀ given, r.inputsOf.at? n.id = some given → given = r.inputsFor n

theorem Supplied.move (hs : r.Supplied) (h : r.Sound) (hj : r.Justified) (hg : r.graph.Closed)
    (m : Move w r r') : r'.Supplied := by
  intro n hn given hgiven
  rw [m.graph_eq] at hn
  have before : r.inputsOf.at? n.id = some given → given = r'.inputsFor n := by
    intro hgiven
    have hreached : r.standing? n.id ≠ none := by
      intro hfree
      cases ((h.ledger.given n.id).2 (Or.inl hfree)).symm.trans hgiven
    rw [h.inputsFor_move hj hg m hn (Or.inr hreached)]
    exact hs n hn given hgiven
  cases m with
  | @start a rest _ hready ha =>
    have hgiven : (r.inputsOf.put a.id (r.inputsFor a)).at? n.id = some given := hgiven
    rw [Dict.at?_put] at hgiven
    split at hgiven
    · next hid =>
      obtain rfl : n = a :=
        Option.some.inj ((h.wellFormed.node?_id hn).symm.trans (hid ▸ ha))
      exact (Option.some.inj hgiven).symm
    · exact before hgiven
  | complete =>
    rw [complete_eq] at hgiven
    exact before hgiven
  | _ => exact before hgiven

end Flowrun.Run
