import Flowrun.Proofs.Graph.Ancestry
import Flowrun.Scope.Basic

/-!
# What a clean check tells

If the check of a graph has nothing to report, every reference of a node is in scope: it leads to a
global variable, or to a node that is upstream.
-/

namespace Flowrun.Graph

variable {g : Graph}

/-- A reference that passes the check is global or leads upstream. -/
theorem WellFormed.isGlobal_or_upstream (hg : g.WellFormed) {id : String} {s : Selector}
    (h : g.checkReference id s = .ok ()) : s.isGlobal = true ∨ g.Upstream s.owner id := by
  unfold checkReference at h
  split at h
  · next hglobal => exact Or.inl hglobal
  · split at h
    · cases h
    · next owner howner =>
      split at h
      · cases h
      · split at h
        · cases h
        · next hancestor =>
          rw [Bool.not_eq_true, Bool.not_eq_false'] at hancestor
          rw [← id_of_node?_eq_some howner]
          exact Or.inr (hg.isAncestor_iff.1 hancestor).2

/-- If there is nothing to report, every reference of every node passes the check. -/
theorem WellFormed.checkReference_of_checkAll (hg : g.WellFormed) (h : g.checkAll = []) {n : Node}
    (hn : n ∈ g.nodes) {x : FoundReference} (hx : x ∈ n.references) :
    g.checkReference n.id x.selector = .ok () := by
  have hnone : g.checkReferences n.id = [] :=
    List.flatMap_eq_nil_iff.1 h n (List.mem_mergeSort.2 hn)
  unfold checkReferences at hnone
  rw [hg.node?_id hn] at hnone
  have hdiagnose := List.filterMap_eq_nil_iff.1 hnone x hx
  unfold diagnose? at hdiagnose
  split at hdiagnose
  · next hok => exact hok
  · cases hdiagnose

/-- References lead to global variables or upstream, and no node has the id of a global
namespace. -/
structure Closed (g : Graph) : Prop where
  inScope : ∀ n ∈ g.nodes, ∀ x ∈ n.references,
    x.selector.isGlobal = true ∨ g.Upstream x.selector.owner n.id
  ids : ∀ n ∈ g.nodes, n.id ∉ globalNamespaces

theorem WellFormed.closed (hg : g.WellFormed) (h : g.checkAll = [])
    (hids : ∀ n ∈ g.nodes, n.id ∉ globalNamespaces) : g.Closed where
  inScope _ hn _ hx :=
    hg.isGlobal_or_upstream (hg.checkReference_of_checkAll h hn hx)
  ids := hids

end Flowrun.Graph
