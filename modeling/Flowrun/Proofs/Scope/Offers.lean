import Flowrun.Proofs.Graph.Edits
import Flowrun.Proofs.Scope.Basic
import Mathlib

/-!
# What is offered and what is accepted

A node is offered the outputs of its ancestors and the global variables, and the check accepts an
output of an ancestor or a global variable. The two do not ask for them in the same way: the check
decides by the owner of a selector whether it asks for a global variable or for an output,

    g.checkReference id s = .ok () ↔ if s.isGlobal then g.OffersGlobal s else g.OffersOutput id s

and what is offered is offered whatever its owner is called (`offers_iff`). So all that is accepted
was offered. The other way round it takes that no output belongs to a node with the name of a global
namespace, and that no global variable belongs to another namespace than those; both can be built
(`not_forall_accepted_iff_offered`).
-/

namespace Flowrun

namespace Graph

variable {g : Graph} {id : String} {s : Selector}

/-- A selector leads to one of the variables that a node is offered. -/
def Offers (g : Graph) (id : String) (s : Selector) : Prop :=
  ∃ x ∈ g.available id, x.node = s.owner ∧ x.key = s.key

/-- A selector leads to an output that a node upstream declares. -/
def OffersOutput (g : Graph) (id : String) (s : Selector) : Prop :=
  s.owner ≠ id ∧ g.Upstream s.owner id ∧
    ∃ n, g.node? s.owner = some n ∧ ∃ p ∈ n.config.outputs, p.key = s.key

/-- A selector leads to a global variable. -/
def OffersGlobal (g : Graph) (s : Selector) : Prop :=
  ∃ x ∈ g.globals, x.namespaceName = s.owner ∧ x.key = s.key

theorem declaresGlobal_iff : g.declaresGlobal s.owner s.key = true ↔ g.OffersGlobal s := by
  simp [declaresGlobal, OffersGlobal]

/-! ### What is offered -/

theorem WellFormed.mem_ancestorNodes (hg : g.WellFormed) {n : Node} :
    n ∈ g.ancestorNodes id ↔ n ∈ g.nodes ∧ n.id ≠ id ∧ g.Upstream n.id id := by
  have hancestor : ∀ {a : String}, a ∈ g.ancestors id ↔ a ≠ id ∧ g.Upstream a id := by
    intro a
    rw [← hg.isAncestor_iff, isAncestor, decide_eq_true_eq]
  unfold ancestorNodes nodesById
  rw [List.mem_filterMap]
  constructor
  · rintro ⟨a, ha, hn⟩
    obtain ⟨hmem, rfl⟩ := hg.node?_eq_some_iff.1 hn
    exact ⟨hmem, hancestor.1 ha⟩
  · rintro ⟨hmem, hup⟩
    exact ⟨n.id, hancestor.2 hup, hg.node?_id hmem⟩

/-- The outputs of nodes upstream and the global variables are offered. -/
theorem WellFormed.offers_iff (hg : g.WellFormed) :
    g.Offers id s ↔ g.OffersOutput id s ∨ g.OffersGlobal s := by
  unfold Offers available
  simp only [List.mem_append, or_and_right, exists_or]
  refine or_congr ?_ ?_
  · constructor
    · rintro ⟨x, hx, hnode, hkey⟩
      obtain ⟨n, hn, hx⟩ := List.mem_flatMap.1 hx
      obtain ⟨p, hp, rfl⟩ := List.mem_map.1 hx
      obtain ⟨hmem, hne, hup⟩ := hg.mem_ancestorNodes.1 hn
      replace hnode : n.id = s.owner := hnode
      rw [OffersOutput, ← hnode]
      exact ⟨hne, hup, n, hg.node?_id hmem, p, hp, hkey⟩
    · rintro ⟨hne, hup, n, hn, p, hp, hkey⟩
      obtain ⟨hmem, hid⟩ := hg.node?_eq_some_iff.1 hn
      rw [← hid] at hne hup
      have hancestor := hg.mem_ancestorNodes.2 ⟨hmem, hne, hup⟩
      exact ⟨_, List.mem_flatMap.2 ⟨n, hancestor, List.mem_map_of_mem hp⟩, hid, hkey⟩
  · constructor
    · rintro ⟨x, hx, hnode, hkey⟩
      obtain ⟨v, hv, rfl⟩ := List.mem_map.1 hx
      exact ⟨v, hv, hnode, hkey⟩
    · rintro ⟨v, hv, hnode, hkey⟩
      exact ⟨_, List.mem_map_of_mem hv, hnode, hkey⟩

/-! ### What is accepted -/

theorem checkReference_of_isGlobal (h : s.isGlobal = true) :
    g.checkReference id s = .ok () ↔ g.OffersGlobal s := by
  unfold checkReference
  rw [if_pos h, ← declaresGlobal_iff]
  split
  · next hdeclared => exact iff_of_true rfl hdeclared
  · next hundeclared => exact iff_of_false nofun hundeclared

theorem WellFormed.checkReference_of_not_isGlobal (hg : g.WellFormed) (h : s.isGlobal = false) :
    g.checkReference id s = .ok () ↔ g.OffersOutput id s := by
  unfold checkReference OffersOutput
  rw [if_neg (by simp [h])]
  cases howner : g.node? s.owner with
  | none => exact iff_of_false nofun (by rintro ⟨-, -, n, hn, -⟩; cases hn)
  | some n =>
    have hid : n.id = s.owner := id_of_node?_eq_some howner
    dsimp only
    rw [hid]
    split
    · next hself => exact iff_of_false nofun fun h => h.1 hself
    · next hother =>
      split
      · next hnot =>
        refine iff_of_false nofun fun h => ?_
        rw [hg.isAncestor_iff.2 ⟨h.1, h.2.1⟩] at hnot
        cases hnot
      · next hancestor =>
        rw [Bool.not_eq_true, Bool.not_eq_false'] at hancestor
        obtain ⟨-, hup⟩ := hg.isAncestor_iff.1 hancestor
        split
        · next hdeclared =>
          obtain ⟨p, hp, hkey⟩ := List.any_eq_true.1 hdeclared
          exact iff_of_true rfl ⟨hother, hup, n, rfl, p, hp, by simpa using hkey⟩
        · next hundeclared =>
          refine iff_of_false nofun ?_
          rintro ⟨-, -, m, hm, p, hp, hkey⟩
          cases hm
          exact hundeclared (List.any_eq_true.2 ⟨p, hp, by simpa using hkey⟩)

theorem WellFormed.offers_of_checkReference (hg : g.WellFormed)
    (h : g.checkReference id s = .ok ()) :
    g.Offers id s ∧ (g.OffersGlobal s ∨ s.owner ≠ id ∧ g.Upstream s.owner id) := by
  rw [hg.offers_iff]
  cases hglobal : s.isGlobal with
  | true =>
    have hoffers := (checkReference_of_isGlobal hglobal).1 h
    exact ⟨Or.inr hoffers, Or.inl hoffers⟩
  | false =>
    have hoffers := (hg.checkReference_of_not_isGlobal hglobal).1 h
    exact ⟨Or.inl hoffers, Or.inr ⟨hoffers.1, hoffers.2.1⟩⟩

/-! ### Both together -/

/-- Offer and check agree on a selector exactly if it leads to a variable of the kind that the check
asks for whenever it leads to one of the other kind. -/
theorem WellFormed.agree_iff (hg : g.WellFormed) :
    (g.checkReference id s = .ok () ↔ g.Offers id s) ↔
      (s.isGlobal = true → g.OffersOutput id s → g.OffersGlobal s) ∧
        (s.isGlobal = false → g.OffersGlobal s → g.OffersOutput id s) := by
  rw [hg.offers_iff]
  cases hglobal : s.isGlobal with
  | true =>
    rw [checkReference_of_isGlobal hglobal]
    simp
  | false =>
    rw [hg.checkReference_of_not_isGlobal hglobal]
    simp

/-- A variable that belongs to a global namespace is no output, unless a node is called like that,
and then both agree on all selectors. -/
theorem WellFormed.agree (hg : g.WellFormed) (hids : ∀ n ∈ g.nodes, n.id ∉ globalNamespaces)
    (hglobals : ∀ x ∈ g.globals, x.namespaceName ∈ globalNamespaces) :
    g.checkReference id s = .ok () ↔ g.Offers id s := by
  refine hg.agree_iff.2 ⟨fun hglobal hoffers => ?_, fun hglobal hoffers => ?_⟩
  · obtain ⟨-, -, n, hn, -⟩ := hoffers
    obtain ⟨hmem, hid⟩ := hg.node?_eq_some_iff.1 hn
    exact absurd (hid ▸ of_decide_eq_true hglobal) (hids n hmem)
  · obtain ⟨x, hx, hnamespace, -⟩ := hoffers
    exact absurd (hnamespace ▸ hglobals x hx) (of_decide_eq_false hglobal)

/-- Whatever the check accepts was offered, and it is a declared global variable or belongs to a
node upstream. What is offered is accepted, too, exactly if a selector with the name of a global
namespace that leads to an output leads to a global variable as well, and the other way round for
any other selector. This is so for all selectors if no node is called like a global namespace and
all global variables belong to one. -/
theorem accepted_iff_offered (hg : g.Built) (id : String) (s : Selector) :
    (g.checkReference id s = .ok () → g.Offers id s ∧
      (g.OffersGlobal s ∨ s.owner ≠ id ∧ g.Upstream s.owner id)) ∧
    ((g.checkReference id s = .ok () ↔ g.Offers id s) ↔
      (s.isGlobal = true → g.OffersOutput id s → g.OffersGlobal s) ∧
        (s.isGlobal = false → g.OffersGlobal s → g.OffersOutput id s)) ∧
    ((∀ n ∈ g.nodes, n.id ∉ globalNamespaces) →
      (∀ x ∈ g.globals, x.namespaceName ∈ globalNamespaces) →
        (g.checkReference id s = .ok () ↔ g.Offers id s)) := by
  have hwf := hg.wellFormed
  exact ⟨hwf.offers_of_checkReference, hwf.agree_iff, hwf.agree⟩

end Graph

namespace Sample

/-- A script with the name of a namespace, and a report behind it. -/
def shadowed : Workflow where
  nodes := [(NodeSpec.new "sys" "script").withOutput "rows" "String", .new "report" "output"]
  edges := [.new "e1" "sys" "report"]

def rows : Selector := ⟨"sys", "rows", []⟩

def query : Selector := ⟨"sys", "query", []⟩

/-- The rows are offered and refused, and the query is offered and accepted. -/
theorem exists_shadowed : ∃ g, Graph.ofWorkflow shadowed = .ok g ∧
    g.Offers "report" rows ∧ g.checkReference "report" rows = .error .undeclaredGlobal ∧
      g.checkReference "report" query = .ok () := by
  have hall : (Graph.ofWorkflow shadowed).map (fun g => ((g.available "report").map
      VariableRef.selector, g.checkReference "report" rows, g.checkReference "report" query)) =
        .ok ([rows, query], .error .undeclaredGlobal, .ok ()) := by cbv
  obtain ⟨g, hg, hall⟩ := Graph.map_eq_ok hall
  simp only [Prod.mk.injEq] at hall
  obtain ⟨hoffered, hrows, hquery⟩ := hall
  have hmem : rows ∈ (g.available "report").map VariableRef.selector := by
    rw [hoffered]
    exact List.mem_cons_self
  obtain ⟨x, hx, hselector⟩ := List.mem_map.1 hmem
  exact ⟨g, hg, ⟨x, hx, congrArg Selector.owner hselector, congrArg Selector.key hselector⟩,
    hrows, hquery⟩

end Sample

namespace Graph

/-- Where a script is called like a namespace, the query is accepted and so it was offered, and
offer and check do not agree on the rows. -/
theorem accepted_iff_offered_shadowed : ∃ g : Graph, g.Built ∧
    g.checkReference "report" Sample.query = .ok () ∧ g.Offers "report" Sample.query ∧
      g.OffersOutput "report" Sample.rows ∧ ¬ g.OffersGlobal Sample.rows := by
  obtain ⟨g, hg, hrows, hrefused, hquery⟩ := Sample.exists_shadowed
  have hbuilt := built_ofWorkflow hg
  obtain ⟨hoffered, -, -⟩ := accepted_iff_offered hbuilt "report" Sample.query
  obtain ⟨-, hagree, -⟩ := accepted_iff_offered hbuilt "report" Sample.rows
  refine ⟨g, hbuilt, hquery, (hoffered hquery).1, ?_⟩
  by_contra hnot
  have hglobal : Sample.rows.isGlobal = true := by decide
  have haccepted := (hagree.2 ⟨fun _ houtput => by_contra fun hnone => hnot ⟨houtput, hnone⟩,
    fun hother => absurd (hglobal.symm.trans hother) nofun⟩).2 hrows
  cases hrefused.symm.trans haccepted

/-- Not all that is offered is accepted. -/
theorem not_forall_accepted_iff_offered :
    ¬ ∀ (g : Graph) (id : String) (s : Selector), g.Built →
      (g.checkReference id s = .ok () ↔ g.Offers id s) := by
  intro h
  obtain ⟨g, hg, hrows, hrefused, -⟩ := Sample.exists_shadowed
  have haccepted := (h g "report" Sample.rows (built_ofWorkflow hg)).2 hrows
  cases hrefused.symm.trans haccepted

end Graph
end Flowrun
