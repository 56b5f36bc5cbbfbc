import Flowrun.Proofs.Graph.Edits
import Flowrun.Proofs.Graph.Walk
import Mathlib.Data.List.Permutation

/-!
# Answers that are remembered

A `Draft` remembers what was found out about its graph for as long as the graph stays at one
revision. Many drafts may be under way, which are edited, asked and copied in any order; a copy
starts at the revision of the draft that it was made from, and remembers nothing.

What is remembered was found out at the revision of the graph or at an earlier one, and if it was
found out at this revision, it is right (`Recalls`): an edit that changes the graph raises the
revision, and nothing lowers it. So whoever asks for the ancestors of a node is given those of the
graph as it is then.
-/

namespace Flowrun

/-! ### One draft -/

namespace Draft

variable {d : Draft}

/-- The draft after an edit of its graph. -/
def edit (d : Draft) (e : Edit) : Draft := d.withGraph (d.graph.edit e)

/-- What holds of a draft at any time. -/
structure Recalls (d : Draft) : Prop where
  built : d.graph.Built
  le : d.memo.revision ≤ d.graph.revision
  right : d.memo.revision = d.graph.revision →
    ∀ id ids, d.memo.answers.at? id = some ids → ids = d.graph.ancestors id

theorem recalls_empty : Recalls {} := ⟨.empty, Nat.le_refl _, nofun⟩

/-- What is still good is right. -/
theorem Recalls.current (h : d.Recalls) {id : String} {ids : List String}
    (hids : d.current.answers.at? id = some ids) : ids = d.graph.ancestors id := by
  unfold Draft.current at hids
  split at hids
  · next hrevision => exact h.right hrevision id ids hids
  · cases hids

theorem revision_current (d : Draft) : d.current.revision = d.graph.revision := by
  unfold current
  split
  · next hrevision => exact hrevision
  · rfl

/-- A question is answered as if nothing was remembered. -/
theorem Recalls.ancestors_eq (h : d.Recalls) (id : String) :
    (d.ancestors id).1 = d.graph.ancestors id := by
  unfold ancestors
  split
  · next ids hids => exact h.current hids
  · rfl

theorem graph_ancestors (d : Draft) (id : String) : (d.ancestors id).2.graph = d.graph := by
  unfold ancestors
  split
  · rfl
  · rfl

/-- A question leaves nothing behind but right answers. -/
theorem Recalls.ask (h : d.Recalls) (id : String) : (d.ancestors id).2.Recalls := by
  have hrevision := d.revision_current
  unfold ancestors
  split
  · exact ⟨h.built, Nat.le_of_eq hrevision, fun _ id' ids hids => h.current hids⟩
  · refine ⟨h.built, Nat.le_of_eq hrevision, fun _ id' ids hids => ?_⟩
    rw [Dict.at?_put] at hids
    split at hids
    · next hid =>
      cases hids
      rw [hid]
    · exact h.current hids

/-- What was remembered before an edit that changes the graph is not good any more. -/
theorem Recalls.edit (h : d.Recalls) (e : Edit) : (d.edit e).Recalls := by
  unfold Draft.edit withGraph
  cases hperform : d.graph.perform e with
  | error error =>
    rw [Graph.edit_of_error hperform]
    exact h
  | ok r =>
    have hraised := Graph.revision_perform hperform
    have hle := h.le
    rw [Graph.edit_of_ok hperform]
    refine ⟨h.built.perform hperform, ?_, fun hsame => ?_⟩
    · show d.memo.revision ≤ r.2.revision
      omega
    · replace hsame : d.memo.revision = r.2.revision := hsame
      omega

theorem Recalls.copy (h : d.Recalls) : d.copy.Recalls := ⟨h.built, Nat.zero_le _, nofun⟩

end Draft

/-! ### Many drafts -/

/-- Something that is done with drafts, which are named by their positions. -/
inductive Work
  | edit (i : Nat) (e : Edit)
  | ask (i : Nat) (id : String)
  /-- A copy is put behind the other drafts. -/
  | copy (i : Nat)

namespace Work

/-- The drafts after something was done. -/
def apply (ds : List Draft) : Work → List Draft
  | .edit i e => ds.modify i (·.edit e)
  | .ask i id => ds.modify i fun d => (d.ancestors id).2
  | .copy i => ds ++ (ds[i]?.map Draft.copy).toList

/-- All drafts that there are when some work was done, starting with an empty one. -/
def drafts (ws : List Work) : List Draft := ws.foldl apply [{}]

theorem recalls_apply {ds : List Draft} (h : ∀ d ∈ ds, d.Recalls) (w : Work) :
    ∀ d ∈ apply ds w, d.Recalls := by
  have modified : ∀ {i f}, (∀ d : Draft, d.Recalls → (f d).Recalls) →
      ∀ d ∈ ds.modify i f, d.Recalls := by
    intro i f hf d hd
    obtain ⟨j, hj⟩ := List.mem_iff_getElem?.1 hd
    rw [List.getElem?_modify] at hj
    obtain ⟨d', hd', rfl⟩ := Option.map_eq_some_iff.1 hj
    have hbefore := h d' (List.mem_of_getElem? hd')
    split
    · exact hf d' hbefore
    · exact hbefore
  cases w with
  | edit i e => exact modified fun d hd => hd.edit e
  | ask i id => exact modified fun d hd => hd.ask id
  | copy i =>
    intro d hd
    rcases List.mem_append.1 hd with hd | hd
    · exact h d hd
    · obtain ⟨d', hd', rfl⟩ := Option.map_eq_some_iff.1 (Option.mem_toList.1 hd)
      exact (h d' (List.mem_of_getElem? hd')).copy

theorem recalls_drafts (ws : List Work) : ∀ d ∈ drafts ws, d.Recalls := by
  have key : ∀ ds : List Draft, (∀ d ∈ ds, d.Recalls) → ∀ d ∈ ws.foldl apply ds, d.Recalls := by
    induction ws with
    | nil => exact fun _ h => h
    | cons w ws ih => exact fun ds h => ih _ (recalls_apply h w)
  refine key _ fun d hd => ?_
  rw [List.mem_singleton.1 hd]
  exact Draft.recalls_empty

/-- Whether something that is done is a question. -/
def isAsk : Work → Bool
  | .ask .. => true
  | _ => false

/-- The graphs after something was done. -/
def applyGraphs (gs : List Graph) : Work → List Graph
  | .edit i e => gs.modify i (·.edit e)
  | .ask _ _ => gs
  | .copy i => gs ++ gs[i]?.toList

theorem graphs_apply (ds : List Draft) (w : Work) :
    (apply ds w).map Draft.graph = applyGraphs (ds.map Draft.graph) w := by
  cases w with
  | edit i e =>
    apply List.ext_getElem?
    intro j
    simp only [apply, applyGraphs, List.getElem?_map, List.getElem?_modify]
    cases ds[j]? with
    | none => rfl
    | some d =>
      by_cases hj : i = j
      · simp [hj, Draft.edit, Draft.withGraph]
      · simp [hj]
  | ask i id =>
    apply List.ext_getElem?
    intro j
    simp only [apply, applyGraphs, List.getElem?_map, List.getElem?_modify]
    cases ds[j]? with
    | none => rfl
    | some d =>
      by_cases hj : i = j
      · simp [hj, Draft.graph_ancestors]
      · simp [hj]
  | copy i =>
    simp only [apply, applyGraphs, List.map_append, List.getElem?_map]
    cases ds[i]? with
    | none => rfl
    | some d => rfl

/-- Questions leave the graphs as they are. -/
theorem graphs_drafts (ws : List Work) :
    (drafts ws).map Draft.graph = (ws.filter fun w => !w.isAsk).foldl applyGraphs [{}] := by
  have key : ∀ ds : List Draft, (ws.foldl apply ds).map Draft.graph =
      (ws.filter fun w => !w.isAsk).foldl applyGraphs (ds.map Draft.graph) := by
    induction ws with
    | nil => exact fun _ => rfl
    | cons w ws ih =>
      intro ds
      rw [List.foldl_cons, ih, graphs_apply, List.filter_cons]
      cases w with
      | edit => rfl
      | ask => rfl
      | copy => rfl
  exact key [{}]

/-- Whatever was done with drafts, and whatever was asked in between: whoever asks a draft for the
ancestors of a node is given what a walk of the graph would find now, layer by layer or one node at
a time. These are the ids of the other nodes from which a path of one or more edges leads to the
node, in ascending order and each once, also when there are cycles; an unknown node has none. And
the graphs are what they would be if nothing had been asked. -/
theorem ancestors_recalled (ws : List Work) {i : Nat} {d : Draft} (hd : (drafts ws)[i]? = some d)
    (id : String) :
    let answer := (d.ancestors id).1
    answer = d.graph.ancestors id ∧ answer = d.graph.walked id ∧ answer.Pairwise (· < ·) ∧
      (∀ a, a ∈ answer ↔ a ≠ id ∧ Relation.TransGen
        (fun a b => ∃ e ∈ d.graph.edges, e.source = a ∧ e.target = b) a id) ∧
      (d.graph.node? id = none → answer = []) ∧
      (drafts ws).map Draft.graph = (ws.filter fun w => !w.isAsk).foldl applyGraphs [{}] := by
  intro answer
  have h := recalls_drafts ws d (List.mem_of_getElem? hd)
  have hg := h.built.wellFormed
  have hanswer : answer = d.graph.ancestors id := h.ancestors_eq id
  refine ⟨hanswer, hanswer.trans (hg.walked_eq id).symm, ?_, ?_, ?_, ?_⟩
  · rw [hanswer]
    exact hg.ascending_ancestors id
  · intro a
    have hfeeds : d.graph.Feeds = fun a b => ∃ e ∈ d.graph.edges, e.source = a ∧ e.target = b := by
      funext a b
      exact propext Graph.feeds_iff
    rw [hanswer, ← hfeeds, ← hg.isAncestor_iff, Graph.isAncestor, decide_eq_true_eq]
  · intro hnone
    rw [hanswer, Graph.ancestors_eq_nil hnone]
  · exact graphs_drafts ws

/-- A cycle of two nodes with a third one behind it. It is asked for, an edit is refused, a copy is
made, and then the cycle is broken in the first draft. -/
def onCycle : List Work :=
  [.edit 0 (.addNode ⟨"a", "a", .script, "script", {}⟩),
    .edit 0 (.addNode ⟨"b", "b", .script, "script", {}⟩),
    .edit 0 (.addNode ⟨"c", "c", .script, "script", {}⟩), .edit 0 (.addEdge (.new "e1" "a" "b")),
    .edit 0 (.addEdge (.new "e2" "b" "a")), .edit 0 (.addEdge (.new "e3" "b" "c")), .ask 0 "a",
    .ask 0 "c", .edit 0 (.removeEdge "e4"), .copy 0, .ask 1 "c", .edit 0 (.removeEdge "e1")]

/-- The copy goes on to remember what was found out about the cycle, and the first draft, in which
nothing leads to the second node any more, has forgotten it. -/
theorem ancestors_recalled_cycle :
    ∃ d d', (drafts onCycle)[0]? = some d ∧ (drafts onCycle)[1]? = some d' ∧
      (d.ancestors "c").1 = ["b"] ∧ (d'.ancestors "c").1 = ["a", "b"] ∧
      d.memo.answers.at? "c" = some ["a", "b"] ∧ d'.memo.answers.at? "c" = some ["a", "b"] := by
  have hfirst : ((drafts onCycle)[0]?.map fun d =>
      (d.graph.ancestors "c", d.memo.answers.at? "c")) = some (["b"], some ["a", "b"]) := by cbv
  have hcopy : ((drafts onCycle)[1]?.map fun d =>
      (d.graph.ancestors "c", d.memo.answers.at? "c")) = some (["a", "b"], some ["a", "b"]) := by
    cbv
  obtain ⟨d, hd, hfirst⟩ := Option.map_eq_some_iff.1 hfirst
  obtain ⟨d', hd', hcopy⟩ := Option.map_eq_some_iff.1 hcopy
  obtain ⟨hfresh, hmemo⟩ := Prod.mk.inj hfirst
  obtain ⟨hfresh', hmemo'⟩ := Prod.mk.inj hcopy
  exact ⟨d, d', hd, hd', (ancestors_recalled onCycle hd "c").1.trans hfresh,
    (ancestors_recalled onCycle hd' "c").1.trans hfresh', hmemo, hmemo'⟩

end Work
end Flowrun
