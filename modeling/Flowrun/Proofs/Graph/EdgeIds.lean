import Flowrun.Proofs.Graph.Cutting
import Flowrun.Proofs.Text
import Flowrun.Workflow.Format

/-!
# Edges that are written without an id

An edge without an id is given one that is made from a stem and from the position of the edge. The
position stands behind the last hyphen, so two ids that are made never meet (`positioned_inj`), and
if the ids that were written are different, one thing alone can go wrong: an id that is made is also
written for another edge. Then the edges `Clash`, and

    (filledIds stem es).Nodup ↔ ¬ Clash stem es

Ids are made in two places, from different stems: when a workflow is read, where the handle of an
edge stands in for its source, and when a graph is built from a selection of edges. In both the
edges of the graph are the written ones with ids filled in (`Fills`).
-/

namespace Flowrun

/-! ### Ids with a position -/

/-- What stands behind the last hyphen is the position. -/
theorem positioned_inj {a b : String} {i j : Nat}
    (h : a ++ "-" ++ toString i = b ++ "-" ++ toString j) : i = j := by
  have hdigits : ∀ n, '-' ∉ (Nat.toDigits 10 n).reverse := by
    intro n hmem
    exact absurd (Nat.isDigit_of_mem_toDigits (by decide) (by decide) (List.mem_reverse.1 hmem))
      (by decide)
  have hlast : ∀ (c : String) n, Text.pieces '-' (c ++ "-" ++ toString n).toList.reverse =
      (Nat.toDigits 10 n).reverse :: Text.pieces '-' c.toList.reverse := by
    intro c n
    rw [← Text.pieces_append (hdigits n)]
    simp
  have hpieces := hlast a i
  rw [h, hlast b j] at hpieces
  have hsame : Nat.toDigits 10 j = Nat.toDigits 10 i :=
    List.reverse_injective (List.cons.inj hpieces).1
  apply Nat.repr_inj.1
  rw [Nat.repr_eq_ofList_toDigits, Nat.repr_eq_ofList_toDigits, hsame]

theorem positioned_ne_empty (a : String) (i : Nat) : a ++ "-" ++ toString i ≠ "" := by
  intro h
  simpa using congrArg String.toList h

variable {stem : EdgeSpec → String} {es : List EdgeSpec}

/-- The ids that were written are different. -/
def WrittenApart (es : List EdgeSpec) : Prop := es.Pairwise fun a b => a.id = b.id → a.id = ""

instance (es : List EdgeSpec) : Decidable (WrittenApart es) :=
  inferInstanceAs (Decidable (es.Pairwise _))

/-- The ids of edges when those without one were given one. -/
def filledIds (stem : EdgeSpec → String) (es : List EdgeSpec) : List String :=
  es.mapIdx fun i e => if e.id = "" then stem e ++ "-" ++ toString i else e.id

/-- An id that is made is also written. -/
def Clash (stem : EdgeSpec → String) (es : List EdgeSpec) : Prop :=
  ∃ (i : Nat) (e : EdgeSpec),
    es[i]? = some e ∧ e.id = "" ∧ stem e ++ "-" ++ toString i ∈ es.map EdgeSpec.id

theorem ne_empty_of_mem_filledIds {id : String} (h : id ∈ filledIds stem es) : id ≠ "" := by
  obtain ⟨i, hi, rfl⟩ := List.mem_mapIdx.1 h
  split
  · exact positioned_ne_empty _ i
  · next hid => exact hid

/-- The ids are different unless an id that was made was also written. -/
theorem nodup_filledIds_iff (h : WrittenApart es) :
    (filledIds stem es).Nodup ↔ ¬ Clash stem es := by
  have hget : ∀ i (hi : i < (filledIds stem es).length) (hi' : i < es.length),
      (filledIds stem es)[i] = if es[i].id = "" then stem es[i] ++ "-" ++ toString i
        else es[i].id := fun i _ _ => List.getElem_mapIdx
  have hlength : (filledIds stem es).length = es.length := List.length_mapIdx
  have happart := List.pairwise_iff_getElem.1 h
  constructor
  · rintro hnodup ⟨i, e, he, hblank, hmem⟩
    obtain ⟨hi, rfl⟩ := List.getElem?_eq_some_iff.1 he
    obtain ⟨e', he', hid⟩ := List.mem_map.1 hmem
    obtain ⟨j, hj, rfl⟩ := List.getElem_of_mem he'
    have hwritten : es[j].id ≠ "" := hid ▸ positioned_ne_empty _ i
    have hi' := hlength ▸ hi
    have hj' := hlength ▸ hj
    have hsame : (filledIds stem es)[i] = (filledIds stem es)[j] := by
      rw [hget i hi' hi, hget j hj' hj, if_pos hblank, if_neg hwritten, hid]
    obtain rfl := hnodup.getElem_inj_iff.1 hsame
    exact hwritten hblank
  · intro hclash
    refine List.pairwise_iff_getElem.2 fun i j hi hj hij hsame => ?_
    rw [hlength] at hi hj
    have hmade : ∀ {i j} (hi : i < es.length) (hj : j < es.length), es[i].id = "" →
        stem es[i] ++ "-" ++ toString i ≠ es[j].id := by
      intro i j hi hj hblank hid
      exact hclash ⟨i, es[i], List.getElem?_eq_getElem hi, hblank,
        by rw [hid]; exact List.mem_map_of_mem (List.getElem_mem hj)⟩
    rw [hget i _ hi, hget j _ hj] at hsame
    split at hsame
    · next hi' =>
      split at hsame
      · exact absurd (positioned_inj hsame) (Nat.ne_of_lt hij)
      · exact hmade hi hj hi' hsame
    · next hi' =>
      split at hsame
      · next hj' => exact hmade hj hi hj' hsame.symm
      · exact hi' (happart i j hi hj hij hsame)

/-! ### Workflows that are read -/

/-- The stem of an id that is made when a workflow is read. -/
def EdgeSpec.branchStem (e : EdgeSpec) : String := e.sourceHandle.getD e.source ++ "-" ++ e.target

/-- The stem of an id that is made when a selection is built. -/
def EdgeSpec.endsStem (e : EdgeSpec) : String := e.source ++ "-" ++ e.target

namespace Workflow

variable {format : Format} {s : String} {w : Workflow}

/-- A workflow as it is written in a text, with edges that may have no id. -/
def written? (format : Format) (s : String) : Option Workflow := match format with
  | .json => Json.readText? read? s
  | .yaml => Yaml.readText? outline read? s

theorem written?_json (s : String) : written? .json s =
    ((Json.tokens s.toList).bind Json.Tree.ofTokens).bind (Json.Tree.read? read?) := rfl

theorem parse?_eq (format : Format) (s : String) :
    parse? format s = (written? format s).map withEdgeIds := by
  cases format <;> rfl

theorem map_id_withEdgeIds (w : Workflow) :
    w.withEdgeIds.edges.map EdgeSpec.id = filledIds EdgeSpec.branchStem w.edges := by
  refine List.ext_getElem (by simp [withEdgeIds, filledIds]) fun i _ _ => ?_
  simp only [withEdgeIds, filledIds, List.getElem_map, List.getElem_mapIdx, EdgeSpec.withId]
  split <;> rfl

theorem id_ne_empty {e : EdgeSpec} (h : e ∈ w.withEdgeIds.edges) : e.id ≠ "" := by
  have hmem : e.id ∈ filledIds EdgeSpec.branchStem w.edges := by
    rw [← w.map_id_withEdgeIds]
    exact List.mem_map_of_mem h
  exact ne_empty_of_mem_filledIds hmem

theorem mem_edges_withEdgeIds {e : EdgeSpec} (h : e ∈ w.withEdgeIds.edges) :
    ∃ e' ∈ w.edges, e.source = e'.source ∧ e.target = e'.target := by
  obtain ⟨i, hi, rfl⟩ := List.mem_mapIdx.1 h
  refine ⟨w.edges[i], List.getElem_mem hi, ?_⟩
  unfold EdgeSpec.withId
  split <;> exact ⟨rfl, rfl⟩

end Workflow

namespace Graph

variable {ns : List Node} {edges : List Edge}

/-! ### Graphs that are built -/

/-- Nodes with different ids, and edges that lead from one of them to another one. -/
def WellPlaced (nodes : List NodeSpec) (es : List EdgeSpec) : Prop :=
  (nodes.map NodeSpec.id).Nodup ∧ ∀ e ∈ es, e.source ≠ e.target ∧
    e.source ∈ nodes.map NodeSpec.id ∧ e.target ∈ nodes.map NodeSpec.id

instance (nodes : List NodeSpec) (es : List EdgeSpec) : Decidable (WellPlaced nodes es) :=
  inferInstanceAs (Decidable (_ ∧ _))

theorem addEdge_eq_duplicateEdge {g : Graph} {e : Edge} {id : String}
    (h : g.addEdge e = .error (.duplicateEdge id)) : (g.edge? e.id).isSome ∧ id = e.id := by
  unfold addEdge at h
  split at h
  · next hthere =>
    simp only [Except.error.injEq, TaskError.duplicateEdge.injEq] at h
    exact ⟨hthere, h.symm⟩
  · split at h
    · cases h
    · split at h
      · cases h
      · split at h <;> cases h

/-- An edge is refused as a duplicate only if its id is repeated. -/
theorem duplicate_of_addAll {id : String}
    (h : addAll {} ns edges = .error (.duplicateEdge id)) :
    List.Duplicate id (edges.map Edge.id) := by
  rcases bind_eq_error.1 h with hnodes | ⟨g₁, hnodes, hedges⟩
  · obtain ⟨-, n, -, g', -, -, hn⟩ := foldlM_eq_error hnodes
    cases (addNode_eq_error hn).2
  · obtain ⟨before, e, after, g', rfl, hbefore, he⟩ := foldlM_eq_error hedges
    obtain ⟨hthere, rfl⟩ := addEdge_eq_duplicateEdge he
    obtain ⟨-, hmore⟩ := foldlM_addEdge hbefore
    obtain ⟨-, hnone⟩ := foldlM_addNode hnodes
    rw [edge?_isSome_iff, hmore, hnone] at hthere
    exact duplicate_of_mem (by simpa [Slots.newest] using hthere)

theorem exists_duplicateEdge (hnodes : (ns.map Node.id).Nodup)
    (hends : ∀ e ∈ edges, e.source ≠ e.target ∧ e.source ∈ ns.map Node.id ∧
      e.target ∈ ns.map Node.id) (hids : ¬ (edges.map Edge.id).Nodup) :
    ∃ id, addAll {} ns edges = .error (.duplicateEdge id) := by
  cases h : addAll {} ns edges with
  | ok g =>
    refine absurd ?_ hids
    have hnodup := (Built.empty.addAll _ _ h).wellFormed.nodup_edges
    rw [(addAll_eq_ok h).2, List.map_reverse, List.nodup_reverse, List.map_map] at hnodup
    simpa [Function.comp_def] using hnodup
  | error error =>
    rcases addAll_eq_error h hends with ⟨id, hid, -⟩ | ⟨id, -, rfl⟩
    · exact absurd hnodes hid.not_nodup
    · exact ⟨id, rfl⟩

variable {nodes : List NodeSpec} {es : List EdgeSpec} {globals : List GlobalVariable}
  {id : String}

theorem map_id_ofSpec (nodes : List NodeSpec) :
    (nodes.map Node.ofSpec).map Node.id = nodes.map NodeSpec.id := by
  rw [List.map_map]
  rfl

theorem checkAcyclic_ne_duplicateEdge (g : Graph) :
    g.checkAcyclic ≠ .error (.duplicateEdge id) := by
  unfold checkAcyclic order
  split <;> nofun

theorem ofWorkflow_eq_duplicateEdge {w : Workflow} :
    ofWorkflow w = .error (.duplicateEdge id) ↔
      addAll {} (w.nodes.map .ofSpec) (w.edges.map .ofSpec) = .error (.duplicateEdge id) := by
  unfold ofWorkflow
  rw [bind_eq_error, or_iff_left]
  rintro ⟨g, -, hg⟩
  cases hg

theorem ofSelection_eq_duplicateEdge : ofSelection nodes es globals = .error (.duplicateEdge id) ↔
    checkEnds (nodes.map NodeSpec.id) (es.map .ofSpec) = .ok () ∧
      addAll {} (nodes.map .ofSpec) (es.mapIdx fun i e => selectedEdge e i) =
        .error (.duplicateEdge id) := by
  unfold ofSelection
  rw [bind_eq_error, or_iff_right]
  · simp only [bind_eq_error, Unique.exists_iff, PUnit.default_eq_unit]
    refine and_congr_right fun _ => or_iff_left ?_
    rintro ⟨g, -, hacyclic | ⟨-, hpure⟩⟩
    · exact checkAcyclic_ne_duplicateEdge _ hacyclic
    · cases hpure
  · intro hends
    obtain ⟨text, htext⟩ := checkEnds_eq_error hends
    cases htext

theorem selectedEdge_id (e : EdgeSpec) (i : Nat) : (selectedEdge e i).id =
    if e.id = "" then e.endsStem ++ "-" ++ toString i else e.id := by
  by_cases hid : e.id = ""
  · rw [if_pos hid]
    exact congrArg Edge.id (if_pos hid)
  · rw [if_neg hid]
    exact congrArg Edge.id (if_neg hid)

theorem map_id_selectedEdge (es : List EdgeSpec) :
    (es.mapIdx fun i e => selectedEdge e i).map Edge.id = filledIds EdgeSpec.endsStem es := by
  refine List.ext_getElem (by simp [filledIds]) fun i _ _ => ?_
  simp only [filledIds, List.getElem_map, List.getElem_mapIdx, selectedEdge_id]

/-- Edges of a graph that stand for written ones: an id was made where there was none, and the ends
are the same. -/
structure Fills (stem : EdgeSpec → String) (es : List EdgeSpec) (edges : List Edge) : Prop where
  ids : edges.map Edge.id = filledIds stem es
  ends : ∀ e ∈ edges, ∃ e' ∈ es, e.source = e'.source ∧ e.target = e'.target

namespace Fills

theorem clash (h : Fills stem es edges) (happart : WrittenApart es)
    (herror : addAll {} ns edges = .error (.duplicateEdge id)) : Clash stem es := by
  have hduplicate := duplicate_of_addAll herror
  rw [h.ids] at hduplicate
  by_contra hclash
  exact hduplicate.not_nodup ((nodup_filledIds_iff happart).2 hclash)

theorem exists_duplicateEdge (h : Fills stem es edges) (happart : WrittenApart es)
    (hplaced : WellPlaced nodes es) (hclash : Clash stem es) :
    ∃ id, addAll {} (nodes.map .ofSpec) edges = .error (.duplicateEdge id) := by
  refine Graph.exists_duplicateEdge (by rw [map_id_ofSpec]; exact hplaced.1) (fun e he => ?_) ?_
  · obtain ⟨e', he', hsource, htarget⟩ := h.ends e he
    rw [hsource, htarget, map_id_ofSpec]
    exact hplaced.2 e' he'
  · rw [h.ids]
    exact fun hnodup => (nodup_filledIds_iff happart).1 hnodup hclash

end Fills

theorem fills_withEdgeIds (w : Workflow) :
    Fills EdgeSpec.branchStem w.edges (w.withEdgeIds.edges.map .ofSpec) := by
  constructor
  · rw [← w.map_id_withEdgeIds, List.map_map]
    rfl
  · intro e he
    obtain ⟨e', he', rfl⟩ := List.mem_map.1 he
    exact Workflow.mem_edges_withEdgeIds he'

theorem fills_selectedEdges (es : List EdgeSpec) :
    Fills EdgeSpec.endsStem es (es.mapIdx fun i e => selectedEdge e i) := by
  refine ⟨map_id_selectedEdge es, fun e he => ?_⟩
  obtain ⟨i, hi, rfl⟩ := List.mem_mapIdx.1 he
  refine ⟨es[i], List.getElem_mem hi, ?_⟩
  unfold selectedEdge
  dsimp only
  split <;> exact ⟨rfl, rfl⟩

/-- What can go wrong when edges are written without an id. Let the ids that were written, in a text
of any format and for the edges of a selection, be different from each other.

When the text is read, every edge has an id in the end, and the ids are all different exactly if no
id that was made is also written. The graph is refused for a repeated id of an edge only if one is,
and it is refused for that if nodes and edges are well placed. The same holds of the graph that is
built from the selection, where the ids are made from the ends of the edges. -/
theorem made_ids_clash_iff {format : Format} {s : String} {w : Workflow}
    (hread : Workflow.written? format s = some w) (happart : WrittenApart w.edges)
    (hselected : WrittenApart es) :
    (∃ w', Workflow.parse? format s = some w' ∧ (∀ e ∈ w'.edges, e.id ≠ "") ∧
      ((w'.edges.map EdgeSpec.id).Nodup ↔ ¬ Clash EdgeSpec.branchStem w.edges) ∧
      (∀ id, ofWorkflow w' = .error (.duplicateEdge id) → Clash EdgeSpec.branchStem w.edges) ∧
      (WellPlaced w.nodes w.edges → Clash EdgeSpec.branchStem w.edges →
        ∃ id, ofWorkflow w' = .error (.duplicateEdge id))) ∧
    (∀ id, ofSelection nodes es globals = .error (.duplicateEdge id) →
      Clash EdgeSpec.endsStem es) ∧
    (WellPlaced nodes es → Clash EdgeSpec.endsStem es →
      ∃ id, ofSelection nodes es globals = .error (.duplicateEdge id)) := by
  constructor
  · have hfills := fills_withEdgeIds w
    have hnodup : (w.withEdgeIds.edges.map EdgeSpec.id).Nodup ↔
        ¬ Clash EdgeSpec.branchStem w.edges := by
      rw [w.map_id_withEdgeIds, nodup_filledIds_iff happart]
    refine ⟨w.withEdgeIds, by rw [Workflow.parse?_eq, hread]; rfl,
      fun e => Workflow.id_ne_empty, hnodup, fun id herror => ?_, fun hplaced hclash => ?_⟩
    · exact hfills.clash happart (ofWorkflow_eq_duplicateEdge.1 herror)
    · simp only [ofWorkflow_eq_duplicateEdge]
      exact hfills.exists_duplicateEdge happart hplaced hclash
  · have hfills := fills_selectedEdges es
    refine ⟨fun id herror => ?_, fun hplaced hclash => ?_⟩
    · exact hfills.clash hselected (ofSelection_eq_duplicateEdge.1 herror).2
    · simp only [ofSelection_eq_duplicateEdge]
      have hends : checkEnds (nodes.map NodeSpec.id) (es.map .ofSpec) = .ok () := by
        refine checkEnds_eq_ok.2 fun e he => ?_
        obtain ⟨e', he', rfl⟩ := List.mem_map.1 he
        exact (hplaced.2 e' he').2
      obtain ⟨id, hid⟩ := hfills.exists_duplicateEdge hselected hplaced hclash
      exact ⟨id, hends, hid⟩

end Graph

namespace Sample

/-- Two edges between the same ends. One has an id that could have been made for the other one,
which has none. -/
def twins : Workflow where
  nodes := [{ id := "fetch", type := "script" }, { id := "report", type := "output" }]
  edges := [.new "fetch-report-1" "fetch" "report", .new "" "fetch" "report"]

/-- The lines of a text with these edges. -/
def twinsLines : List String := [
  "\x7b\"nodes\": [\x7b\"id\": \"fetch\", \"type\": \"script\"\x7d,",
  "  \x7b\"id\": \"report\", \"type\": \"output\"\x7d],",
  " \"edges\": [\x7b\"id\": \"fetch-report-1\",",
  "    \"source\": \"fetch\", \"target\": \"report\"\x7d,",
  "  \x7b\"source\": \"fetch\", \"target\": \"report\"\x7d]\x7d"]

def twinsText : String := String.ofList (twinsLines.flatMap String.toList)

theorem written_twinsText : Workflow.written? .json twinsText = some twins := by
  rw [Workflow.written?_json, twinsText, String.toList_ofList]
  decide +kernel

theorem writtenApart_twins : WrittenApart twins.edges := by decide

/-- The id that is made for the second edge is that of the first one, so the workflow cannot be
published, and the two edges cannot be selected together. -/
theorem made_ids_clash_iff_twins :
    Workflow.written? .json twinsText = some twins ∧ WrittenApart twins.edges ∧
      Graph.WellPlaced twins.nodes twins.edges ∧
      (∃ w, Workflow.parse? .json twinsText = some w ∧ ¬ (w.edges.map EdgeSpec.id).Nodup ∧
        ∃ id, Graph.ofWorkflow w = .error (.duplicateEdge id)) ∧
      ∃ id, Graph.ofSelection twins.nodes twins.edges [] = .error (.duplicateEdge id) := by
  have hplaced : Graph.WellPlaced twins.nodes twins.edges := by decide
  have hbranch : Clash EdgeSpec.branchStem twins.edges := ⟨1, _, rfl, rfl, by decide⟩
  have hends : Clash EdgeSpec.endsStem twins.edges := ⟨1, _, rfl, rfl, by decide⟩
  obtain ⟨⟨w, hw, -, hnodup, -, hrefused⟩, -, hpart⟩ :=
    Graph.made_ids_clash_iff written_twinsText writtenApart_twins writtenApart_twins
  exact ⟨written_twinsText, writtenApart_twins, hplaced,
    ⟨w, hw, fun h => hnodup.1 h hbranch, hrefused hplaced hbranch⟩, hpart hplaced hends⟩

/-- It is not so that ids that are made are new, neither when a text is read nor when a selection is
built. -/
theorem not_forall_made_ids_new :
    (¬ ∀ format s w, Workflow.written? format s = some w → WrittenApart w.edges →
      ∀ w', Workflow.parse? format s = some w' →
        (∀ e ∈ w'.edges, e.id ≠ "") ∧ (w'.edges.map EdgeSpec.id).Nodup) ∧
    ¬ ∀ nodes es globals, WrittenApart es →
      ∀ id, Graph.ofSelection nodes es globals ≠ .error (.duplicateEdge id) := by
  constructor
  · intro h
    have hparse : Workflow.parse? .json twinsText = some twins.withEdgeIds := by
      rw [Workflow.parse?_eq, written_twinsText]
      rfl
    obtain ⟨-, hnodup⟩ :=
      h .json twinsText twins written_twinsText writtenApart_twins _ hparse
    exact absurd hnodup (by decide)
  · intro h
    exact h twins.nodes twins.edges [] writtenApart_twins "fetch-report-1" (by cbv)

end Sample
end Flowrun
