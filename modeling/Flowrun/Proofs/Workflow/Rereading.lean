import Flowrun.Proofs.Graph.EdgeIds
import Flowrun.Proofs.Workflow.Documents

/-!
# Workflows read again

What was read from a text is written in full: nothing is left to a default, every field has the
first of its spellings, and every edge has an id. So a workflow that was read is read again from its
own text, and the same graph is built from it (`parse?_text_tree`).

Only a double precision number can stand in the way, since not all of them read back.
-/

namespace Flowrun

open Json

namespace Workflow

theorem withEdgeIds_eq_self {w : Workflow} (h : ∀ e ∈ w.edges, e.id ≠ "") : w.withEdgeIds = w := by
  have hedges : w.edges.mapIdx (fun i e => e.withId i) = w.edges := by
    refine List.ext_getElem List.length_mapIdx fun i _ hi => ?_
    rw [List.getElem_mapIdx, EdgeSpec.withId, if_neg (h _ (List.getElem_mem hi))]
  rw [withEdgeIds, hedges]

/-- A workflow that was read from a text is read again from its own text, and the same graph is
built from it or the same error refuses it. The double precision numbers of the workflow have to
read back; the integers do. -/
theorem parse?_text_tree {s : String} {w : Workflow} (h : parse? .json s = some w)
    (hreal : ∀ x, .real x ∈ w.tree.numbers → (Number.real x).ReadsBack) :
    parse? .json w.tree.text = some w ∧
      (parse? .json w.tree.text).map Graph.ofWorkflow = (parse? .json s).map Graph.ofWorkflow := by
  rw [parse?_eq] at h
  obtain ⟨written, hwritten, rfl⟩ := Option.map_eq_some_iff.1 h
  obtain ⟨t, ht, hread⟩ := Option.bind_eq_some_iff.1 hwritten
  have hback : ComesBack read? tree depthLimit t.numbers written.withEdgeIds :=
    comesBack_withEdges (by decide) hread _
  have hnumbers : ∀ n ∈ written.withEdgeIds.tree.numbers, n.ReadsBack := by
    intro n hn
    cases n with
    | integer n =>
      exact Number.readsBack_integer (Tree.inRange_of_ofText ht (hback.plain.numbers hn))
    | real x => exact hreal x hn
  have hagain : parse? .json written.withEdgeIds.tree.text = some written.withEdgeIds := by
    rw [parse?_eq, written?, hback.readText? hnumbers, Option.map_some,
      withEdgeIds_eq_self fun e => id_ne_empty]
  exact ⟨hagain, by rw [hagain, parse?_eq, h]⟩

end Workflow

namespace Sample

/-- The lines of a text that uses second spellings, gives fields by their position, leaves out
defaults and ids, and repeats a key of a free value. -/
def draftLines : List String := [
  "\x7b\"nodes\": [",
  "  \x7b\"id\": \"begin\", \"type\": \"start\", \"config\": \x7b\"output_params\": [",
  "    \x7b\"key\": \"rows\", \"desc\": \"how many\", \"required\": true\x7d]\x7d\x7d,",
  "  \x7b\"type\": \"script\", \"id\": \"fetch\", \"config\": \x7b",
  "    \"input_params\": [",
  "      \x7b\"key\": \"n\", \"value_from\": \x7b\"refer\": null\x7d,",
  "        \"value\": \"$\x7bbegin.rows\x7d\"\x7d,",
  "      \x7b\"key\": \"rate\", \"type\": null, \"value\": 1.50\x7d],",
  "    \"node_param\": \x7b\"b\": [-3, 2e3], \"a\": \"\\u00e9\\n\", \"a\": null\x7d\x7d\x7d],",
  " \"edges\": [[\"\", \"begin\", null, \"fetch\", null]]\x7d"]

def draftText : String := String.ofList (draftLines.flatMap String.toList)

/-- One and a half. -/
def rate : Decimal.Binary64 := ⟨false, 6755399441055744, -52⟩

/-- Two thousand. -/
def limit : Decimal.Binary64 := ⟨false, 8796093022208000, -42⟩

/-- The workflow that the text stands for. -/
def draft : Workflow where
  nodes := [
    { id := "begin", type := "start",
      config.outputs := [{ key := "rows", description := "how many", required := true }] },
    { id := "fetch", type := "script",
      config.inputs := [
        { key := "n", valueFrom := .refer, value := some (.string "$\x7bbegin.rows\x7d") },
        { key := "rate", value := some (.number (.real rate)) }],
      config.param := .object [("a", .null), ("b", .array [.number (.integer (-3)),
        .number (.real limit)])] }]
  edges := [.new "begin-fetch-0" "begin" "fetch"]

set_option maxRecDepth 20000 in
theorem readsBack_of_draft : ∀ x ∈ [rate, limit], (Number.real x).ReadsBack := by
  decide +kernel

/-- Both numbers with double precision read back, so the workflow is read again from its own
text. -/
theorem parse?_text_tree_draft :
    Workflow.parse? .json draftText = some draft ∧
      (∀ x, .real x ∈ draft.tree.numbers → (Number.real x).ReadsBack) ∧
      Workflow.parse? .json draft.tree.text = some draft := by
  have hparse : Workflow.parse? .json draftText = some draft := by
    rw [Workflow.parse?_eq, Workflow.written?_json, draftText, String.toList_ofList]
    decide +kernel
  have hnumbers : draft.tree.numbers = [.real rate, .integer (-3), .real limit] := rfl
  have hreal : ∀ x, .real x ∈ draft.tree.numbers → (Number.real x).ReadsBack := by
    intro x hx
    refine readsBack_of_draft x ?_
    simpa [hnumbers] using hx
  exact ⟨hparse, hreal, (Workflow.parse?_text_tree hparse hreal).1⟩

end Sample
end Flowrun
