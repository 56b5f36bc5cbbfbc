import Flowrun.Proofs.Task.Documents

/-!
# Snapshots and requests read again

Snapshots, parameters and requests are read from their own text as they were, up to the limit on
containers inside each other, and are refused beyond it (`documents_read_back`). Only free values
can be nested that deep. Those of a record stand inside three containers of the snapshot, and the
outputs of the task inside one (`Snapshot.depth_le_iff`).
-/

namespace Flowrun

open Json

/-! ### How deep the documents are -/

section Depth

variable {room : Nat}

@[simp] theorem NodeStatus.depth_tree (s : NodeStatus) : s.tree.depth = 0 := rfl

@[simp] theorem TaskStatus.depth_tree (s : TaskStatus) : s.tree.depth = 0 := rfl

@[simp] theorem ParamSource.depth_tree (s : ParamSource) : s.tree.depth = 0 := by cases s <;> rfl

theorem ErrorInfo.depth_le (e : ErrorInfo) : e.tree.depth ≤ room + 1 := by
  rw [e.tree_eq, FieldSlots.depth_le_iff]
  simp [FieldSlots.Fits, slots]

theorem ResumeTarget.depth_le (t : ResumeTarget) : t.tree.depth ≤ room + 1 := by
  rw [t.tree_eq, FieldSlots.depth_le_iff]
  simp [FieldSlots.Fits, slots]

theorem Record.depth_le_iff {r : Record} : r.tree.depth ≤ room + 2 ↔
    (Tree.ofValue r.input).depth ≤ room + 1 ∧ (Tree.ofValue r.output).depth ≤ room + 1 := by
  rw [r.tree_eq, FieldSlots.depth_le_iff]
  simp [FieldSlots.Fits, slots, ErrorInfo.depth_le, Tree.depth_strings_le]

theorem Snapshot.depth_le_iff {p : Snapshot} : p.tree.depth ≤ room + 4 ↔
    (∀ r ∈ p.records, (Tree.ofValue r.input).depth ≤ room + 1 ∧
      (Tree.ofValue r.output).depth ≤ room + 1) ∧
    (Tree.ofValue p.outputs).depth ≤ room + 3 := by
  rw [p.tree_eq, FieldSlots.depth_le_iff]
  simp [FieldSlots.Fits, slots, ResumeTarget.depth_le, Tree.depth_array_le_iff, Record.depth_le_iff]

theorem RunParam.depth_le_iff {p : RunParam} :
    p.tree.depth ≤ room + 1 ↔ (Tree.ofValue p.value).depth ≤ room := by
  rw [p.tree_eq, FieldSlots.depth_le_iff]
  simp [FieldSlots.Fits, slots]

theorem CreateRequest.depth_le_iff {r : CreateRequest} :
    r.tree.depth ≤ room + 3 ↔ ∀ p ∈ r.inputs, (Tree.ofValue p.value).depth ≤ room := by
  rw [tree, Tree.depth_object_le_iff]
  simp [Tree.depth_array_le_iff, RunParam.depth_le_iff]

theorem ResumeRequest.depth_le_iff {r : ResumeRequest} :
    r.tree.depth ≤ room + 3 ↔ ∀ p ∈ r.params, (Tree.ofValue p.value).depth ≤ room := by
  rw [tree, Tree.depth_object_le_iff]
  simp [Tree.depth_array_le_iff, RunParam.depth_le_iff]

end Depth

/-! ### Reading again -/

/-- The free values of a snapshot. -/
def Snapshot.values (p : Snapshot) : List Value :=
  p.outputs :: p.records.flatMap fun r => [r.input, r.output]

theorem Snapshot.legible_of_sorted {p : Snapshot} (hsorted : ∀ v ∈ p.values, v.Sorted)
    (hcreated : p.createdAt.ReadsBack) (hupdated : p.updatedAt.ReadsBack) :
    Legible read? tree p := by
  obtain ⟨houtputs, hrecords⟩ := List.forall_mem_cons.1 hsorted
  refine legible (fun r hr => ?_) houtputs hcreated hupdated
  have hvalues : ∀ v ∈ [r.input, r.output], v.Sorted :=
    fun v hv => hrecords v (List.mem_flatMap.2 ⟨r, hr, hv⟩)
  exact ⟨hvalues _ List.mem_cons_self, hvalues _ (List.mem_cons_of_mem _ List.mem_cons_self)⟩

/-- Snapshots, parameters and requests are read from their own text as they were if no more
containers than the limit stand inside each other in it, and are refused otherwise. The instants
have to read back, and so have the numbers; all integers of 64 bits do. -/
theorem documents_read_back :
    (∀ p : Snapshot, (∀ v ∈ p.values, v.Sorted) → p.createdAt.ReadsBack → p.updatedAt.ReadsBack →
      (∀ n ∈ p.tree.numbers, n.ReadsBack) →
      readText? Snapshot.read? p.tree.text =
        if p.tree.depth ≤ depthLimit then some p else none) ∧
    (∀ p : RunParam, p.value.Sorted → (∀ n ∈ p.tree.numbers, n.ReadsBack) →
      readText? RunParam.read? p.tree.text =
        if p.tree.depth ≤ depthLimit then some p else none) ∧
    (∀ r : CreateRequest, (∀ p ∈ r.inputs, p.value.Sorted) →
      (∀ n ∈ r.tree.numbers, n.ReadsBack) →
      readText? CreateRequest.read? r.tree.text =
        if r.tree.depth ≤ depthLimit then some r else none) ∧
    (∀ r : ResumeRequest, (∀ p ∈ r.params, p.value.Sorted) →
      (∀ n ∈ r.tree.numbers, n.ReadsBack) →
      readText? ResumeRequest.read? r.tree.text =
        if r.tree.depth ≤ depthLimit then some r else none) := by
  refine ⟨fun p hsorted hcreated hupdated hnumbers => ?_, fun p hsorted hnumbers => ?_,
    fun r hsorted hnumbers => ?_, fun r hsorted hnumbers => ?_⟩
  · exact (Snapshot.legible_of_sorted hsorted hcreated hupdated).readText?_eq hnumbers
  · exact (RunParam.legible hsorted).readText?_eq hnumbers
  · exact (CreateRequest.legible hsorted).readText?_eq hnumbers
  · exact (ResumeRequest.legible hsorted).readText?_eq hnumbers

namespace Sample

/-- A quarter of a second into a leap second. -/
def leap : Instant := ⟨1483228799, 1250000000⟩

/-- What a node waits to be told. -/
def question : Value := .object [("a", .null), ("b", .array [.bool true, .string "\"\n"])]

/-- A paused task with a nested record, a failed one, and free values of all kinds. -/
def paused : Snapshot where
  task := "t"
  app := "app"
  version := some "1.0"
  conversation := "talk"
  request := "request"
  status := .paused
  resumeTarget := some ⟨"ask", some "loop"⟩
  records := [
    { node := "ask", type := "input", parent := some "loop", status := .pause,
      input := question },
    { node := "fetch", name := "Fetch", type := "script", status := .fail,
      error := some ⟨"timeout", "too slow"⟩, branches := ["yes", ""], execTimeMs := 30000,
      revision := 2, output := .number (.real ⟨false, 6755399441055744, -52⟩) }]
  error := some ""
  outputs := .array [.object [], .number (.integer 18446744073709551615)]
  revision := 3
  createdAt := ⟨0, 0⟩
  updatedAt := leap

/-- A parameter without a type, for the system. -/
def answer : RunParam := .sys "answer" (.object [("n", .number (.integer (-7)))])

def asking : CreateRequest where
  app := "app"
  conversation := some "talk"
  inputs := [answer, { key := "note", type := some "text" }]

def answering : ResumeRequest where
  task := "t"
  node := "ask"
  parent := some ""
  params := [answer]

theorem sorted_question : question.Sorted := by
  have hkeys : Dict.Ascending question.fields := by
    unfold Dict.Ascending
    decide
  exact ⟨hkeys, by simp [Value.SortedFields, Value.SortedItems, Value.Sorted]⟩

theorem sorted_paused : ∀ v ∈ paused.values, v.Sorted := by
  simp [paused, Snapshot.values, sorted_question, Value.Sorted, Value.SortedItems,
    Value.SortedFields, Dict.Ascending]

theorem sorted_answer : answer.value.Sorted := by
  simp [answer, RunParam.sys, Value.Sorted, Value.SortedFields, Dict.Ascending]

theorem sorted_asking : ∀ p ∈ asking.inputs, p.value.Sorted := by
  simp [asking, sorted_answer, Value.Sorted]

theorem sorted_answering : ∀ p ∈ answering.params, p.value.Sorted := by
  simp [answering, sorted_answer]

set_option maxRecDepth 20000 in
theorem readsBack_of_paused :
    paused.createdAt.ReadsBack ∧ paused.updatedAt.ReadsBack ∧
      ∀ n ∈ paused.tree.numbers, n.ReadsBack := by
  unfold Instant.ReadsBack
  decide +kernel

/-- All four samples are read again. -/
theorem documents_read_back_samples :
    readText? Snapshot.read? paused.tree.text = some paused ∧
      readText? RunParam.read? answer.tree.text = some answer ∧
      readText? CreateRequest.read? asking.tree.text = some asking ∧
      readText? ResumeRequest.read? answering.tree.text = some answering := by
  obtain ⟨hsnapshot, hparam, hcreate, hresume⟩ := documents_read_back
  obtain ⟨hcreated, hupdated, hnumbers⟩ := readsBack_of_paused
  refine ⟨?_, ?_, ?_, ?_⟩
  · rw [hsnapshot paused sorted_paused hcreated hupdated hnumbers]
    exact if_pos (by decide)
  · rw [hparam answer sorted_answer (by decide +kernel)]
    exact if_pos (by decide)
  · rw [hcreate asking sorted_asking (by decide +kernel)]
    exact if_pos (by decide)
  · rw [hresume answering sorted_answering (by decide +kernel)]
    exact if_pos (by decide)

/-- Null inside as many arrays. -/
def nested : Nat → Value
  | 0 => .null
  | n + 1 => .array [nested n]

theorem sorted_nested (n : Nat) : (nested n).Sorted := by
  induction n with
  | zero => trivial
  | succ n ih => exact ⟨ih, trivial⟩

theorem depth_nested (n : Nat) : (Tree.ofValue (nested n)).depth = n := by
  induction n with
  | zero => rfl
  | succ n ih =>
    rw [nested, Tree.ofValue, Tree.ofItems, Tree.ofItems, Tree.depth, Tree.itemDepth,
      Tree.itemDepth, ih, Nat.max_zero]

/-- A task whose outputs are nested deeper than can be read inside a snapshot. -/
def deep : Snapshot where
  task := "t"
  app := "app"
  conversation := "talk"
  request := "request"
  status := .success
  records := []
  outputs := nested 127
  revision := 1
  createdAt := ⟨0, 0⟩
  updatedAt := ⟨0, 0⟩

theorem sorted_deep : ∀ v ∈ deep.values, v.Sorted :=
  List.forall_mem_singleton.2 (sorted_nested 127)

set_option maxRecDepth 20000 in
theorem readsBack_of_deep :
    deep.createdAt.ReadsBack ∧ deep.updatedAt.ReadsBack ∧
      ∀ n ∈ deep.tree.numbers, n.ReadsBack := by
  unfold Instant.ReadsBack
  decide +kernel

/-- A snapshot with nothing wrong but its depth is not read again. -/
theorem deep_is_refused :
    (∀ v ∈ deep.values, v.Sorted) ∧
      (deep.createdAt.ReadsBack ∧ deep.updatedAt.ReadsBack ∧
        ∀ n ∈ deep.tree.numbers, n.ReadsBack) ∧
      readText? Snapshot.read? deep.tree.text = none := by
  obtain ⟨hcreated, hupdated, hnumbers⟩ := readsBack_of_deep
  refine ⟨sorted_deep, readsBack_of_deep, ?_⟩
  rw [(Snapshot.legible_of_sorted sorted_deep hcreated hupdated).readText?_eq hnumbers]
  refine if_neg fun hdepth => ?_
  -- of the 127 containers, the snapshot itself leaves 126
  have houtputs : (Tree.ofValue (nested 127)).depth ≤ 126 := (Snapshot.depth_le_iff.1 hdepth).2
  rw [depth_nested] at houtputs
  exact absurd houtputs (by decide)

end Sample
end Flowrun
