import Flowrun.Proofs.Source.Depth
import Flowrun.Task.Request

/-!
# Documents of tasks and requests

A snapshot of a task, with all its records, and the requests of callers are `Legible`: nothing but
the depth of their documents can keep them from being read back. What is assumed of them is that the
objects in their free values have their fields in order, and that their instants read back.

Beside each type stand the `slots` of its document, with the fields that are written, and
`read?_eq_some`, with the fields that its reader asks for.
-/

namespace Flowrun

open Json

variable {v : Spot}

/-! ### Statuses and instants -/

theorem NodeStatus.legible (s : NodeStatus) : Legible read? tree s :=
  .of_depth_eq_zero rfl trivial fun _ => by cases s <;> rfl

theorem TaskStatus.legible (s : TaskStatus) : Legible read? tree s :=
  .of_depth_eq_zero rfl trivial fun _ => by cases s <;> rfl

/-- An instant that is read from its own text. -/
def Instant.ReadsBack (t : Instant) : Prop := ofText? t.text = some t

theorem Instant.ReadsBack.legible {t : Instant} (h : t.ReadsBack) :
    Legible Snapshot.readInstant? (fun t => .string t.text) t :=
  .of_depth_eq_zero rfl trivial fun _ => by
    rw [Snapshot.readInstant?, Spot.text?, Option.bind_some, h]

/-! ### Records -/

namespace ErrorInfo

def names : List FieldName := ["code", "message"]

def slots (e : ErrorInfo) : FieldSlots :=
  [("code", some (.string e.code)), ("message", some (.string e.message))]

theorem read?_eq_some {e : ErrorInfo} : read? v = some e ↔
    ∃ fs, Source.fields? names v = some fs ∧
      fs.required "code" Source.text? = some e.code ∧
      fs.required "message" Source.text? = some e.message := by
  simp only [read?, ↓do_eq_some_iff, Option.pure_def, Option.some.injEq]
  constructor
  · rintro ⟨fs, hfs, _, hcode, _, hmessage, rfl⟩
    exact ⟨fs, hfs, hcode, hmessage⟩
  · rintro ⟨fs, hfs, hcode, hmessage⟩
    exact ⟨fs, hfs, _, hcode, _, hmessage, rfl⟩

theorem tree_eq (e : ErrorInfo) : e.tree = .object e.slots.fields := rfl

theorem legible (e : ErrorInfo) : Legible read? tree e := by
  have hkeys : (e.slots.map Prod.fst).Nodup := (by decide : (names.map FieldName.name).Nodup)
  have hcode : LegibleField e.slots _ (·.required "code" Source.text?) _ :=
    .required hkeys (.text e.code) rfl
  have hmessage : LegibleField e.slots _ (·.required "message" Source.text?) _ :=
    .required hkeys (.text e.message) rfl
  refine .object read?_eq_some e.tree_eq (by decide) rfl ?_ ?_ ⟨hcode.solid, hmessage.solid⟩
  · intro room h
    exact ⟨hcode.read_eq h, hmessage.read_eq h⟩
  · rintro room y ⟨h₁, h₂⟩
    exact ⟨hcode.depth_le h₁, hmessage.depth_le h₂⟩

end ErrorInfo

namespace Record

def names : List FieldName := ["node_id", "node_name", "node_type", "parent_node_id", "status",
  "input", "output", "error_info", "selected_branches", "exec_time_ms", "revision"]

def slots (r : Record) : FieldSlots := [
  ("node_id", some (.string r.node)), ("node_name", some (.string r.name)),
  ("node_type", some (.string r.type)), ("parent_node_id", r.parent.map .string),
  ("status", some r.status.tree), ("input", some (.ofValue r.input)),
  ("output", some (.ofValue r.output)), ("error_info", r.error.map ErrorInfo.tree),
  ("selected_branches", if r.branches = [] then none else some (.strings r.branches)),
  ("exec_time_ms", some (.count r.execTimeMs)), ("revision", some (.count r.revision))]

theorem tree_eq (r : Record) : r.tree = .object r.slots.fields := by
  simp only [tree, slots, FieldSlots.fields_cons, FieldSlots.fields_nil, Tree.field?,
    List.append_assoc, List.cons_append, List.nil_append, List.append_nil]

theorem read?_eq_some {r : Record} : read? v = some r ↔
    ∃ fs, Source.fields? names v = some fs ∧
      fs.required "node_id" Source.text? = some r.node ∧
      fs.defaulted "node_name" Source.text? "" = some r.name ∧
      fs.required "node_type" Source.text? = some r.type ∧
      fs.optional "parent_node_id" Source.text? = some r.parent ∧
      fs.required "status" NodeStatus.read? = some r.status ∧
      fs.defaulted "input" Source.value? .null = some r.input ∧
      fs.defaulted "output" Source.value? .null = some r.output ∧
      fs.optional "error_info" ErrorInfo.read? = some r.error ∧
      fs.defaulted "selected_branches" (Source.list? Source.text?) [] = some r.branches ∧
      fs.defaulted "exec_time_ms" Spot.count? 0 = some r.execTimeMs ∧
      fs.defaulted "revision" Spot.count? 0 = some r.revision := by
  simp only [read?, ↓do_eq_some_iff, Option.pure_def, Option.some.injEq]
  constructor
  · rintro ⟨fs, hfs, _, hnode, _, hname, _, htype, _, hparent, _, hstatus, _, hinput, _, houtput,
      _, herror, _, hbranches, _, htime, _, hrevision, rfl⟩
    exact ⟨fs, hfs, hnode, hname, htype, hparent, hstatus, hinput, houtput, herror, hbranches,
      htime, hrevision⟩
  · rintro ⟨fs, hfs, hnode, hname, htype, hparent, hstatus, hinput, houtput, herror, hbranches,
      htime, hrevision⟩
    exact ⟨fs, hfs, _, hnode, _, hname, _, htype, _, hparent, _, hstatus, _, hinput, _, houtput,
      _, herror, _, hbranches, _, htime, _, hrevision, rfl⟩

theorem legible {r : Record} (hsorted : r.input.Sorted ∧ r.output.Sorted) :
    Legible read? tree r := by
  have hkeys : (r.slots.map Prod.fst).Nodup := (by decide : (names.map FieldName.name).Nodup)
  have hnode : LegibleField r.slots _ (·.required "node_id" Source.text?) _ :=
    .required hkeys (.text r.node) rfl
  have hname : LegibleField r.slots _ (·.defaulted "node_name" Source.text? "") _ :=
    .defaulted hkeys (.text r.name) rfl
  have htype : LegibleField r.slots _ (·.required "node_type" Source.text?) _ :=
    .required hkeys (.text r.type) rfl
  have hparent : LegibleField r.slots _ (·.optional "parent_node_id" Source.text?) r.parent :=
    .optional hkeys (fun s _ => ⟨.text s, nofun⟩) rfl
  have hstatus : LegibleField r.slots _ (·.required "status" NodeStatus.read?) _ :=
    .required hkeys r.status.legible rfl
  have hinput : LegibleField r.slots _ (·.defaulted "input" Source.value? .null) _ :=
    .defaulted hkeys (.value hsorted.1) rfl
  have houtput : LegibleField r.slots _ (·.defaulted "output" Source.value? .null) _ :=
    .defaulted hkeys (.value hsorted.2) rfl
  have herror : LegibleField r.slots _ (·.optional "error_info" ErrorInfo.read?) r.error :=
    .optional hkeys (fun e _ => ⟨e.legible, nofun⟩) rfl
  -- no branches are written as no field, and no field is read as no branches
  have hbranches : LegibleField r.slots _
      (·.defaulted "selected_branches" (Source.list? Source.text?) []) r.branches :=
    .unless_default hkeys (.list fun s _ => .text s) rfl
  have htime : LegibleField r.slots _ (·.defaulted "exec_time_ms" Spot.count? 0) _ :=
    .defaulted hkeys (.count r.execTimeMs) rfl
  have hrevision : LegibleField r.slots _ (·.defaulted "revision" Spot.count? 0) _ :=
    .defaulted hkeys (.count r.revision) rfl
  refine .object read?_eq_some r.tree_eq (by decide) rfl ?_ ?_
    ⟨hnode.solid, hname.solid, htype.solid, hparent.solid, hstatus.solid, hinput.solid,
      houtput.solid, herror.solid, hbranches.solid, htime.solid, hrevision.solid⟩
  · intro room h
    exact ⟨hnode.read_eq h, hname.read_eq h, htype.read_eq h, hparent.read_eq h, hstatus.read_eq h,
      hinput.read_eq h, houtput.read_eq h, herror.read_eq h, hbranches.read_eq h, htime.read_eq h,
      hrevision.read_eq h⟩
  · rintro room y ⟨h₁, h₂, h₃, h₄, h₅, h₆, h₇, h₈, h₉, h₁₀, h₁₁⟩
    exact ⟨hnode.depth_le h₁, hname.depth_le h₂, htype.depth_le h₃, hparent.depth_le h₄,
      hstatus.depth_le h₅, hinput.depth_le h₆, houtput.depth_le h₇, herror.depth_le h₈,
      hbranches.depth_le h₉, htime.depth_le h₁₀, hrevision.depth_le h₁₁⟩

end Record

/-! ### Snapshots -/

namespace ResumeTarget

def names : List FieldName := ["node_id", "parent_node_id"]

def slots (t : ResumeTarget) : FieldSlots :=
  [("node_id", some (.string t.node)), ("parent_node_id", t.parent.map .string)]

theorem tree_eq (t : ResumeTarget) : t.tree = .object t.slots.fields := by
  simp only [tree, slots, FieldSlots.fields_cons, FieldSlots.fields_nil, Tree.field?,
    List.cons_append, List.nil_append, List.append_nil]

theorem read?_eq_some {t : ResumeTarget} : read? v = some t ↔
    ∃ fs, Source.fields? names v = some fs ∧
      fs.required "node_id" Source.text? = some t.node ∧
      fs.optional "parent_node_id" Source.text? = some t.parent := by
  simp only [read?, ↓do_eq_some_iff, Option.pure_def, Option.some.injEq]
  constructor
  · rintro ⟨fs, hfs, _, hnode, _, hparent, rfl⟩
    exact ⟨fs, hfs, hnode, hparent⟩
  · rintro ⟨fs, hfs, hnode, hparent⟩
    exact ⟨fs, hfs, _, hnode, _, hparent, rfl⟩

theorem legible (t : ResumeTarget) : Legible read? tree t := by
  have hkeys : (t.slots.map Prod.fst).Nodup := (by decide : (names.map FieldName.name).Nodup)
  have hnode : LegibleField t.slots _ (·.required "node_id" Source.text?) _ :=
    .required hkeys (.text t.node) rfl
  have hparent : LegibleField t.slots _ (·.optional "parent_node_id" Source.text?) t.parent :=
    .optional hkeys (fun s _ => ⟨.text s, nofun⟩) rfl
  refine .object read?_eq_some t.tree_eq (by decide) rfl ?_ ?_ ⟨hnode.solid, hparent.solid⟩
  · intro room h
    exact ⟨hnode.read_eq h, hparent.read_eq h⟩
  · rintro room y ⟨h₁, h₂⟩
    exact ⟨hnode.depth_le h₁, hparent.depth_le h₂⟩

end ResumeTarget

namespace Snapshot

def names : List FieldName := ["task_id", "app_id", "version", "conversation_id", "request_id",
  "status", "resume_target", "records", "error_info", "outputs", "revision", "created_at",
  "updated_at"]

def slots (p : Snapshot) : FieldSlots := [
  ("task_id", some (.string p.task)), ("app_id", some (.string p.app)),
  ("version", p.version.map .string), ("conversation_id", some (.string p.conversation)),
  ("request_id", some (.string p.request)), ("status", some p.status.tree),
  ("resume_target", p.resumeTarget.map ResumeTarget.tree),
  ("records", some (.array (p.records.map Record.tree))), ("error_info", p.error.map .string),
  ("outputs", some (.ofValue p.outputs)), ("revision", some (.count p.revision)),
  ("created_at", some (.string p.createdAt.text)), ("updated_at", some (.string p.updatedAt.text))]

theorem tree_eq (p : Snapshot) : p.tree = .object p.slots.fields := by
  simp only [tree, slots, FieldSlots.fields_cons, FieldSlots.fields_nil, Tree.field?,
    List.append_assoc, List.cons_append, List.nil_append, List.append_nil]

theorem read?_eq_some {p : Snapshot} : read? v = some p ↔
    ∃ fs, Source.fields? names v = some fs ∧
      fs.required "task_id" Source.text? = some p.task ∧
      fs.required "app_id" Source.text? = some p.app ∧
      fs.optional "version" Source.text? = some p.version ∧
      fs.required "conversation_id" Source.text? = some p.conversation ∧
      fs.required "request_id" Source.text? = some p.request ∧
      fs.required "status" TaskStatus.read? = some p.status ∧
      fs.optional "resume_target" ResumeTarget.read? = some p.resumeTarget ∧
      fs.required "records" (Source.list? Record.read?) = some p.records ∧
      fs.optional "error_info" Source.text? = some p.error ∧
      fs.defaulted "outputs" Source.value? .null = some p.outputs ∧
      fs.required "revision" Spot.count? = some p.revision ∧
      fs.required "created_at" readInstant? = some p.createdAt ∧
      fs.required "updated_at" readInstant? = some p.updatedAt := by
  simp only [read?, ↓do_eq_some_iff, Option.pure_def, Option.some.injEq]
  constructor
  · rintro ⟨fs, hfs, _, htask, _, happ, _, hversion, _, hconversation, _, hrequest, _, hstatus, _,
      htarget, _, hrecords, _, herror, _, houtputs, _, hrevision, _, hcreated, _, hupdated, rfl⟩
    exact ⟨fs, hfs, htask, happ, hversion, hconversation, hrequest, hstatus, htarget, hrecords,
      herror, houtputs, hrevision, hcreated, hupdated⟩
  · rintro ⟨fs, hfs, htask, happ, hversion, hconversation, hrequest, hstatus, htarget, hrecords,
      herror, houtputs, hrevision, hcreated, hupdated⟩
    exact ⟨fs, hfs, _, htask, _, happ, _, hversion, _, hconversation, _, hrequest, _, hstatus, _,
      htarget, _, hrecords, _, herror, _, houtputs, _, hrevision, _, hcreated, _, hupdated, rfl⟩

theorem legible {p : Snapshot} (hrecords : ∀ r ∈ p.records, r.input.Sorted ∧ r.output.Sorted)
    (houtputs : p.outputs.Sorted) (hcreated : p.createdAt.ReadsBack)
    (hupdated : p.updatedAt.ReadsBack) : Legible read? tree p := by
  have hkeys : (p.slots.map Prod.fst).Nodup := (by decide : (names.map FieldName.name).Nodup)
  have htask : LegibleField p.slots _ (·.required "task_id" Source.text?) _ :=
    .required hkeys (.text p.task) rfl
  have happ : LegibleField p.slots _ (·.required "app_id" Source.text?) _ :=
    .required hkeys (.text p.app) rfl
  have hversion : LegibleField p.slots _ (·.optional "version" Source.text?) p.version :=
    .optional hkeys (fun s _ => ⟨.text s, nofun⟩) rfl
  have hconversation : LegibleField p.slots _ (·.required "conversation_id" Source.text?) _ :=
    .required hkeys (.text p.conversation) rfl
  have hrequest : LegibleField p.slots _ (·.required "request_id" Source.text?) _ :=
    .required hkeys (.text p.request) rfl
  have hstatus : LegibleField p.slots _ (·.required "status" TaskStatus.read?) _ :=
    .required hkeys p.status.legible rfl
  have htarget : LegibleField p.slots _ (·.optional "resume_target" ResumeTarget.read?)
      p.resumeTarget :=
    .optional hkeys (fun t _ => ⟨t.legible, nofun⟩) rfl
  have hrecords : LegibleField p.slots _ (·.required "records" (Source.list? Record.read?)) _ :=
    .required hkeys (.list fun r hr => Record.legible (hrecords r hr)) rfl
  have herror : LegibleField p.slots _ (·.optional "error_info" Source.text?) p.error :=
    .optional hkeys (fun s _ => ⟨.text s, nofun⟩) rfl
  have houtputs : LegibleField p.slots _ (·.defaulted "outputs" Source.value? .null) _ :=
    .defaulted hkeys (.value houtputs) rfl
  have hrevision : LegibleField p.slots _ (·.required "revision" Spot.count?) _ :=
    .required hkeys (.count p.revision) rfl
  have hcreated : LegibleField p.slots _ (·.required "created_at" readInstant?) _ :=
    .required hkeys hcreated.legible rfl
  have hupdated : LegibleField p.slots _ (·.required "updated_at" readInstant?) _ :=
    .required hkeys hupdated.legible rfl
  refine .object read?_eq_some p.tree_eq (by decide) rfl ?_ ?_
    ⟨htask.solid, happ.solid, hversion.solid, hconversation.solid, hrequest.solid, hstatus.solid,
      htarget.solid, hrecords.solid, herror.solid, houtputs.solid, hrevision.solid, hcreated.solid,
      hupdated.solid⟩
  · intro room h
    exact ⟨htask.read_eq h, happ.read_eq h, hversion.read_eq h, hconversation.read_eq h,
      hrequest.read_eq h, hstatus.read_eq h, htarget.read_eq h, hrecords.read_eq h,
      herror.read_eq h, houtputs.read_eq h, hrevision.read_eq h, hcreated.read_eq h,
      hupdated.read_eq h⟩
  · rintro room y ⟨h₁, h₂, h₃, h₄, h₅, h₆, h₇, h₈, h₉, h₁₀, h₁₁, h₁₂, h₁₃⟩
    exact ⟨htask.depth_le h₁, happ.depth_le h₂, hversion.depth_le h₃, hconversation.depth_le h₄,
      hrequest.depth_le h₅, hstatus.depth_le h₆, htarget.depth_le h₇, hrecords.depth_le h₈,
      herror.depth_le h₉, houtputs.depth_le h₁₀, hrevision.depth_le h₁₁, hcreated.depth_le h₁₂,
      hupdated.depth_le h₁₃⟩

end Snapshot

/-! ### Parameters and requests -/

theorem ParamSource.legible (s : ParamSource) : Legible read? tree s := by
  cases s <;> exact .of_depth_eq_zero rfl trivial fun _ => rfl

namespace RunParam

def names : List FieldName := ["key", "source", "type", "value"]

def slots (p : RunParam) : FieldSlots := [
  ("key", some (.string p.key)), ("source", some p.source.tree), ("type", p.type.map .string),
  ("value", some (.ofValue p.value))]

theorem tree_eq (p : RunParam) : p.tree = .object p.slots.fields := by
  simp only [tree, slots, FieldSlots.fields_cons, FieldSlots.fields_nil, Tree.field?,
    List.cons_append, List.nil_append, List.append_nil]

theorem read?_eq_some {p : RunParam} : read? v = some p ↔
    ∃ fs, Source.fields? names v = some fs ∧
      fs.required "key" Source.text? = some p.key ∧
      fs.defaulted "source" ParamSource.read? .user = some p.source ∧
      fs.optional "type" Source.text? = some p.type ∧
      fs.defaulted "value" Source.value? .null = some p.value := by
  simp only [read?, ↓do_eq_some_iff, Option.pure_def, Option.some.injEq]
  constructor
  · rintro ⟨fs, hfs, _, hkey, _, hsource, _, htype, _, hvalue, rfl⟩
    exact ⟨fs, hfs, hkey, hsource, htype, hvalue⟩
  · rintro ⟨fs, hfs, hkey, hsource, htype, hvalue⟩
    exact ⟨fs, hfs, _, hkey, _, hsource, _, htype, _, hvalue, rfl⟩

theorem legible {p : RunParam} (hsorted : p.value.Sorted) : Legible read? tree p := by
  have hkeys : (p.slots.map Prod.fst).Nodup := (by decide : (names.map FieldName.name).Nodup)
  have hkey : LegibleField p.slots _ (·.required "key" Source.text?) _ :=
    .required hkeys (.text p.key) rfl
  have hsource : LegibleField p.slots _ (·.defaulted "source" ParamSource.read? .user) _ :=
    .defaulted hkeys p.source.legible rfl
  have htype : LegibleField p.slots _ (·.optional "type" Source.text?) p.type :=
    .optional hkeys (fun s _ => ⟨.text s, nofun⟩) rfl
  have hvalue : LegibleField p.slots _ (·.defaulted "value" Source.value? .null) _ :=
    .defaulted hkeys (.value hsorted) rfl
  refine .object read?_eq_some p.tree_eq (by decide) rfl ?_ ?_
    ⟨hkey.solid, hsource.solid, htype.solid, hvalue.solid⟩
  · intro room h
    exact ⟨hkey.read_eq h, hsource.read_eq h, htype.read_eq h, hvalue.read_eq h⟩
  · rintro room y ⟨h₁, h₂, h₃, h₄⟩
    exact ⟨hkey.depth_le h₁, hsource.depth_le h₂, htype.depth_le h₃, hvalue.depth_le h₄⟩

end RunParam

namespace CreateRequest

def names : List FieldName := ["app_id", "version", "conversation_id", "inputs"]

/-- What is absent is written as null. -/
def slots (r : CreateRequest) : FieldSlots := [
  ("app_id", some (.string r.app)), ("version", some (.present .string r.version)),
  ("conversation_id", some (.present .string r.conversation)),
  ("inputs", some (.list RunParam.tree r.inputs))]

theorem tree_eq (r : CreateRequest) : r.tree = .object r.slots.fields := by
  obtain ⟨app, version, conversation, inputs⟩ := r
  cases version <;> cases conversation <;> rfl

theorem read?_eq_some {r : CreateRequest} : read? v = some r ↔
    ∃ fs, Source.fields? names v = some fs ∧
      fs.required "app_id" Source.text? = some r.app ∧
      fs.optional "version" Source.text? = some r.version ∧
      fs.optional "conversation_id" Source.text? = some r.conversation ∧
      fs.defaulted "inputs" (Source.list? RunParam.read?) [] = some r.inputs := by
  simp only [read?, ↓do_eq_some_iff, Option.pure_def, Option.some.injEq]
  constructor
  · rintro ⟨fs, hfs, _, happ, _, hversion, _, hconversation, _, hinputs, rfl⟩
    exact ⟨fs, hfs, happ, hversion, hconversation, hinputs⟩
  · rintro ⟨fs, hfs, happ, hversion, hconversation, hinputs⟩
    exact ⟨fs, hfs, _, happ, _, hversion, _, hconversation, _, hinputs, rfl⟩

theorem legible {r : CreateRequest} (hsorted : ∀ p ∈ r.inputs, p.value.Sorted) :
    Legible read? tree r := by
  have hkeys : (r.slots.map Prod.fst).Nodup := (by decide : (names.map FieldName.name).Nodup)
  have happ : LegibleField r.slots _ (·.required "app_id" Source.text?) _ :=
    .required hkeys (.text r.app) rfl
  have hversion : LegibleField r.slots _ (·.optional "version" Source.text?) r.version :=
    .defaulted hkeys (.optionalText r.version) rfl
  have hconversation : LegibleField r.slots _ (·.optional "conversation_id" Source.text?)
      r.conversation :=
    .defaulted hkeys (.optionalText r.conversation) rfl
  have hinputs : LegibleField r.slots _
      (·.defaulted "inputs" (Source.list? RunParam.read?) []) _ :=
    .defaulted hkeys (.list fun p hp => RunParam.legible (hsorted p hp)) rfl
  refine .object read?_eq_some r.tree_eq (by decide) rfl ?_ ?_
    ⟨happ.solid, hversion.solid, hconversation.solid, hinputs.solid⟩
  · intro room h
    exact ⟨happ.read_eq h, hversion.read_eq h, hconversation.read_eq h, hinputs.read_eq h⟩
  · rintro room y ⟨h₁, h₂, h₃, h₄⟩
    exact ⟨happ.depth_le h₁, hversion.depth_le h₂, hconversation.depth_le h₃, hinputs.depth_le h₄⟩

end CreateRequest

namespace ResumeRequest

def names : List FieldName :=
  ["app_id", "task_id", "resume_node_id", "resume_parent_id", "input_params"]

/-- What is absent is written as null. -/
def slots (r : ResumeRequest) : FieldSlots := [
  ("app_id", some (.string r.app)), ("task_id", some (.string r.task)),
  ("resume_node_id", some (.string r.node)),
  ("resume_parent_id", some (.present .string r.parent)),
  ("input_params", some (.list RunParam.tree r.params))]

theorem tree_eq (r : ResumeRequest) : r.tree = .object r.slots.fields := by
  obtain ⟨app, task, node, parent, params⟩ := r
  cases parent <;> rfl

theorem read?_eq_some {r : ResumeRequest} : read? v = some r ↔
    ∃ fs, Source.fields? names v = some fs ∧
      fs.defaulted "app_id" Source.text? "" = some r.app ∧
      fs.required "task_id" Source.text? = some r.task ∧
      fs.required "resume_node_id" Source.text? = some r.node ∧
      fs.optional "resume_parent_id" Source.text? = some r.parent ∧
      fs.defaulted "input_params" (Source.list? RunParam.read?) [] = some r.params := by
  simp only [read?, ↓do_eq_some_iff, Option.pure_def, Option.some.injEq]
  constructor
  · rintro ⟨fs, hfs, _, happ, _, htask, _, hnode, _, hparent, _, hparams, rfl⟩
    exact ⟨fs, hfs, happ, htask, hnode, hparent, hparams⟩
  · rintro ⟨fs, hfs, happ, htask, hnode, hparent, hparams⟩
    exact ⟨fs, hfs, _, happ, _, htask, _, hnode, _, hparent, _, hparams, rfl⟩

theorem legible {r : ResumeRequest} (hsorted : ∀ p ∈ r.params, p.value.Sorted) :
    Legible read? tree r := by
  have hkeys : (r.slots.map Prod.fst).Nodup := (by decide : (names.map FieldName.name).Nodup)
  have happ : LegibleField r.slots _ (·.defaulted "app_id" Source.text? "") _ :=
    .defaulted hkeys (.text r.app) rfl
  have htask : LegibleField r.slots _ (·.required "task_id" Source.text?) _ :=
    .required hkeys (.text r.task) rfl
  have hnode : LegibleField r.slots _ (·.required "resume_node_id" Source.text?) _ :=
    .required hkeys (.text r.node) rfl
  have hparent : LegibleField r.slots _ (·.optional "resume_parent_id" Source.text?) r.parent :=
    .defaulted hkeys (.optionalText r.parent) rfl
  have hparams : LegibleField r.slots _
      (·.defaulted "input_params" (Source.list? RunParam.read?) []) _ :=
    .defaulted hkeys (.list fun p hp => RunParam.legible (hsorted p hp)) rfl
  refine .object read?_eq_some r.tree_eq (by decide) rfl ?_ ?_
    ⟨happ.solid, htask.solid, hnode.solid, hparent.solid, hparams.solid⟩
  · intro room h
    exact ⟨happ.read_eq h, htask.read_eq h, hnode.read_eq h, hparent.read_eq h, hparams.read_eq h⟩
  · rintro room y ⟨h₁, h₂, h₃, h₄, h₅⟩
    exact ⟨happ.depth_le h₁, htask.depth_le h₂, hnode.depth_le h₃, hparent.depth_le h₄,
      hparams.depth_le h₅⟩

end ResumeRequest

end Flowrun
