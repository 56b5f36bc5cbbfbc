import Flowrun.Proofs.Source
import Flowrun.Workflow.Document

/-!
# Workflow documents read back

Of every type that a workflow is made of, what its reader takes comes back from the document that is
written for it. The names `read?_eq_some` state what a reader asks for, of every format; the names
`faithful` state what follows for JSON. A node needs room for three containers, since one that was
written without a configuration is written with an empty one.
-/

namespace Flowrun

open Json

variable {ν : Type} [Source ν] {v : ν}

/-! ### Parameters -/

theorem ValueFrom.comesBack (x : ValueFrom) (room : Nat) :
    ComesBack ValueFrom.read? ValueFrom.tree room [] x := by
  cases x <;> exact ⟨rfl, trivial, List.Subset.refl _⟩

theorem ValueFrom.faithful : Faithful 0 ValueFrom.read? ValueFrom.tree :=
  fun _ room x _ _ => (comesBack x room).mono (List.nil_subset _)

namespace InputParam

theorem read?_eq_some {p : InputParam} : read? v = some p ↔
    ∃ fs, Source.fields? outline.names v = some fs ∧
      fs.required "key" Source.text? = some p.key ∧
      fs.optional "type" Source.text? = some p.type ∧
      fs.defaulted "value_from" ValueFrom.read? .input = some p.valueFrom ∧
      fs.optional "value" Source.value? = some p.value := by
  simp only [read?, Option.bind_eq_bind, Option.bind_eq_some_iff, Option.pure_def,
    Option.some.injEq]
  constructor
  · rintro ⟨fs, hfs, _, hkey, _, htype, _, hfrom, _, hvalue, rfl⟩
    exact ⟨fs, hfs, hkey, htype, hfrom, hvalue⟩
  · rintro ⟨fs, hfs, hkey, htype, hfrom, hvalue⟩
    exact ⟨fs, hfs, _, hkey, _, htype, _, hfrom, _, hvalue, rfl⟩

theorem tree_eq (p : InputParam) : p.tree = .object [
    ("key", .string p.key), ("type", .present .string p.type), ("value_from", p.valueFrom.tree),
    ("value", .present .ofValue p.value)] := by
  obtain ⟨key, type, valueFrom, value⟩ := p
  cases type <;> cases value <;> rfl

theorem faithful : Faithful 0 InputParam.read? InputParam.tree := by
  intro t room p _ h
  obtain ⟨fs, hfs, hkey, htype, hfrom, hvalue⟩ := read?_eq_some.1 h
  obtain ⟨less, rfl, hwithin⟩ := fields?_eq_some hfs
  replace hkey := hwithin.required .text (Nat.zero_le _) hkey
  replace htype := hwithin.optional .optionalText (Nat.zero_le _) htype
  replace hfrom :=
    hwithin.defaulted ValueFrom.faithful (Nat.zero_le _) (ValueFrom.comesBack _ _) hfrom
  replace hvalue := hwithin.optional .optionalValue (Nat.zero_le _) hvalue
  constructor
  · rw [tree_eq]
    exact read?_eq_some.2 ⟨_, fields?_object (by decide) (.refl _), hkey.required_written rfl,
      htype.defaulted_written rfl, hfrom.defaulted_written rfl, hvalue.defaulted_written rfl⟩
  · rw [tree_eq]
    exact Tree.plain_object ⟨hkey.plain, htype.plain, hfrom.plain, hvalue.plain⟩

end InputParam

namespace OutputParam

theorem read?_eq_some {p : OutputParam} : read? v = some p ↔
    ∃ fs, Source.fields? outline.names v = some fs ∧
      fs.required "key" Source.text? = some p.key ∧
      fs.defaulted "type" Source.text? "String" = some p.type ∧
      fs.defaulted "description" Source.text? "" = some p.description ∧
      fs.defaulted "required" Source.flag? false = some p.required := by
  simp only [read?, Option.bind_eq_bind, Option.bind_eq_some_iff, Option.pure_def,
    Option.some.injEq]
  constructor
  · rintro ⟨fs, hfs, _, hkey, _, htype, _, hdescription, _, hrequired, rfl⟩
    exact ⟨fs, hfs, hkey, htype, hdescription, hrequired⟩
  · rintro ⟨fs, hfs, hkey, htype, hdescription, hrequired⟩
    exact ⟨fs, hfs, _, hkey, _, htype, _, hdescription, _, hrequired, rfl⟩

theorem faithful : Faithful 0 OutputParam.read? OutputParam.tree := by
  intro t room p _ h
  obtain ⟨fs, hfs, hkey, htype, hdescription, hrequired⟩ := read?_eq_some.1 h
  obtain ⟨less, rfl, hwithin⟩ := fields?_eq_some hfs
  replace hkey := hwithin.required .text (Nat.zero_le _) hkey
  replace htype := hwithin.defaulted .text (Nat.zero_le _) (.text _ _) htype
  replace hdescription := hwithin.defaulted .text (Nat.zero_le _) (.text _ _) hdescription
  replace hrequired := hwithin.defaulted .flag (Nat.zero_le _) (.flag _ _) hrequired
  constructor
  · exact read?_eq_some.2 ⟨_, fields?_object (by decide) (.refl _), hkey.required_written rfl,
      htype.defaulted_written rfl, hdescription.defaulted_written rfl,
      hrequired.defaulted_written rfl⟩
  · exact Tree.plain_object
      ⟨hkey.plain, htype.plain, hdescription.plain, hrequired.plain⟩

end OutputParam

/-! ### Nodes and edges -/

namespace NodeConfig

theorem read?_eq_some {c : NodeConfig} : read? v = some c ↔
    ∃ fs, Source.fields? outline.names v = some fs ∧
      fs.defaulted "input_params" (Source.list? InputParam.read?) [] = some c.inputs ∧
      fs.defaulted "output_params" (Source.list? OutputParam.read?) [] = some c.outputs ∧
      fs.defaulted "node_param" Source.value? .null = some c.param := by
  simp only [read?, Option.bind_eq_bind, Option.bind_eq_some_iff, Option.pure_def,
    Option.some.injEq]
  constructor
  · rintro ⟨fs, hfs, _, hinputs, _, houtputs, _, hparam, rfl⟩
    exact ⟨fs, hfs, hinputs, houtputs, hparam⟩
  · rintro ⟨fs, hfs, hinputs, houtputs, hparam⟩
    exact ⟨fs, hfs, _, hinputs, _, houtputs, _, hparam, rfl⟩

theorem faithful : Faithful 2 NodeConfig.read? NodeConfig.tree := by
  intro t room c hroom h
  obtain ⟨fs, hfs, hinputs, houtputs, hparam⟩ := read?_eq_some.1 h
  obtain ⟨less, rfl, hwithin⟩ := fields?_eq_some hfs
  have hless : 1 ≤ less := Nat.le_of_succ_le_succ hroom
  replace hinputs := hwithin.defaulted InputParam.faithful.list hless (.empty hless) hinputs
  replace houtputs := hwithin.defaulted OutputParam.faithful.list hless (.empty hless) houtputs
  replace hparam := hwithin.defaulted .value (Nat.zero_le _) (.null _) hparam
  constructor
  · exact read?_eq_some.2 ⟨_, fields?_object (by decide) (.refl _),
      hinputs.defaulted_written rfl, houtputs.defaulted_written rfl, hparam.defaulted_written rfl⟩
  · exact Tree.plain_object ⟨hinputs.plain, houtputs.plain, hparam.plain⟩

/-- The configuration of a node that was written without one. -/
theorem comesBack_empty {room : Nat} (hroom : 2 ≤ room) :
    ComesBack NodeConfig.read? NodeConfig.tree room [] {} := by
  have hread : NodeConfig.read? (⟨.object [], room⟩ : Spot) = some {} := by
    obtain ⟨less, rfl⟩ := Nat.exists_eq_add_of_le' hroom
    rfl
  exact faithful hroom hread

end NodeConfig

namespace NodeSpec

theorem read?_eq_some {n : NodeSpec} : read? v = some n ↔
    ∃ fs, Source.fields? outline.names v = some fs ∧
      fs.required "id" Source.text? = some n.id ∧
      fs.required "type" Source.text? = some n.type ∧
      fs.defaulted "name" Source.text? "" = some n.name ∧
      fs.defaulted "config" NodeConfig.read? {} = some n.config := by
  simp only [read?, Option.bind_eq_bind, Option.bind_eq_some_iff, Option.pure_def,
    Option.some.injEq]
  constructor
  · rintro ⟨fs, hfs, _, hid, _, htype, _, hname, _, hconfig, rfl⟩
    exact ⟨fs, hfs, hid, htype, hname, hconfig⟩
  · rintro ⟨fs, hfs, hid, htype, hname, hconfig⟩
    exact ⟨fs, hfs, _, hid, _, htype, _, hname, _, hconfig, rfl⟩

theorem faithful : Faithful 3 NodeSpec.read? NodeSpec.tree := by
  intro t room n hroom h
  obtain ⟨fs, hfs, hid, htype, hname, hconfig⟩ := read?_eq_some.1 h
  obtain ⟨less, rfl, hwithin⟩ := fields?_eq_some hfs
  have hless : 2 ≤ less := Nat.le_of_succ_le_succ hroom
  replace hid := hwithin.required .text (Nat.zero_le _) hid
  replace htype := hwithin.required .text (Nat.zero_le _) htype
  replace hname := hwithin.defaulted .text (Nat.zero_le _) (.text _ _) hname
  replace hconfig :=
    hwithin.defaulted NodeConfig.faithful hless (NodeConfig.comesBack_empty hless) hconfig
  constructor
  · exact read?_eq_some.2 ⟨_, fields?_object (by decide) (.refl _), hid.required_written rfl,
      htype.required_written rfl, hname.defaulted_written rfl, hconfig.defaulted_written rfl⟩
  · exact Tree.plain_object ⟨hid.plain, htype.plain, hname.plain, hconfig.plain⟩

end NodeSpec

namespace EdgeSpec

theorem read?_eq_some {e : EdgeSpec} : read? v = some e ↔
    ∃ fs, Source.fields? outline.names v = some fs ∧
      fs.defaulted "id" Source.text? "" = some e.id ∧
      fs.required "source" Source.text? = some e.source ∧
      fs.optional "source_handle" Source.text? = some e.sourceHandle ∧
      fs.required "target" Source.text? = some e.target ∧
      fs.optional "target_handle" Source.text? = some e.targetHandle := by
  simp only [read?, Option.bind_eq_bind, Option.bind_eq_some_iff, Option.pure_def,
    Option.some.injEq]
  constructor
  · rintro ⟨fs, hfs, _, hid, _, hsource, _, hleaves, _, htarget, _, henters, rfl⟩
    exact ⟨fs, hfs, hid, hsource, hleaves, htarget, henters⟩
  · rintro ⟨fs, hfs, hid, hsource, hleaves, htarget, henters⟩
    exact ⟨fs, hfs, _, hid, _, hsource, _, hleaves, _, htarget, _, henters, rfl⟩

theorem tree_eq (e : EdgeSpec) : e.tree = .object [
    ("id", .string e.id), ("source", .string e.source),
    ("source_handle", .present .string e.sourceHandle), ("target", .string e.target),
    ("target_handle", .present .string e.targetHandle)] := by
  obtain ⟨id, source, sourceHandle, target, targetHandle⟩ := e
  cases sourceHandle <;> cases targetHandle <;> rfl

/-- Every edge comes back, also one that was not read. -/
theorem comesBack (e : EdgeSpec) (room : Nat) :
    ComesBack EdgeSpec.read? EdgeSpec.tree (room + 1) [] e := by
  have hid : ComesBack Source.text? .string room [] e.id := .text _ _
  have hsource : ComesBack Source.text? .string room [] e.source := .text _ _
  have hleaves : ComesBack (Fields.present Source.text?) (.present .string) room []
    e.sourceHandle := .optionalText _ _
  have htarget : ComesBack Source.text? .string room [] e.target := .text _ _
  have henters : ComesBack (Fields.present Source.text?) (.present .string) room []
    e.targetHandle := .optionalText _ _
  constructor
  · rw [tree_eq]
    exact read?_eq_some.2 ⟨_, fields?_object (by decide) (.refl _), hid.defaulted_written rfl,
      hsource.required_written rfl, hleaves.defaulted_written rfl, htarget.required_written rfl,
      henters.defaulted_written rfl⟩
  · rw [tree_eq]
    exact Tree.plain_object
      ⟨hid.plain, hsource.plain, hleaves.plain, htarget.plain, henters.plain⟩

end EdgeSpec

/-! ### Variables -/

namespace SystemVariable

theorem read?_eq_some {x : SystemVariable} : read? v = some x ↔
    ∃ fs, Source.fields? outline.names v = some fs ∧
      fs.required "name" Source.text? = some x.name ∧
      fs.defaulted "type" Source.text? "String" = some x.type ∧
      fs.defaulted "description" Source.text? "" = some x.description := by
  simp only [read?, Option.bind_eq_bind, Option.bind_eq_some_iff, Option.pure_def,
    Option.some.injEq]
  constructor
  · rintro ⟨fs, hfs, _, hname, _, htype, _, hdescription, rfl⟩
    exact ⟨fs, hfs, hname, htype, hdescription⟩
  · rintro ⟨fs, hfs, hname, htype, hdescription⟩
    exact ⟨fs, hfs, _, hname, _, htype, _, hdescription, rfl⟩

theorem faithful : Faithful 0 SystemVariable.read? SystemVariable.tree := by
  intro t room x _ h
  obtain ⟨fs, hfs, hname, htype, hdescription⟩ := read?_eq_some.1 h
  obtain ⟨less, rfl, hwithin⟩ := fields?_eq_some hfs
  replace hname := hwithin.required .text (Nat.zero_le _) hname
  replace htype := hwithin.defaulted .text (Nat.zero_le _) (.text _ _) htype
  replace hdescription := hwithin.defaulted .text (Nat.zero_le _) (.text _ _) hdescription
  constructor
  · exact read?_eq_some.2 ⟨_, fields?_object (by decide) (.refl _), hname.required_written rfl,
      htype.defaulted_written rfl, hdescription.defaulted_written rfl⟩
  · exact Tree.plain_object ⟨hname.plain, htype.plain, hdescription.plain⟩

end SystemVariable

namespace EnvironmentVariable

theorem read?_eq_some {x : EnvironmentVariable} : read? v = some x ↔
    ∃ fs, Source.fields? outline.names v = some fs ∧
      fs.required "name" Source.text? = some x.name ∧
      fs.defaulted "type" Source.text? "String" = some x.type ∧
      fs.defaulted "value" Source.value? .null = some x.value := by
  simp only [read?, Option.bind_eq_bind, Option.bind_eq_some_iff, Option.pure_def,
    Option.some.injEq]
  constructor
  · rintro ⟨fs, hfs, _, hname, _, htype, _, hvalue, rfl⟩
    exact ⟨fs, hfs, hname, htype, hvalue⟩
  · rintro ⟨fs, hfs, hname, htype, hvalue⟩
    exact ⟨fs, hfs, _, hname, _, htype, _, hvalue, rfl⟩

theorem faithful : Faithful 0 EnvironmentVariable.read? EnvironmentVariable.tree := by
  intro t room x _ h
  obtain ⟨fs, hfs, hname, htype, hvalue⟩ := read?_eq_some.1 h
  obtain ⟨less, rfl, hwithin⟩ := fields?_eq_some hfs
  replace hname := hwithin.required .text (Nat.zero_le _) hname
  replace htype := hwithin.defaulted .text (Nat.zero_le _) (.text _ _) htype
  replace hvalue := hwithin.defaulted .value (Nat.zero_le _) (.null _) hvalue
  constructor
  · exact read?_eq_some.2 ⟨_, fields?_object (by decide) (.refl _), hname.required_written rfl,
      htype.defaulted_written rfl, hvalue.defaulted_written rfl⟩
  · exact Tree.plain_object ⟨hname.plain, htype.plain, hvalue.plain⟩

end EnvironmentVariable

namespace ConversationVariable

theorem read?_eq_some {x : ConversationVariable} : read? v = some x ↔
    ∃ fs, Source.fields? outline.names v = some fs ∧
      fs.required "name" Source.text? = some x.name ∧
      fs.defaulted "type" Source.text? "String" = some x.type ∧
      fs.optional "default" Source.value? = some x.default := by
  simp only [read?, Option.bind_eq_bind, Option.bind_eq_some_iff, Option.pure_def,
    Option.some.injEq]
  constructor
  · rintro ⟨fs, hfs, _, hname, _, htype, _, hdefault, rfl⟩
    exact ⟨fs, hfs, hname, htype, hdefault⟩
  · rintro ⟨fs, hfs, hname, htype, hdefault⟩
    exact ⟨fs, hfs, _, hname, _, htype, _, hdefault, rfl⟩

theorem tree_eq (x : ConversationVariable) : x.tree = .object [
    ("name", .string x.name), ("type", .string x.type),
    ("default", .present .ofValue x.default)] := by
  obtain ⟨name, type, default⟩ := x
  cases default <;> rfl

theorem faithful : Faithful 0 ConversationVariable.read? ConversationVariable.tree := by
  intro t room x _ h
  obtain ⟨fs, hfs, hname, htype, hdefault⟩ := read?_eq_some.1 h
  obtain ⟨less, rfl, hwithin⟩ := fields?_eq_some hfs
  replace hname := hwithin.required .text (Nat.zero_le _) hname
  replace htype := hwithin.defaulted .text (Nat.zero_le _) (.text _ _) htype
  replace hdefault := hwithin.optional .optionalValue (Nat.zero_le _) hdefault
  constructor
  · rw [tree_eq]
    exact read?_eq_some.2 ⟨_, fields?_object (by decide) (.refl _), hname.required_written rfl,
      htype.defaulted_written rfl, hdefault.defaulted_written rfl⟩
  · rw [tree_eq]
    exact Tree.plain_object ⟨hname.plain, htype.plain, hdefault.plain⟩

end ConversationVariable

/-! ### Workflows -/

namespace Workflow

theorem read?_eq_some {w : Workflow} : read? v = some w ↔
    ∃ fs, Source.fields? outline.names v = some fs ∧
      fs.defaulted "version" Source.text? currentVersion = some w.version ∧
      fs.defaulted "nodes" (Source.list? NodeSpec.read?) [] = some w.nodes ∧
      fs.defaulted "edges" (Source.list? EdgeSpec.read?) [] = some w.edges ∧
      fs.defaulted "system_variables" (Source.list? SystemVariable.read?) [] =
        some w.systemVariables ∧
      fs.defaulted "environment_variables" (Source.list? EnvironmentVariable.read?) [] =
        some w.environmentVariables ∧
      fs.defaulted "conversation_variables" (Source.list? ConversationVariable.read?) [] =
        some w.conversationVariables := by
  simp only [read?, Option.bind_eq_bind, Option.bind_eq_some_iff, Option.pure_def,
    Option.some.injEq]
  constructor
  · rintro ⟨fs, hfs, _, hversion, _, hnodes, _, hedges, _, hsys, _, henv, _, hconv, rfl⟩
    exact ⟨fs, hfs, hversion, hnodes, hedges, hsys, henv, hconv⟩
  · rintro ⟨fs, hfs, hversion, hnodes, hedges, hsys, henv, hconv⟩
    exact ⟨fs, hfs, _, hversion, _, hnodes, _, hedges, _, hsys, _, henv, _, hconv, rfl⟩

/-- A workflow that is read comes back, whatever edges it is given. -/
theorem comesBack_withEdges {t : Tree} {room : Nat} {w : Workflow} (hroom : 5 ≤ room)
    (h : read? (⟨t, room⟩ : Spot) = some w) (es : List EdgeSpec) :
    ComesBack read? tree room t.numbers { w with edges := es } := by
  obtain ⟨fs, hfs, hversion, hnodes, -, hsys, henv, hconv⟩ := read?_eq_some.1 h
  obtain ⟨less, rfl, hwithin⟩ := fields?_eq_some hfs
  have hnode : 4 ≤ less := Nat.le_of_succ_le_succ hroom
  have hlist : 1 ≤ less := Nat.le_trans (by decide) hnode
  obtain ⟨inner, rfl⟩ : ∃ inner, less = inner + 2 := ⟨less - 2, by omega⟩
  replace hversion := hwithin.defaulted .text (Nat.zero_le _) (.text _ _) hversion
  replace hnodes := hwithin.defaulted NodeSpec.faithful.list hnode (.empty hlist) hnodes
  have hedges : ComesBack (Source.list? EdgeSpec.read?) (.list EdgeSpec.tree) (inner + 2)
      t.numbers es := .list fun e _ => (EdgeSpec.comesBack e inner).mono (List.nil_subset _)
  replace hsys := hwithin.defaulted SystemVariable.faithful.list hlist (.empty hlist) hsys
  replace henv := hwithin.defaulted EnvironmentVariable.faithful.list hlist (.empty hlist) henv
  replace hconv := hwithin.defaulted ConversationVariable.faithful.list hlist (.empty hlist) hconv
  constructor
  · exact read?_eq_some.2 ⟨_, fields?_object (by decide) (.refl _), hversion.defaulted_written rfl,
      hnodes.defaulted_written rfl, hedges.defaulted_written rfl, hsys.defaulted_written rfl,
      henv.defaulted_written rfl, hconv.defaulted_written rfl⟩
  · exact Tree.plain_object ⟨hversion.plain, hnodes.plain, hedges.plain, hsys.plain, henv.plain,
      hconv.plain⟩

end Workflow
end Flowrun
