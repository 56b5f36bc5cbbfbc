import Flowrun.Proofs.Json.Depth
import Flowrun.Proofs.Source

/-!
# Typed objects and the depth of their documents

A reader may open only so many containers inside each other. A part of a document is `Legible` if
nothing else can keep it from being read: its document is read as what it was written for where
there is room for it, and is refused elsewhere. In contrast to `Faithful`, this says something of
parts that were never read, and so were not held to the limit.

Legible parts make legible lists (`Legible.list`) and legible objects (`Legible.object`). A field
that is left out of a document does not count for its depth, and is read as its default.
-/

namespace Flowrun

open Json

variable {α : Type} {names : List FieldName} {name : String} {room : Nat} {t : Tree}
  {read : Spot → Option α} {tree : α → Tree} {x y : α}

/-- A part that is read from its document as it was where there is room for the document, and
nowhere else. -/
structure Legible (read : Spot → Option α) (tree : α → Tree) (x : α) : Prop where
  read_eq : ∀ {room}, (tree x).depth ≤ room → read ⟨tree x, room⟩ = some x
  depth_le : ∀ {room y}, read ⟨tree x, room⟩ = some y → (tree x).depth ≤ room
  solid : (tree x).Solid

/-- What is legible is read from the text of its document, up to the limit. -/
theorem Legible.readText?_eq (h : Legible read tree x) (hn : ∀ n ∈ (tree x).numbers, n.ReadsBack) :
    readText? read (tree x).text = if (tree x).depth ≤ depthLimit then some x else none := by
  rw [readText?, Tree.ofText_text h.solid hn, Option.bind_some, Tree.read?]
  split
  · next hdepth => exact h.read_eq hdepth
  · next hdepth =>
    exact Option.eq_none_iff_forall_ne_some.2 fun y hy => hdepth (h.depth_le hy)

/-! ### Parts without containers -/

theorem Legible.of_depth_eq_zero (hdepth : (tree x).depth = 0) (hsolid : (tree x).Solid)
    (hread : ∀ room, read ⟨tree x, room⟩ = some x) : Legible read tree x where
  read_eq _ := hread _
  depth_le _ := hdepth ▸ Nat.zero_le _
  solid := hsolid

theorem Legible.text (s : String) : Legible Source.text? .string s :=
  .of_depth_eq_zero rfl trivial fun _ => rfl

theorem Legible.count (n : Nat) : Legible Spot.count? .count n :=
  .of_depth_eq_zero rfl trivial fun room => by simp [Spot.count?, Tree.count]

/-! ### Free values -/

theorem Legible.value {v : Value} (h : v.Sorted) : Legible Source.value? .ofValue v where
  read_eq hroom := Value.readsBack_of_depth_le v h hroom
  depth_le hread := Tree.depth_le_of_value? _ hread
  solid := Tree.solid_ofValue v

/-! ### Lists -/

theorem forall_isSome_of_mapM {β : Type} {f : β → Option α} {l : List β} {xs : List α}
    (h : l.mapM f = some xs) : ∀ b ∈ l, ∃ x, f b = some x := by
  induction l generalizing xs with
  | nil => nofun
  | cons b l ih =>
    rw [List.mapM_cons] at h
    obtain ⟨x, hx, h⟩ := Option.bind_eq_some_iff.1 h
    obtain ⟨xs, hxs, -⟩ := Option.bind_eq_some_iff.1 h
    exact List.forall_mem_cons.2 ⟨⟨x, hx⟩, ih hxs⟩

theorem Legible.list {xs : List α} (h : ∀ x ∈ xs, Legible read tree x) :
    Legible (Source.list? read) (Tree.list tree) xs where
  read_eq {room} hroom := by
    cases room with
    | zero => cases hroom
    | succ room =>
      have hdepth := Tree.depth_array_le_iff.1 hroom
      have hitems : Source.items? (⟨Tree.list tree xs, room + 1⟩ : Spot) =
          some (xs.map fun x => ⟨tree x, room⟩) := by
        simp [Source.items?, Spot.items?, Tree.list, Spot.enter]
      rw [Source.list?, hitems]
      exact mapM_written fun x hx => (h x hx).read_eq (hdepth _ (List.mem_map_of_mem hx))
  depth_le {room y} hread := by
    obtain ⟨spots, hspots, hitems⟩ := Option.bind_eq_some_iff.1 hread
    cases room with
    | zero => cases hspots
    | succ room =>
      refine Tree.depth_array_le_iff.2 fun t ht => ?_
      obtain ⟨x, hx, rfl⟩ := List.mem_map.1 ht
      obtain rfl : (xs.map tree).map (fun t => (⟨t, room⟩ : Spot)) = spots := Option.some.inj hspots
      obtain ⟨y, hy⟩ := forall_isSome_of_mapM hitems _ (List.mem_map_of_mem ht)
      exact (h x hx).depth_le hy
  solid := by
    refine Tree.solidItems_iff.2 fun t ht => ?_
    obtain ⟨x, hx, rfl⟩ := List.mem_map.1 ht
    exact (h x hx).solid

/-! ### Parts that may be absent -/

theorem Legible.present (h : Legible read tree x) (hx : tree x ≠ .null) :
    Legible (Fields.present read) (Tree.present tree) (some x) where
  read_eq hroom := by
    simp [Fields.present, Tree.present, absent?_eq_false hx, h.read_eq hroom]
  depth_le hread := by
    rw [Fields.present, Tree.present, absent?_eq_false hx, Option.bind_some,
      if_neg Bool.false_ne_true] at hread
    obtain ⟨y, hy, -⟩ := Option.map_eq_some_iff.1 hread
    exact h.depth_le hy
  solid := h.solid

theorem Legible.absent (read : Spot → Option α) (tree : α → Tree) :
    Legible (Fields.present read) (Tree.present tree) none :=
  .of_depth_eq_zero rfl trivial fun _ => rfl

theorem Legible.optionalText (s : Option String) :
    Legible (Fields.present Source.text?) (.present .string) s := by
  cases s with
  | none => exact .absent _ _
  | some s => exact (Legible.text s).present nofun

/-! ### The fields of an object -/

/-- If no key is there twice, a field is found under its key. -/
theorem Dict.at?_of_mem {β : Type} {d : Dict β} {k : String} {b : β}
    (hkeys : (d.map Prod.fst).Nodup) (h : (k, b) ∈ d) : d.at? k = some b := by
  induction d with
  | nil => cases h
  | cons e d ih =>
    obtain ⟨he, hd⟩ := List.nodup_cons.1 hkeys
    rw [at?]
    rcases List.mem_cons.1 h with rfl | h
    · exact if_pos rfl
    · rw [if_neg fun heq : e.1 = k => he (heq ▸ List.mem_map_of_mem h), ih hd h]

/-- Fields by name, each of them with what is written, if anything is. -/
abbrev FieldSlots := List (String × Option Tree)

namespace FieldSlots

variable {slots : FieldSlots} {t? : Option Tree}

/-- The fields that are written. -/
def fields (slots : FieldSlots) : List (String × Tree) :=
  slots.flatMap fun s => Tree.field? s.1 s.2

/-- What is written is no deeper than there is room. -/
def Fits (slots : FieldSlots) (room : Nat) : Prop :=
  slots.Forall fun s => ∀ t ∈ s.2, t.depth ≤ room

@[simp] theorem fields_nil : fields [] = [] := rfl

@[simp] theorem fields_cons (s : String × Option Tree) :
    fields (s :: slots) = Tree.field? s.1 s.2 ++ fields slots :=
  List.flatMap_cons

theorem mem_fields {f : String × Tree} : f ∈ slots.fields ↔ (f.1, some f.2) ∈ slots := by
  rw [fields, List.mem_flatMap]
  constructor
  · rintro ⟨⟨key, t?⟩, hs, hf⟩
    cases t? with
    | none => cases hf
    | some t =>
      obtain rfl := List.mem_singleton.1 hf
      exact hs
  · intro h
    exact ⟨_, h, List.mem_singleton.2 rfl⟩

theorem depth_le_iff : (Tree.object slots.fields).depth ≤ room + 1 ↔ slots.Fits room := by
  rw [Tree.depth_object_le_iff, Fits, List.forall_iff_forall_mem]
  constructor
  · rintro h ⟨key, _⟩ hs t rfl
    exact h (key, t) (mem_fields.2 hs)
  · exact fun h f hf => h _ (mem_fields.1 hf) f.2 rfl

theorem map_fst_fields_sublist (slots : FieldSlots) :
    (slots.fields.map Prod.fst).Sublist (slots.map Prod.fst) := by
  induction slots with
  | nil => exact .slnil
  | cons s slots ih =>
    obtain ⟨key, t?⟩ := s
    cases t? with
    | none => exact ih.cons key
    | some t => exact ih.cons_cons key

theorem at?_fields (hkeys : (slots.map Prod.fst).Nodup) (h : Dict.at? slots name = some t?) :
    Dict.at? slots.fields name = t? := by
  -- a field can only come from its slot, and there is no other slot with its key
  refine Option.ext fun t => ⟨fun ht => ?_, fun ht => ?_⟩
  · have hslot := Dict.at?_of_mem hkeys (mem_fields.1 (Dict.mem_of_at? ht))
    exact Option.some.inj (h.symm.trans hslot)
  · subst ht
    exact Dict.at?_of_mem ((map_fst_fields_sublist slots).nodup hkeys)
      (mem_fields.2 (Dict.mem_of_at? h))

theorem Fits.depth_le (h : slots.Fits room) (hslot : Dict.at? slots name = some t?) :
    ∀ t ∈ t?, t.depth ≤ room :=
  List.forall_iff_forall_mem.1 h _ (Dict.mem_of_at? hslot)

end FieldSlots

theorem Fields.at?_written_eq_none {fs : List (String × Tree)} (h : Dict.at? fs name = none) :
    (written fs room).at? name = none := by
  unfold at? written
  induction fs with
  | nil => rfl
  | cons f fs ih =>
    rw [Dict.at?] at h
    rw [List.map_cons, Dict.at?]
    split at h
    · cases h
    · next hkey => exact (if_neg hkey).trans (ih h)

/-- A field that is read as `x` from an object where there is room for all fields, and not where
there is none for itself. -/
structure LegibleField (slots : FieldSlots) (t? : Option Tree) (read : Fields Spot → Option α)
    (x : α) : Prop where
  read_eq : ∀ {room}, slots.Fits room → read (.written slots.fields room) = some x
  depth_le : ∀ {room y}, read (.written slots.fields room) = some y → ∀ t ∈ t?, t.depth ≤ room
  solid : ∀ t ∈ t?, t.Solid

namespace LegibleField

variable {slots : FieldSlots} {default : α}

/-- A field that is written is read as it is by itself. -/
theorem of_written {readField : Fields Spot → Option α} (hkeys : (slots.map Prod.fst).Nodup)
    (hx : Legible read tree x) (hslot : Dict.at? slots name = some (some (tree x)))
    (hread : ∀ room, Dict.at? slots.fields name = some (tree x) →
      readField (.written slots.fields room) = read ⟨tree x, room⟩) :
    LegibleField slots (some (tree x)) readField x where
  read_eq hfits := by
    rw [hread _ (FieldSlots.at?_fields hkeys hslot)]
    exact hx.read_eq (hfits.depth_le hslot _ rfl)
  depth_le hy := by
    rw [hread _ (FieldSlots.at?_fields hkeys hslot)] at hy
    rintro _ ⟨⟩
    exact hx.depth_le hy
  solid := by
    rintro _ ⟨⟩
    exact hx.solid

theorem required (hkeys : (slots.map Prod.fst).Nodup) (hx : Legible read tree x)
    (hslot : Dict.at? slots name = some (some (tree x))) :
    LegibleField slots (some (tree x)) (·.required name read) x :=
  of_written hkeys hx hslot fun _ h => by
    rw [Fields.required, Fields.at?_written h, Option.bind_some]

theorem defaulted (hkeys : (slots.map Prod.fst).Nodup) (hx : Legible read tree x)
    (hslot : Dict.at? slots name = some (some (tree x))) :
    LegibleField slots (some (tree x)) (·.defaulted name read default) x :=
  of_written hkeys hx hslot fun _ h => by rw [Fields.defaulted, Fields.at?_written h]

/-- A field that is left out is read as its default. -/
theorem omitted (hkeys : (slots.map Prod.fst).Nodup) (hslot : Dict.at? slots name = some none) :
    LegibleField slots none (·.defaulted name read default) default where
  read_eq _ := by
    rw [Fields.defaulted, Fields.at?_written_eq_none (FieldSlots.at?_fields hkeys hslot)]
  depth_le _ := nofun
  solid := nofun

/-- An optional field that is left out if it is absent. -/
theorem optional {x : Option α} (hkeys : (slots.map Prod.fst).Nodup)
    (hx : ∀ a ∈ x, Legible read tree a ∧ tree a ≠ .null)
    (hslot : Dict.at? slots name = some (x.map tree)) :
    LegibleField slots (x.map tree) (·.optional name read) x := by
  cases x with
  | none => exact omitted hkeys hslot
  | some a =>
    obtain ⟨ha, hnull⟩ := hx a rfl
    exact defaulted hkeys (ha.present hnull) hslot

/-- A field that is left out where it is the default. -/
theorem unless_default [Decidable (x = default)] (hkeys : (slots.map Prod.fst).Nodup)
    (hx : Legible read tree x)
    (hslot : Dict.at? slots name = some (if x = default then none else some (tree x))) :
    LegibleField slots (if x = default then none else some (tree x))
      (·.defaulted name read default) x := by
  split at hslot
  · next hdefault =>
    rw [if_pos hdefault, hdefault]
    exact omitted hkeys hslot
  · next hdefault =>
    rw [if_neg hdefault]
    exact defaulted hkeys hx hslot

end LegibleField

/-- A reader in steps reads something if each of its steps does. Like this, `simp` can open a step
before it looks into those that follow. -/
theorem do_eq_some_iff {β : Type} {first : Option α} {next : α → Option β} {y : β} :
    (do next (← first)) = some y ↔ ∃ x, first = some x ∧ next x = some y :=
  Option.bind_eq_some_iff

/-- An object is legible if its fields are: with room for all of them it is read, and otherwise one
of them is refused. -/
theorem Legible.object {slots : FieldSlots} {Reads : Fields Spot → α → Prop}
    (hreads : ∀ {v : Spot} {y}, read v = some y ↔
      ∃ fs, Source.fields? names v = some fs ∧ Reads fs y)
    (htree : tree x = .object slots.fields) (hnames : FieldName.Unambiguous names)
    (hkeys : slots.map Prod.fst = names.map FieldName.name)
    (hread : ∀ {room}, slots.Fits room → Reads (.written slots.fields room) x)
    (hdepth : ∀ {room y}, Reads (.written slots.fields room) y → slots.Fits room)
    (hsolid : slots.Forall fun s => ∀ t ∈ s.2, t.Solid) : Legible read tree x := by
  have hfields : ∀ room, Source.fields? names (⟨.object slots.fields, room + 1⟩ : Spot) =
      some (.written slots.fields room) :=
    fun _ => fields?_object hnames (hkeys ▸ slots.map_fst_fields_sublist)
  constructor
  · intro room hroom
    rw [htree] at hroom ⊢
    cases room with
    | zero => cases hroom
    | succ room => exact hreads.2 ⟨_, hfields room, hread (FieldSlots.depth_le_iff.1 hroom)⟩
  · intro room y hy
    rw [htree] at hy ⊢
    obtain ⟨fs, hfs, hy⟩ := hreads.1 hy
    cases room with
    | zero => cases hfs
    | succ room =>
      rw [hfields room] at hfs
      cases hfs
      exact FieldSlots.depth_le_iff.2 (hdepth hy)
  · rw [htree]
    refine Tree.solidFields_iff.2 fun f hf => ?_
    exact List.forall_iff_forall_mem.1 hsolid _ (FieldSlots.mem_fields.1 hf) f.2 rfl

end Flowrun
