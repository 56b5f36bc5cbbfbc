import Mathlib.Data.List.Basic
import Flowrun.Proofs.Json.Values
import Flowrun.Source

/-!
# Typed objects read back

A reader is `Faithful` to the documents that are written for what it reads if everything that it
reads comes back from its own document, and that document holds no number that was not read. It may
ask for some room, since a field that was left out is written with its default.

Faithful readers make faithful readers: of lists (`Faithful.list`), of parts that may be absent
(`Faithful.present`), and of the fields of an object, which are found again under the names under
which they were written (`fields?_object`).
-/

namespace Flowrun

open Json

variable {α : Type} {names : List FieldName} {name : String} {least room : Nat} {t : Tree}
  {read : Spot → Option α} {tree : α → Tree} {numbers : List Number} {x : α}

/-! ### Plain documents -/

/-- A document without void parts, and with no other numbers than those of a list. -/
structure Json.Tree.Plain (t : Tree) (numbers : List Number) : Prop where
  solid : t.Solid
  numbers : t.numbers ⊆ numbers

namespace Json.Tree

theorem Plain.mono {more : List Number} (h : t.Plain numbers) (hmore : numbers ⊆ more) :
    t.Plain more :=
  ⟨h.solid, List.Subset.trans h.numbers hmore⟩

theorem plain_array {ts : List Tree} (h : ∀ t ∈ ts, t.Plain numbers) :
    (array ts).Plain numbers := by
  refine ⟨solidItems_iff.2 fun t ht => (h t ht).solid, fun n hn => ?_⟩
  obtain ⟨t, ht, hn⟩ := mem_itemNumbers.1 hn
  exact (h t ht).numbers hn

theorem plain_object {fs : List (String × Tree)} (h : fs.Forall fun f => f.2.Plain numbers) :
    (object fs).Plain numbers := by
  rw [List.forall_iff_forall_mem] at h
  refine ⟨solidFields_iff.2 fun f hf => (h f hf).solid, fun n hn => ?_⟩
  obtain ⟨f, hf, hn⟩ := mem_fieldNumbers.1 hn
  exact (h f hf).numbers hn

end Json.Tree

/-! ### What comes back -/

/-- A part that comes back from its document, where containers may be nested `room` deep. The
document is plain, with only numbers of a list. -/
structure ComesBack (read : Spot → Option α) (tree : α → Tree) (room : Nat)
    (numbers : List Number) (x : α) : Prop where
  read : read ⟨tree x, room⟩ = some x
  plain : (tree x).Plain numbers

theorem ComesBack.mono {more : List Number} (h : ComesBack read tree room numbers x)
    (hmore : numbers ⊆ more) : ComesBack read tree room more x :=
  ⟨h.read, h.plain.mono hmore⟩

/-- Whatever is read with enough room comes back from its document. -/
def Faithful (least : Nat) (read : Spot → Option α) (tree : α → Tree) : Prop :=
  ∀ ⦃t room x⦄, least ≤ room → read ⟨t, room⟩ = some x → ComesBack read tree room t.numbers x

theorem ComesBack.text (s : String) (room : Nat) : ComesBack Source.text? .string room [] s :=
  ⟨rfl, trivial, List.Subset.refl _⟩

theorem ComesBack.flag (b : Bool) (room : Nat) : ComesBack Source.flag? .bool room [] b :=
  ⟨rfl, trivial, List.Subset.refl _⟩

theorem ComesBack.null (room : Nat) : ComesBack Source.value? .ofValue room [] .null :=
  ⟨rfl, trivial, List.Subset.refl _⟩

theorem Faithful.text : Faithful 0 Source.text? .string :=
  fun _ room s _ _ => (ComesBack.text s room).mono (List.nil_subset _)

theorem Faithful.flag : Faithful 0 Source.flag? .bool :=
  fun _ room b _ _ => (ComesBack.flag b room).mono (List.nil_subset _)

theorem Faithful.value : Faithful 0 Source.value? .ofValue := by
  intro t room v _ h
  obtain ⟨hback, hnumbers⟩ := Tree.readsBack_of_value? t h
  exact ⟨hback, Tree.solid_ofValue v, hnumbers⟩

/-! ### Parts of a document -/

/-- A part of a document that has certain numbers, with some room. -/
def Json.Spot.Within (s : Spot) (room : Nat) (numbers : List Number) : Prop :=
  s.room = room ∧ s.tree.numbers ⊆ numbers

theorem Faithful.comesBack (h : Faithful least read tree) {s : Spot} (hs : s.Within room numbers)
    (hroom : least ≤ room) (hx : read s = some x) : ComesBack read tree room numbers x := by
  obtain ⟨rfl, hnumbers⟩ := hs
  exact (h hroom hx).mono hnumbers

theorem within_items (items : List Tree) (room : Nat) :
    ∀ s ∈ items.map fun t => (⟨t, room⟩ : Spot), s.Within room (Tree.itemNumbers items) := by
  intro s hs
  obtain ⟨t, ht, rfl⟩ := List.mem_map.1 hs
  exact ⟨rfl, fun n hn => Tree.mem_itemNumbers.2 ⟨t, ht, hn⟩⟩

theorem within_fields (fields : List (String × Tree)) (room : Nat) :
    ∀ e ∈ fields.map fun f => (f.1, (⟨f.2, room⟩ : Spot)),
      e.2.Within room (Tree.fieldNumbers fields) := by
  intro e he
  obtain ⟨f, hf, rfl⟩ := List.mem_map.1 he
  exact ⟨rfl, fun n hn => Tree.mem_fieldNumbers.2 ⟨f, hf, hn⟩⟩

theorem items?_eq_some {spots : List Spot} (h : Source.items? (⟨t, room⟩ : Spot) = some spots) :
    ∃ less, room = less + 1 ∧ ∀ s ∈ spots, s.Within less t.numbers := by
  cases room with
  | zero => cases t <;> cases h
  | succ less =>
    cases t with
    | array items =>
      cases h
      exact ⟨less, rfl, within_items items less⟩
    | _ => cases h

/-! ### Lists -/

/-- The document of a list. -/
def Json.Tree.list (tree : α → Tree) (xs : List α) : Tree := .array (xs.map tree)

theorem mapM_written {xs : List α} (h : ∀ x ∈ xs, read ⟨tree x, room⟩ = some x) :
    (xs.map fun x => (⟨tree x, room⟩ : Spot)).mapM read = some xs := by
  induction xs with
  | nil => rfl
  | cons x xs ih =>
    rw [List.map_cons, List.mapM_cons, h x List.mem_cons_self,
      ih fun x hx => h x (List.mem_cons_of_mem _ hx)]
    rfl

theorem ComesBack.list {xs : List α} (h : ∀ x ∈ xs, ComesBack read tree room numbers x) :
    ComesBack (Source.list? read) (Tree.list tree) (room + 1) numbers xs := by
  constructor
  · have hitems : Source.items? (⟨Tree.list tree xs, room + 1⟩ : Spot) =
        some (xs.map fun x => ⟨tree x, room⟩) := by
      simp [Source.items?, Spot.items?, Tree.list, Spot.enter]
    rw [Source.list?, hitems]
    exact mapM_written fun x hx => (h x hx).read
  · refine Tree.plain_array fun t ht => ?_
    obtain ⟨x, hx, rfl⟩ := List.mem_map.1 ht
    exact (h x hx).plain

theorem ComesBack.empty (hroom : 1 ≤ room) :
    ComesBack (Source.list? read) (Tree.list tree) room [] [] := by
  obtain ⟨less, rfl⟩ := Nat.exists_eq_add_of_le' hroom
  exact .list nofun

theorem exists_of_mem_mapM {spots : List Spot} {xs : List α} (h : spots.mapM read = some xs)
    (hx : x ∈ xs) : ∃ s ∈ spots, read s = some x := by
  induction spots generalizing xs with
  | nil =>
    cases h
    cases hx
  | cons s spots ih =>
    rw [List.mapM_cons] at h
    obtain ⟨y, hy, h⟩ := Option.bind_eq_some_iff.1 h
    obtain ⟨ys, hys, h⟩ := Option.bind_eq_some_iff.1 h
    cases h
    rcases List.mem_cons.1 hx with rfl | hx
    · exact ⟨s, List.mem_cons_self, hy⟩
    · obtain ⟨s', hs', hread⟩ := ih hys hx
      exact ⟨s', List.mem_cons_of_mem _ hs', hread⟩

theorem Faithful.list (h : Faithful least read tree) :
    Faithful (least + 1) (Source.list? read) (Tree.list tree) := by
  intro t room xs hroom hread
  obtain ⟨spots, hspots, hxs⟩ := Option.bind_eq_some_iff.1 hread
  obtain ⟨less, rfl, hwithin⟩ := items?_eq_some hspots
  refine .list fun x hx => ?_
  obtain ⟨s, hs, hx⟩ := exists_of_mem_mapM hxs hx
  exact h.comesBack (hwithin s hs) (Nat.le_of_succ_le_succ hroom) hx

/-! ### Parts that may be absent -/

/-- The document of a part that may be absent. -/
def Json.Tree.present (tree : α → Tree) : Option α → Tree
  | some x => tree x
  | none => .null

theorem absent?_eq_false (h : t ≠ .null) :
    Source.absent? (⟨t, room⟩ : Spot) = some false := by
  cases t with
  | null => exact absurd rfl h
  | _ => rfl

theorem ComesBack.present (h : ComesBack read tree room numbers x) (hx : tree x ≠ .null) :
    ComesBack (Fields.present read) (Tree.present tree) room numbers (some x) := by
  refine ⟨?_, h.plain⟩
  simp [Fields.present, Tree.present, absent?_eq_false hx, h.read]

theorem ComesBack.absent (read : Spot → Option α) (tree : α → Tree) (room : Nat) :
    ComesBack (Fields.present read) (Tree.present tree) room [] none :=
  ⟨rfl, trivial, List.Subset.refl _⟩

theorem Faithful.present (h : Faithful least read tree)
    (hnull : ∀ ⦃t room x⦄, t ≠ .null → read ⟨t, room⟩ = some x → tree x ≠ .null) :
    Faithful least (Fields.present read) (Tree.present tree) := by
  intro t room x hroom hread
  by_cases ht : t = .null
  · subst ht
    cases hread
    exact .absent read tree room
  · rw [Fields.present, absent?_eq_false ht, Option.bind_some, if_neg Bool.false_ne_true] at hread
    obtain ⟨x, hx, rfl⟩ := Option.map_eq_some_iff.1 hread
    exact (h hroom hx).present (hnull ht hx)

theorem ComesBack.optionalText (s : Option String) (room : Nat) :
    ComesBack (Fields.present Source.text?) (.present .string) room [] s := by
  cases s with
  | none => exact .absent _ _ _
  | some s => exact (ComesBack.text s room).present nofun

theorem Faithful.optionalText : Faithful 0 (Fields.present Source.text?) (.present .string) :=
  Faithful.text.present nofun

theorem Faithful.optionalValue : Faithful 0 (Fields.present Source.value?) (.present .ofValue) :=
  Faithful.value.present fun _ _ _ => Tree.ofValue_ne_null

/-! ### The fields of an object -/

namespace Fields

/-- The fields are parts of a document that has certain numbers. -/
def Within (fs : Fields Spot) (room : Nat) (numbers : List Number) : Prop :=
  ∀ e ∈ fs.entries, e.2.Within room numbers

variable {fs : Fields Spot}

theorem Within.required (h : fs.Within room numbers) (hread : Faithful least read tree)
    (hroom : least ≤ room) (hx : fs.required name read = some x) :
    ComesBack read tree room numbers x := by
  obtain ⟨spot, hspot, hx⟩ := Option.bind_eq_some_iff.1 hx
  exact hread.comesBack (h _ (Dict.mem_of_at? hspot)) hroom hx

theorem Within.defaulted {default : α} (h : fs.Within room numbers)
    (hread : Faithful least read tree) (hroom : least ≤ room)
    (hdefault : ComesBack read tree room [] default)
    (hx : fs.defaulted name read default = some x) : ComesBack read tree room numbers x := by
  unfold Fields.defaulted at hx
  split at hx
  · cases hx
    exact hdefault.mono (List.nil_subset _)
  · next spot hspot => exact hread.comesBack (h _ (Dict.mem_of_at? hspot)) hroom hx

theorem Within.optional {x : Option α} (h : fs.Within room numbers)
    (hread : Faithful least (Fields.present read) (Tree.present tree)) (hroom : least ≤ room)
    (hx : fs.optional name read = some x) :
    ComesBack (Fields.present read) (Tree.present tree) room numbers x :=
  h.defaulted hread hroom (.absent read tree room) hx

/-- The fields of an object that was written, where it is read. -/
def written (fs : List (String × Tree)) (room : Nat) : Fields Spot :=
  ⟨fs.map fun f => (f.1, ⟨f.2, room⟩), false⟩

theorem at?_written {fs : List (String × Tree)} (h : Dict.at? fs name = some t) :
    (written fs room).at? name = some ⟨t, room⟩ := by
  unfold at? written
  induction fs with
  | nil => cases h
  | cons f fs ih =>
    rw [Dict.at?] at h
    rw [List.map_cons, Dict.at?]
    split at h
    · next hkey =>
      cases h
      exact if_pos hkey
    · next hkey => exact (if_neg hkey).trans (ih h)

end Fields

theorem ComesBack.required_written {fs : List (String × Tree)}
    (hx : ComesBack read tree room numbers x) (h : Dict.at? fs name = some (tree x)) :
    (Fields.written fs room).required name read = some x := by
  rw [Fields.required, Fields.at?_written h]
  exact hx.read

theorem ComesBack.defaulted_written {fs : List (String × Tree)} {default : α}
    (hx : ComesBack read tree room numbers x) (h : Dict.at? fs name = some (tree x)) :
    (Fields.written fs room).defaulted name read default = some x := by
  rw [Fields.defaulted, Fields.at?_written h]
  exact hx.read

/-- Every name is known by its own spelling, and no two are the same. -/
def FieldName.Unambiguous (names : List FieldName) : Prop :=
  (∀ f ∈ names, resolve? names f.name = some f.name) ∧ (names.map FieldName.name).Nodup

instance (names : List FieldName) : Decidable (FieldName.Unambiguous names) :=
  inferInstanceAs (Decidable (_ ∧ _))

/-- Keys that are the own spellings of names are known. -/
theorem FieldName.Unambiguous.filterMap_eq (h : Unambiguous names) {fs : List (String × Tree)}
    (hfs : fs.map Prod.fst ⊆ names.map FieldName.name) :
    (fs.map fun f => (f.1, (⟨f.2, room⟩ : Spot))).filterMap
        (fun p => (resolve? names p.1).map fun k => (k, p.2)) =
      fs.map fun f => (f.1, ⟨f.2, room⟩) := by
  induction fs with
  | nil => rfl
  | cons f fs ih =>
    obtain ⟨hf, hfs⟩ := List.cons_subset.1 hfs
    obtain ⟨name, hname, heq⟩ := List.mem_map.1 hf
    have hkey : resolve? names f.1 = some f.1 := heq ▸ h.1 name hname
    simp [hkey, ih hfs]

/-- An object is read under the names under which its fields were written. -/
theorem fields?_object {fs : List (String × Tree)} (hnames : FieldName.Unambiguous names)
    (hfs : (fs.map Prod.fst).Sublist (names.map FieldName.name)) :
    Source.fields? names (⟨.object fs, room + 1⟩ : Spot) = some (.written fs room) := by
  have hkeys : ((fs.map fun f => (f.1, (⟨f.2, room⟩ : Spot))).map Prod.fst).Nodup := by
    simpa [Function.comp_def] using hfs.nodup hnames.2
  simp only [Source.fields?, Spot.fields?, Spot.enter, Fields.ofPairs?,
    hnames.filterMap_eq hfs.subset, if_pos hkeys]
  rfl

theorem Fields.ofPairs?_within {pairs : List (String × Spot)} {fs : Fields Spot}
    (hpairs : ∀ p ∈ pairs, p.2.Within room numbers) (h : Fields.ofPairs? names pairs = some fs) :
    fs.Within room numbers := by
  unfold Fields.ofPairs? at h
  dsimp only at h
  split at h
  · cases h
    intro e he
    obtain ⟨p, hp, he⟩ := List.mem_filterMap.1 he
    obtain ⟨k, -, rfl⟩ := Option.map_eq_some_iff.1 he
    exact hpairs p hp
  · cases h

theorem Fields.ofItems?_within {spots : List Spot} {fs : Fields Spot}
    (hspots : ∀ s ∈ spots, s.Within room numbers) (h : Fields.ofItems? names spots = some fs) :
    fs.Within room numbers := by
  unfold Fields.ofItems? at h
  split at h
  · cases h
    exact fun e he => hspots e.2 (List.of_mem_zip he).2
  · cases h

/-- The fields of an object that is read are parts of it, with less room. -/
theorem fields?_eq_some {fs : Fields Spot} (h : Source.fields? names (⟨t, room⟩ : Spot) = some fs) :
    ∃ less, room = less + 1 ∧ fs.Within less t.numbers := by
  cases room with
  | zero => cases t <;> cases h
  | succ less =>
    refine ⟨less, rfl, ?_⟩
    cases t with
    | object fields => exact Fields.ofPairs?_within (within_fields fields less) h
    | array items => exact Fields.ofItems?_within (within_items items less) h
    | _ => cases h

/-! ### Texts -/

/-- What comes back from its document comes back from the text of the document. -/
theorem ComesBack.readText? (h : ComesBack read tree depthLimit numbers x)
    (hn : ∀ n ∈ (tree x).numbers, n.ReadsBack) : Json.readText? read (tree x).text = some x := by
  rw [Json.readText?, Tree.ofText_text h.plain.solid hn]
  exact h.read

end Flowrun
