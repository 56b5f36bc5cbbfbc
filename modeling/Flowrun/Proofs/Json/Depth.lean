import Flowrun.Proofs.Json.Values

/-!
# How deep a document is nested

A reader may open only so many containers inside each other. The `depth` of a document is the number
of them that it takes to read all of it:

    value?_ofValue : v.Sorted → (ofValue v).value? room =
      if (ofValue v).depth ≤ room then some v else none

So a value whose objects have their fields in the order of the keys is always read from its document
as it was, or not at all.
-/

namespace Flowrun.Json

namespace Tree

variable {room : Nat}

mutual

/-- How many containers stand inside each other. -/
def depth : Tree → Nat
  | .array items => itemDepth items + 1
  | .object fields => fieldDepth fields + 1
  | _ => 0

/-- The depth of the deepest item. -/
def itemDepth : List Tree → Nat
  | [] => 0
  | t :: ts => max (depth t) (itemDepth ts)

/-- The depth of the deepest field. -/
def fieldDepth : List (String × Tree) → Nat
  | [] => 0
  | (_, t) :: fs => max (depth t) (fieldDepth fs)

end

theorem itemDepth_le_iff {ts : List Tree} : itemDepth ts ≤ room ↔ ∀ t ∈ ts, t.depth ≤ room := by
  induction ts with
  | nil => simp [itemDepth]
  | cons t ts ih => rw [itemDepth, Nat.max_le, ih, List.forall_mem_cons]

theorem fieldDepth_le_iff {fs : List (String × Tree)} :
    fieldDepth fs ≤ room ↔ ∀ f ∈ fs, f.2.depth ≤ room := by
  induction fs with
  | nil => simp [fieldDepth]
  | cons f fs ih => rw [fieldDepth, Nat.max_le, ih, List.forall_mem_cons]

theorem depth_array_le_iff {items : List Tree} :
    (array items).depth ≤ room + 1 ↔ ∀ t ∈ items, t.depth ≤ room := by
  rw [depth, Nat.add_le_add_iff_right, itemDepth_le_iff]

theorem depth_object_le_iff {fields : List (String × Tree)} :
    (object fields).depth ≤ room + 1 ↔ ∀ f ∈ fields, f.2.depth ≤ room := by
  rw [depth, Nat.add_le_add_iff_right, fieldDepth_le_iff]

@[simp] theorem depth_string (s : String) : (string s).depth = 0 := rfl

@[simp] theorem depth_count (n : Nat) : (count n).depth = 0 := rfl

@[simp] theorem depth_optional (s : Option String) : (optional s).depth = 0 := by cases s <;> rfl

theorem depth_strings_le (ss : List String) : (strings ss).depth ≤ room + 1 := by
  simp [strings, depth_array_le_iff]

mutual

/-- What is read as a value is looked at to the bottom. -/
theorem depth_le_of_value? (t : Tree) {room : Nat} {v : Value} (h : t.value? room = some v) :
    t.depth ≤ room := by
  match t, room with
  | .null, _ | .bool _, _ | .number _, _ | .string _, _ => exact Nat.zero_le _
  | .array items, 0 => cases h
  | .array items, room + 1 =>
    obtain ⟨vs, hvs, -⟩ := Option.map_eq_some_iff.1 h
    exact Nat.succ_le_succ (itemDepth_le_of_items? items hvs)
  | .object fields, 0 => cases h
  | .object fields, room + 1 =>
    obtain ⟨fs, hfs, -⟩ := Option.map_eq_some_iff.1 h
    exact Nat.succ_le_succ (fieldDepth_le_of_fields? fields hfs)

theorem itemDepth_le_of_items? (ts : List Tree) {room : Nat} {vs : List Value}
    (h : items? room ts = some vs) : itemDepth ts ≤ room := by
  match ts with
  | [] => exact Nat.zero_le _
  | t :: ts =>
    obtain ⟨v, hv, h⟩ := Option.bind_eq_some_iff.1 h
    obtain ⟨vs, hvs, -⟩ := Option.bind_eq_some_iff.1 h
    exact Nat.max_le.2 ⟨depth_le_of_value? t hv, itemDepth_le_of_items? ts hvs⟩

theorem fieldDepth_le_of_fields? (fs : List (String × Tree)) {room : Nat}
    {es : List (String × Value)} (h : fields? room fs = some es) : fieldDepth fs ≤ room := by
  match fs with
  | [] => exact Nat.zero_le _
  | (k, t) :: fs =>
    obtain ⟨v, hv, h⟩ := Option.bind_eq_some_iff.1 h
    obtain ⟨es, hes, -⟩ := Option.bind_eq_some_iff.1 h
    exact Nat.max_le.2 ⟨depth_le_of_value? t hv, fieldDepth_le_of_fields? fs hes⟩

end

end Tree

/-! ### Values whose objects are dictionaries -/

namespace Value

mutual

/-- Every object has its fields in the order of their keys, and no key twice. -/
def Sorted : Value → Prop
  | .array items => SortedItems items
  | .object fields => Dict.Ascending fields ∧ SortedFields fields
  | _ => True

/-- Every object in an item is sorted. -/
def SortedItems : List Value → Prop
  | [] => True
  | v :: vs => Sorted v ∧ SortedItems vs

/-- Every object in a field is sorted. -/
def SortedFields : List (String × Value) → Prop
  | [] => True
  | (_, v) :: fs => Sorted v ∧ SortedFields fs

end

mutual

/-- A value comes back from its document where there is room for it. -/
theorem readsBack_of_depth_le (v : Value) (h : v.Sorted) {room : Nat}
    (hroom : (Tree.ofValue v).depth ≤ room) : v.ReadsBack room := by
  match v, room with
  | .null, _ | .bool _, _ | .number _, _ | .string _, _ => rfl
  | .array items, room + 1 =>
    have hitems := readsBack_of_itemDepth_le items h (Nat.le_of_succ_le_succ hroom)
    rw [ReadsBack, Tree.ofValue, Tree.value?, Tree.items?_ofItems hitems]
    rfl
  | .object fields, room + 1 =>
    have hfields := readsBack_of_fieldDepth_le fields h.2 (Nat.le_of_succ_le_succ hroom)
    rw [ReadsBack, Tree.ofValue, Tree.value?, Tree.fields?_ofFields hfields, Option.map_some,
      h.1.ofEntries_eq]

theorem readsBack_of_itemDepth_le (vs : List Value) (h : SortedItems vs) {room : Nat}
    (hroom : Tree.itemDepth (Tree.ofItems vs) ≤ room) : ∀ v ∈ vs, v.ReadsBack room := by
  match vs with
  | [] => nofun
  | v :: vs =>
    obtain ⟨hv, hvs⟩ := Nat.max_le.1 hroom
    exact List.forall_mem_cons.2
      ⟨readsBack_of_depth_le v h.1 hv, readsBack_of_itemDepth_le vs h.2 hvs⟩

theorem readsBack_of_fieldDepth_le (fs : List (String × Value)) (h : SortedFields fs) {room : Nat}
    (hroom : Tree.fieldDepth (Tree.ofFields fs) ≤ room) : ∀ f ∈ fs, f.2.ReadsBack room := by
  match fs with
  | [] => nofun
  | (k, v) :: fs =>
    obtain ⟨hv, hfs⟩ := Nat.max_le.1 hroom
    exact List.forall_mem_cons.2
      ⟨readsBack_of_depth_le v h.1 hv, readsBack_of_fieldDepth_le fs h.2 hfs⟩

end

theorem value?_ofValue {v : Value} (h : v.Sorted) (room : Nat) : (Tree.ofValue v).value? room =
    if (Tree.ofValue v).depth ≤ room then some v else none := by
  split
  · next hroom => exact readsBack_of_depth_le v h hroom
  · next hroom =>
    exact Option.eq_none_iff_forall_ne_some.2 fun w hw => hroom (Tree.depth_le_of_value? _ hw)

end Value
end Flowrun.Json
