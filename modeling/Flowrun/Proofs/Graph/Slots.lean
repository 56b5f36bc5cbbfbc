import Flowrun.Graph.Slots
import Mathlib.Data.List.Nodup

/-!
# Slots that are used again

A slot that was given up is used again, so what is kept by the number of a slot may be about another
value later. A `Sound` numbering never has one slot in use twice or both in use and free. As long as
it is, a value is read by its slot (`read?`) and by nothing else, a new value never takes a slot
that is in use (`slot`), and all that is given up is what was asked for (`removeAt?`).
-/

namespace Flowrun.Slots

variable {α β : Type} {s : Slots α} {a b : α} {i j : Nat}

/-- The slot that the next value takes. -/
def slot (s : Slots α) : Nat := s.free.head?.getD s.next

/-- The value in a slot. -/
def read? (s : Slots α) (i : Nat) : Option α :=
  (s.entries.find? fun e => e.1 == i).map Prod.snd

/-- Give up a slot, if it is in use. -/
def removeAt? (s : Slots α) (i : Nat) : Option (α × Slots α) :=
  (s.read? i).map fun a =>
    (a, { s with entries := s.entries.filter fun e => e.1 != i, free := i :: s.free })

/-- Other values in the same slots. -/
def mapped (f : α → β) (s : Slots α) : Slots β where
  entries := s.entries.map fun e => (e.1, f e.2)
  next := s.next
  free := s.free

/-- Every slot that was ever used is in use once, or free once. -/
structure Sound (s : Slots α) : Prop where
  nodup : (s.entries.map Prod.fst ++ s.free).Nodup
  lt : ∀ i ∈ s.entries.map Prod.fst ++ s.free, i < s.next

theorem sound_empty : Sound ({} : Slots α) := ⟨List.nodup_nil, nofun⟩

theorem Sound.nodup_entries (h : s.Sound) : (s.entries.map Prod.fst).Nodup :=
  (List.nodup_append.1 h.nodup).1

/-- A slot holds one value. -/
theorem Sound.unique (h : s.Sound) (ha : (i, a) ∈ s.entries) (hb : (i, b) ∈ s.entries) : a = b :=
  (Prod.mk.inj (List.inj_on_of_nodup_map h.nodup_entries ha hb rfl)).2

theorem Sound.read?_eq_some_iff (h : s.Sound) : s.read? i = some a ↔ (i, a) ∈ s.entries := by
  unfold read?
  rw [Option.map_eq_some_iff]
  constructor
  · rintro ⟨⟨j, b⟩, hfind, rfl⟩
    have hj : j = i := by simpa using List.find?_some hfind
    exact hj ▸ List.mem_of_find?_eq_some hfind
  · intro hmem
    have hsome : (s.entries.find? fun e => e.1 == i).isSome := by
      rw [List.find?_isSome]
      exact ⟨(i, a), hmem, beq_self_eq_true i⟩
    obtain ⟨⟨j, b⟩, hfind⟩ := Option.isSome_iff_exists.1 hsome
    obtain rfl : j = i := by simpa using List.find?_some hfind
    exact ⟨_, hfind, h.unique (List.mem_of_find?_eq_some hfind) hmem⟩

/-! ### New values -/

@[simp] theorem entries_insert (s : Slots α) (a : α) :
    (s.insert a).entries = (s.slot, a) :: s.entries := by
  unfold insert slot
  split
  · next hfree =>
    rw [hfree]
    rfl
  · next hfree =>
    rw [hfree]
    rfl

/-- A new value takes the slot that was given up last, or else one that was never used. -/
theorem Sound.insert (h : s.Sound) (a : α) : (s.insert a).Sound := by
  obtain ⟨hnodup, hlt⟩ := h
  unfold Slots.insert
  cases hfree : s.free with
  | nil =>
    rw [hfree, List.append_nil] at hnodup hlt
    constructor
    · show ((s.next :: s.entries.map Prod.fst) ++ []).Nodup
      rw [List.append_nil]
      exact List.nodup_cons.2 ⟨fun hmem => Nat.lt_irrefl _ (hlt _ hmem), hnodup⟩
    · show ∀ i ∈ (s.next :: s.entries.map Prod.fst) ++ [], i < s.next + 1
      rw [List.append_nil]
      intro i hi
      rcases List.mem_cons.1 hi with rfl | hi
      · exact Nat.lt_succ_self _
      · exact Nat.lt_succ_of_lt (hlt i hi)
  | cons j free =>
    rw [hfree] at hnodup hlt
    have hperm : (s.entries.map Prod.fst ++ j :: free).Perm
        (j :: s.entries.map Prod.fst ++ free) := List.perm_middle
    constructor
    · exact hperm.nodup_iff.1 hnodup
    · intro i hi
      exact hlt i (hperm.mem_iff.2 hi)

/-! ### Values that are given up -/

theorem Sound.remove (h : s.Sound) (p : α → Bool) : (s.remove p).Sound := by
  have hsplit : (s.entries.map Prod.fst).Perm
      (((s.entries.filter fun e => !p e.2).map Prod.fst) ++
        ((s.entries.filter fun e => p e.2).map Prod.fst).reverse) := by
    have hparts := (List.filter_append_perm (fun e => p e.2) s.entries).map Prod.fst
    rw [List.map_append] at hparts
    exact hparts.symm.trans (List.perm_append_comm.trans ((List.reverse_perm _).symm.append_left _))
  have hperm : (s.entries.map Prod.fst ++ s.free).Perm
      ((s.remove p).entries.map Prod.fst ++ (s.remove p).free) := by
    unfold Slots.remove
    dsimp only
    rw [← List.append_assoc]
    exact hsplit.append_right _
  exact ⟨hperm.nodup_iff.1 h.nodup, fun i hi => h.lt i (hperm.mem_iff.2 hi)⟩

theorem mem_remove {p : α → Bool} :
    (i, a) ∈ (s.remove p).entries ↔ (i, a) ∈ s.entries ∧ p a = false := by
  simp [Slots.remove]

/-- To give up the slot of the one value with a property is to give up the values with it. -/
theorem Sound.removeAt?_eq (h : s.Sound) {p : α → Bool} (ha : (i, a) ∈ s.entries)
    (hp : ∀ j b, (j, b) ∈ s.entries → (p b = true ↔ j = i)) :
    s.removeAt? i = some (a, s.remove p) := by
  have hread : s.read? i = some a := h.read?_eq_some_iff.2 ha
  have hkept : (s.entries.filter fun e => e.1 != i) = s.entries.filter fun e => !p e.2 := by
    apply List.filter_congr
    rintro ⟨j, b⟩ hmem
    have := hp j b hmem
    grind
  have hgone : (s.entries.filter fun e => p e.2) = [(i, a)] := by
    have hnodup : (s.entries.filter fun e => p e.2).Nodup := h.nodup_entries.of_map.filter _
    refine List.perm_singleton.1 ((List.perm_ext_iff_of_nodup hnodup (List.nodup_singleton _)).2 ?_)
    rintro ⟨j, b⟩
    rw [List.mem_filter, List.mem_singleton]
    constructor
    · rintro ⟨hmem, hb⟩
      obtain rfl := (hp j b hmem).1 hb
      rw [h.unique hmem ha]
    · intro heq
      cases heq
      exact ⟨ha, (hp i a ha).2 rfl⟩
  unfold removeAt? Slots.remove
  rw [hread, hkept, hgone]
  rfl

/-! ### Other values in the same slots -/

@[simp] theorem mapped_insert (f : α → β) (s : Slots α) (a : α) :
    (s.insert a).mapped f = (s.mapped f).insert (f a) := by
  unfold insert mapped
  dsimp only
  split
  · rfl
  · rfl

theorem mapped_remove {f : α → β} {p : α → Bool} {q : β → Bool}
    (h : ∀ i a, (i, a) ∈ s.entries → p a = q (f a)) :
    (s.remove p).mapped f = (s.mapped f).remove q := by
  have hkept : (s.entries.filter fun e => !p e.2) = s.entries.filter fun e => !q (f e.2) := by
    apply List.filter_congr
    rintro ⟨i, a⟩ hmem
    rw [h i a hmem]
  have hgone : (s.entries.filter fun e => p e.2) = s.entries.filter fun e => q (f e.2) := by
    apply List.filter_congr
    rintro ⟨i, a⟩ hmem
    rw [h i a hmem]
  unfold remove mapped
  simp only [hkept, hgone, List.filter_map, List.map_map, Function.comp_def]

end Flowrun.Slots
