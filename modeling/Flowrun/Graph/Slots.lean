/-!
# Numbered slots

A `Slots α` keeps values in numbered slots. A value takes the slot that was given up last, or else a
new one. The values can be walked by the number of their slots (`inOrder`) or from the newest to
the oldest (`newest`).
-/

namespace Flowrun

/-- Values in numbered slots. -/
structure Slots (α : Type u) where
  /-- The slots in use, the newest first. -/
  entries : List (Nat × α) := []
  /-- The number of the next new slot. -/
  next : Nat := 0
  /-- The slots that were given up, the last one first. -/
  free : List Nat := []
  deriving Repr, Inhabited

namespace Slots

variable {α : Type u}

/-- The values, the newest first. -/
def newest (s : Slots α) : List α := s.entries.map Prod.snd

/-- The entries by the number of their slots. -/
def sorted (s : Slots α) : List (Nat × α) := s.entries.mergeSort fun a b => a.1 ≤ b.1

/-- The values by the number of their slots. -/
def inOrder (s : Slots α) : List α := s.sorted.map Prod.snd

def size (s : Slots α) : Nat := s.entries.length

def insert (s : Slots α) (a : α) : Slots α := match s.free with
  | slot :: free => { s with entries := (slot, a) :: s.entries, free }
  | [] => { s with entries := (s.next, a) :: s.entries, next := s.next + 1 }

/-- Give up the slots of all values with a property, the newest first. -/
def remove (s : Slots α) (p : α → Bool) : Slots α :=
  { s with
    entries := s.entries.filter fun e => !p e.2
    free := ((s.entries.filter fun e => p e.2).map Prod.fst).reverse ++ s.free }

@[simp] theorem newest_insert (s : Slots α) (a : α) : (s.insert a).newest = a :: s.newest := by
  unfold insert
  split <;> simp [newest]

@[simp] theorem newest_remove (s : Slots α) (p : α → Bool) :
    (s.remove p).newest = s.newest.filter fun a => !p a := by
  simp [newest, remove, List.filter_map, Function.comp_def]

theorem inOrder_perm (s : Slots α) : s.inOrder.Perm s.newest :=
  (List.mergeSort_perm _ _).map _

@[simp] theorem mem_inOrder {s : Slots α} {a : α} : a ∈ s.inOrder ↔ a ∈ s.newest :=
  s.inOrder_perm.mem_iff

@[simp] theorem length_newest (s : Slots α) : s.newest.length = s.size := by
  simp [newest, size]

end Slots
end Flowrun
