/-!
# Lists without repetitions

`distinct` keeps the first of equal items.
-/

namespace Flowrun

variable {α : Type u} [DecidableEq α]

/-- The items of a list in order, each once. -/
def distinct : List α → List α
  | [] => []
  | a :: as => a :: (distinct as).filter (· ≠ a)

@[simp] theorem mem_distinct {a : α} {as : List α} : a ∈ distinct as ↔ a ∈ as := by
  induction as with
  | nil => simp [distinct]
  | cons b as ih => by_cases h : a = b <;> simp [distinct, ih, h]

theorem nodup_distinct (as : List α) : (distinct as).Nodup := by
  induction as with
  | nil => simp [distinct]
  | cons a as ih => exact List.nodup_cons.2 ⟨by simp, ih.filter _⟩

end Flowrun
