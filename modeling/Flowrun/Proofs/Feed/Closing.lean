import Flowrun.Proofs.Feed.Course
import Mathlib.Logic.Relation

/-!
# Records that are closed

A write `Closes` a record if the record was open and is given a final status. After some such writes
(`Closings`) there are as many records as before, those that had a final status are the same, and
those that are still open are the same. So every entry that was added closes a record that was open
at the beginning (`Closings.exists_entries`).
-/

namespace Flowrun.Feed

/-- A write that closes a record. -/
inductive Closes (f : Feed) : Feed → Prop
  | intro {i : Nat} {x : Record} {change : Record → Record} (now : Instant) :
      f.record? i = some x → x.status.LeadsTo (change x).status →
      (change x).status.isTerminal = true → Closes f (f.update i change now)

/-- A feed after some records were closed. -/
abbrev Closings : Feed → Feed → Prop := Relation.ReflTransGen Closes

variable {f₀ f f' : Feed} {i : Nat} {x : Record}

/-! ### One record -/

theorem Closes.length_records (h : f.Closes f') :
    f'.snapshot.records.length = f.snapshot.records.length := by
  cases h with
  | intro => exact length_records_update ..

/-- A record is the same after a closing, or was closed. -/
theorem Closes.record?_cases (h : f.Closes f') (i : Nat) :
    f'.record? i = f.record? i ∨ ∃ x y, f.record? i = some x ∧ x.status.isTerminal = false ∧
      f'.record? i = some y ∧ y.status.isTerminal = true := by
  cases h with
  | @intro j x change now hx hlead hterminal =>
    rw [record?_update]
    split
    · next hij =>
      subst hij
      rw [hx]
      exact Or.inr ⟨x, _, rfl, hlead.isTerminal_eq, rfl, hterminal⟩
    · exact Or.inl rfl

theorem Closes.orderlySince (hf : f₀.OrderlySince f) (h : f.Closes f') : f₀.OrderlySince f' := by
  cases h with
  | intro now hx hlead => exact hf.update hx hlead now

/-! ### Some records -/

namespace Closings

theorem length_records (h : f.Closings f') :
    f'.snapshot.records.length = f.snapshot.records.length := by
  induction h with
  | refl => rfl
  | tail _ hc ih => exact hc.length_records.trans ih

/-- What is closed stays as it is. -/
theorem record?_of_isTerminal (h : f.Closings f') (hx : f.record? i = some x)
    (hterminal : x.status.isTerminal = true) : f'.record? i = some x := by
  induction h with
  | refl => exact hx
  | tail _ hc ih =>
    rcases hc.record?_cases i with hsame | ⟨y, -, hy, hopen, -⟩
    · exact hsame.trans ih
    · obtain rfl := Option.some.inj (ih.symm.trans hy)
      cases hterminal.symm.trans hopen

/-- What is still open is as it was. -/
theorem record?_of_open (h : f.Closings f') (hx : f'.record? i = some x)
    (hopen : x.status.isTerminal = false) : f.record? i = some x := by
  induction h with
  | refl => exact hx
  | tail _ hc ih =>
    rcases hc.record?_cases i with hsame | ⟨-, y, -, -, hy, hterminal⟩
    · exact ih (hsame.symm.trans hx)
    · obtain rfl := Option.some.inj (hx.symm.trans hy)
      cases hterminal.symm.trans hopen

theorem orderlySince (hf : f₀.OrderlySince f) (h : f.Closings f') : f₀.OrderlySince f' := by
  induction h with
  | refl => exact hf
  | tail _ hc ih => exact hc.orderlySince ih

/-- Every entry that was added closes a record that was there and open. -/
theorem exists_entries (h : f.Closings f') :
    ∃ added, f.Extends f' added ∧ ∀ e ∈ added, ∃ i x y, e = .record i y ∧
      f.record? i = some x ∧ x.status.isTerminal = false ∧ y.status.isTerminal = true := by
  induction h with
  | refl => exact ⟨[], .refl f, nofun⟩
  | @tail g _ hm hc ih =>
    obtain ⟨added, hadded, hentries⟩ := ih
    cases hc with
    | @intro j x change now hx hlead hterminal =>
      refine ⟨_, hadded.trans (extends_update hx change now), fun e he => ?_⟩
      rcases List.mem_append.1 he with he | he
      · exact hentries e he
      · obtain rfl := List.mem_singleton.1 he
        have hopen := hlead.isTerminal_eq
        exact ⟨j, x, _, rfl, record?_of_open hm hx hopen, hopen, hterminal⟩

end Closings

end Flowrun.Feed
