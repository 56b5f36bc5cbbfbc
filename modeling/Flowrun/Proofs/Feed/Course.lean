import Flowrun.Proofs.Feed.Journal
import Mathlib.Data.List.Chain

/-!
# The courses of records

Every write of a record is an entry of the journal, so whatever a record has been since some moment
can be read off the entries that were added. These are its *versions*:

    (versions es i).map Record.status = [.executing, .pause, .success]

If a feed had no records before the entries `es`, they tell all about its records. Then `Orderly`
says that every record began as a record may begin, went on as the lifecycle of records allows, and
is now what was written last. Nothing follows a terminal status, so a record that has become
terminal is not written again (`Orderly.frozen`).

Each write has a lemma that keeps a feed orderly. A write of a record that is there has to be one
that the lifecycle allows.
-/

namespace Flowrun

namespace NodeStatus

/-- The lifecycle of a record: it executes until its node ends or waits for the user, and a record
that waits ends with success or is stopped. -/
def LeadsTo : NodeStatus → NodeStatus → Prop
  | .executing, t => t = .success ∨ t = .fail ∨ t = .stop ∨ t = .pause
  | .pause, t => t = .success ∨ t = .stop
  | _, _ => False

/-- The statuses that a new record may have. -/
def IsInitial (s : NodeStatus) : Prop := s = .executing ∨ s = .skip ∨ s = .pause

/-- Nothing follows a terminal status. -/
theorem LeadsTo.isTerminal_eq {s t : NodeStatus} (h : s.LeadsTo t) : s.isTerminal = false := by
  cases s with
  | executing => rfl
  | pause => rfl
  | success => exact h.elim
  | fail => exact h.elim
  | skip => exact h.elim
  | stop => exact h.elim

/-- Whatever is not terminal is executing or waits. -/
theorem isTerminal_eq_false_iff {s : NodeStatus} :
    s.isTerminal = false ↔ s = .executing ∨ s = .pause := by
  cases s <;> simp [isTerminal]

/-- Whatever is not terminal may be stopped. -/
theorem leadsTo_stop {s : NodeStatus} (h : s.isTerminal = false) : s.LeadsTo .stop := by
  rcases isTerminal_eq_false_iff.1 h with rfl | rfl
  · exact Or.inr (Or.inr (Or.inl rfl))
  · exact Or.inr rfl

end NodeStatus

/-! ### Versions of a record -/

/-- The record that an entry puts at a position. -/
def Event.recordAt? (i : Nat) : Event → Option Record
  | .record j x => if j = i then some x else none
  | .status .. => none

/-- What entries write at a position, the first version first. -/
def versions (es : List Event) (i : Nat) : List Record := es.filterMap (Event.recordAt? i)

theorem versions_append (es more : List Event) (i : Nat) :
    versions (es ++ more) i = versions es i ++ versions more i := List.filterMap_append

theorem mem_versions {es : List Event} {i : Nat} {x : Record} :
    x ∈ versions es i ↔ .record i x ∈ es := by
  unfold versions
  rw [List.mem_filterMap]
  constructor
  · rintro ⟨e, he, hx⟩
    cases e with
    | status => cases hx
    | record j y =>
      replace hx : (if j = i then some y else none) = some x := hx
      split at hx
      · next hj =>
        obtain rfl := Option.some.inj hx
        exact hj ▸ he
      · cases hx
  · exact fun hx => ⟨_, hx, if_pos rfl⟩

theorem versions_record (j : Nat) (y : Record) (i : Nat) :
    versions [.record j y] i = if j = i then [y] else [] := by
  unfold versions
  split
  · next h => exact List.filterMap_cons_some (if_pos h)
  · next h => exact List.filterMap_cons_none (if_neg h)

theorem versions_status (c : Prop) [Decidable c] (s : TaskStatus) (target : Option ResumeTarget)
    (i : Nat) : versions (if c then [.status s target] else []) i = [] := by
  split
  · rfl
  · rfl

namespace Feed

variable {f f' : Feed} {es more : List Event} {i : Nat} {x : Record}

/-! ### Orderly feeds -/

/-- The entries tell all about the records: how each of them began, how it went on, and that it is
what was written last. -/
structure Orderly (f : Feed) (es : List Event) : Prop where
  begins : ∀ i x, (versions es i).head? = some x → x.status.IsInitial
  chain : ∀ i, (versions es i).IsChain fun x y => x.status.LeadsTo y.status
  last : ∀ i, (versions es i).getLast? = f.record? i

namespace Orderly

/-- A record that has become terminal is not written any more. -/
theorem versions_eq_nil (h : f.Orderly es) (h' : f'.Orderly (es ++ more))
    (hx : f.record? i = some x) (hterminal : x.status.isTerminal = true) :
    versions more i = [] := by
  cases hmore : versions more i with
  | nil => rfl
  | cons y ys =>
    -- the first version that is written after the terminal one would have to follow it
    have hchain := h'.chain i
    rw [versions_append, hmore, List.isChain_append] at hchain
    have hlead := hchain.2.2 x (by rw [h.last i, hx]; rfl) y rfl
    cases hterminal.symm.trans hlead.isTerminal_eq

theorem frozen (h : f.Orderly es) (h' : f'.Orderly (es ++ more)) (hx : f.record? i = some x)
    (hterminal : x.status.isTerminal = true) :
    f'.record? i = some x ∧ ∀ y, .record i y ∉ more := by
  have hnone := h.versions_eq_nil h' hx hterminal
  constructor
  · rw [← h'.last i, versions_append, hnone, List.append_nil, h.last i, hx]
  · intro y hy
    have hmem := mem_versions.2 hy
    rw [hnone] at hmem
    cases hmem

/-- A record is one of its versions. -/
theorem mem_of_record? (h : f.Orderly es) (hx : f.record? i = some x) : .record i x ∈ es :=
  mem_versions.1 (List.mem_of_getLast? ((h.last i).trans hx))

/-- A terminal version is the last one. -/
theorem record?_of_mem (h : f.Orderly es) (hx : .record i x ∈ es)
    (hterminal : x.status.isTerminal = true) : f.record? i = some x := by
  obtain ⟨before, after, hsplit⟩ := List.append_of_mem (mem_versions.2 hx)
  have hchain := h.chain i
  have hlast := h.last i
  rw [hsplit] at hchain hlast
  cases after with
  | nil => exact hlast.symm.trans List.getLast?_concat
  | cons y after =>
    have hlead := (List.isChain_cons_cons.1 (List.isChain_append.1 hchain).2.1).1
    cases hterminal.symm.trans hlead.isTerminal_eq

/-- Some record has a terminal status exactly if that status was written at some time. -/
theorem exists_record_iff (h : f.Orderly es) {s : NodeStatus} (hs : s.isTerminal = true) :
    (∃ x ∈ f.snapshot.records, x.status = s) ↔ ∃ i x, .record i x ∈ es ∧ x.status = s := by
  constructor
  · rintro ⟨x, hx, hstatus⟩
    obtain ⟨i, hi⟩ := List.mem_iff_getElem?.1 hx
    exact ⟨i, x, h.mem_of_record? hi, hstatus⟩
  · rintro ⟨i, x, hx, hstatus⟩
    exact ⟨x, List.mem_of_getElem? (h.record?_of_mem hx (hstatus ▸ hs)), hstatus⟩

/-- Nothing was written about a record that is not there. -/
theorem versions_eq_nil_of_record? (h : f.Orderly es) (hi : f.record? i = none) :
    versions es i = [] := List.getLast?_eq_none_iff.1 ((h.last i).trans hi)

/-! ### What keeps a feed orderly -/

theorem push (h : f.Orderly es) (hx : x.status.IsInitial) (now : Instant) :
    (f.push x now).Orderly
      (es ++ [.record f.snapshot.records.length (x.stamped f.nextRevision)]) := by
  have hnew : versions es f.snapshot.records.length = [] :=
    h.versions_eq_nil_of_record? (record?_eq_none_iff.2 (Nat.le_refl _))
  constructor
  · intro i y hy
    rw [versions_append, versions_record] at hy
    split at hy
    · next hi =>
      rw [← hi, hnew] at hy
      obtain rfl := Option.some.inj hy
      exact hx
    · rw [List.append_nil] at hy
      exact h.begins i y hy
  · intro i
    rw [versions_append, versions_record]
    split
    · next hi =>
      rw [← hi, hnew]
      exact List.isChain_singleton _
    · rw [List.append_nil]
      exact h.chain i
  · intro i
    rw [versions_append, versions_record, record?_push]
    split
    · next hi =>
      rw [if_pos hi.symm]
      exact List.getLast?_concat
    · next hi =>
      rw [if_neg (Ne.symm hi), List.append_nil]
      exact h.last i

theorem update (h : f.Orderly es) {change : Record → Record} (hx : f.record? i = some x)
    (hlead : x.status.LeadsTo (change x).status) (now : Instant) :
    (f.update i change now).Orderly
      (es ++ [.record i ((change x).stamped f.nextRevision)]) := by
  have hlast := (h.last i).trans hx
  constructor
  · intro j y hy
    rw [versions_append, versions_record] at hy
    split at hy
    · next hij =>
      subst hij
      -- the record is there, so it has begun before
      have hne := List.ne_nil_of_mem (List.mem_of_getLast? hlast)
      rw [List.head?_append_of_ne_nil _ hne] at hy
      exact h.begins i y hy
    · rw [List.append_nil] at hy
      exact h.begins j y hy
  · intro j
    rw [versions_append, versions_record]
    split
    · next hij =>
      subst hij
      refine List.isChain_append.2 ⟨h.chain i, List.isChain_singleton _, ?_⟩
      intro y hy z hz
      obtain rfl := Option.some.inj (hlast.symm.trans hy)
      obtain rfl := Option.some.inj hz
      exact hlead
    · rw [List.append_nil]
      exact h.chain j
  · intro j
    rw [versions_append, versions_record, record?_update]
    split
    · rw [hx]
      exact List.getLast?_concat
    · rw [List.append_nil]
      exact h.last j

/-- A change of the status of the task touches no record. -/
theorem of_status (h : f.Orderly es) (c : Prop) [Decidable c] (s : TaskStatus)
    (target : Option ResumeTarget) (hrecord : ∀ i, f'.record? i = f.record? i) :
    f'.Orderly (es ++ if c then [.status s target] else []) where
  begins i := by
    rw [versions_append, versions_status, List.append_nil]
    exact h.begins i
  chain i := by
    rw [versions_append, versions_status, List.append_nil]
    exact h.chain i
  last i := by
    rw [versions_append, versions_status, List.append_nil, hrecord]
    exact h.last i

end Orderly

/-! ### Since a moment -/

/-- A feed after some entries that tell all about its records. -/
def OrderlySince (f f' : Feed) : Prop := ∃ es, f.Extends f' es ∧ f'.Orderly es

namespace OrderlySince

variable {f₀ : Feed}

theorem refl (h : ∀ i, f.record? i = none) : f.OrderlySince f :=
  ⟨[], .refl f, fun _ _ hx => (nomatch hx), fun _ => List.isChain_nil, fun i => (h i).symm⟩

theorem push (h : f₀.OrderlySince f) (hx : x.status.IsInitial) (now : Instant) :
    f₀.OrderlySince (f.push x now) := by
  obtain ⟨es, hes, horderly⟩ := h
  exact ⟨_, hes.trans (extends_push f x now), horderly.push hx now⟩

theorem update (h : f₀.OrderlySince f) {change : Record → Record} (hx : f.record? i = some x)
    (hlead : x.status.LeadsTo (change x).status) (now : Instant) :
    f₀.OrderlySince (f.update i change now) := by
  obtain ⟨es, hes, horderly⟩ := h
  exact ⟨_, hes.trans (extends_update hx change now), horderly.update hx hlead now⟩

theorem setStatus (h : f₀.OrderlySince f) (s : TaskStatus) (target : Option ResumeTarget)
    (now : Instant) : f₀.OrderlySince (f.setStatus s target now) := by
  obtain ⟨es, hes, horderly⟩ := h
  exact ⟨_, hes.trans (extends_setStatus f s target now),
    horderly.of_status _ _ _ fun _ => record?_setStatus ..⟩

theorem finish (h : f₀.OrderlySince f) (s : TaskStatus) (outputs : Json.Value)
    (error : Option String) (now : Instant) : f₀.OrderlySince (f.finish s outputs error now).1 := by
  obtain ⟨es, hes, horderly⟩ := h
  exact ⟨_, hes.trans (extends_finish f s outputs error now),
    horderly.of_status _ _ _ fun _ => record?_finish ..⟩

end OrderlySince

end Feed
end Flowrun
