import Flowrun.Feed.Basic

/-!
# What the writes of a feed do to its records

Every write of a feed is told here through two views of it: the record at a position (`record?`)
and the status. A push adds one record behind the others, an update changes one record and never the
number of them, and a change of the status touches no record. Whatever is written carries the
revision of the write (`Record.stamped`), which is of no importance to anything but readers.
-/

namespace Flowrun

/-- A record as it is written at a revision. -/
def Record.stamped (x : Record) (revision : Nat) : Record := { x with revision }

namespace Record

variable (x : Record) (revision : Nat)

@[simp] theorem parent_stamped : (x.stamped revision).parent = x.parent := rfl

end Record

namespace Feed

variable (f : Feed) (now : Instant)

/-! ### Records -/

theorem record?_eq_none_iff {f : Feed} {i : Nat} :
    f.record? i = none ↔ f.snapshot.records.length ≤ i := by
  simp [record?]

theorem lt_length_of_record? {f : Feed} {i : Nat} {x : Record} (h : f.record? i = some x) :
    i < f.snapshot.records.length :=
  (List.getElem?_eq_some_iff.1 h).1

theorem record?_push (x : Record) (i : Nat) :
    (f.push x now).record? i =
      if i = f.snapshot.records.length then some (x.stamped f.nextRevision) else f.record? i := by
  simp only [push, announce, append, withRecords, record?]
  split
  · next h => rw [h, List.getElem?_append_right (Nat.le_refl _), Nat.sub_self]; rfl
  · next h =>
    rcases Nat.lt_or_gt_of_ne h with hlt | hgt
    · rw [List.getElem?_append_left hlt]
    · rw [List.getElem?_eq_none (by simp; omega), List.getElem?_eq_none (by omega)]

/-- A push leaves what was there. -/
theorem record?_push_of_eq_some {f : Feed} {i : Nat} {y : Record} (h : f.record? i = some y)
    (x : Record) : (f.push x now).record? i = some y := by
  rw [record?_push, if_neg (Nat.ne_of_lt (lt_length_of_record? h)), h]

theorem update_eq_of_record? {f : Feed} {i : Nat} {x : Record} (h : f.record? i = some x)
    (change : Record → Record) :
    f.update i change now =
      ((f.withRecords (f.snapshot.records.set i ((change x).stamped f.nextRevision))).append
        (.record i ((change x).stamped f.nextRevision)) now).announce := by
  unfold update
  rw [h]
  rfl

theorem record?_update (i : Nat) (change : Record → Record) (j : Nat) :
    (f.update i change now).record? j =
      if i = j then (f.record? i).map fun x => (change x).stamped f.nextRevision
      else f.record? j := by
  cases hi : f.record? i with
  | none =>
    have hsame : f.update i change now = f := by
      unfold update
      rw [hi]
    rw [hsame]
    split
    · next h => rw [← h, hi]; rfl
    · rfl
  | some x =>
    rw [update_eq_of_record? now hi]
    simp only [announce, append, withRecords, record?, Option.map_some]
    rw [List.getElem?_set, if_pos (lt_length_of_record? hi)]

@[simp] theorem record?_setStatus (s : TaskStatus) (target : Option ResumeTarget) (i : Nat) :
    (f.setStatus s target now).record? i = f.record? i := by
  simp only [setStatus, transition]
  split <;> rfl

/-- The records after an update that comes with a change of the status. -/
theorem record?_setStatus_update (i : Nat) (change : Record → Record) (s : TaskStatus)
    (target : Option ResumeTarget) (j : Nat) :
    ((f.update i change now).setStatus s target now).record? j =
      if i = j then (f.record? i).map fun x => (change x).stamped f.nextRevision
      else f.record? j := by
  rw [record?_setStatus, record?_update]

@[simp] theorem record?_finish (s : TaskStatus) (outputs : Json.Value) (error : Option String)
    (i : Nat) : (f.finish s outputs error now).1.record? i = f.record? i := by
  simp only [finish, transition]
  split <;> rfl

/-- An update adds no record. -/
@[simp] theorem length_records_update (i : Nat) (change : Record → Record) :
    (f.update i change now).snapshot.records.length = f.snapshot.records.length := by
  unfold update
  split
  · rfl
  · exact List.length_set

@[simp] theorem records_finish (s : TaskStatus) (outputs : Json.Value) (error : Option String) :
    (f.finish s outputs error now).1.snapshot.records = f.snapshot.records := by
  simp only [finish, transition]
  split <;> rfl

/-! ### Status -/

@[simp] theorem status_update (i : Nat) (change : Record → Record) :
    (f.update i change now).status = f.status := by
  unfold update
  split <;> rfl

theorem status_setStatus (s : TaskStatus) (target : Option ResumeTarget) :
    (f.setStatus s target now).status = if f.status.allows s then s else f.status := by
  simp only [setStatus, transition]
  split <;> rfl

/-- Between running and waiting a task may go back and forth. -/
theorem status_setStatus_of_live {f : Feed} (hlive : f.status = .executing ∨ f.status = .paused)
    {s : TaskStatus} (hs : s = .executing ∨ s = .paused) (target : Option ResumeTarget)
    (now : Instant) : (f.setStatus s target now).status = s := by
  rw [status_setStatus]
  rcases hlive with hf | hf <;> rcases hs with rfl | rfl <;> simp [hf, TaskStatus.allows]

@[simp] theorem target_update (i : Nat) (change : Record → Record) :
    (f.update i change now).target = f.target := by
  unfold update
  split <;> rfl

/-- The target changes with the status. -/
theorem target_setStatus (s : TaskStatus) (target : Option ResumeTarget) :
    (f.setStatus s target now).target = if f.status.allows s then target else f.target := by
  simp only [setStatus, transition]
  split <;> rfl

theorem target_finish (s : TaskStatus) (outputs : Json.Value) (error : Option String) :
    (f.finish s outputs error now).1.target = if f.status.allows s then none else f.target :=
  target_setStatus { f with snapshot := { f.snapshot with outputs, error } } now s none

theorem status_finish (s : TaskStatus) (outputs : Json.Value) (error : Option String) :
    (f.finish s outputs error now).1.status = if f.status.allows s then s else f.status :=
  status_setStatus { f with snapshot := { f.snapshot with outputs, error } } now s none

@[simp] theorem outputs_finish (s : TaskStatus) (outputs : Json.Value) (error : Option String) :
    (f.finish s outputs error now).1.snapshot.outputs = outputs := by
  simp only [finish, transition]
  split <;> rfl

@[simp] theorem error_finish (s : TaskStatus) (outputs : Json.Value) (error : Option String) :
    (f.finish s outputs error now).1.snapshot.error = error := by
  simp only [finish, transition]
  split <;> rfl

/-- The last transition takes place if the lifecycle of tasks allows it. -/
theorem accepted_finish (s : TaskStatus) (outputs : Json.Value) (error : Option String) :
    (f.finish s outputs error now).2 = f.status.allows s := by
  simp only [finish, transition]
  split
  · next h => exact h.symm
  · next h => exact (Bool.eq_false_iff.2 h).symm

end Feed
end Flowrun
