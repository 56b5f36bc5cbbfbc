import Flowrun.Proofs.Feed.Records

/-!
# What the writes of a feed do to its journal

A journal only grows: `f.Extends f' added` says that `f'` is `f` after some writes, with the entries
that they put behind those of `f`. The task and its app stay, and the revision goes on being the
length of the journal.

The pauses that were shown can be read off the journal. Showing one is the only write that gives a
record the status `pause`, so the entries with such a record are the activations, in their order,
and the record says which node waits and where a resume has to aim.
-/

namespace Flowrun

namespace Record

/-- Where a resume of the node of a record has to aim. -/
def target (x : Record) : ResumeTarget := .new x.node x.parent

/-- The node of the graph that waits when a record shows a pause. -/
def waiter (x : Record) : String := x.parent.getD x.node

end Record

/-- The index and the record of an entry that shows a pause. -/
def Event.activation? : Event → Option (Nat × Record)
  | .record i x => if x.status = .pause then some (i, x) else none
  | .status .. => none

theorem Event.activation?_record_of_ne {i : Nat} {x : Record} (h : x.status ≠ .pause) :
    (Event.record i x).activation? = none := if_neg h

theorem Event.activation?_record {i : Nat} {x : Record} (h : x.status = .pause) :
    (Event.record i x).activation? = some (i, x) := if_pos h

namespace Feed

/-- The pauses that were shown, the first one first. -/
def activations (f : Feed) : List (Nat × Record) := f.journal.filterMap Event.activation?

/-- A feed after some more entries. -/
structure Extends (f f' : Feed) (added : List Event) : Prop where
  task : f'.snapshot.task = f.snapshot.task
  app : f'.snapshot.app = f.snapshot.app
  journal : f'.journal = f.journal ++ added
  revision : f.snapshot.revision = f.journal.length → f'.snapshot.revision = f'.journal.length

variable {f f' f'' : Feed} {added more : List Event}

namespace Extends

theorem refl (f : Feed) : f.Extends f [] := ⟨rfl, rfl, (List.append_nil _).symm, id⟩

theorem trans (h : f.Extends f' added) (h' : f'.Extends f'' more) :
    f.Extends f'' (added ++ more) where
  task := h'.task.trans h.task
  app := h'.app.trans h.app
  journal := by rw [h'.journal, h.journal, List.append_assoc]
  revision := h'.revision ∘ h.revision

theorem unique (h : f.Extends f' added) (h' : f.Extends f' more) : added = more :=
  List.append_cancel_left (h.journal.symm.trans h'.journal)

theorem activations (h : f.Extends f' added) :
    f'.activations = f.activations ++ added.filterMap Event.activation? := by
  unfold Feed.activations
  rw [h.journal, List.filterMap_append]

/-- Writes raise the revision. -/
theorem revision_le (h : f.Extends f' added) (hf : f.snapshot.revision = f.journal.length) :
    f.snapshot.revision ≤ f'.snapshot.revision := by
  rw [h.revision hf, hf, h.journal, List.length_append]
  exact Nat.le_add_right _ _

end Extends

/-! ### Each write -/

/-- Whatever else is written, an entry is put behind the others and counted. -/
theorem extends_append {g : Feed} (htask : g.snapshot.task = f.snapshot.task)
    (happ : g.snapshot.app = f.snapshot.app) (hjournal : g.journal = f.journal) (e : Event)
    (now : Instant) : f.Extends (g.append e now).announce [e] where
  task := htask
  app := happ
  journal := by rw [← hjournal]; rfl
  revision _ := by
    show g.journal.length + 1 = (g.journal ++ [e]).length
    rw [List.length_append]
    rfl

theorem extends_push (f : Feed) (x : Record) (now : Instant) :
    f.Extends (f.push x now)
      [.record f.snapshot.records.length (x.stamped f.nextRevision)] := by
  refine extends_append ?_ ?_ ?_ _ now
  all_goals rfl

theorem extends_update {i : Nat} {x : Record} (hx : f.record? i = some x)
    (change : Record → Record) (now : Instant) :
    f.Extends (f.update i change now) [.record i ((change x).stamped f.nextRevision)] := by
  rw [update_eq_of_record? now hx]
  refine extends_append ?_ ?_ ?_ _ now
  all_goals rfl

theorem extends_transition (f : Feed) (s : TaskStatus) (target : Option ResumeTarget)
    (now : Instant) :
    f.Extends (f.transition s target now).1
      (if f.status.allows s then [.status s target] else []) := by
  unfold transition
  split
  · refine extends_append ?_ ?_ ?_ _ now
    all_goals rfl
  · exact .refl f

theorem extends_setStatus (f : Feed) (s : TaskStatus) (target : Option ResumeTarget)
    (now : Instant) :
    f.Extends (f.setStatus s target now) (if f.status.allows s then [.status s target] else []) :=
  extends_transition ..

theorem extends_finish (f : Feed) (s : TaskStatus) (outputs : Json.Value) (error : Option String)
    (now : Instant) :
    f.Extends (f.finish s outputs error now).1
      (if f.status.allows s then [.status s none] else []) := by
  have hwritten := extends_transition { f with snapshot := { f.snapshot with outputs, error } } s
    none now
  exact ⟨hwritten.task, hwritten.app, hwritten.journal, hwritten.revision⟩

/-! ### Writes of records with one status -/

/-- A feed after some writes in which all records that are written are given the same status. -/
def Marks (s : NodeStatus) (f f' : Feed) : Prop :=
  ∃ added, f.Extends f' added ∧ ∀ i x, .record i x ∈ added → x.status = s

namespace Marks

variable {s : NodeStatus}

theorem refl (s : NodeStatus) (f : Feed) : f.Marks s f := ⟨[], .refl f, nofun⟩

theorem push (f : Feed) {x : Record} (hx : x.status = s) (now : Instant) :
    Marks s f (f.push x now) := by
  refine ⟨_, extends_push f x now, fun i y hy => ?_⟩
  obtain ⟨-, rfl⟩ := Event.record.inj (List.mem_singleton.1 hy)
  exact hx

theorem update (f : Feed) (i : Nat) {change : Record → Record} (h : ∀ x, (change x).status = s)
    (now : Instant) : Marks s f (f.update i change now) := by
  cases hx : f.record? i with
  | some x =>
    refine ⟨_, extends_update hx change now, fun j y hy => ?_⟩
    obtain ⟨-, rfl⟩ := Event.record.inj (List.mem_singleton.1 hy)
    exact h x
  | none =>
    have hsame : f.update i change now = f := by
      unfold Feed.update
      rw [hx]
    rw [hsame]
    exact .refl s f

theorem setStatus (h : Marks s f f') (t : TaskStatus) (target : Option ResumeTarget)
    (now : Instant) : Marks s f (f'.setStatus t target now) := by
  obtain ⟨added, hadded, hmarked⟩ := h
  refine ⟨_, hadded.trans (extends_setStatus f' t target now), fun i x hx => ?_⟩
  rcases List.mem_append.1 hx with hx | hx
  · exact hmarked i x hx
  · split at hx
    · cases List.mem_singleton.1 hx
    · cases hx

end Marks

/-! ### Writes that show no pause -/

/-- Entries that show no pause. -/
def Quiet (added : List Event) : Prop := added.filterMap Event.activation? = []

theorem quiet_nil : Quiet [] := rfl

theorem quiet_status (c : Prop) [Decidable c] (s : TaskStatus) (target : Option ResumeTarget) :
    Quiet (if c then [.status s target] else []) := by
  split
  · rfl
  · rfl

theorem Quiet.append (h : Quiet added) (h' : Quiet more) : Quiet (added ++ more) := by
  unfold Quiet
  rw [List.filterMap_append, h, h']
  rfl

/-- An entry that shows a pause, and a change of the status. -/
theorem activations_shown {i : Nat} {x : Record} (h : x.status = .pause) (hq : Quiet more) :
    ([Event.record i x] ++ more).filterMap Event.activation? = [(i, x)] := by
  rw [List.filterMap_append, hq, List.filterMap_cons_some (Event.activation?_record h)]
  rfl

/-- A feed after some more writes that show no pause. -/
def Quietly (f f' : Feed) : Prop := ∃ added, f.Extends f' added ∧ Quiet added

namespace Quietly

theorem refl (f : Feed) : f.Quietly f := ⟨[], .refl f, quiet_nil⟩

theorem trans (h : f.Quietly f') (h' : f'.Quietly f'') : f.Quietly f'' := by
  obtain ⟨added, hadded, hquiet⟩ := h
  obtain ⟨more, hmore, hquiet'⟩ := h'
  exact ⟨added ++ more, hadded.trans hmore, hquiet.append hquiet'⟩

theorem of_marks {s : NodeStatus} (hs : s ≠ .pause) (h : f.Marks s f') : f.Quietly f' := by
  obtain ⟨added, hadded, hmarked⟩ := h
  refine ⟨added, hadded, List.filterMap_eq_nil_iff.2 fun e he => ?_⟩
  cases e with
  | status => rfl
  | record i x =>
    apply Event.activation?_record_of_ne
    exact fun hpause => hs ((hmarked i x he).symm.trans hpause)

theorem push (f : Feed) {x : Record} {s : NodeStatus} (hs : s ≠ .pause) (hx : x.status = s)
    (now : Instant) : f.Quietly (f.push x now) := of_marks hs (.push f hx now)

theorem update (f : Feed) (i : Nat) {change : Record → Record} {s : NodeStatus} (hs : s ≠ .pause)
    (h : ∀ x, (change x).status = s) (now : Instant) : f.Quietly (f.update i change now) :=
  of_marks hs (.update f i h now)

theorem setStatus (f : Feed) (s : TaskStatus) (target : Option ResumeTarget) (now : Instant) :
    f.Quietly (f.setStatus s target now) := ⟨_, extends_setStatus f s target now, quiet_status ..⟩

end Quietly

end Feed
end Flowrun
