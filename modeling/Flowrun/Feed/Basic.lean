import Flowrun.Task.Snapshot

/-!
# Feeds

A `Feed` is the state of one task together with the journal of its changes. The snapshot and the
journal are written together: after every write the revision of the snapshot is the length of the
journal, and every record carries the revision of its latest change. A write is then announced to
those who follow the feed.

A transition that the lifecycle does not allow is refused.
-/

namespace Flowrun

open Json

/-- An entry of a journal. -/
inductive Event
  /-- A record was added or changed; the index is its position in the history. -/
  | record (index : Nat) (record : Record)
  /-- The status of the task changed. -/
  | status (status : TaskStatus) (target : Option ResumeTarget)
  deriving DecidableEq, Repr, Inhabited

namespace Event

/-- The record of an entry about one. -/
def record? : Event → Option Record
  | .record _ r => some r
  | .status .. => none

def tree : Event → Tree
  | .record index r => .object [
    ("type", .string "record"), ("index", .count index), ("record", r.tree)]
  | .status s target => .object (
    [("type", .string "status"), ("status", s.tree)] ++
    Tree.field? "resume_target" (target.map ResumeTarget.tree))

end Event

/-- The state of a task and the journal of its changes. -/
structure Feed where
  snapshot : Snapshot
  /-- The oldest entry first. -/
  journal : List Event := []
  /-- The revision that was announced last. -/
  announced : Nat := 0
  /-- How many times a revision was announced. -/
  notices : Nat := 0
  deriving Repr, Inhabited

namespace Feed

def status (f : Feed) : TaskStatus := f.snapshot.status

def target (f : Feed) : Option ResumeTarget := f.snapshot.resumeTarget

def isTerminal (f : Feed) : Bool := f.status.isTerminal

def eventsFrom (f : Feed) (position : Nat) : List Event := f.journal.drop position

def record? (f : Feed) (index : Nat) : Option Record := f.snapshot.records[index]?

/-- The state of the task if it is terminal or waits for input. -/
def settled? (f : Feed) : Option Snapshot := if f.status.isSettled then some f.snapshot else none

/-! ### Writing -/

def nextRevision (f : Feed) : Nat := f.journal.length + 1

/-- Put an entry at the end of the journal. -/
def append (f : Feed) (e : Event) (now : Instant) : Feed :=
  { f with
    journal := f.journal ++ [e]
    snapshot := { f.snapshot with revision := f.nextRevision, updatedAt := now } }

/-- Tell the followers about the latest revision. -/
def announce (f : Feed) : Feed :=
  { f with announced := f.journal.length, notices := f.notices + 1 }

def withRecords (f : Feed) (records : List Record) : Feed :=
  { f with snapshot := { f.snapshot with records } }

/-- Add a record at the end of the history. Its index is the length of the history before. -/
def push (f : Feed) (r : Record) (now : Instant) : Feed :=
  let r := { r with revision := f.nextRevision }
  ((f.withRecords (f.snapshot.records ++ [r])).append
    (.record f.snapshot.records.length r) now).announce

/-- Change a record; an unknown index changes nothing. -/
def update (f : Feed) (index : Nat) (change : Record → Record) (now : Instant) : Feed :=
  match f.record? index with
  | none => f
  | some r =>
    let r := { change r with revision := f.nextRevision }
    ((f.withRecords (f.snapshot.records.set index r)).append (.record index r) now).announce

/-- Change the status if the lifecycle allows it, and say whether it does. -/
def transition (f : Feed) (s : TaskStatus) (target : Option ResumeTarget) (now : Instant) :
    Feed × Bool :=
  if f.status.allows s then
    let changed := { f with snapshot := { f.snapshot with status := s, resumeTarget := target } }
    ((changed.append (.status s target) now).announce, true)
  else (f, false)

/-- Change the status if the lifecycle allows it. -/
def setStatus (f : Feed) (s : TaskStatus) (target : Option ResumeTarget) (now : Instant) : Feed :=
  (f.transition s target now).1

/-- The last transition, which comes with the outputs or the error. These are set in any case. -/
def finish (f : Feed) (s : TaskStatus) (outputs : Value) (error : Option String)
    (now : Instant) : Feed × Bool :=
  ({ f with snapshot := { f.snapshot with outputs, error } } : Feed).transition s none now

end Feed
end Flowrun
