import Flowrun.Feed.Basic

/-!
# Following a feed

A `Follower` delivers the entries of a journal from a revision on. It takes what is there in one
batch and delivers it one by one; when there is nothing left, it ends if the task is terminal, and
else waits until a revision is announced that it has not been told about.

A task that was released to the store has no journal any more. Its history is replayed from the
stored snapshot: every record that changed after a revision, once, as it was last.
-/

namespace Flowrun

/-- What a follower does next. -/
inductive FollowerMode
  | reading
  /-- There was nothing to read; wait for an announcement. -/
  | waiting
  | ended
  deriving DecidableEq, Repr, Inhabited

/-- A reader of a feed. -/
structure Follower where
  /-- How many entries of the journal were taken or passed over. -/
  position : Nat
  /-- Entries that were taken and not yet delivered. -/
  buffer : List Event := []
  /-- How many announcements the follower knows of. -/
  seen : Nat
  mode : FollowerMode := .reading
  deriving Repr, Inhabited

namespace Follower

/-- Follow a feed from a revision on. -/
def start (f : Feed) (revision : Nat) : Follower := { position := revision, seen := f.notices }

/-- One step: deliver an entry, take a batch, end, begin to wait, or wake up. -/
def step (f : Feed) (x : Follower) : Option Event × Follower :=
  match x.mode with
  | .ended => (none, x)
  | .waiting =>
    if f.notices = x.seen then (none, x)
    else (none, { x with seen := f.notices, mode := .reading })
  | .reading => match x.buffer with
    | e :: rest => (some e, { x with buffer := rest })
    | [] => match f.eventsFrom x.position with
      | [] => (none, { x with mode := if f.isTerminal then .ended else .waiting })
      | events => (none, { x with position := x.position + events.length, buffer := events })

/-- All entries that can be delivered now. -/
def pending (f : Feed) (x : Follower) : List Event := match x.mode with
  | .ended => []
  | _ => x.buffer ++ f.eventsFrom x.position

/-- The follower after everything that is there was delivered. -/
def caughtUp (f : Feed) (x : Follower) : Follower := match x.mode with
  | .ended => x
  | _ =>
    { position := x.position + (f.eventsFrom x.position).length
      seen := f.notices
      mode := if f.isTerminal then .ended else .waiting }

end Follower

namespace Snapshot

/-- The records that changed after a revision, as they were last. -/
def replay (p : Snapshot) (revision : Nat) : List Record :=
  p.records.filter fun r => revision < r.revision

end Snapshot
end Flowrun
