import Flowrun.Error
import Flowrun.Task.Snapshot

/-!
# The store of tasks

The store keeps the latest snapshot of every task. Snapshots may arrive out of order, so one with
a lower revision than the stored one is dropped. A store may be broken, so that it refuses to save
or to load.
-/

namespace Flowrun

/-- The latest snapshot of every task. -/
structure Store where
  rows : Dict Snapshot := []
  /-- Why nothing can be saved. -/
  saveFault : Option StoreError := none
  /-- Why nothing can be loaded. -/
  loadFault : Option StoreError := none
  deriving Repr, Inhabited

namespace Store

/-- Keep a snapshot unless the store has a newer one. -/
def keep (rows : Dict Snapshot) (p : Snapshot) : Dict Snapshot := match rows.at? p.task with
  | some old => if p.revision < old.revision then rows else rows.put p.task p
  | none => rows.put p.task p

def save (s : Store) (p : Snapshot) : Except StoreError Store := match s.saveFault with
  | some e => .error e
  | none => .ok { s with rows := keep s.rows p }

def load (s : Store) (task : String) : Except StoreError (Option Snapshot) := match s.loadFault with
  | some e => .error e
  | none => .ok (s.rows.at? task)

def delete (s : Store) (task : String) : Store := { s with rows := s.rows.without task }

def size (s : Store) : Nat := s.rows.length

/-- Save a snapshot, and say whether it was saved. -/
def trySave (s : Store) (p : Snapshot) : Store × Bool := match s.save p with
  | .ok s => (s, true)
  | .error _ => (s, false)

end Store
end Flowrun
