import Flowrun.Source

/-!
# Statuses

The status of a task, with the transitions that its lifecycle allows, and the status of one record
of a node's execution.
-/

namespace Flowrun

open Json

/-- The status of a task. -/
inductive TaskStatus
  | created
  | executing
  | paused
  | success
  | fail
  | stop
  deriving DecidableEq, Repr, Inhabited

namespace TaskStatus

def name : TaskStatus → String
  | .created => "created"
  | .executing => "executing"
  | .paused => "paused"
  | .success => "success"
  | .fail => "fail"
  | .stop => "stop"

def all : List TaskStatus := [.created, .executing, .paused, .success, .fail, .stop]

/-- A task ends as a success, a failure or stopped. -/
def isTerminal : TaskStatus → Bool
  | .success | .fail | .stop => true
  | _ => false

def allows : TaskStatus → TaskStatus → Bool
  | .created, .executing => true
  | .created, .stop => true
  | .executing, .paused => true
  | .executing, .success => true
  | .executing, .fail => true
  | .executing, .stop => true
  | .paused, .executing => true
  | .paused, .fail => true
  | .paused, .stop => true
  | _, _ => false

/-- A task that is terminal or waits for input. -/
def isSettled (s : TaskStatus) : Bool := s.isTerminal || s == .paused

def read? (v : Spot) : Option TaskStatus :=
  Source.case? (all.map fun s => (s.name, s)) v

def tree (s : TaskStatus) : Tree := .string s.name

/-- Nothing follows a terminal status. -/
theorem allows_of_isTerminal {s : TaskStatus} (h : s.isTerminal = true) (t : TaskStatus) :
    s.allows t = false := by
  cases s <;> simp [isTerminal] at h <;> cases t <;> rfl

end TaskStatus

/-- The status of a record. -/
inductive NodeStatus
  | executing
  | success
  | fail
  | skip
  | stop
  | pause
  deriving DecidableEq, Repr, Inhabited

namespace NodeStatus

def name : NodeStatus → String
  | .executing => "executing"
  | .success => "success"
  | .fail => "fail"
  | .skip => "skip"
  | .stop => "stop"
  | .pause => "pause"

def all : List NodeStatus := [.executing, .success, .fail, .skip, .stop, .pause]

/-- A node that executes or waits for input goes on; every other status is final. -/
def isTerminal : NodeStatus → Bool
  | .executing | .pause => false
  | _ => true

def read? (v : Spot) : Option NodeStatus :=
  Source.case? (all.map fun s => (s.name, s)) v

def tree (s : NodeStatus) : Tree := .string s.name

end NodeStatus
end Flowrun
