import Flowrun.Service.Basic
import Flowrun.Task.Request

/-!
# Resuming and stopping tasks

A resume is checked against the state of the task, then sent to it as a command, and its caller
waits for the answer. A stop is a signal that the task takes up on its own. A task that was released
is looked up in the store, which knows whether it has ended.
-/

namespace Flowrun.Service

variable {ε : Type}

/-- The answer to a resume of a task that is not alive: stale if the store has it as an ended task
of the same app. -/
def rejectReleased (s : Service ε) (q : ResumeRequest) : TaskError :=
  match s.store.load q.task with
  | .error e => .ofStore e
  | .ok none => .taskNotFound q.task
  | .ok (some p) =>
    if (q.app = "" ∨ p.app = q.app) ∧ p.isTerminal then
      .staleResume q.target p.resumeTarget p.status
    else .taskNotFound q.task

/-- The live task that a resume is meant for. -/
def resumable (s : Service ε) (q : ResumeRequest) : Except TaskError Live :=
  match s.live? q.task with
  | none => .error (s.rejectReleased q)
  | some l =>
    if q.app ≠ "" ∧ l.feed.snapshot.app ≠ q.app then .error (.taskNotFound q.task) else .ok l

/-- Whether a task waits at the point that a resume is meant for. -/
def checkResume (f : Feed) (q : ResumeRequest) : Except TaskError Unit :=
  if f.status = .paused ∧ f.target = some q.target then .ok ()
  else .error (.staleResume q.target f.target f.status)

/-- Check a resume and send it to its task; `none` while another caller has its turn. After a check
that succeeds the caller waits for the answer under its ticket. -/
def sendResume? (s : Service ε) (l : Live) (q : ResumeRequest) (ticket : Nat) :
    Option (Except TaskError Unit × Service ε) :=
  if l.caller.isSome then none
  else match checkResume l.feed q with
    | .error e => some (.error e, s)
    | .ok () =>
      if l.isOver then some (.error (.internal "task dispatcher is gone"), s)
      else some (.ok (), s.putLive q.task (l.send ⟨ticket, q.target, q.inputs⟩))

/-- Hand the answer to a resume to its caller; `none` while there is none. -/
def collectAnswer? (s : Service ε) (task : String) (ticket : Nat) :
    Option (Except TaskError Unit × Service ε) :=
  match s.live? task with
  | none => none
  | some l => (l.answer? ticket).map fun answer => (answer, s.putLive task (l.collect ticket))

/-- Ask a task to stop. -/
def stop (s : Service ε) (task : String) : Except TaskError Unit × Service ε :=
  match s.live? task with
  | some l =>
    if l.feed.isTerminal then (.error (.terminated task l.feed.status), s)
    else (.ok (), s.putLive task l.raiseStop)
  | none => match s.store.load task with
    | .error e => (.error (.ofStore e), s)
    | .ok (some p) =>
      if p.isTerminal then (.error (.terminated task p.status), s)
      else (.error (.taskNotFound task), s)
    | .ok none => (.error (.taskNotFound task), s)

end Flowrun.Service
