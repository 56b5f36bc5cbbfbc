import Flowrun.Run.Finish
import Flowrun.Run.Resume
import Flowrun.Store

/-!
# Live tasks

A `Live` is a run together with what reaches it from outside: a stop signal, commands to resume, and
the reports of executions. It goes on in steps, and other things may happen between any two steps:

* `scheduling`: start what can be started;
* `selecting`: end the run if nothing is left to wait for; else take the stop signal, or the next
  command, or the next report, in this order of precedence;
* `closing`: the run is over, and its last snapshot was handed to the store.

Every step that may have changed the task saves a snapshot. A command that is still there when the
run ends is answered with an error.
-/

namespace Flowrun

open Json

/-- A request to stop that cannot be taken back. -/
structure StopSignal where
  raised : Bool := false
  deriving DecidableEq, Repr, Inhabited

def StopSignal.raise (_ : StopSignal) : StopSignal := ⟨true⟩

/-- A command to resume, and the number under which its caller waits for the answer. -/
structure ResumeCommand where
  ticket : Nat
  target : ResumeTarget
  inputs : Dict Value
  deriving DecidableEq, Repr, Inhabited

/-- A report that has arrived. -/
structure Arrival where
  serial : Nat
  report : NodeReport
  elapsed : Nat := 0
  deriving Repr

/-- Where a live task is between two steps. -/
inductive Phase
  | scheduling
  | selecting
  /-- The run is over; the last snapshot was saved or not. -/
  | closing (saved : Bool)
  deriving DecidableEq, Repr, Inhabited

/-- A run and what reaches it from outside. -/
structure Live where
  run : Run
  phase : Phase := .scheduling
  signal : StopSignal := {}
  /-- The oldest command first. -/
  commands : List ResumeCommand := []
  /-- The oldest report first. -/
  arrivals : List Arrival := []
  /-- Answers to commands, by ticket. -/
  answers : List (Nat × Except TaskError Unit) := []
  /-- The caller whose resume is under way. Others wait for their turn. -/
  caller : Option Nat := none
  deriving Inhabited

namespace Live

def feed (l : Live) : Feed := l.run.feed

def isOver (l : Live) : Bool := match l.phase with
  | .closing _ => true
  | _ => false

/-! ### What reaches the task -/

def raiseStop (l : Live) : Live := { l with signal := l.signal.raise }

def send (l : Live) (c : ResumeCommand) : Live :=
  { l with commands := l.commands ++ [c], caller := some c.ticket }

def deliver (l : Live) (a : Arrival) : Live := { l with arrivals := l.arrivals ++ [a] }

/-- The answer to the command with a ticket. -/
def answer? (l : Live) (ticket : Nat) : Option (Except TaskError Unit) :=
  (l.answers.find? (·.1 == ticket)).map Prod.snd

/-- Hand out the answer to a command, and let the next caller have its turn. -/
def collect (l : Live) (ticket : Nat) : Live :=
  { l with answers := l.answers.filter (·.1 != ticket), caller := none }

/-! ### Steps -/

def save (l : Live) (s : Store) : Live × Store := (l, (s.trySave l.feed.snapshot).1)

/-- Start what can be started. A run that halts starts nothing and saves nothing. -/
def schedule (l : Live) (s : Store) : Live × Store :=
  let next := { l with run := l.run.schedule, phase := .selecting }
  if l.run.halting then (next, s) else next.save s

/-- The answer to a command that the run did not live to see. -/
def dropped : Except TaskError Unit := .error (.internal "task dispatcher dropped resume")

def close (l : Live) (s : Store) : Live × Store :=
  let run := l.run.finish
  let (s, saved) := s.trySave run.feed.snapshot
  ({ l with
      run
      phase := .closing saved
      commands := []
      answers := l.answers ++ l.commands.map fun c => (c.ticket, dropped) }, s)

/-- Whether there is nothing to wait for. -/
def isIdle (l : Live) : Bool := l.run.inFlight.isEmpty && !l.run.awaitsInput

def takeStop (l : Live) : Live := { l with run := l.run.stop, phase := .scheduling }

def takeCommand (l : Live) (c : ResumeCommand) (rest : List ResumeCommand) : Live :=
  let (answer, run) := l.run.resume c.target c.inputs
  { l with
    run, commands := rest, phase := .scheduling
    answers := l.answers ++ [(c.ticket, answer)] }

def takeReport (l : Live) (a : Arrival) (rest : List Arrival) : Live :=
  { l with run := l.run.report a.serial a.report a.elapsed, arrivals := rest, phase := .scheduling }

/-- Take the first thing that has reached the task; `none` if it has to wait. -/
def select? (l : Live) (s : Store) : Option (Live × Store) :=
  if l.signal.raised && !l.run.stopping then some (l.takeStop.save s)
  else match l.commands, l.arrivals with
    | c :: rest, _ => some ((l.takeCommand c rest).save s)
    | [], a :: rest => some ((l.takeReport a rest).save s)
    | [], [] => none

/-- The next step of the task; `none` if it has to wait or is over. -/
def step? (l : Live) (s : Store) : Option (Live × Store) :=
  match l.phase with
  | .closing _ => none
  | .scheduling => some (l.schedule s)
  | .selecting =>
    if l.isIdle then
      if l.run.ready = [] ∨ l.run.halting then some (l.close s)
      else some ({ l with phase := .scheduling }, s)
    else l.select? s

end Live
end Flowrun
