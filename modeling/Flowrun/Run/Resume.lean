import Flowrun.Run.Report
import Flowrun.Run.Schedule

/-!
# Resuming

A resume is accepted if the task is paused, the run does not halt, and the pause that is shown has
exactly the given target. A node that waits itself is finished with the user's input as its output;
a container whose inner node waits is executed again with the input as payload. The next pause in
the queue is then shown.
-/

namespace Flowrun.Run

open Json

/-- The declared outputs of a node, taken from the user's input; a required one must be there. -/
def declaredOutput (id : String) (inputs : Dict Value) :
    List OutputParam → Except TaskError (List (String × Value))
  | [] => .ok []
  | p :: ps =>
    let v := (inputs.at? p.key).getD .null
    if p.required && v.isNull then .error (.missingInput id p.key)
    else (declaredOutput id inputs ps).map ((p.key, v) :: ·)

/-- The output of a node that is finished with the user's input: its declared outputs, or all of
the input if it declares none. -/
def resumeOutput (r : Run) (id : String) (inputs : Dict Value) : Except TaskError Value :=
  match r.graph.node? id with
  | none => .error (.nodeNotFound id)
  | some n =>
    if n.config.outputs = [] then .ok (.object inputs)
    else (declaredOutput id inputs n.config.outputs).map fun fs => .object (Dict.ofEntries fs)

/-- Show the next pause in the queue. -/
def activateNext (r : Run) : Run := match r.queued with
  | [] => r
  | p :: rest => { r with queued := rest }.activate p

def answered (output : Value) (x : Record) : Record := { x with status := .success, output }

/-- Go on with the container of an inner node that was given its input. -/
def resumeInner (r : Run) (p : Pause) (index : Nat) (inputs : Dict Value) : Run :=
  let r := r.updateRecord index (answered (.object inputs))
  let r := r.setStatus .executing none
  (r.execute p.node (some ⟨p.target, inputs⟩)).activateNext

/-- Finish a node with its output, and move on. -/
def resumeNode (r : Run) (p : Pause) (index : Nat) (output : Value) : Run :=
  let r := { r with pool := r.pool.publish p.node output }
  let r := r.updateRecord index (answered output)
  let r := r.setStanding p.node (.done .success)
  let r := r.setStatus .executing none
  (r.advance p.node).activateNext

/-- Whether the run waits at a target for user input. -/
def waitsAt (r : Run) (target : ResumeTarget) : Bool :=
  r.feed.status == .paused && !r.halting && r.active.map Pause.target == some target

/-- Answer a resume, and go on with the run if it is accepted. -/
def resume (r : Run) (target : ResumeTarget) (inputs : Dict Value) :
    Except TaskError Unit × Run :=
  if !r.waitsAt target then
    (.error (.staleResume target (r.active.map Pause.target) r.feed.status), r)
  else match r.active with
    | none => (.error (.internal "pause slot vanished"), r)
    | some p =>
      let idle := { r with active := none }
      match p.record with
      | none => (.error (.internal "pause record missing"), idle)
      | some index =>
        if p.target.isNested then (.ok (), idle.resumeInner p index inputs)
        else match r.resumeOutput p.node inputs with
          | .error e => (.error e, { idle with active := some p })
          | .ok output => (.ok (), idle.resumeNode p index output)

end Flowrun.Run
