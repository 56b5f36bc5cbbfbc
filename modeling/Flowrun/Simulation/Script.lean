import Flowrun.Simulation.Basic

/-!
# Scripted executors

A script says what happens at each execution of a node: the first act at the first call, the second
one at the second, and the last one from then on. A node without a script succeeds with its own id
as output.
-/

namespace Flowrun

open Json

/-- What happens in an act. -/
inductive Deed
  | succeed (output : Value) (branches : List String)
  /-- Succeed with what the executor was given. -/
  | echo
  | fail (e : NodeError)
  | pause (inner : Option InnerNode)
  /-- Break off, perhaps with a reason. -/
  | breakOff (reason : Option String)
  deriving Repr

/-- What happens at one execution of a node. -/
structure Act where
  /-- Milliseconds before anything happens. -/
  delay : Nat := 0
  deed : Deed
  deriving Repr

/-- The acts of every node that has a script. -/
abbrev Scripts := Dict (List Act)

def ResumeTarget.value (t : ResumeTarget) : Value :=
  .object (Dict.ofEntries (("node_id", .string t.node) :: match t.parent with
    | some parent => [("parent_node_id", .string parent)]
    | none => []))

def ResumePayload.value (p : ResumePayload) : Value :=
  .object (Dict.ofEntries [("target", p.target.value), ("inputs", .object p.inputs)])

/-- What an executor was given, as a value. -/
def NodeRequest.echo (r : NodeRequest) (call : Nat) : Value :=
  .object (Dict.ofEntries [("output", .object r.inputs), ("task", .string r.task),
    ("call", .number (.integer call)),
    ("resume", match r.resume with | some p => p.value | none => .null)])

namespace Deed

def report (d : Deed) (call : Nat) (r : NodeRequest) : NodeReport := match d with
  | .succeed output branches => .ok (.success output branches)
  | .echo => .ok (.success (r.echo call) [])
  | .fail e => .error e
  | .pause inner => .ok (.paused inner)
  | .breakOff reason => .error (.ofPanic reason)

end Deed

namespace Scripts

/-- What happens without a script. -/
def plain (r : NodeRequest) : Act :=
  { deed := .succeed (.object [("output", .string r.node.id)]) [] }

def act (s : Scripts) (call : Nat) (r : NodeRequest) : Act :=
  let acts := (s.at? r.node.id).getD []
  (acts[call]?.or acts.getLast?).getD (plain r)

end Scripts

/-- An executor of the engine, or one that follows scripts. -/
inductive Actor
  | builtin (b : Builtin)
  | scripted (scripts : Scripts)
  deriving Repr

instance : Performer Actor where
  perform
    | .builtin b, _, request => { report := b.perform request }
    | .scripted scripts, call, request =>
      let act := scripts.act call request
      { wait := act.delay, report := act.deed.report call request }
  counts
    | .builtin _ => false
    | .scripted _ => true

end Flowrun
