import Flowrun.Proofs.Live.Steps
import Flowrun.Service.Control
import Flowrun.Service.Start

/-!
# Tasks and their callers

A `Desk` is one task of a service together with all the calls to resume it. A call is looked up
when it comes, waits until no other call is under way, sends its command, and waits for the answer.
Between any two steps of the task, calls may come and go on, stops may be asked for and executions
may report; a `Happening` is any one of these, and a history is a list of them. What is out of place
changes nothing, so a statement about every history is one about every interleaving.

A caller who has found a task keeps hold of it, also when the service releases it. So the desk keeps
the task as its callers hold it (`held`), which is the task of the service until that is released.

After every history the desk is `InOrder`: the run is where some actions lead to, and at most one
call is under way, whose command waits to be taken or whose answer waits to be collected.
-/

namespace Flowrun

/-- How far a call to resume a task has got. -/
inductive CallState
  /-- The task was found, and the call waits for its turn. -/
  | queued
  /-- The command was sent, and the call waits for the answer. -/
  | sent
  | returned (answer : Except TaskError Unit)

/-- A call to resume a task. -/
structure Call where
  request : ResumeRequest
  state : CallState

/-- When a call gets on, the others stay as they are. -/
theorem call?_set {calls : List Call} {i : Nat} {c : Call} (hi : calls[i]? = some c) (new : Call)
    (j : Nat) : (calls.set i new)[j]? = if i = j then some new else calls[j]? := by
  rw [List.getElem?_set, if_pos (List.getElem?_eq_some_iff.1 hi).1]

/-- One thing that happens to a task or its callers. -/
inductive Happening
  /-- The task takes a step. -/
  | step
  /-- The report of an execution arrives. -/
  | deliver (a : Arrival)
  /-- Someone asks the task to stop. -/
  | stop
  /-- A call to resume the task comes. The first one has the ticket 0. -/
  | call (q : ResumeRequest)
  /-- The call with a ticket gets its turn, if it waits for it and no other one is under way. -/
  | turn (ticket : Nat)
  /-- The call with a ticket collects its answer, if there is one. -/
  | collect (ticket : Nat)
  /-- The store loses what it has of the task. -/
  | forget

/-- A task and the calls to resume it. `ε` stands for executors. -/
structure Desk (ε : Type) where
  service : Service ε
  task : String
  /-- The task as its callers hold it. -/
  held : Live
  /-- The calls by their tickets. -/
  calls : List Call := []

namespace Desk

variable {ε : Type}

/-! ### Histories -/

/-- The desk after an operation of the service. -/
def follow (d : Desk ε) (s : Service ε) : Desk ε :=
  { d with service := s, held := (s.live? d.task).getD d.held }

/-- Write down how far a call has got. -/
def note (d : Desk ε) (ticket : Nat) (q : ResumeRequest) (state : CallState) : Desk ε :=
  { d with calls := d.calls.set ticket ⟨q, state⟩ }

/-- How a call begins: it has found the task, or it is over. -/
def opening (d : Desk ε) (q : ResumeRequest) : CallState := match d.service.resumable q with
  | .ok _ => .queued
  | .error e => .returned (.error e)

/-- A call that waits for its turn gets it. -/
def turn (d : Desk ε) (ticket : Nat) (q : ResumeRequest) : Desk ε :=
  match d.service.sendResume? d.held q ticket with
  | none => d
  | some (.ok (), s) => (d.follow s).note ticket q .sent
  | some (.error e, s) => (d.follow s).note ticket q (.returned (.error e))

/-- A call that waits for its answer collects it. After the task was released, the answer is with
those who hold the task. -/
def collect (d : Desk ε) (ticket : Nat) (q : ResumeRequest) : Desk ε :=
  match d.service.collectAnswer? d.task ticket with
  | some (answer, s) => (d.follow s).note ticket q (.returned answer)
  | none =>
    if d.service.isLive d.task then d
    else match d.held.answer? ticket with
      | some answer => { d with held := d.held.collect ticket }.note ticket q (.returned answer)
      | none => d

/-- The desk after something happened. -/
def act (d : Desk ε) : Happening → Desk ε
  | .step => match d.service.stepTask? d.task with
    | some s => d.follow s
    | none => d
  | .deliver a => d.follow (d.service.deliver d.task a)
  | .stop => d.follow (d.service.stop d.task).2
  | .call q =>
    if q.task = d.task then { d with calls := d.calls ++ [⟨q, d.opening q⟩] } else d
  | .turn ticket => match d.calls[ticket]? with
    | some ⟨q, .queued⟩ => d.turn ticket q
    | _ => d
  | .collect ticket => match d.calls[ticket]? with
    | some ⟨q, .sent⟩ => d.collect ticket q
    | _ => d
  | .forget => { d with service := { d.service with store := d.service.store.delete d.task } }

/-- The desk after a history. -/
def acts (d : Desk ε) (es : List Happening) : Desk ε := es.foldl act d

@[simp] theorem acts_nil (d : Desk ε) : d.acts [] = d := rfl

@[simp] theorem acts_cons (d : Desk ε) (e : Happening) (es : List Happening) :
    d.acts (e :: es) = (d.act e).acts es := rfl

theorem acts_append (d : Desk ε) (es more : List Happening) :
    d.acts (es ++ more) = (d.acts es).acts more := List.foldl_append

theorem acts_concat (d : Desk ε) (es : List Happening) (e : Happening) :
    d.acts (es ++ [e]) = (d.acts es).act e := acts_append d es [e]

/-- A task that was just launched and was not called yet. -/
structure Opened (d : Desk ε) (s : Service ε) (p : TaskPlan) (conversation request : String) :
    Prop where
  built : p.graph.Built
  launched : s.launch p conversation = (.ok (d.task, request), d.service)
  alive : d.service.live? d.task = some d.held
  uncalled : d.calls = []

/-! ### What happens, case by case -/

/-- What is held is the task of the service, until that has released it. -/
structure Tied (d : Desk ε) : Prop where
  live : d.service.live? d.task = some d.held ∨
    d.service.live? d.task = none ∧ d.held.phase = .closing true
  own : ∀ c ∈ d.calls, c.request.task = d.task

/-- How the desk changes when something happens. -/
inductive Change (d : Desk ε) : Happening → Desk ε → Prop
  | idle {e : Happening} : Change d e d
  | step {l : Live} {s : Service ε} : d.held.step? d.service.store = some (l, s.store) →
      s.live? d.task = some l → Change d .step { d with service := s, held := l }
  /-- A task that is over and saved is released. -/
  | release {s : Service ε} : d.held.phase = .closing true → s.store = d.service.store →
      s.live? d.task = none → Change d .step { d with service := s }
  | deliver {a : Arrival} {s : Service ε} : s.store = d.service.store →
      s.live? d.task = some (d.held.deliver a) →
      Change d (.deliver a) { d with service := s, held := d.held.deliver a }
  | stop {s : Service ε} : s.store = d.service.store → d.held.feed.isTerminal = false →
      s.live? d.task = some d.held.raiseStop →
      Change d .stop { d with service := s, held := d.held.raiseStop }
  | call {q : ResumeRequest} : q.task = d.task →
      Change d (.call q) { d with calls := d.calls ++ [⟨q, d.opening q⟩] }
  /-- The task does not wait at the point that the call is meant for. -/
  | refuse {i : Nat} {q : ResumeRequest} {e : TaskError} : d.calls[i]? = some ⟨q, .queued⟩ →
      Service.checkResume d.held.feed q = .error e →
      Change d (.turn i) (d.note i q (.returned (.error e)))
  | send {i : Nat} {q : ResumeRequest} {s : Service ε} : d.calls[i]? = some ⟨q, .queued⟩ →
      d.held.caller = none → d.held.isOver = false → s.store = d.service.store →
      s.live? d.task = some (d.held.send ⟨i, q.target, q.inputs⟩) →
      Change d (.turn i)
        ({ d with service := s, held := d.held.send ⟨i, q.target, q.inputs⟩ }.note i q .sent)
  | collect {i : Nat} {q : ResumeRequest} {answer : Except TaskError Unit} {s : Service ε} :
      d.calls[i]? = some ⟨q, .sent⟩ → d.held.answer? i = some answer →
      s.store = d.service.store →
      s.live? d.task = (d.service.live? d.task).map (fun _ => d.held.collect i) →
      Change d (.collect i)
        ({ d with service := s, held := d.held.collect i }.note i q (.returned answer))
  | forget {s : Service ε} : s.store = d.service.store.delete d.task →
      s.live? d.task = d.service.live? d.task → Change d .forget { d with service := s }

variable {d : Desk ε}

theorem live?_putLive (s : Service ε) (task : String) (l : Live) :
    (s.putLive task l).live? task = some l := Dict.at?_put_self ..

theorem follow_of_live? {s : Service ε} {l : Live} (h : s.live? d.task = some l) :
    d.follow s = { d with service := s, held := l } := by
  unfold follow
  rw [h]
  rfl

theorem Tied.follow_self (h : d.Tied) : d.follow d.service = d := by
  rcases h.live with hlive | ⟨hnone, -⟩
  · rw [follow_of_live? hlive]
  · unfold follow
    rw [hnone]
    rfl

theorem Tied.isOver_of_live?_eq_none (h : d.Tied) (hnone : d.service.live? d.task = none) :
    d.held.isOver = true := by
  rcases h.live with hlive | ⟨-, hphase⟩
  · cases hnone.symm.trans hlive
  · unfold Live.isOver
    rw [hphase]

theorem Tied.live?_of_isOver (h : d.Tied) (hover : d.held.isOver = false) :
    d.service.live? d.task = some d.held := by
  rcases h.live with hlive | ⟨hnone, -⟩
  · exact hlive
  · cases (h.isOver_of_live?_eq_none hnone).symm.trans hover

theorem Tied.change_step (h : d.Tied) : Change d .step (d.act .step) := by
  unfold act Service.stepTask?
  rcases h.live with hlive | ⟨hnone, -⟩
  · rw [hlive]
    dsimp only
    split
    · next s hs =>
      split at hs
      · next hphase =>
        obtain rfl := Option.some.inj hs
        have hnone : ({ d.service with tasks := d.service.tasks.without d.task } :
            Service ε).live? d.task = none := Dict.at?_without_self ..
        have hfollow : d.follow { d.service with tasks := d.service.tasks.without d.task } =
            { d with service := { d.service with tasks := d.service.tasks.without d.task } } := by
          unfold follow
          rw [hnone]
          rfl
        rw [hfollow]
        exact .release hphase rfl hnone
      · obtain ⟨⟨l, store⟩, hstep, rfl⟩ := Option.map_eq_some_iff.1 hs
        have hput : ({ d.service.putLive d.task l with store } : Service ε).live? d.task = some l :=
          live?_putLive ..
        rw [follow_of_live? hput]
        exact .step hstep hput
    · exact .idle
  · rw [hnone]
    exact .idle

/-- The task goes on whenever it can take a step. -/
theorem Tied.held_act_step (h : d.Tied) {l : Live} {store : Store}
    (hstep : d.held.step? d.service.store = some (l, store)) : (d.act .step).held = l := by
  have hlive := h.live?_of_isOver (Live.step?_run hstep).1
  have hput : ({ d.service.putLive d.task l with store } : Service ε).live? d.task = some l :=
    live?_putLive ..
  have hservice : d.service.stepTask? d.task = some { d.service.putLive d.task l with store } := by
    unfold Service.stepTask?
    rw [hlive]
    dsimp only
    split
    · next hphase =>
      unfold Live.step? at hstep
      rw [hphase] at hstep
      cases hstep
    · rw [hstep]
      rfl
  unfold act
  rw [hservice]
  dsimp only
  rw [follow_of_live? hput]

theorem Tied.change_turn (h : d.Tied) (hover : d.held.isOver = true → d.held.feed.isTerminal = true)
    {i : Nat} {q : ResumeRequest} (hi : d.calls[i]? = some ⟨q, .queued⟩) :
    Change d (.turn i) (d.turn i q) := by
  have hq : q.task = d.task := h.own _ (List.mem_of_getElem? hi)
  unfold turn Service.sendResume?
  split
  · exact .idle
  · next s hsend =>
    split at hsend
    · cases hsend
    · next hcaller =>
      have hcaller : d.held.caller = none := by simpa using hcaller
      split at hsend
      · cases hsend
      · split at hsend
        · cases hsend
        · next hlive =>
          cases hsend
          have hput : (d.service.putLive q.task (d.held.send ⟨i, q.target, q.inputs⟩)).live?
              d.task = some (d.held.send ⟨i, q.target, q.inputs⟩) := hq ▸ live?_putLive ..
          rw [follow_of_live? hput]
          exact .send hi hcaller (Bool.eq_false_iff.2 hlive) rfl hput
  · next e s hsend =>
    split at hsend
    · cases hsend
    · split at hsend
      · next e' hcheck =>
        cases hsend
        rw [h.follow_self]
        exact .refuse hi hcheck
      -- a task that is over does not wait, so this is no answer
      · next hcheck =>
        split at hsend
        · next hgone =>
          have hterminal := hover hgone
          unfold Service.checkResume at hcheck
          split at hcheck
          · next hwaits =>
            rw [Feed.isTerminal, hwaits.1] at hterminal
            cases hterminal
          · cases hcheck
        · cases hsend

theorem Tied.change_collect (h : d.Tied) {i : Nat} {q : ResumeRequest}
    (hi : d.calls[i]? = some ⟨q, .sent⟩) : Change d (.collect i) (d.collect i q) := by
  unfold collect Service.collectAnswer?
  rcases h.live with hlive | ⟨hnone, -⟩
  · rw [hlive]
    dsimp only
    cases hanswer : d.held.answer? i with
    | none =>
      simp only [Option.map_none, Service.isLive, hlive, Option.isSome_some, if_true]
      exact .idle
    | some answer =>
      have hput : (d.service.putLive d.task (d.held.collect i)).live? d.task =
          some (d.held.collect i) := live?_putLive ..
      simp only [Option.map_some]
      rw [follow_of_live? hput]
      exact .collect hi hanswer rfl (by rw [hput, hlive]; rfl)
  · rw [hnone]
    simp only [Service.isLive, hnone, Option.isSome_none, Bool.false_eq_true, if_false]
    split
    · next answer hanswer => exact .collect hi hanswer rfl (by rw [hnone]; rfl)
    · exact .idle

/-- Whatever happens is one of the cases. -/
theorem Tied.change_act (h : d.Tied) (hover : d.held.isOver = true → d.held.feed.isTerminal = true)
    (e : Happening) : Change d e (d.act e) := by
  cases e with
  | step => exact h.change_step
  | deliver a =>
    unfold act Service.deliver
    rcases h.live with hlive | ⟨hnone, -⟩
    · rw [hlive]
      have hput : (d.service.putLive d.task (d.held.deliver a)).live? d.task =
          some (d.held.deliver a) := live?_putLive ..
      show Change d _ (d.follow (d.service.putLive d.task (d.held.deliver a)))
      rw [follow_of_live? hput]
      exact .deliver rfl hput
    · rw [hnone]
      show Change d _ (d.follow d.service)
      rw [h.follow_self]
      exact .idle
  | stop =>
    have hidle : Change d .stop (d.follow d.service) := by
      rw [h.follow_self]
      exact .idle
    unfold act Service.stop
    rcases h.live with hlive | ⟨hnone, -⟩
    · rw [hlive]
      dsimp only
      split
      · exact hidle
      · next hrunning =>
        have hput : (d.service.putLive d.task d.held.raiseStop).live? d.task =
            some d.held.raiseStop := live?_putLive ..
        rw [follow_of_live? hput]
        exact .stop rfl (Bool.eq_false_iff.2 hrunning) hput
    · rw [hnone]
      dsimp only
      split
      · exact hidle
      · split
        · exact hidle
        · exact hidle
      · exact hidle
  | call q =>
    dsimp only [act]
    split
    · next hq => exact .call hq
    · exact .idle
  | turn i =>
    dsimp only [act]
    split
    · next q hi => exact h.change_turn hover hi
    · exact .idle
  | collect i =>
    dsimp only [act]
    split
    · next q hi => exact h.change_collect hi
    · exact .idle
  | forget => exact .forget rfl rfl

/-! ### What becomes of the store -/

/-- How the store changes with the feed of the task when something happens. -/
inductive Filing (d : Desk ε) (e : Happening) (d' : Desk ε) : Prop
  /-- Nothing was written. -/
  | same : d'.service.store = d.service.store → d'.held.feed = d.held.feed →
      (d'.held.phase = .closing true → d.held.phase = .closing true) → Filing d e d'
  /-- The snapshot was saved, unless the store refused that. -/
  | save : d'.service.store = (d.service.store.trySave d'.held.feed.snapshot).1 →
      (d'.held.phase = .closing true →
        (d.service.store.trySave d'.held.feed.snapshot).2 = true) → Filing d e d'
  /-- The store has lost the task. -/
  | lose : e = .forget → d'.service.store = d.service.store.delete d.task →
      Filing d e d'

theorem Change.filing {d' : Desk ε} {e : Happening} (hc : Change d e d') : Filing d e d' := by
  cases hc with
  | idle => exact .same rfl rfl id
  | step hstep =>
    rcases (Live.turn_of_step? hstep).2 with ⟨hs, hover, hfeed⟩ | ⟨hs, hsaved⟩
    · refine .same hs hfeed fun hclosing => ?_
      unfold Live.isOver at hover
      rw [hclosing] at hover
      cases hover
    · exact .save hs fun hclosing => (hsaved true hclosing).symm
  | release _ hs => exact .same hs rfl id
  | deliver hs => exact .same hs rfl id
  | stop hs => exact .same hs rfl id
  | call => exact .same rfl rfl id
  | refuse => exact .same rfl rfl id
  | send _ _ _ hs => exact .same hs rfl id
  | collect _ _ hs => exact .same hs rfl id
  | forget hs => exact .lose rfl hs

end Desk

/-! ### A small desk

The small graph, launched by a service that has nothing else to do. -/

namespace Sample

def plan : TaskPlan := { app := "app", version := none, graph, seed := { pool := {} } }

def service : Service Builtin := { registry := {}, ids := { stem := "id" }, now := default }

/-- The task as it is when it was launched. -/
def launchedRun : Run :=
  let created : Feed := { snapshot := service.newSnapshot plan "id-0" "conversation" "id-1" }
  { run service.config.concurrency with feed := created.setStatus .executing none default }

def desk : Desk Builtin where
  service := { service with
    ids := { stem := "id", drawn := 2 }
    store := { rows := [("id-0", launchedRun.feed.snapshot)] }
    tasks := [("id-0", { run := launchedRun })] }
  task := "id-0"
  held := { run := launchedRun }

theorem begin_service (feed : Feed) :
    Run.begin plan.graph service.config.concurrency plan.seed.inputs plan.seed.pool feed
      service.now = .ok { run service.config.concurrency with feed } := by
  unfold Run.begin
  rw [show plan.graph = graph from rfl, order_graph]
  show Except.ok _ = _
  rw [entries_graph]
  rfl

theorem opened : desk.Opened service plan "conversation" "id-1" where
  built := built
  launched := by
    have hnext : service.ids.next = "id-0" ∧ service.ids.advance.next = "id-1" := by decide
    unfold Service.launch
    dsimp only [Service.drawId]
    rw [hnext.1, hnext.2, begin_service]
    rfl
  alive := rfl
  uncalled := rfl

def succeeded (branches : List String) : NodeReport := .ok (.success .null branches)

/-- The step inside the container waits. -/
def waiting : List Happening :=
  [.step, .deliver ⟨0, .ok (.paused (some (.new "step" "script"))), 0⟩, .step, .step]

/-- The task up to its last report, after which nothing is left to do. -/
def reported : List Happening :=
  [.step, .deliver ⟨0, succeeded [], 0⟩, .deliver ⟨1, succeeded [], 0⟩, .step, .step, .step, .step,
    .deliver ⟨2, succeeded ["yes"], 0⟩, .step, .step, .deliver ⟨3, succeeded [], 0⟩, .step]

end Sample
end Flowrun
