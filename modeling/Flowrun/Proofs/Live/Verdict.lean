import Flowrun.Proofs.Live.Steps
import Flowrun.Proofs.Run.Verdict

/-!
# The records of a task that is over tell its status

A live task takes a stop only while something is in flight or a pause is shown (`Selects.busy`). So
whatever happens to it, its run is one that is `Going` until the task is over, and then it is the
end of such a run (`Tells`): the records tell with which status it ended.
-/

namespace Flowrun.Live

variable {l l' : Live} {f₀ : Feed}

theorem Selects.busy (h : l.Selects) :
    l.run.inFlight ≠ [] ∨ l.run.active.isSome = true :=
  h.reason.imp_right fun hinput => (Bool.and_eq_true_iff.1 hinput).1

/-- The run of a live task goes on, or has come to its end. -/
inductive Tells (f₀ : Feed) (l : Live) : Prop
  | going : l.isOver = false → l.run.Going f₀ → Tells f₀ l
  | ended {s : Run} :
      l.isOver = true → s.Going f₀ → s.isSpent = true → l.run = s.finish → Tells f₀ l

theorem Tells.of_run_eq (h : Tells f₀ l) (hphase : l'.phase = l.phase) (hrun : l'.run = l.run) :
    Tells f₀ l' := by
  have hover : l'.isOver = l.isOver := by
    unfold isOver
    rw [hphase]
  cases h with
  | going hlive hgoing => exact .going (hover.trans hlive) (hrun ▸ hgoing)
  | ended hends hgoing hspent heq =>
    exact .ended (hover.trans hends) hgoing hspent (hrun.trans heq)

/-- A step goes on with the run, or ends it. -/
theorem Tells.turn (hg : l.run.Going f₀) (ht : Turn l l') : Tells f₀ l' := by
  cases ht with
  | schedule => exact .going rfl (hg.perform (a := .schedule) nofun nofun)
  | again => exact .going rfl hg
  | close saved _ hspent => exact .ended rfl hg hspent rfl
  | takeStop hsel => exact .going rfl (hg.perform (a := .stop) nofun fun _ => hsel.busy)
  | @takeCommand c => exact .going rfl (hg.perform (a := .resume c.target c.inputs) nofun nofun)
  | @takeReport a =>
    exact .going rfl (hg.perform (a := .report a.serial a.report a.elapsed) nofun nofun)

theorem Tells.happens (h : Tells f₀ l) (hh : Happens l l') : Tells f₀ l' := by
  cases hh with
  | raiseStop => exact h.of_run_eq rfl rfl
  | send => exact h.of_run_eq rfl rfl
  | deliver => exact h.of_run_eq rfl rfl
  | collect => exact h.of_run_eq rfl rfl
  | step hstep =>
    obtain ⟨hturn, -⟩ := turn_of_step? hstep
    cases h with
    | going _ hgoing => exact .turn hgoing hturn
    | ended hover => cases hover.symm.trans hturn.isOver_eq

theorem Tells.of_happens (h : Tells f₀ l) (hm : Relation.ReflTransGen Happens l l') :
    Tells f₀ l' := by
  induction hm with
  | refl => exact h
  | tail _ hh ih => exact ih.happens hh

variable {g : Graph} {limit : Nat} {startInputs : Dict Json.Value} {pool : Pool}

/-- Whatever happens to a task that was launched: when it is over, its status is `fail` exactly if a
record has failed, and then it reports the failure of the node whose record failed first; it is
`stop` exactly if no record has failed and one is stopped; and it is `success` exactly if all nodes
succeeded or were skipped. The status that is written down when the run ends is never refused. -/
theorem records_decide_status (h : Run.Launched g limit startInputs pool l.run)
    (hids : ∀ n ∈ g.nodes, n.id ≠ "") (hlive : l.isOver = false)
    (hm : Relation.ReflTransGen Happens l l') :
    (l'.isOver = true →
      (l'.feed.status = .fail ↔ ∃ x ∈ l'.feed.snapshot.records, x.status = .fail) ∧
      (l'.feed.status = .fail → ∃ before i x after e,
        l'.feed.journal = l.feed.journal ++ (before ++ .record i x :: after) ∧
        (∀ j y, .record j y ∈ before → y.status ≠ .fail) ∧ x.status = .fail ∧
        l'.feed.record? i = some x ∧ x.error = some e ∧
        l'.feed.snapshot.error = some ("Node '" ++ x.node ++ "' failed: " ++ e.message)) ∧
      (l'.feed.status = .stop ↔ (∀ x ∈ l'.feed.snapshot.records, x.status ≠ .fail) ∧
        ∃ x ∈ l'.feed.snapshot.records, x.status = .stop) ∧
      (l'.feed.status = .success ↔
        ∀ x ∈ l'.feed.snapshot.records, x.status = .success ∨ x.status = .skip)) ∧
    (l'.isOver = false → l'.run.isSpent = true → ∀ outputs error now,
      (l'.run.closePauses.feed.finish l'.run.closePauses.finalStatus outputs error now).2 =
        true) := by
  obtain ⟨as, has⟩ := exists_acts h.steady rfl hm
  have htells : Tells l.feed l' := (Tells.going hlive h.going).of_happens hm
  cases htells with
  | going hgoes hgoing =>
    constructor
    · intro hover
      cases hover.symm.trans hgoes
    · intro _ hspent outputs error now
      obtain ⟨-, hended⟩ := hgoing.steady.ended_closePauses .any hspent
      rw [Feed.accepted_finish]
      exact hended.allows_finalStatus
  | @ended s hover hgoing hspent heq =>
    refine ⟨fun _ => ?_, fun hgoes => absurd (hover.symm.trans hgoes) nofun⟩
    obtain ⟨es, hes, htold⟩ := h.told_acts as
    obtain ⟨es', hes', horderly⟩ := h.orderlySince_acts as
    obtain rfl := hes.unique hes'
    have hgraph : s.graph = g := by
      rw [← h.graph_acts as, ← has, heq, Run.graph_finish]
    rw [← has] at hes htold horderly
    have hjournal : l'.feed.journal = l.feed.journal ++ es := hes.journal
    have herror : l'.feed.snapshot.error = l'.run.failure := by
      show l'.run.feed.snapshot.error = l'.run.failure
      rw [heq]
      exact Feed.error_finish ..
    have hverdict := hgoing.status_finish_iff (hgraph ▸ hids) hspent (heq ▸ horderly) (heq ▸ htold)
    rw [← heq] at hverdict
    obtain ⟨hfail, hstop, hsuccess⟩ := hverdict
    refine ⟨hfail, fun hstatus => ?_, hstop, hsuccess⟩
    have hsome := (htold.failure_iff horderly).2 (hfail.1 hstatus)
    obtain ⟨message, hmessage⟩ := Option.isSome_iff_exists.1 hsome
    obtain ⟨before, i, x, after, e, rfl, hnone, hfailed, he, rfl⟩ :=
      findSome?_failure?_eq_some htold.explained (htold.failure.symm.trans hmessage)
    refine ⟨before, i, x, after, e, hjournal, hnone, hfailed, ?_, he, herror.trans hmessage⟩
    exact horderly.record?_of_mem (List.mem_append_right _ List.mem_cons_self) (hfailed ▸ rfl)

/-! ### A race -/

/-- A task after it was left alone for some steps. -/
def steps (l : Live) : Nat → Live
  | 0 => l
  | n + 1 => match l.step? {} with
    | some (l', _) => l'.steps n
    | none => l

theorem happens_steps (l : Live) (n : Nat) : Relation.ReflTransGen Happens l (l.steps n) := by
  induction n generalizing l with
  | zero => exact .refl
  | succ n ih =>
    unfold steps
    split
    · next l' _ hstep => exact .head (.step hstep) (ih l')
    · exact .refl

/-- The script fails, and a stop is taken while the container is in flight. The container then
succeeds, but its record is stopped like that of everything that reports while a run stops. -/
def race : Live :=
  let failing := (({ run := Sample.run 0 } : Live).steps 1).deliver
    ⟨1, .error (.execution "no such table"), 0⟩
  let stopping := (failing.steps 1).raiseStop
  ((stopping.steps 2).deliver ⟨0, .ok (.success (.bool true) []), 0⟩).steps 3

theorem happens_race : Relation.ReflTransGen Happens { run := Sample.run 0 } race := by
  refine .trans (.tail ?_ (.deliver _)) (happens_steps _ 3)
  refine .trans (.tail ?_ .raiseStop) (happens_steps _ 2)
  refine .trans (.tail ?_ (.deliver _)) (happens_steps _ 1)
  exact happens_steps _ 1

/-- The failure comes first, so the task fails though it was stopped, and reports that failure. -/
theorem records_decide_status_race :
    let ended := race.steps 1
    Run.Launched Sample.graph 0 [] {} (Sample.run 0) ∧ (∀ n ∈ Sample.graph.nodes, n.id ≠ "") ∧
      Relation.ReflTransGen Happens { run := Sample.run 0 } ended ∧ ended.isOver = true ∧
      ended.feed.snapshot.records.map (fun x => (x.node, x.status)) =
        [("batch", .stop), ("fetch", .fail)] ∧
      ended.feed.status = .fail ∧
      ended.feed.snapshot.error = some "Node 'fetch' failed: Execution error: no such table" ∧
      (race.run.closePauses.feed.finish .fail .null none race.run.now).2 = true := by
  have hover : (race.steps 1).isOver = true := by cbv
  have hrecords : (race.steps 1).feed.snapshot.records.map (fun x => (x.node, x.status)) =
      [("batch", .stop), ("fetch", .fail)] := by cbv
  have herror : (race.steps 1).feed.snapshot.error =
      some "Node 'fetch' failed: Execution error: no such table" := by cbv
  have hlive : race.isOver = false := by cbv
  have hspent : race.run.isSpent = true := by cbv
  have hfinal : race.run.closePauses.finalStatus = .fail := by cbv
  have hends := happens_race.trans (happens_steps race 1)
  obtain ⟨hstatus, -⟩ := records_decide_status (Sample.launched 0) Sample.id_ne_empty rfl hends
  obtain ⟨hfail, -⟩ := hstatus hover
  obtain ⟨-, haccepted⟩ :=
    records_decide_status (Sample.launched 0) Sample.id_ne_empty rfl happens_race
  have hfailed : ∃ x ∈ (race.steps 1).feed.snapshot.records, x.status = .fail := by
    have hmem : ("fetch", NodeStatus.fail) ∈
        (race.steps 1).feed.snapshot.records.map (fun x => (x.node, x.status)) := by
      rw [hrecords]
      decide
    obtain ⟨x, hx, heq⟩ := List.mem_map.1 hmem
    exact ⟨x, hx, (Prod.mk.inj heq).2⟩
  have hlast := haccepted hlive hspent .null none race.run.now
  rw [hfinal] at hlast
  exact ⟨Sample.launched 0, Sample.id_ne_empty, hends, hover, hrecords, hfail.2 hfailed, herror,
    hlast⟩

end Flowrun.Live
