import Flowrun.Proofs.Run.Ends

/-!
# Runs under way

Until a run comes to its end, every action does one of two things. If the run does not halt
afterwards, it did not halt in between either, so the action is a sequence of moves of a run that
does not halt. If the run halts afterwards, the action does next to nothing: an execution that
reports has its record closed (`Lands`), and everything else sets a flag or the clock at most
(`Steady.perform_of_halting`).

So what is kept by the moves that leave a run going, by flags and by landings holds in every history
up to its end:

    P r → (Steady (r.acts as) ∧ P (r.acts as)) ∨
      ∃ s, Steady s ∧ P s ∧ s.isSpent = true ∧ r.acts as = s.finish

The moves with which the pauses are given up at the end need not keep it.
-/

namespace Flowrun.Run

open Json

variable {w : World} {r r' : Run}

/-- A run after the report of an execution whose record is closed. -/
inductive Lands (r : Run) : Run → Prop
  | intro {x : Execution} {i : Nat} {s : NodeStatus} {change : Record → Record} (pool : Pool)
      (chosen : Dict (List String)) (failure : Option String) :
      x ∈ r.inFlight → r.recordOf.at? x.request.node.id = some i →
      (s = .success ∨ s = .fail ∨ s = .stop) → (∀ y, (change y).status = s) →
      (∀ y, (change y).node = y.node) → (∀ y, (change y).parent = y.parent) →
      Lands r { r.landed x with
        feed := r.feed.update i change r.now
        standings := r.standings.put x.request.node.id (.done s)
        pool, chosen, failure }

/-! ### What does not make a run halt -/

theorem halting_advance (r : Run) (id : String) : (r.advance id).halting = r.halting :=
  advance_induction (P := fun s => s.halting = r.halting) (fun h _ => h) (fun h _ => h) id rfl

theorem halting_activateNext (r : Run) : r.activateNext.halting = r.halting := by
  unfold activateNext
  split
  · rfl
  · unfold activate
    split
    · rfl
    · split
      · rfl
      · rfl

/-- After a resume that was accepted a run goes on. -/
theorem Sound.resume_eq_error_of_halting (h : r.Sound) {target : ResumeTarget} {inputs : Dict Value}
    (hh : (r.resume target inputs).2.halting = true) :
    ∃ e, r.resume target inputs = (.error e, r) := by
  rcases h.resume_cases target inputs with hrefused |
    ⟨p, i, n, given, hlive, -, -, -, -, -, -, heq⟩ | ⟨p, i, output, hlive, -, -, -, -, -, heq⟩
  · exact hrefused
  · rw [heq, halting_activateNext] at hh
    cases hh.symm.trans hlive
  · rw [heq, halting_activateNext, halting_advance] at hh
    cases hh.symm.trans hlive

/-! ### Actions after which a run halts -/

theorem lands_close {x : Execution} {i : Nat} (hx : x ∈ r.inFlight)
    (hi : r.recordOf.at? x.request.node.id = some i) (output : Value) (elapsed : Nat) :
    r.Lands ((r.landed x).close x.request.node.id i .stop output elapsed) :=
  .intro r.pool r.chosen r.failure hx hi (Or.inr (Or.inr rfl)) (fun _ => rfl) (fun _ => rfl)
    (fun _ => rfl)

theorem lands_fail {x : Execution} {i : Nat} (hx : x ∈ r.inFlight)
    (hi : r.recordOf.at? x.request.node.id = some i) (e : NodeError) (elapsed : Nat) :
    r.Lands ((r.landed x).fail x.request.node.id i e elapsed) :=
  .intro r.pool r.chosen _ hx hi (Or.inr (Or.inl rfl)) (fun _ => rfl) (fun _ => rfl)
    (fun _ => rfl)

theorem lands_complete {x : Execution} {i : Nat} (hx : x ∈ r.inFlight)
    (hi : r.recordOf.at? x.request.node.id = some i) (output : Value) (branches : List String)
    (elapsed : Nat) :
    r.Lands ((r.landed x).complete x.request.node.id i output branches elapsed) := by
  rw [complete_eq]
  exact .intro _ _ r.failure hx hi (Or.inl rfl) (fun _ => rfl) (fun _ => rfl) (fun _ => rfl)

/-- If a run halts after a report, the report just closed a record. -/
theorem Steady.lands_take (h : r.Steady) {x : Execution} {result : NodeReport} {elapsed : Nat}
    (hx : x ∈ r.inFlight)
    (hh : ((r.landed x).take x.request.node.id result elapsed).halting = true) :
    r.Lands ((r.landed x).take x.request.node.id result elapsed) := by
  obtain ⟨i, _, hi, _⟩ := h.sound.ledger.exists_record (h.sound.standing_flying hx)
  replace hi : r.recordOf.at? x.request.node.id = some i := hi
  revert hh
  unfold Run.take
  rw [show (r.landed x).recordOf.at? x.request.node.id = some i from hi]
  dsimp only
  split
  · exact fun _ => lands_close hx hi _ _
  · next hgo =>
    split
    · split
      · next branches _ =>
        rw [succeed_eq]
        split
        · exact fun _ => lands_complete hx hi _ _ _
        -- moving on from the node does not make the run halt
        · next hlive =>
          intro hh
          rw [halting_advance] at hh
          exact absurd hh hlive
      · exact fun _ => lands_fail hx hi _ _
    · next inner =>
      by_cases hfailure : r.failure.isSome = true
      · unfold suspend
        rw [show (r.landed x).failure.isSome = true from hfailure, if_pos rfl]
        exact fun _ => lands_close hx hi _ _
      -- a node that waits does not make the run halt either
      · have hlive : r.halting = false :=
          Bool.or_eq_false_iff.2 ⟨Bool.eq_false_iff.2 hgo, Bool.eq_false_iff.2 hfailure⟩
        rw [suspend_eq i (r := r.landed x) (Bool.eq_false_iff.2 hfailure) h.queue]
        intro hh
        split at hh
        · rw [halting_activateNext] at hh
          cases hh.symm.trans hlive
        · cases hh.symm.trans hlive
    · exact fun _ => lands_fail hx hi _ _

/-- What an action has done, if it is not the last one and the run halts afterwards. -/
theorem Steady.perform_of_halting (h : r.Steady) {a : Action} (ha : a ≠ .finish)
    (hh : (r.perform a).halting = true) :
    (∃ now stopping, r.perform a = { r with now, stopping }) ∨ r.Lands (r.perform a) := by
  have idle : r.perform a = r →
      (∃ now stopping, r.perform a = { r with now, stopping }) ∨ r.Lands (r.perform a) :=
    fun hsame => Or.inl ⟨r.now, r.stopping, hsame⟩
  cases a with
  | schedule =>
    have hhalting : r.halting = true := h.sound.halting_schedule.symm.trans hh
    exact idle (if_pos hhalting)
  | report serial result elapsed =>
    revert hh idle
    unfold perform
    dsimp only
    unfold Run.report
    split
    · exact fun _ idle => idle rfl
    · next x hfind =>
      have hx := List.mem_of_find?_eq_some hfind
      have hserial : x.serial = serial := by simpa using List.find?_some hfind
      subst hserial
      exact fun hh _ => Or.inr (h.lands_take hx hh)
  | resume target inputs =>
    obtain ⟨e, heq⟩ := h.sound.resume_eq_error_of_halting hh
    exact idle (congrArg Prod.snd heq)
  | stop => exact Or.inl ⟨r.now, true, rfl⟩
  | clock now => exact Or.inl ⟨now, r.stopping, rfl⟩
  | finish => exact absurd rfl ha

/-! ### What is kept up to the end -/

section Keep

variable {P : Run → Prop}
  (move : ∀ {s s' : Run}, s.Sound → P s → Move w s s' → s'.halting = false → P s')
  (flag : ∀ {s : Run} (now : Instant) (stopping : Bool), P s →
    ({ s with now, stopping } : Run).halting = true → P { s with now, stopping })
  (land : ∀ {s s' : Run}, s.Sound → P s → s.Lands s' → s'.halting = true → P s')

include move flag land

/-- What is kept under way is kept by every action but the last. -/
theorem Steady.keep_perform (h : r.Steady) {a : Action} (ha : a ≠ .finish) (hw : w.Admits r a)
    (hP : P r) : P (r.perform a) := by
  cases hh : (r.perform a).halting with
  | true =>
    rcases h.perform_of_halting ha hh with ⟨now, stopping, heq⟩ | hlands
    · rw [heq] at hh ⊢
      exact flag now stopping hP hh
    · exact land h.sound hP hlands hh
  | false =>
    obtain ⟨hmoves, -⟩ := h.moves_perform ha hw
    refine (hmoves.keep (P := fun s => s.halting = false → P s) h.sound (fun _ => hP) ?_).2 hh
    exact fun hsound hP m hlive => move hsound (hP (m.live hlive)) m hlive

/-- What is kept under way holds in every history up to its end. -/
theorem Steady.keep_acts (h : r.Steady) (hP : P r) {as : List Action} (hw : w.AdmitsAll r as) :
    ((r.acts as).Steady ∧ P (r.acts as)) ∨
      ∃ s, s.Steady ∧ P s ∧ s.isSpent = true ∧ r.acts as = s.finish := by
  induction as generalizing r with
  | nil => exact Or.inl ⟨h, hP⟩
  | cons a as ih =>
    rw [acts_cons, h.act_eq]
    have hrest := hw.2
    rw [h.act_eq] at hrest
    rcases r.perform_cases a with ha | hsame | ⟨hspent, hend⟩
    · exact ih (h.moves_perform ha hw.1).2 (h.keep_perform move flag land ha hw.1 hP) hrest
    · rw [hsame] at hrest ⊢
      exact ih h hP hrest
    · refine Or.inr ⟨r, h, hP, hspent, ?_⟩
      rw [hend, acts_of_isTerminal (h.isTerminal_finish hspent)]

end Keep

end Flowrun.Run
