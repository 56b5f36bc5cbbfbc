import Flowrun.Proofs.Feed.Following

/-!
# What a subscriber is served

The history of a task comes to a subscriber in one of two ways. While the task is alive its feed is
followed, and the subscriber is sent every entry from a revision on. After that a stored snapshot is
replayed, and the subscriber is sent the records that changed after the revision, each once.

What is replayed is the last version of every record that the entries from the revision on tell
about, in the order of the records (`Feed.Agrees.replay_eq`): the revision that a record carries is
one more than the position of the latest entry about it, so it is above `r` exactly if that entry is
among those from `r` on. Who holds a snapshot of the revision has the same records in the end, in
whichever way they are served.
-/

namespace Flowrun

/-! ### The records that a replay sends -/

/-- The last version of each of the first records that entries tell about, in the order of the
records. -/
def latest (es : List Event) (count : Nat) : List Record :=
  (List.range count).filterMap fun i => (versions es i).getLast?

/-- What is kept of a list, by positions. -/
theorem filter_eq_filterMap_range {α : Type} (p : α → Bool) (xs : List α) :
    xs.filter p = (List.range xs.length).filterMap fun i => xs[i]?.filter p := by
  induction xs using List.reverseRecOn with
  | nil => rfl
  | append_singleton xs x ih =>
    have hinit : (List.range xs.length).filterMap (fun i => (xs ++ [x])[i]?.filter p) =
        (List.range xs.length).filterMap fun i => xs[i]?.filter p := by
      refine List.filterMap_congr fun i hi => ?_
      rw [List.getElem?_append_left (List.mem_range.1 hi)]
    rw [List.length_append, List.length_singleton, List.range_succ, List.filterMap_append, hinit,
      ← ih, List.filter_append]
    congr 1
    rw [List.filterMap_cons, List.getElem?_concat_length, List.filter_cons]
    cases hx : p x <;> simp [Option.filter, hx]

namespace Feed

variable {f : Feed} {r i : Nat} {x : Record}

/-- The last version of a record in the entries from a revision on is the record as it is, if it
changed after the revision. -/
theorem Agrees.getLast?_versions (h : f.Agrees) (hx : f.record? i = some x) (r : Nat) :
    (versions (f.eventsFrom r) i).getLast? = if r < x.revision then some x else none := by
  obtain ⟨before, after, hsplit, hnone, hrevision⟩ := h.revision_record hx
  unfold eventsFrom
  rw [hsplit, hrevision]
  split
  · next hlt =>
    -- the latest entry about the record is one of them
    have hle : r ≤ before.length := Nat.le_of_lt_succ hlt
    have hrest : versions (.record i x :: after) i = [x] := by
      rw [← List.singleton_append, versions_append, versions_record, if_pos rfl, hnone,
        List.append_nil]
    rw [List.drop_append_of_le_length hle, versions_append, hrest, List.getLast?_concat]
  · next hge =>
    have hge : before.length + 1 ≤ r := Nat.le_of_not_lt hge
    have hsub : (before ++ .record i x :: after).drop r <:+ after := by
      obtain ⟨k, rfl⟩ := Nat.exists_eq_add_of_le hge
      rw [Nat.add_assoc, ← List.drop_drop, List.drop_left, Nat.add_comm, List.drop_succ_cons]
      exact List.drop_suffix k after
    have hempty : versions ((before ++ .record i x :: after).drop r) i = [] := by
      obtain ⟨passed, hpassed⟩ := hsub
      rw [← hpassed, versions_append] at hnone
      exact (List.append_eq_nil_iff.1 hnone).2
    rw [hempty]
    rfl

/-- A replay sends the last version of every record that the entries from the revision on tell
about, in the order of the records. -/
theorem Agrees.replay_eq (h : f.Agrees) (r : Nat) :
    f.snapshot.replay r = latest (f.eventsFrom r) f.snapshot.records.length := by
  unfold Snapshot.replay latest
  rw [filter_eq_filterMap_range]
  refine List.filterMap_congr fun i hi => ?_
  have hlt : i < f.snapshot.records.length := List.mem_range.1 hi
  have hx : f.record? i = some f.snapshot.records[i] := List.getElem?_eq_getElem hlt
  rw [h.getLast?_versions hx r]
  show (f.record? i).filter _ = _
  rw [hx]
  simp [Option.filter]

/-- Entries are about records that are there. -/
theorem Agrees.lt_length_of_mem (h : f.Agrees) (hx : .record i x ∈ f.eventsFrom r) :
    i < f.snapshot.records.length := by
  have hmem : x ∈ versions f.journal i := mem_versions.2 (List.mem_of_mem_drop hx)
  by_contra hge
  rw [List.getLast?_eq_none_iff.1 ((h.record?_eq i).symm.trans (record?_eq_none_iff.2
    (Nat.le_of_not_lt hge)))] at hmem
  cases hmem

end Feed

/-! ### Bringing a snapshot up to date -/

/-- The record at a position, as an entry, if it changed after a revision. -/
def Record.change? (x : Record) (i revision : Nat) : Option Event :=
  if revision < x.revision then some (.record i x) else none

/-- The records that changed after a revision, as entries that put each at its position. -/
def Snapshot.changes (p : Snapshot) (revision : Nat) : List Event :=
  p.records.zipIdx.filterMap fun e => e.1.change? e.2 revision

/-- These are the records that a replay sends. -/
theorem Snapshot.record?_changes (p : Snapshot) (r : Nat) :
    (p.changes r).filterMap Event.record? = p.replay r := by
  unfold changes replay
  rw [List.filterMap_filterMap, ← List.filterMap_eq_filter]
  conv_rhs => rw [← List.zipIdx_map_fst 0 p.records, List.filterMap_map]
  refine List.filterMap_congr fun e _ => ?_
  by_cases hx : r < e.1.revision <;> simp [hx, Record.change?, Event.record?, Option.guard]

namespace View

/-- An entry that puts a record at the first position that is not up to date. -/
theorem after?_record {v : View} {front held : List Record}
    (hv : v.records = front ++ held.drop front.length) (y : Record) :
    v.after? (.record front.length y) =
      some { v with records := (front ++ [y]) ++ held.drop (front ++ [y]).length } := by
  have hnext : (front ++ [y]).length = front.length + 1 := by
    rw [List.length_append, List.length_singleton]
  unfold after?
  dsimp only
  rw [hv, hnext]
  cases hheld : held.drop front.length with
  | nil =>
    have hlast : held.drop (front.length + 1) = [] := by
      rw [← List.drop_drop, hheld, List.drop_nil]
    rw [hlast, List.append_nil, List.append_nil, if_neg (Nat.lt_irrefl _), if_pos rfl]
  | cons x rest =>
    have hrest : held.drop (front.length + 1) = rest := by
      rw [← List.drop_drop, hheld]
      rfl
    have hlt : front.length < (front ++ x :: rest).length := by simp
    rw [hrest, if_pos hlt, List.set_append_right _ _ (Nat.le_refl _), Nat.sub_self,
      List.append_assoc]
    rfl

/-- The records that changed, from some position on, bring the records up to date if those before
the position are. -/
theorem replay?_changes {v : View} {front back held : List Record} {r : Nat}
    (hlength : held.length ≤ (front ++ back).length)
    (hkept : ∀ (i : Nat) (x : Record), (front ++ back)[i]? = some x →
      r < x.revision ∨ held[i]? = some x)
    (hv : v.records = front ++ held.drop front.length) :
    (v.replay? ((back.zipIdx front.length).filterMap fun e => e.1.change? e.2 r)).map View.records =
      some (front ++ back) := by
  induction back generalizing v front with
  | nil =>
    rw [List.append_nil] at hlength ⊢
    rw [List.drop_eq_nil_of_le hlength, List.append_nil] at hv
    exact congrArg some hv
  | cons y back ih =>
    have hsplit : front ++ y :: back = (front ++ [y]) ++ back := by
      rw [List.append_assoc, List.singleton_append]
    have hnext : front.length + 1 = (front ++ [y]).length := by
      rw [List.length_append, List.length_singleton]
    have hy : (front ++ y :: back)[front.length]? = some y := by
      rw [List.getElem?_append_right (Nat.le_refl _), Nat.sub_self]
      rfl
    have hy := hkept front.length y hy
    rw [hsplit] at hlength hkept ⊢
    rw [List.zipIdx_cons, List.filterMap_cons, hnext]
    unfold Record.change?
    dsimp only
    split
    · next hsame =>
      -- the record did not change
      have hsame : ¬ r < y.revision := by
        intro hlt
        rw [if_pos hlt] at hsame
        cases hsame
      refine ih hlength hkept ?_
      rw [hv, List.drop_eq_getElem?_toList_append, hy.resolve_left hsame, ← hnext,
        List.append_assoc]
      rfl
    · next e he =>
      obtain rfl : e = .record front.length y := by
        split at he
        · exact (Option.some.inj he).symm
        · cases he
      rw [replay?_cons, after?_record hv, Option.bind_some]
      exact ih hlength hkept rfl

end View

/-! ### Feeds that are followed while they are written -/

namespace Feed

variable {f f' : Feed} {added : List Event} {r : Nat}

/-- How often something was announced does not matter. -/
theorem Agrees.of_notices (h : f.Agrees) {n : Nat} : ({ f with notices := n } : Feed).Agrees :=
  ⟨h.revision, h.announced, h.replayed, h.stamped, h.chain⟩

theorem Agrees.of_announce (h : f.Agrees) : f.announce.Agrees :=
  ⟨h.revision, rfl, h.replayed, h.stamped, h.chain⟩

/-- A feed of which everything was announced agrees, and so it does after one more write. -/
theorem Agrees.enter (h : f.announce.Agrees) (w : Write) : (f.enter w).announce.Agrees := by
  have hlength : (f.enter w).announce.announced = (f.enter w).announce.journal.length := rfl
  cases f.written w with
  | refused hjournal hrevision _ _ hview =>
    have hjournal : (f.enter w).journal = f.journal := hjournal
    rw [show (f.enter w).announce.journal = f.journal from hjournal] at hlength
    exact (h.written (.refused hjournal hrevision hlength rfl hview :
      f.announce.Written { (f.enter w).announce with notices := f.announce.notices })).of_notices
  | @entered e hfits hjournal hrevision _ _ hview =>
    have hjournal : (f.enter w).journal = f.journal ++ [e] := hjournal
    have hfits : f.announce.Fits e := by
      cases e with
      | record => exact hfits
      | status => exact hfits
    rw [show (f.enter w).announce.journal = f.journal ++ [e] from hjournal, List.length_append]
      at hlength
    have hentered : f.announce.Written
        { (f.enter w).announce with notices := f.announce.notices + 1 } :=
      .entered hfits hjournal hrevision hlength rfl hview
    exact (h.written hentered).of_notices

/-- A snapshot is brought up to date by the records that changed after its revision. -/
theorem Agrees.replay?_changes (h : f.Agrees) (h' : f'.Agrees)
    (hjournal : f'.journal = f.journal ++ added) :
    (f.snapshot.view.replay? (f'.snapshot.changes f.snapshot.revision)).map View.records =
      some f'.snapshot.records := by
  have hreplayed := h.replay?_of_journal h' hjournal
  have hrecord := fun i => View.record?_replay? hreplayed i
  have hheld : f.snapshot.view.records = [] ++ f.snapshot.records.drop ([] : List Record).length :=
    rfl
  refine View.replay?_changes ?_ ?_ hheld
  · -- there are no fewer records than before
    have hlast := hrecord f'.snapshot.records.length
    have hnone : f'.snapshot.view.records[f'.snapshot.records.length]? = none :=
      List.getElem?_eq_none (Nat.le_refl _)
    rw [hnone, eq_comm, Option.or_eq_none_iff] at hlast
    exact List.getElem?_eq_none_iff.1 hlast.2
  · intro i x hx
    by_cases hlt : f.snapshot.revision < x.revision
    · exact Or.inl hlt
    · have hsame := hrecord i
      rw [h'.getLast?_versions hx, if_neg hlt, Option.none_or] at hsame
      exact Or.inr (hsame.symm.trans hx)

end Feed

namespace Following

open Feed (Write)

variable {s : Following}

theorem agrees_act (h : s.feed.announce.Agrees) (x : Happening) :
    (s.act x).feed.announce.Agrees := by
  cases x with
  | enter w => exact h.enter w
  | conclude outputs error => exact ⟨h.revision, h.announced, h.replayed, h.stamped, h.chain⟩
  | poll => exact h
  | announce i =>
    unfold act
    dsimp only
    split
    · exact h.of_notices
    · exact h

theorem agrees_acts (h : s.feed.announce.Agrees) (hs : List Happening) :
    (s.acts hs).feed.announce.Agrees := by
  induction hs generalizing s with
  | nil => exact h
  | cons x hs ih => exact ih (agrees_act h x)

/-- The journal only grows. -/
theorem exists_journal_act (s : Following) (x : Happening) :
    ∃ added, (s.act x).feed.journal = s.feed.journal ++ added := by
  cases x with
  | enter w =>
    rcases s.feed.enter_cases w with ⟨-, hjournal, -⟩ | ⟨-, e, hjournal⟩
    · exact ⟨[], hjournal.trans (List.append_nil _).symm⟩
    · exact ⟨[e], hjournal⟩
  | announce i =>
    refine ⟨[], ?_⟩
    unfold act
    dsimp only
    split <;> exact (List.append_nil _).symm
  | conclude outputs error => exact ⟨[], (List.append_nil _).symm⟩
  | poll => exact ⟨[], (List.append_nil _).symm⟩

theorem exists_journal_acts (s : Following) (hs : List Happening) :
    ∃ added, (s.acts hs).feed.journal = s.feed.journal ++ added := by
  induction hs generalizing s with
  | nil => exact ⟨[], (List.append_nil _).symm⟩
  | cons x hs ih =>
    obtain ⟨added, hadded⟩ := s.exists_journal_act x
    obtain ⟨more, hmore⟩ := ih (s.act x)
    exact ⟨added ++ more, hmore.trans (by rw [hadded, List.append_assoc])⟩

/-- A follower writes nothing. -/
theorem feed_polls (s : Following) (n : Nat) : (s.acts (List.replicate n .poll)).feed = s.feed := by
  induction n generalizing s with
  | zero => rfl
  | succ n ih => exact ih (s.act .poll)

/-- A stored task is served as a live one is. Whatever was written, and however a follower of the
feed from a revision on was interleaved with the writes: a replay of the snapshot from that revision
on sends the last version of every record that the entries from there on tell about, in the order of
the records, each once. A follower that ends has delivered just these entries, and when the task is
terminal and everything was announced, a follower does end. So whoever holds the snapshot of the
revision is brought up to date by what the follower delivers, and by what is replayed. -/
theorem replay_agrees {f : Feed} (h : f.IsNew) (ws : List Write)
    (owed : List (Fin (f.writes ws).journal.length)) (r : Nat) (hs : List Happening) :
    let s := (start (f.writes ws) owed r).acts hs
    let p := s.feed.snapshot
    let entries := s.feed.eventsFrom r
    (p.replay r = latest entries p.records.length ∧
      ∀ i x, .record i x ∈ entries → i < p.records.length) ∧
    (s.follower.mode ≠ .ended → (s.act .poll).follower.mode = .ended →
      p.isTerminal = true ∧ s.delivered = entries ∧
        p.replay r = latest s.delivered p.records.length) ∧
    (s.follower.mode ≠ .ended → p.isTerminal = true → s.owed = [] →
      ∃ n, let t := s.acts (List.replicate n .poll)
        t.follower.mode = .ended ∧ t.delivered = entries ∧
          p.replay r = latest t.delivered p.records.length) ∧
    (p.changes r).filterMap Event.record? = p.replay r ∧
    ∀ before, before <+: ws → (f.writes before).snapshot.revision = r →
      let held := (f.writes before).snapshot.view
      (held.replay? entries).map View.records = some p.records ∧
        (held.replay? (p.changes r)).map View.records = some p.records := by
  intro s p entries
  have hagrees : s.feed.announce.Agrees := agrees_acts ((h.agrees.writes ws).of_announce) hs
  have hreplay : p.replay r = latest entries p.records.length := hagrees.replay_eq r
  obtain ⟨hexact, hawake⟩ :=
    invariant_acts (exact_start (f.writes ws) owed r) (awake_start (f.writes ws) owed r) hs
  refine ⟨⟨hreplay, fun i x hx => hagrees.lt_length_of_mem hx⟩, ?_, ?_, p.record?_changes r, ?_⟩
  · intro hlive hended
    obtain ⟨hterminal, hdelivered⟩ := s.polled.of_ended hexact hlive hended
    exact ⟨hterminal, hdelivered, by rw [hdelivered, hreplay]⟩
  · intro hlive hterminal howed
    obtain ⟨n, hdelivered, hended⟩ := exists_polls hexact hawake howed hlive
    rw [feed_polls] at hdelivered hended
    exact ⟨n, hended hterminal, hdelivered, by rw [hdelivered, hreplay]⟩
  · rintro before ⟨after, rfl⟩ rfl
    have hbefore := h.agrees.writes before
    obtain ⟨written, hwritten⟩ := (f.writes before).exists_journal_writes after
    obtain ⟨added, hadded⟩ := exists_journal_acts (start (f.writes (before ++ after)) owed
      (f.writes before).snapshot.revision) hs
    have hjournal : s.feed.announce.journal =
        (f.writes before).journal ++ (written ++ added) := by
      rw [← List.append_assoc, ← hwritten, ← Feed.writes_append]
      exact hadded
    constructor
    · exact congrArg (Option.map View.records) (hbefore.replay?_of_journal hagrees hjournal)
    · show ((f.writes before).snapshot.view.replay? (s.feed.announce.snapshot.changes _)).map _ = _
      exact hbefore.replay?_changes hagrees hjournal

/-- One record was written before the snapshot of revision 2 and is changed after it, and another
one is added while a follower goes on. Replayed from revision 2 on, both are sent as they were
last. -/
theorem replay_agrees_resubscribed :
    let x : Record := .executing "fetch" "fetch" "script" .null
    let y : Record := .executing "batch" "batch" "script" .null
    let before : List Write := [.setStatus .executing none default, .push x default]
    let ws : List Write := before ++ [.update 0 (fun x => { x with status := .success }) default]
    let hs : List Happening := [.poll, .poll, .enter (.push y default), .announce 3, .poll, .poll,
      .enter (.update 1 (fun y => { y with status := .success }) default), .announce 4,
      .enter (.finish .success .null none default), .announce 5, .poll, .poll, .poll]
    let s := (start (Sample.feed.writes ws) [] 2).acts hs
    let sent : List Record := [{ x with status := .success, revision := 3 },
      { y with status := .success, revision := 5 }]
    Sample.feed.IsNew ∧ before <+: ws ∧ (Sample.feed.writes before).snapshot.revision = 2 ∧
      s.follower.mode ≠ .ended ∧ (s.act .poll).follower.mode = .ended ∧ s.delivered.length = 4 ∧
      s.feed.snapshot.replay 2 = sent ∧
      s.feed.snapshot.replay 2 = latest s.delivered s.feed.snapshot.records.length ∧
      ((Sample.feed.writes before).snapshot.view.replay? (s.feed.snapshot.changes 2)).map
        View.records = some s.feed.snapshot.records := by
  intro x y before ws hs
  have hnew : Sample.feed.IsNew := ⟨rfl, rfl, rfl, rfl⟩
  have hbefore : before <+: ws := List.prefix_append ..
  have hrevision : (Sample.feed.writes before).snapshot.revision = 2 := rfl
  have hlive : ((start (Sample.feed.writes ws) [] 2).acts hs).follower.mode ≠ .ended := by decide
  have hended : (((start (Sample.feed.writes ws) [] 2).acts hs).act .poll).follower.mode =
      .ended := by decide
  obtain ⟨-, hfollowed, -, -, hserved⟩ := replay_agrees hnew ws [] 2 hs
  obtain ⟨-, -, hreplay⟩ := hfollowed hlive hended
  exact ⟨hnew, hbefore, hrevision, hlive, hended, by decide, by decide, hreplay,
    (hserved before hbefore hrevision).2⟩

end Following
end Flowrun
