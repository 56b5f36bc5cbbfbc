import Flowrun.Feed.Follower
import Flowrun.Proofs.Feed.Replay
import Mathlib.Data.List.DropRight

/-!
# Following a feed that is written

A `Following` is a follower together with the feed that it follows, while both go on. A write is
made in two parts, between which others may do something: its entry is put into the journal, and
then it is announced. So there are entries that are still to be announced (`owed`), and others whose
announcement the follower has not heard yet (`unheard`).

Two invariants carry everything here. What was delivered or taken is what lies in the journal between
the first revision and the position of the follower (`Exact`). And while the follower waits, every
entry from its position on is one that is owed or unheard (`Awake`), because there was none when the
follower began to wait.
-/

namespace Flowrun

open Json

/-! ### The two parts of a write -/

namespace Feed

/-- A feed with a write that was not announced yet. -/
def enter (f : Feed) (w : Write) : Feed :=
  { f.write w with announced := f.announced, notices := f.notices }

/-- Whether a write adds an entry. -/
def Grows (f : Feed) (w : Write) : Prop := f.journal.length < (f.enter w).journal.length

instance (f : Feed) (w : Write) : Decidable (f.Grows w) := Nat.decLt _ _

/-- What entering a write does: nothing that a follower could see, or an entry is added. -/
theorem enter_cases (f : Feed) (w : Write) :
    (¬ f.Grows w ∧ (f.enter w).journal = f.journal ∧ (f.enter w).isTerminal = f.isTerminal) ∨
      (f.Grows w ∧ ∃ e, (f.enter w).journal = f.journal ++ [e]) := by
  cases f.written w with
  | refused hjournal _ _ _ hview =>
    have hjournal : (f.enter w).journal = f.journal := hjournal
    have hstatus : (f.enter w).status = f.status := congrArg View.status hview
    refine Or.inl ⟨?_, hjournal, congrArg TaskStatus.isTerminal hstatus⟩
    unfold Grows
    rw [hjournal]
    exact Nat.lt_irrefl _
  | @entered e _ hjournal =>
    have hjournal : (f.enter w).journal = f.journal ++ [e] := hjournal
    refine Or.inr ⟨?_, e, hjournal⟩
    unfold Grows
    rw [hjournal, List.length_append]
    exact Nat.lt_succ_self _

/-- A write is entered, and announced if an entry was added. -/
theorem write_eq (f : Feed) (w : Write) :
    f.write w = if f.Grows w then (f.enter w).announce else f.enter w := by
  cases f.written w with
  | refused hjournal _ hannounced hnotices =>
    have hstays : ¬ f.Grows w := by
      show ¬ f.journal.length < (f.write w).journal.length
      rw [hjournal]
      exact Nat.lt_irrefl _
    rw [if_neg hstays]
    unfold enter
    rw [← hannounced, ← hnotices]
  | @entered e _ hjournal _ hannounced hnotices =>
    have hlength : (f.write w).journal.length = f.nextRevision := by
      rw [hjournal, List.length_append]
      rfl
    have hgrows : f.Grows w := by
      show f.journal.length < (f.write w).journal.length
      rw [hlength]
      exact Nat.lt_succ_self _
    rw [if_pos hgrows]
    unfold enter announce
    dsimp only
    rw [hlength, ← hannounced, ← hnotices]

end Feed

/-! ### A feed and its follower -/

/-- A feed and a follower of it. -/
structure Following where
  feed : Feed
  /-- The positions of the entries that are still to be announced. -/
  owed : List Nat
  /-- The positions of the entries that were announced since the follower was started, the first
  announcement first. -/
  told : List Nat := []
  follower : Follower
  /-- What the follower has delivered. -/
  delivered : List Event := []

namespace Following

/-- What may happen next. -/
inductive Happening
  /-- A write is entered. -/
  | enter (w : Feed.Write)
  /-- The entry at a position is announced. -/
  | announce (position : Nat)
  /-- The outputs and the error of the task are set, ahead of its last transition. -/
  | conclude (outputs : Value) (error : Option String)
  /-- The follower takes a step. -/
  | poll

/-- A follower of a feed from a revision on. Some of the entries that are there may be still to be
announced. -/
def start (f : Feed) (owed : List (Fin f.journal.length)) (revision : Nat) : Following :=
  { feed := f, owed := owed.map Fin.val, follower := .start f revision }

def act (s : Following) : Happening → Following
  | .enter w =>
    { s with
      feed := s.feed.enter w
      owed := if s.feed.Grows w then s.owed ++ [s.feed.journal.length] else s.owed }
  | .announce i =>
    if i ∈ s.owed then
      { s with feed := s.feed.announce, owed := s.owed.erase i, told := s.told ++ [i] }
    else s
  | .conclude outputs error =>
    { s with feed := { s.feed with snapshot := { s.feed.snapshot with outputs, error } } }
  | .poll =>
    { s with
      follower := (s.follower.step s.feed).2
      delivered := s.delivered ++ (s.follower.step s.feed).1.toList }

def acts (s : Following) (hs : List Happening) : Following := hs.foldl act s

theorem acts_cons (s : Following) (h : Happening) (hs : List Happening) :
    s.acts (h :: hs) = (s.act h).acts hs := rfl

/-- The positions of the entries that were announced and the follower does not know of. -/
def unheard (s : Following) : List Nat := s.told.rtake (s.feed.notices - s.follower.seen)

variable {s s' : Following} {r : Nat}

/-! ### Steps of the follower -/

/-- What a step of the follower does. -/
inductive Polled (s : Following) : Following → Prop
  /-- The follower has ended, or has heard of every announcement. -/
  | idle : s.follower.mode = .ended ∨
      s.follower.mode = .waiting ∧ s.follower.seen = s.feed.notices → Polled s s
  | wake : s.follower.mode = .waiting → s.follower.seen ≠ s.feed.notices →
      Polled s { s with
        follower := { s.follower with seen := s.feed.notices, mode := .reading } }
  | deliver {e : Event} {rest : List Event} :
      s.follower.mode = .reading → s.follower.buffer = e :: rest →
      Polled s { s with
        follower := { s.follower with buffer := rest }, delivered := s.delivered ++ [e] }
  /-- There was nothing to read. -/
  | pause : s.follower.mode = .reading → s.follower.buffer = [] →
      s.feed.journal.length ≤ s.follower.position →
      Polled s { s with
        follower := { s.follower with mode := if s.feed.isTerminal then .ended else .waiting } }
  | read : s.follower.mode = .reading → s.follower.buffer = [] →
      s.follower.position < s.feed.journal.length →
      Polled s { s with
        follower := { s.follower with
          position := s.feed.journal.length, buffer := s.feed.eventsFrom s.follower.position } }

theorem polled (s : Following) : s.Polled (s.act .poll) := by
  obtain ⟨feed, owed, told, ⟨position, buffer, seen, mode⟩, delivered⟩ := s
  unfold act Follower.step
  cases mode with
  | ended =>
    dsimp only
    rw [Option.toList_none, List.append_nil]
    exact .idle (Or.inl rfl)
  | waiting =>
    dsimp only
    split
    · next hheard =>
      rw [Option.toList_none, List.append_nil]
      exact .idle (Or.inr ⟨rfl, hheard.symm⟩)
    · next hnews =>
      rw [Option.toList_none, List.append_nil]
      exact .wake rfl (Ne.symm hnews)
  | reading =>
    cases buffer with
    | cons e rest => exact .deliver rfl rfl
    | nil =>
      dsimp only
      split
      · next hnone =>
        rw [Option.toList_none, List.append_nil]
        exact .pause rfl rfl (List.drop_eq_nil_iff.1 hnone)
      · next hsome =>
        have hlt : position < feed.journal.length := by
          by_contra hge
          exact hsome (List.drop_eq_nil_iff.2 (Nat.le_of_not_lt hge))
        have hend : position + (feed.eventsFrom position).length = feed.journal.length := by
          unfold Feed.eventsFrom
          rw [List.length_drop]
          omega
        rw [Option.toList_none, List.append_nil, hend]
        exact .read rfl rfl hlt

/-! ### What was delivered -/

/-- What was delivered and what was taken are the entries from a revision up to the position of the
follower. -/
structure Exact (r : Nat) (s : Following) : Prop where
  position : s.follower.position = r + (s.delivered ++ s.follower.buffer).length
  taken : s.delivered ++ s.follower.buffer <+: s.feed.eventsFrom r
  /-- A follower does not wait and does not end with something in its hands. -/
  empty : s.follower.mode ≠ .reading → s.follower.buffer = []

theorem exact_start (f : Feed) (owed : List (Fin f.journal.length)) (r : Nat) :
    (start f owed r).Exact r where
  position := rfl
  taken := List.nil_prefix
  empty _ := rfl

/-- What is written does not matter, as long as the journal only grows. -/
theorem Exact.of_journal (h : s.Exact r) {added : List Event}
    (hfollower : s'.follower = s.follower) (hdelivered : s'.delivered = s.delivered)
    (hjournal : s'.feed.journal = s.feed.journal ++ added) : s'.Exact r := by
  constructor
  · rw [hfollower, hdelivered]
    exact h.position
  · rw [hfollower, hdelivered]
    unfold Feed.eventsFrom
    rw [hjournal, List.drop_append]
    exact h.taken.trans (List.prefix_append ..)
  · rw [hfollower]
    exact h.empty

theorem Exact.polled (h : s.Exact r) (hp : s.Polled s') : s'.Exact r := by
  cases hp with
  | idle => exact h
  | wake hmode => exact ⟨h.position, h.taken, nofun⟩
  | pause _ hbuffer => exact ⟨h.position, h.taken, fun _ => hbuffer⟩
  | @deliver e rest hmode hbuffer =>
    have hsame : (s.delivered ++ [e]) ++ rest = s.delivered ++ s.follower.buffer := by
      rw [hbuffer, List.append_assoc]
      rfl
    constructor
    · show s.follower.position = r + ((s.delivered ++ [e]) ++ rest).length
      rw [hsame]
      exact h.position
    · show (s.delivered ++ [e]) ++ rest <+: s.feed.eventsFrom r
      rw [hsame]
      exact h.taken
    · exact fun hne => absurd hmode hne
  | read hmode hbuffer hlt =>
    have htaken := h.taken
    have hposition := h.position
    rw [hbuffer, List.append_nil] at htaken hposition
    -- what is taken now continues what was delivered
    have hall : s.delivered ++ s.feed.eventsFrom s.follower.position = s.feed.eventsFrom r := by
      obtain ⟨rest, hrest⟩ := htaken
      have hdrop : s.feed.eventsFrom s.follower.position =
          (s.feed.eventsFrom r).drop s.delivered.length := by
        unfold Feed.eventsFrom
        rw [List.drop_drop, hposition]
      rw [hdrop, ← hrest, List.drop_left]
    constructor
    · show s.feed.journal.length =
        r + (s.delivered ++ s.feed.eventsFrom s.follower.position).length
      rw [hall]
      unfold Feed.eventsFrom
      rw [List.length_drop]
      omega
    · exact hall ▸ List.prefix_refl _
    · exact fun hne => absurd hmode hne

theorem Exact.act (h : s.Exact r) (x : Happening) : (s.act x).Exact r := by
  cases x with
  | enter w =>
    rcases s.feed.enter_cases w with ⟨-, hjournal, -⟩ | ⟨-, e, hjournal⟩
    · exact h.of_journal rfl rfl (hjournal.trans (List.append_nil _).symm)
    · exact h.of_journal rfl rfl hjournal
  | announce i =>
    unfold Following.act
    dsimp only
    split
    · exact h.of_journal rfl rfl (List.append_nil _).symm
    · exact h
  | conclude outputs error => exact h.of_journal rfl rfl (List.append_nil _).symm
  | poll => exact h.polled s.polled

/-- A follower that has nothing more to read has delivered everything. -/
theorem Exact.delivered_eq (h : s.Exact r) (hbuffer : s.follower.buffer = [])
    (hend : s.feed.journal.length ≤ s.follower.position) :
    s.delivered = s.feed.eventsFrom r := by
  have htaken := h.taken
  have hposition := h.position
  rw [hbuffer, List.append_nil] at htaken hposition
  apply htaken.eq_of_length_le
  unfold Feed.eventsFrom
  rw [List.length_drop]
  omega

/-- A follower ends only if the task is terminal, and with everything delivered. -/
theorem Polled.of_ended (hp : s.Polled s') (hexact : s.Exact r) (hlive : s.follower.mode ≠ .ended)
    (hended : s'.follower.mode = .ended) :
    s.feed.isTerminal = true ∧ s.delivered = s.feed.eventsFrom r := by
  cases hp with
  | idle => exact absurd hended hlive
  | wake => cases hended
  | deliver => exact absurd hended hlive
  | read => exact absurd hended hlive
  | pause _ hbuffer hend =>
    refine ⟨?_, hexact.delivered_eq hbuffer hend⟩
    by_contra hgoes
    cases (if_neg hgoes).symm.trans hended

/-- An announcement that the follower has not heard wakes it up. -/
theorem Polled.of_unheard (hp : s.Polled s') (hmode : s.follower.mode = .waiting) {i : Nat}
    (hi : i ∈ s.unheard) : s'.follower.mode = .reading := by
  cases hp with
  | idle hidle =>
    rcases hidle with hended | ⟨-, hheard⟩
    · cases hmode.symm.trans hended
    · unfold unheard at hi
      rw [hheard, Nat.sub_self, List.rtake_zero] at hi
      cases hi
  | wake => rfl
  | deliver hreading => cases hmode.symm.trans hreading
  | pause hreading => cases hmode.symm.trans hreading
  | read hreading => cases hmode.symm.trans hreading

/-! ### What wakes a follower up -/

/-- While a follower waits, every entry from its position on is still to be announced or to be heard
of, and so is one at least if the task is terminal. -/
structure Awake (s : Following) : Prop where
  seen : s.follower.seen ≤ s.feed.notices
  entries : s.follower.mode = .waiting → ∀ i, s.follower.position ≤ i →
    i < s.feed.journal.length → i ∈ s.owed ∨ i ∈ s.unheard
  terminal : s.follower.mode = .waiting → s.feed.isTerminal = true →
    ∃ i, i ∈ s.owed ∨ i ∈ s.unheard

theorem Awake.of_reading (hseen : s.follower.seen ≤ s.feed.notices)
    (hreading : s.follower.mode = .reading) : s.Awake where
  seen := hseen
  entries hwaiting := nomatch hreading.symm.trans hwaiting
  terminal hwaiting := nomatch hreading.symm.trans hwaiting

theorem awake_start (f : Feed) (owed : List (Fin f.journal.length)) (r : Nat) :
    (start f owed r).Awake := .of_reading (Nat.le_refl _) rfl

theorem Awake.enter (h : s.Awake) (w : Feed.Write) : (s.act (.enter w)).Awake := by
  -- the announcements are the same
  have hunheard : (s.act (.enter w)).unheard = s.unheard := rfl
  refine ⟨h.seen, ?_, ?_⟩
  all_goals
    rw [hunheard]
    unfold act
    dsimp only
    intro hmode
    rcases s.feed.enter_cases w with ⟨hstays, hjournal, hterminal⟩ | ⟨hgrows, e, hjournal⟩
  · rw [hjournal, if_neg hstays]
    exact h.entries hmode
  · rw [hjournal, if_pos hgrows, List.length_append]
    intro i hi hlt
    rcases Nat.lt_or_ge i s.feed.journal.length with hold | hnew
    · exact (h.entries hmode i hi hold).imp_left (List.mem_append_left _)
    · obtain rfl : i = s.feed.journal.length := Nat.le_antisymm (Nat.le_of_lt_succ hlt) hnew
      exact Or.inl (List.mem_append_right _ (List.mem_singleton_self _))
  · rw [hterminal, if_neg hstays]
    exact h.terminal hmode
  · rw [if_pos hgrows]
    exact fun _ => ⟨_, Or.inl (List.mem_append_right _ (List.mem_singleton_self _))⟩

theorem Awake.announce (h : s.Awake) (i : Nat) : (s.act (.announce i)).Awake := by
  unfold act
  dsimp only
  split
  · next hi =>
    -- whatever was owed or unheard still is, and the entry that is announced is now unheard
    have hkept : ∀ j, j ∈ s.owed ∨ j ∈ s.unheard →
        j ∈ s.owed.erase i ∨ j ∈ (s.told ++ [i]).rtake (s.feed.notices + 1 - s.follower.seen) := by
      intro j hj
      rw [Nat.sub_add_comm h.seen, List.rtake_concat_succ]
      rcases hj with hj | hj
      · by_cases hij : j = i
        · exact Or.inr (List.mem_append_right _ (hij ▸ List.mem_singleton_self _))
        · exact Or.inl ((List.mem_erase_of_ne hij).2 hj)
      · exact Or.inr (List.mem_append_left _ hj)
    refine ⟨Nat.le_succ_of_le h.seen, ?_, ?_⟩
    · exact fun hmode j hj hlt => hkept j (h.entries hmode j hj hlt)
    · intro hmode hterminal
      obtain ⟨j, hj⟩ := h.terminal hmode hterminal
      exact ⟨j, hkept j hj⟩
  · exact h

theorem Awake.polled (h : s.Awake) (hp : s.Polled s') : s'.Awake := by
  cases hp with
  | idle => exact h
  | wake => exact .of_reading (Nat.le_refl _) rfl
  | deliver hreading => exact .of_reading h.seen hreading
  | read hreading => exact .of_reading h.seen hreading
  | pause _ _ hend =>
    refine ⟨h.seen, ?_, ?_⟩
    · -- there is no entry from the position on
      exact fun _ i hi hlt => absurd (Nat.lt_of_lt_of_le hlt hend) (Nat.not_lt.2 hi)
    · intro hmode hterminal
      have hterminal : s.feed.isTerminal = true := hterminal
      rw [hterminal] at hmode
      cases hmode

theorem Awake.act (h : s.Awake) (x : Happening) : (s.act x).Awake := by
  cases x with
  | enter w => exact h.enter w
  | announce i => exact h.announce i
  | conclude outputs error => exact ⟨h.seen, h.entries, h.terminal⟩
  | poll => exact h.polled s.polled

/-- Both invariants hold after everything that may happen. -/
theorem invariant_acts (hexact : s.Exact r) (hawake : s.Awake) (hs : List Happening) :
    (s.acts hs).Exact r ∧ (s.acts hs).Awake := by
  induction hs generalizing s with
  | nil => exact ⟨hexact, hawake⟩
  | cons x hs ih => exact ih (hexact.act x) (hawake.act x)

/-! ### Everything is delivered -/

/-- A follower that has delivered everything there is, and has ended if the task is terminal. -/
def UpToDate (r : Nat) (s : Following) : Prop :=
  s.delivered = s.feed.eventsFrom r ∧ (s.feed.isTerminal = true → s.follower.mode = .ended)

/-- A bound on the steps after which a follower is up to date. -/
def toDo (r : Nat) (s : Following) : Nat :=
  4 * (s.feed.journal.length - (r + s.delivered.length)) +
    (if s.follower.buffer = [] then 1 else 0) + (if s.follower.mode = .waiting then 1 else 0)

/-- When everything was announced, a follower that has heard of everything and waits is up to date. -/
theorem upToDate_of_waiting (hexact : s.Exact r) (hawake : s.Awake) (howed : s.owed = [])
    (hmode : s.follower.mode = .waiting) (hheard : s.follower.seen = s.feed.notices) :
    s.UpToDate r := by
  have hnone : ∀ i, ¬ (i ∈ s.owed ∨ i ∈ s.unheard) := by
    intro i
    unfold unheard
    rw [howed, hheard, Nat.sub_self, List.rtake_zero]
    simp
  have hbuffer := hexact.empty fun hreading => nomatch hmode.symm.trans hreading
  constructor
  · apply hexact.delivered_eq hbuffer
    by_contra hlt
    exact hnone _ (hawake.entries hmode _ (Nat.le_refl _) (Nat.lt_of_not_le hlt))
  · intro hterminal
    obtain ⟨i, hi⟩ := hawake.terminal hmode hterminal
    exact absurd hi (hnone i)

/-- When everything was announced, every step brings a follower nearer to being up to date. -/
theorem Polled.upToDate_or_lt (hp : s.Polled s') (hexact : s.Exact r) (hawake : s.Awake)
    (howed : s.owed = []) (hmode : s.follower.mode ≠ .ended) (hlate : ¬ s.UpToDate r) :
    s'.UpToDate r ∨ s'.toDo r < s.toDo r ∧ s'.follower.mode ≠ .ended ∧ s'.owed = [] := by
  cases hp with
  | idle hidle =>
    rcases hidle with hended | ⟨hwaiting, hheard⟩
    · exact absurd hended hmode
    · exact absurd (upToDate_of_waiting hexact hawake howed hwaiting hheard) hlate
  | wake hwaiting =>
    refine Or.inr ⟨?_, nofun, howed⟩
    simp [toDo, hwaiting]
  | @deliver e rest hreading hbuffer =>
    refine Or.inr ⟨?_, hmode, howed⟩
    have hle := hexact.taken.length_le
    unfold Feed.eventsFrom at hle
    rw [hbuffer, List.length_drop, List.length_append, List.length_cons] at hle
    simp only [toDo, hbuffer, hreading, List.length_append, List.length_singleton]
    split <;> simp <;> omega
  | pause hreading hbuffer hend =>
    refine Or.inl ⟨hexact.delivered_eq hbuffer hend, ?_⟩
    exact fun hterminal => if_pos hterminal
  | read hreading hbuffer hlt =>
    refine Or.inr ⟨?_, hmode, howed⟩
    have hsome : s.feed.eventsFrom s.follower.position ≠ [] := by
      unfold Feed.eventsFrom
      rw [Ne, List.drop_eq_nil_iff]
      exact Nat.not_le.2 hlt
    simp [toDo, hbuffer, hreading, hsome]

/-- When everything was announced, a follower gets up to date by its own steps. -/
theorem exists_polls (hexact : s.Exact r) (hawake : s.Awake) (howed : s.owed = [])
    (hmode : s.follower.mode ≠ .ended) :
    ∃ n, (s.acts (List.replicate n .poll)).UpToDate r := by
  induction hn : s.toDo r using Nat.strongRecOn generalizing s with
  | ind n ih =>
    subst hn
    by_cases hdone : s.UpToDate r
    · exact ⟨0, hdone⟩
    · rcases s.polled.upToDate_or_lt hexact hawake howed hmode hdone with
        hnext | ⟨hlt, hmode', howed'⟩
      · exact ⟨1, hnext⟩
      · obtain ⟨n, hn⟩ := ih _ hlt (hexact.act .poll) (hawake.act .poll) howed' hmode' rfl
        exact ⟨n + 1, hn⟩

/-- A follower of a feed from any revision on delivers exactly the entries from there on, in their
order, whatever happens in between. It ends only when the task is terminal and every entry that is
there was delivered. While it waits, the announcement of every entry that was not delivered is still
to come, or is one that the follower has not heard yet and that wakes it up. And when everything was
announced, a few steps of its own bring the follower up to date. -/
theorem follows_exactly (f : Feed) (owed : List (Fin f.journal.length)) (r : Nat)
    (hs : List Happening) :
    let s := (start f owed r).acts hs
    s.delivered <+: s.feed.eventsFrom r ∧
    (s.follower.mode ≠ .ended → (s.act .poll).follower.mode = .ended →
      s.feed.isTerminal = true ∧ s.delivered = s.feed.eventsFrom r) ∧
    (s.follower.mode = .waiting → ∀ i, r + s.delivered.length ≤ i → i < s.feed.journal.length →
      i ∈ s.owed ∨ i ∈ s.unheard ∧ (s.act .poll).follower.mode = .reading) ∧
    (s.follower.mode ≠ .ended → s.owed = [] →
      ∃ n, (s.acts (List.replicate n .poll)).UpToDate r) := by
  intro s
  obtain ⟨hexact, hawake⟩ := invariant_acts (exact_start f owed r) (awake_start f owed r) hs
  refine ⟨?_, ?_, ?_, ?_⟩
  · exact (List.prefix_append ..).trans hexact.taken
  · intro hlive hended
    exact s.polled.of_ended hexact hlive hended
  · intro hmode i hi hlt
    have hbuffer := hexact.empty fun hreading => nomatch hmode.symm.trans hreading
    have hposition := hexact.position
    rw [hbuffer, List.append_nil] at hposition
    rcases hawake.entries hmode i (hposition ▸ hi) hlt with howed | hunheard
    · exact Or.inl howed
    · exact Or.inr ⟨hunheard, s.polled.of_unheard hmode hunheard⟩
  · exact fun hmode howed => exists_polls hexact hawake howed hmode

/-- A follower has delivered all there is and waits. A record is added and announced: the follower
wakes up, and delivers the entry. -/
theorem follows_exactly_woken :
    let f := Sample.feed.setStatus .executing none default
    let added := Feed.Write.push (.executing "fetch" "fetch" "script" .null) default
    let s := (start f [] 0).acts [.poll, .poll, .poll, .enter added, .announce 1]
    s.follower.mode = .waiting ∧ s.delivered = [.status .executing none] ∧
      s.feed.journal.length = 2 ∧ s.owed = [] ∧ 1 ∈ s.unheard ∧
      (s.act .poll).follower.mode = .reading ∧
      ∃ n, (s.acts (List.replicate n .poll)).UpToDate 0 := by
  intro f added s
  have hmode : s.follower.mode = .waiting := rfl
  have howed : s.owed = [] := rfl
  obtain ⟨-, -, hawake, hcatch⟩ :=
    follows_exactly f [] 0 [.poll, .poll, .poll, .enter added, .announce 1]
  rcases hawake hmode 1 (Nat.le_refl _) (Nat.lt_succ_self _) with hmem | ⟨hunheard, hwakes⟩
  · cases hmem
  · exact ⟨hmode, rfl, rfl, howed, hunheard, hwakes, hcatch nofun howed⟩

end Following
end Flowrun
