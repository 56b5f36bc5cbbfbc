import Flowrun.Store
import Mathlib.Data.List.Basic

/-!
# Saving in any order

Snapshots of tasks come to the store from several writers, late or more than once. What it has in
the end does not depend on that: if all snapshots of a task that have the same revision are the same
one, they can be saved in any order and as often as one likes, and the store has the snapshot of the
highest revision of each task (`saves_in_any_order`).

One step carries this. Two snapshots are kept in either order (`keep_comm`): those of different
tasks go to different rows, and of two revisions of one task the older is dropped when it comes
late and written over when it comes early. The rest are inductions along the list of what is saved.
-/

namespace Flowrun.Store

variable {s s' : Store} {rows : Dict Snapshot} {p q old : Snapshot} {ps qs : List Snapshot}
  {task : String}

theorem load_eq_ok_iff {row : Option Snapshot} :
    s.load task = .ok row ↔ s.loadFault = none ∧ s.rows.at? task = row := by
  unfold load
  cases s.loadFault with
  | none => simp
  | some e => simp

/-! ### Keeping one snapshot -/

/-- A snapshot is dropped when there is a newer one. -/
theorem keep_of_lt (h : rows.at? p.task = some old) (hlt : p.revision < old.revision) :
    keep rows p = rows := by
  unfold keep
  rw [h]
  exact if_pos hlt

/-- A snapshot takes the place of one that is not newer, or an empty one. -/
theorem keep_of_le (h : ∀ old, rows.at? p.task = some old → old.revision ≤ p.revision) :
    keep rows p = rows.put p.task p := by
  unfold keep
  cases hrow : rows.at? p.task with
  | none => rfl
  | some old => exact if_neg (Nat.not_lt.2 (h old hrow))

theorem keep_cases (rows : Dict Snapshot) (p : Snapshot) :
    (∃ old, rows.at? p.task = some old ∧ p.revision < old.revision ∧ keep rows p = rows) ∨
      (∀ old, rows.at? p.task = some old → old.revision ≤ p.revision) ∧
        keep rows p = rows.put p.task p := by
  by_cases h : ∃ old, rows.at? p.task = some old ∧ p.revision < old.revision
  · obtain ⟨old, hold, hlt⟩ := h
    exact Or.inl ⟨old, hold, hlt, keep_of_lt hold hlt⟩
  · have hle : ∀ old, rows.at? p.task = some old → old.revision ≤ p.revision :=
      fun old hold => Nat.not_lt.1 fun hlt => h ⟨old, hold, hlt⟩
    exact Or.inr ⟨hle, keep_of_le hle⟩

/-- A snapshot that is not older than the one in the store takes its place. -/
theorem at?_keep (h : rows.at? p.task = some old) (hle : old.revision ≤ p.revision) :
    (keep rows p).at? p.task = some p := by
  rw [keep_of_le fun old' hold' => Option.some.inj (h.symm.trans hold') ▸ hle]
  exact Dict.at?_put_self ..

theorem at?_keep_of_ne (h : p.task ≠ task) : (keep rows p).at? task = rows.at? task := by
  rcases keep_cases rows p with ⟨-, -, -, hsame⟩ | ⟨-, hput⟩
  · rw [hsame]
  · rw [hput, Dict.at?_put_of_ne _ h]

/-- The row of a task is then at least as new. -/
theorem exists_at?_keep (rows : Dict Snapshot) (p : Snapshot) :
    ∃ new, (keep rows p).at? p.task = some new ∧ p.revision ≤ new.revision := by
  rcases keep_cases rows p with ⟨old, hold, hlt, hsame⟩ | ⟨-, hput⟩
  · exact ⟨old, by rw [hsame, hold], Nat.le_of_lt hlt⟩
  · exact ⟨p, by rw [hput, Dict.at?_put_self], Nat.le_refl _⟩

/-- A snapshot that is kept once more makes no difference. -/
theorem keep_keep_self (rows : Dict Snapshot) (p : Snapshot) :
    keep (keep rows p) p = keep rows p := by
  rcases keep_cases rows p with ⟨-, -, -, hsame⟩ | ⟨-, hput⟩
  · rw [hsame, hsame]
  · rw [hput, keep_of_le, Dict.put_put_self]
    simp

/-- Of two revisions of a task the older one makes no difference, before the newer one or after
it. -/
theorem keep_keep_of_lt (rows : Dict Snapshot) (htask : p.task = q.task)
    (hlt : p.revision < q.revision) :
    keep (keep rows p) q = keep rows q ∧ keep (keep rows q) p = keep rows q := by
  constructor
  · rcases keep_cases rows p with ⟨-, -, -, hsame⟩ | ⟨hle, hput⟩
    · rw [hsame]
    · have hlate : keep (rows.put p.task p) q = (rows.put p.task p).put q.task q := by
        refine keep_of_le fun old hold => ?_
        rw [← htask, Dict.at?_put_self] at hold
        exact Option.some.inj hold ▸ Nat.le_of_lt hlt
      have halone : keep rows q = rows.put q.task q :=
        keep_of_le fun old hold => Nat.le_trans (hle old (htask ▸ hold)) (Nat.le_of_lt hlt)
      rw [hput, hlate, halone, htask, Dict.put_put_self]
  · obtain ⟨new, hnew, hle⟩ := exists_at?_keep rows q
    exact keep_of_lt (htask ▸ hnew) (Nat.lt_of_lt_of_le hlt hle)

theorem keep_comm_of_ne (htask : p.task ≠ q.task) :
    keep (keep rows p) q = keep (keep rows q) p := by
  have hrowp : (keep rows q).at? p.task = rows.at? p.task := at?_keep_of_ne htask.symm
  have hrowq : (keep rows p).at? q.task = rows.at? q.task := at?_keep_of_ne htask
  rcases keep_cases rows p with ⟨old, hold, hlt, hsame⟩ | ⟨hle, hput⟩
  · rw [hsame, keep_of_lt (hrowp.trans hold) hlt]
  rcases keep_cases rows q with ⟨old, hold, hlt, hsame⟩ | ⟨hle', hput'⟩
  · rw [hsame, keep_of_lt (hrowq.trans hold) hlt]
  · rw [keep_of_le fun old hold => hle' old (hrowq.symm.trans hold),
      keep_of_le fun old hold => hle old (hrowp.symm.trans hold), hput, hput',
      Dict.put_comm _ htask]

/-- Two snapshots are kept in either order, if they differ in the task or the revision or not at
all. -/
theorem keep_comm (h : p.task = q.task → p.revision = q.revision → p = q) :
    keep (keep rows p) q = keep (keep rows q) p := by
  by_cases htask : p.task = q.task
  · rcases Nat.lt_trichotomy p.revision q.revision with hlt | heq | hgt
    · obtain ⟨hbefore, hafter⟩ := keep_keep_of_lt rows htask hlt
      rw [hbefore, hafter]
    · rw [h htask heq]
    · obtain ⟨hbefore, hafter⟩ := keep_keep_of_lt rows htask.symm hgt
      rw [hbefore, hafter]
  · exact keep_comm_of_ne htask

/-! ### Trying to save -/

theorem trySave_of_saveFault_eq_none (h : s.saveFault = none) :
    s.trySave p = ({ s with rows := keep s.rows p }, true) := by
  unfold trySave save
  rw [h]

theorem trySave_cases (s : Store) (p : Snapshot) :
    s.trySave p = ({ s with rows := keep s.rows p }, true) ∨ s.trySave p = (s, false) := by
  by_cases hfault : s.saveFault = none
  · exact Or.inl (trySave_of_saveFault_eq_none hfault)
  · obtain ⟨e, he⟩ := Option.ne_none_iff_exists'.1 hfault
    refine Or.inr ?_
    unfold trySave save
    rw [he]

theorem loadFault_trySave (s : Store) (p : Snapshot) : (s.trySave p).1.loadFault = s.loadFault := by
  rcases s.trySave_cases p with hsaved | hrefused
  · rw [hsaved]
  · rw [hrefused]

/-- A snapshot is saved under the id of its task. -/
theorem at?_trySave_of_ne (s : Store) (h : p.task ≠ task) :
    (s.trySave p).1.rows.at? task = s.rows.at? task := by
  rcases s.trySave_cases p with hsaved | hrefused
  · rw [hsaved]
    exact at?_keep_of_ne h
  · rw [hrefused]

/-- What is under the id of a task after a save is what was saved or what was there before. -/
theorem at?_trySave_cases (h : (s.trySave p).1.rows.at? p.task = some q) :
    q = p ∨ s.rows.at? p.task = some q := by
  rcases s.trySave_cases p with hsaved | hrefused
  · rw [hsaved] at h
    dsimp only at h
    rcases keep_cases s.rows p with ⟨-, -, -, hsame⟩ | ⟨-, hput⟩
    · exact Or.inr (hsame ▸ h)
    · rw [hput, Dict.at?_put_self] at h
      exact Or.inl (Option.some.inj h).symm
  · rw [hrefused] at h
    exact Or.inr h

/-- What was saved is in the store, unless that had something newer. -/
theorem at?_trySave (h : (s.trySave p).2 = true)
    (holder : ∀ old, s.rows.at? p.task = some old → old.revision ≤ p.revision) :
    (s.trySave p).1.rows.at? p.task = some p := by
  rcases s.trySave_cases p with hsaved | hrefused
  · rw [hsaved]
    dsimp only
    rw [keep_of_le holder]
    exact Dict.at?_put_self ..
  · rw [hrefused] at h
    cases h

/-! ### Saving a list of snapshots -/

/-- Save snapshots, one after the other. -/
def saveAll (s : Store) (ps : List Snapshot) : Except StoreError Store := ps.foldlM save s

/-- Snapshots of one task and revision are the same. -/
def Coherent (ps : List Snapshot) : Prop :=
  ∀ p ∈ ps, ∀ q ∈ ps, p.task = q.task → p.revision = q.revision → p = q

theorem saveAll_eq (h : s.saveFault = none) :
    s.saveAll ps = .ok { s with rows := ps.foldl keep s.rows } := by
  induction ps generalizing s with
  | nil => rfl
  | cons p ps ih =>
    have hsave : s.save p = .ok { s with rows := keep s.rows p } := by
      unfold save
      rw [h]
    rw [saveAll, List.foldlM_cons, hsave]
    exact ih h

/-- A store that cannot save anything refuses the first snapshot. -/
theorem saveAll_cons_of_fault {e : StoreError} (h : s.saveFault = some e) :
    s.saveAll (p :: ps) = .error e := by
  have hsave : s.save p = .error e := by
    unfold save
    rw [h]
  rw [saveAll, List.foldlM_cons, hsave]
  rfl

theorem Coherent.foldl_keep (h : Coherent ps) (hperm : ps.Perm qs) :
    ps.foldl keep rows = qs.foldl keep rows :=
  hperm.foldl_eq' (fun p hp q hq _ => keep_comm (h p hp q hq)) rows

theorem Coherent.saveAll_eq (h : Coherent ps) (hperm : ps.Perm qs) :
    s.saveAll ps = s.saveAll qs := by
  cases hfault : s.saveFault with
  | none => rw [Store.saveAll_eq hfault, Store.saveAll_eq hfault, h.foldl_keep hperm]
  | some e =>
    -- both lists are empty, or their first snapshots are refused
    match ps, qs with
    | [], qs => rw [hperm.nil_eq]
    | p :: ps, [] => cases hperm.eq_nil
    | p :: ps, q :: qs => rw [saveAll_cons_of_fault hfault, saveAll_cons_of_fault hfault]

/-- Each of the snapshots may have been the last one to be saved. -/
theorem Coherent.exists_last (h : Coherent ps) (rows : Dict Snapshot) (hp : p ∈ ps) :
    ∃ rows', ps.foldl keep rows = keep rows' p := by
  have hlast : ps.Perm (ps.erase p ++ [p]) :=
    (List.perm_cons_erase hp).trans (List.perm_append_singleton p _).symm
  refine ⟨(ps.erase p).foldl keep rows, ?_⟩
  rw [h.foldl_keep hlast, List.foldl_append, List.foldl_cons, List.foldl_nil]

theorem Coherent.keep_foldl_keep (h : Coherent ps) (hp : p ∈ ps) :
    keep (ps.foldl keep rows) p = ps.foldl keep rows := by
  obtain ⟨rows', hlast⟩ := h.exists_last rows hp
  rw [hlast, keep_keep_self]

/-! ### What the store has in the end -/

theorem Coherent.exists_at?_foldl_keep (h : Coherent ps) (rows : Dict Snapshot) (hp : p ∈ ps) :
    ∃ new, (ps.foldl keep rows).at? p.task = some new ∧ p.revision ≤ new.revision := by
  obtain ⟨rows', hlast⟩ := h.exists_last rows hp
  rw [hlast]
  exact exists_at?_keep rows' p

/-- What is found was saved, or it was there before. -/
theorem at?_foldl_keep_cases (h : (ps.foldl keep rows).at? task = some p) :
    p ∈ ps ∧ p.task = task ∨ rows.at? task = some p := by
  induction ps generalizing rows with
  | nil => exact Or.inr h
  | cons q ps ih =>
    rcases ih h with ⟨hp, htask⟩ | hrow
    · exact Or.inl ⟨List.mem_cons_of_mem _ hp, htask⟩
    · rcases keep_cases rows q with ⟨-, -, -, hsame⟩ | ⟨-, hput⟩
      · exact Or.inr (hsame ▸ hrow)
      · rw [hput, Dict.at?_put] at hrow
        split at hrow
        · next htask =>
          cases hrow
          exact Or.inl ⟨List.mem_cons_self, by simp [htask]⟩
        · exact Or.inr hrow

/-- What an empty store has of a task in the end is the newest snapshot that was saved. -/
theorem Coherent.at?_foldl_keep_iff (h : Coherent ps) :
    (ps.foldl keep []).at? task = some p ↔
      p ∈ ps ∧ p.task = task ∧ ∀ q ∈ ps, q.task = task → q.revision ≤ p.revision := by
  have hsaved : ∀ {p}, (ps.foldl keep []).at? task = some p → p ∈ ps ∧ p.task = task :=
    fun hrow => (at?_foldl_keep_cases hrow).resolve_right nofun
  constructor
  · intro hrow
    obtain ⟨hp, htask⟩ := hsaved hrow
    refine ⟨hp, htask, ?_⟩
    rintro q hq rfl
    obtain ⟨new, hnew, hle⟩ := h.exists_at?_foldl_keep [] hq
    exact Option.some.inj (hnew.symm.trans hrow) ▸ hle
  · rintro ⟨hp, rfl, hnewest⟩
    obtain ⟨new, hnew, hle⟩ := h.exists_at?_foldl_keep [] hp
    obtain ⟨hmem, htask⟩ := hsaved hnew
    have hrevision : new.revision = p.revision := Nat.le_antisymm (hnewest new hmem htask) hle
    rw [hnew, h new hmem p hp htask hrevision]

theorem Coherent.at?_foldl_keep_eq_none_iff (h : Coherent ps) :
    (ps.foldl keep []).at? task = none ↔ ∀ p ∈ ps, p.task ≠ task := by
  constructor
  · rintro hnone p hp rfl
    obtain ⟨new, hnew, -⟩ := h.exists_at?_foldl_keep [] hp
    cases hnone.symm.trans hnew
  · intro hother
    cases hrow : (ps.foldl keep []).at? task with
    | none => rfl
    | some p =>
      obtain ⟨hp, htask, -⟩ := h.at?_foldl_keep_iff.1 hrow
      exact absurd htask (hother p hp)

/-- Take snapshots of any tasks, of which two with the same task and the same revision are the same
one. Saving them in another order leads to the same store, whatever was in it before, and saving any
of them once more changes nothing. If the store was empty, loading a task finds its snapshot of the
highest revision, and nothing if no snapshot of the task was saved. -/
theorem saves_in_any_order (h : Coherent ps) (hperm : ps.Perm qs) :
    (∀ s : Store, s.saveAll ps = s.saveAll qs) ∧
    (∀ s s' : Store, s.saveAll ps = .ok s' → ∀ p ∈ ps, s'.save p = .ok s') ∧
    ∃ s : Store, ({} : Store).saveAll ps = .ok s ∧
      (∀ task p, s.load task = .ok (some p) ↔
        p ∈ ps ∧ p.task = task ∧ ∀ q ∈ ps, q.task = task → q.revision ≤ p.revision) ∧
      ∀ task, s.load task = .ok none ↔ ∀ p ∈ ps, p.task ≠ task := by
  refine ⟨fun s => h.saveAll_eq hperm, ?_, ?_⟩
  · intro s s' hsaved p hp
    cases hfault : s.saveFault with
    | none =>
      rw [saveAll_eq hfault] at hsaved
      cases hsaved
      unfold save
      rw [hfault]
      dsimp only
      rw [h.keep_foldl_keep hp]
    | some e =>
      obtain ⟨q, qs, rfl⟩ := List.exists_cons_of_ne_nil (List.ne_nil_of_mem hp)
      rw [saveAll_cons_of_fault hfault] at hsaved
      cases hsaved
  · refine ⟨_, saveAll_eq rfl, fun task p => ?_, fun task => ?_⟩
    · rw [load_eq_ok_iff, and_iff_right rfl, h.at?_foldl_keep_iff]
    · rw [load_eq_ok_iff, and_iff_right rfl, h.at?_foldl_keep_eq_none_iff]

end Flowrun.Store

namespace Flowrun.Sample

/-- A snapshot of a task. -/
def shot (task : String) (status : TaskStatus) (revision : Nat) : Snapshot :=
  { task, app := "app", conversation := "talk", request := "request", status, records := []
    revision, createdAt := ⟨0, 0⟩, updatedAt := ⟨0, 0⟩ }

/-- Two revisions of a task, the first of them twice, and one of another task. -/
def shots : List Snapshot :=
  [shot "t" .executing 3, shot "u" .paused 2, shot "t" .executing 3, shot "t" .success 5]

/-- The last word on a task stays when it is saved first. -/
theorem saves_in_any_order_late :
    ∃ s, ({} : Store).saveAll shots = .ok s ∧ ({} : Store).saveAll shots.reverse = .ok s ∧
      s.load "t" = .ok (some (shot "t" .success 5)) ∧
        s.save (shot "t" .executing 3) = .ok s := by
  have hcoherent : Store.Coherent shots := by
    unfold Store.Coherent
    decide
  obtain ⟨hsame, hagain, s, hs, hload, -⟩ :=
    Store.saves_in_any_order hcoherent (List.reverse_perm shots).symm
  refine ⟨s, hs, (hsame {}).symm.trans hs, (hload _ _).2 ?_, hagain {} s hs _ (by simp [shots])⟩
  decide

end Flowrun.Sample
