import Flowrun.Proofs.Pool

/-!
# Writing and reading at selectors

Two selectors `Diverge` if they differ in a segment at a position that both have. Otherwise one of
them extends the other (`diverges_or_extends`), so what reading gives after writing is told by three
laws, for every pool and whatever values stand in the way:

* at a selector that extends the one that was written, it gives a part of the written value;
* at a selector that the written one extends, it gives the old value with the new one in it;
* at a selector that diverges, it gives what it gave before, if a missing value counts as `null`.

Writes at one selector replace each other, and writes at diverging selectors commute. The laws are
those of `Value.assign` and `Value.project`, by induction on the path; a variable of a pool holds
one value, its `root`, into which the path leads.
-/

namespace Flowrun

open Json

/-! ### Paths into a value -/

/-- Two lists that differ at a position which both have. -/
def Apart (p q : List String) : Prop := ∃ x ∈ p.zip q, x.1 ≠ x.2

instance (p q : List String) : Decidable (Apart p q) := inferInstanceAs (Decidable (∃ x ∈ _, _))

namespace Apart

variable {a b : String} {p q : List String}

@[simp] theorem not_nil_left : ¬ Apart [] q := by simp [Apart]

@[simp] theorem not_nil_right : ¬ Apart p [] := by simp [Apart]

@[simp] theorem cons_iff : Apart (a :: p) (b :: q) ↔ a ≠ b ∨ Apart p q := by simp [Apart]

theorem symm (h : Apart p q) : Apart q p := by
  induction p generalizing q with
  | nil => exact absurd h not_nil_left
  | cons a p ih =>
    cases q with
    | nil => exact absurd h not_nil_right
    | cons b q => exact cons_iff.2 ((cons_iff.1 h).imp Ne.symm ih)

/-- Lists that are not apart are equal as far as the shorter one goes. -/
theorem or_append (p q : List String) : Apart p q ∨ (∃ r, q = p ++ r) ∨ ∃ r, p = q ++ r := by
  induction p generalizing q with
  | nil => exact Or.inr (Or.inl ⟨q, rfl⟩)
  | cons a p ih =>
    cases q with
    | nil => exact Or.inr (Or.inr ⟨a :: p, rfl⟩)
    | cons b q =>
      by_cases hab : a = b
      · subst hab
        rcases ih q with h | ⟨r, rfl⟩ | ⟨r, rfl⟩
        · exact Or.inl (cons_iff.2 (Or.inr h))
        · exact Or.inr (Or.inl ⟨r, rfl⟩)
        · exact Or.inr (Or.inr ⟨r, rfl⟩)
      · exact Or.inl (cons_iff.2 (Or.inl hab))

end Apart

namespace Json.Value

variable {p q : List String}

theorem field?_assign_cons (s t : String) (path : List String) (v old : Value) :
    (assign (s :: path) v old).field? t =
      if s = t then some (assign path v ((old.field? s).getD .null)) else old.field? t :=
  Dict.at?_put _ _ _ _

theorem project_cons (s : String) (path : List String) (v : Value) :
    project (s :: path) v = project path ((v.field? s).getD .null) := by
  rw [project]
  cases v.field? s with
  | none => exact (project_null path).symm
  | some next => rfl

/-- Above the end of the path the new value is found inside the old one. -/
theorem project_assign_append (p q : List String) (v old : Value) :
    project p (assign (p ++ q) v old) = assign q v (project p old) := by
  induction p generalizing old with
  | nil => rfl
  | cons s p ih =>
    rw [List.cons_append, project_cons, project_cons, field?_assign_cons, if_pos rfl,
      Option.getD_some, ih]

theorem project_assign_of_apart (h : Apart p q) (v old : Value) :
    project q (assign p v old) = project q old := by
  induction p generalizing q old with
  | nil => exact absurd h Apart.not_nil_left
  | cons s p ih =>
    cases q with
    | nil => exact absurd h Apart.not_nil_right
    | cons t q =>
      rw [project_cons, project_cons, field?_assign_cons]
      split
      · next hst =>
        subst hst
        rw [Option.getD_some, ih ((Apart.cons_iff.1 h).resolve_left (not_not.2 rfl))]
      · rfl

theorem assign_comm (h : Apart p q) (v w old : Value) :
    assign q w (assign p v old) = assign p v (assign q w old) := by
  induction p generalizing q old with
  | nil => exact absurd h Apart.not_nil_left
  | cons s p ih =>
    cases q with
    | nil => exact absurd h Apart.not_nil_right
    | cons t q =>
      by_cases hst : s = t
      · subst hst
        have hpq := ih ((Apart.cons_iff.1 h).resolve_left (not_not.2 rfl))
        simp [assign, field?, fields, hpq]
      · have hts : t ≠ s := Ne.symm hst
        simp only [assign, field?, fields, Dict.at?_put_of_ne _ hst, Dict.at?_put_of_ne _ hts]
        rw [Dict.put_comm _ hst]

end Json.Value

/-! ### Selectors -/

namespace Selector

/-- Two selectors that differ in their owner, in their key, or at a position of both paths. -/
def Diverges (s t : Selector) : Prop := Apart s.segments t.segments

instance (s t : Selector) : Decidable (s.Diverges t) := inferInstanceAs (Decidable (Apart _ _))

/-- The selector that leads further by a path. -/
def extend (s : Selector) (path : List String) : Selector := { s with path := s.path ++ path }

variable {s t : Selector}

theorem Diverges.symm (h : s.Diverges t) : t.Diverges s := Apart.symm h

theorem diverges_iff :
    s.Diverges t ↔ s.owner ≠ t.owner ∨ s.key ≠ t.key ∨ Apart s.path t.path := by
  simp [Diverges, segments]

theorem diverges_or_extends (s t : Selector) :
    s.Diverges t ∨ (∃ path, t = s.extend path) ∨ ∃ path, s = t.extend path := by
  obtain ⟨owner, key, path⟩ := s
  obtain ⟨owner', key', path'⟩ := t
  rw [diverges_iff]
  by_cases howner : owner = owner'
  · by_cases hkey : key = key'
    · subst howner hkey
      rcases Apart.or_append path path' with h | ⟨r, rfl⟩ | ⟨r, rfl⟩
      · exact Or.inl (Or.inr (Or.inr h))
      · exact Or.inr (Or.inl ⟨r, rfl⟩)
      · exact Or.inr (Or.inr ⟨r, rfl⟩)
    · exact Or.inl (Or.inr (Or.inl hkey))
  · exact Or.inl (Or.inl howner)

end Selector

/-! ### Pools -/

namespace Pool

variable {s t : Selector}

/-- The value of a variable, into which the paths lead; `null` if it was given none. -/
def root (p : Pool) (owner key : String) : Value := ((p.outputs owner).at? key).getD .null

theorem getD_get? (p : Pool) (s : Selector) :
    (p.get? s).getD .null = (p.root s.owner s.key).project s.path := by
  unfold get? root Selector.project
  cases (p.outputs s.owner).at? s.key with
  | none => exact (Value.project_null _).symm
  | some v => rfl

theorem set_eq (p : Pool) (s : Selector) (v : Value) : p.set s v =
    ⟨p.owners.put s.owner ((p.outputs s.owner).put s.key
      (Value.assign s.path v (p.root s.owner s.key)))⟩ := rfl

theorem outputs_set (p : Pool) (s : Selector) (v : Value) (owner : String) :
    (p.set s v).outputs owner = if s.owner = owner then
      (p.outputs s.owner).put s.key (Value.assign s.path v (p.root s.owner s.key))
    else p.outputs owner := by
  rw [set_eq, outputs_put]

theorem root_set (p : Pool) (s : Selector) (v : Value) (owner key : String) :
    (p.set s v).root owner key = if s.owner = owner ∧ s.key = key then
      Value.assign s.path v (p.root owner key) else p.root owner key := by
  rw [root, outputs_set]
  by_cases howner : s.owner = owner
  · subst howner
    rw [if_pos rfl, Dict.at?_put]
    by_cases hkey : s.key = key
    · subst hkey
      rw [if_pos rfl, if_pos ⟨rfl, rfl⟩, Option.getD_some]
    · rw [if_neg hkey, if_neg fun h => hkey h.2, root]
  · rw [if_neg howner, if_neg fun h => howner h.1, root]

/-- A variable that was written has a value. -/
theorem get?_set_eq_some (p : Pool) (s t : Selector) (v : Value) (howner : s.owner = t.owner)
    (hkey : s.key = t.key) : (p.set s v).get? t =
      some ((Value.assign s.path v (p.root s.owner s.key)).project t.path) := by
  have hthere : ((p.set s v).get? t).isSome = true :=
    get?_isSome_iff.2 (holds_set.2 (Or.inl ⟨howner, hkey⟩))
  obtain ⟨w, hw⟩ := Option.isSome_iff_exists.1 hthere
  have hroot := getD_get? (p.set s v) t
  rw [root_set, if_pos ⟨howner, hkey⟩, ← howner, ← hkey, hw, Option.getD_some] at hroot
  rw [hw, hroot]

theorem get?_set_extend (p : Pool) (s : Selector) (path : List String) (v : Value) :
    (p.set s v).get? (s.extend path) = some (v.project path) := by
  rw [get?_set_eq_some p s (s.extend path) v rfl rfl, Selector.extend, Value.project_append,
    Value.project_assign_self]

theorem get?_set_self (p : Pool) (s : Selector) (v : Value) : (p.set s v).get? s = some v := by
  rw [get?_set_eq_some p s s v rfl rfl, Value.project_assign_self]

/-- Above the place of a write the new value stands inside the old one. -/
theorem get?_extend_set (p : Pool) (s : Selector) (path : List String) (v : Value) :
    (p.set (s.extend path) v).get? s = some (Value.assign path v ((p.get? s).getD .null)) := by
  rw [get?_set_eq_some p (s.extend path) s v rfl rfl, getD_get?]
  exact congrArg some (Value.project_assign_append _ _ _ _)

theorem getD_get?_set_of_diverges (p : Pool) (h : s.Diverges t) (v : Value) :
    ((p.set s v).get? t).getD .null = (p.get? t).getD .null := by
  rw [getD_get?, getD_get?, root_set]
  split
  · next hsame =>
    have happart := ((Selector.diverges_iff.1 h).resolve_left (not_not.2 hsame.1)).resolve_left
      (not_not.2 hsame.2)
    exact Value.project_assign_of_apart happart v _
  · rfl

theorem set_set_self (p : Pool) (s : Selector) (v w : Value) :
    (p.set s v).set s w = p.set s w := by
  rw [set_eq (p.set s v), outputs_set, if_pos rfl, root_set, if_pos ⟨rfl, rfl⟩, set_eq p s v,
    Dict.put_put_self, Dict.put_put_self, Value.assign_assign_self, ← set_eq]

theorem set_comm (p : Pool) (h : s.Diverges t) (v w : Value) :
    (p.set s v).set t w = (p.set t w).set s v := by
  rw [set_eq (p.set s v), set_eq (p.set t w), outputs_set, outputs_set, root_set, root_set,
    set_eq p s v, set_eq p t w]
  by_cases howner : s.owner = t.owner
  · rw [if_pos howner, if_pos howner.symm, howner, Dict.put_put_self, Dict.put_put_self]
    by_cases hkey : s.key = t.key
    · have happart := ((Selector.diverges_iff.1 h).resolve_left (not_not.2 howner)).resolve_left
        (not_not.2 hkey)
      rw [if_pos ⟨rfl, hkey⟩, if_pos ⟨rfl, hkey.symm⟩, hkey, Dict.put_put_self, Dict.put_put_self,
        Value.assign_comm happart]
    · rw [if_neg fun hboth => hkey hboth.2, if_neg fun hboth => hkey hboth.2.symm,
        Dict.put_comm _ hkey]
  · rw [if_neg howner, if_neg (Ne.symm howner), if_neg fun hboth => howner hboth.1,
      if_neg fun hboth => howner hboth.1.symm, Dict.put_comm _ howner]

/-- What reading and writing give after a write, for every pool and any two selectors: what was
written is found at its selector; a part of it at a selector that leads further; the old value with
the new one in it at a selector that stops before. Selectors that diverge do not meet: reading gives
what it gave before, a missing value counting as `null`, and the order of two writes does not
matter; there is no fourth way in which two selectors can lie. Of two writes at one selector the
second one counts. What is published for a node is of no concern to other owners. -/
theorem reads_and_writes (p : Pool) (s t : Selector) (v w : Value) :
    (p.set s v).get? s = some v ∧
    (∀ path, t = s.extend path → (p.set s v).get? t = some (v.project path)) ∧
    (∀ path, s = t.extend path →
      (p.set s v).get? t = some (Value.assign path v ((p.get? t).getD .null))) ∧
    (s.Diverges t → ((p.set s v).get? t).getD .null = (p.get? t).getD .null ∧
      (p.set s v).set t w = (p.set t w).set s v) ∧
    (s.Diverges t ∨ (∃ path, t = s.extend path) ∨ ∃ path, s = t.extend path) ∧
    (p.set s v).set s w = p.set s w ∧
    ∀ node output owner, owner ≠ node →
      (p.publish node output).outputs? owner = p.outputs? owner := by
  refine ⟨get?_set_self p s v, ?_, ?_, fun h => ⟨getD_get?_set_of_diverges p h v, set_comm p h v w⟩,
    Selector.diverges_or_extends s t, set_set_self p s v w, ?_⟩
  · rintro path rfl
    exact get?_set_extend p s path v
  · rintro path rfl
    exact get?_extend_set p t path v
  · exact fun node output owner hne => outputs?_publish_of_ne p (Ne.symm hne) output

/-- Two writes below a variable that holds a text: both paths are made, in either order. -/
theorem reads_and_writes_below_text :
    let p : Pool := ⟨[("fetch", [("rows", .string "none")])]⟩
    let page : Selector := ⟨"fetch", "rows", ["page"]⟩
    let s := page.extend ["first"]
    let t := page.extend ["last"]
    s.Diverges t ∧ ((p.set s (.bool true)).get? t).getD .null = .null ∧
      (p.set s (.bool true)).set t .null = (p.set t .null).set s (.bool true) ∧
      (p.set s (.bool true)).get? page = some (.object [("first", .bool true)]) ∧
      (p.set page (.object [("last", .bool true)])).get? t = some (.bool true) ∧
      (p.publish "fetch" (.bool true)).outputs? "store" = none := by
  intro p page s t
  have hdiverges : s.Diverges t := by decide
  obtain ⟨-, -, -, happart, -⟩ := reads_and_writes p s t (.bool true) .null
  obtain ⟨hread, hcomm⟩ := happart hdiverges
  obtain ⟨-, -, habove, -⟩ := reads_and_writes p s page (.bool true) .null
  obtain ⟨-, hpart, -, -, -, -, hothers⟩ :=
    reads_and_writes p page t (.object [("last", .bool true)]) .null
  exact ⟨hdiverges, hread, hcomm, habove ["first"] rfl, hpart ["last"] rfl,
    hothers "fetch" _ "store" (by decide)⟩

end Pool
end Flowrun
