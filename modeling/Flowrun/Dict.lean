/-!
# Dictionaries

A `Dict α` is a list of pairs of a string key and a value. Every operation keeps the keys in
ascending order, so two dictionaries built from the same entries are the same list, and walking one
walks its keys in order. Strings are ordered by code points, which is also the order of their UTF-8
bytes.

Looking a key up after writing is described by

    at?_put : (d.put k v).at? k' = if k = k' then some v else d.at? k'

and writing at two different keys commutes (`put_comm`); both hold of every list of pairs.
-/

namespace Flowrun

/-- Entries under string keys, in ascending order of the keys. -/
abbrev Dict (α : Type u) := List (String × α)

namespace Dict

variable {α : Type u}

/-- The value under `k`, if there is one. -/
def at? : Dict α → String → Option α
  | [], _ => none
  | (k', v) :: rest, k => if k' = k then some v else at? rest k

/-- Write `v` under `k`, over what was there. -/
def put : Dict α → String → α → Dict α
  | [], k, v => [(k, v)]
  | (k', v') :: rest, k, v =>
    if k = k' then (k, v) :: rest
    else if k < k' then (k, v) :: (k', v') :: rest
    else (k', v') :: put rest k v

/-- Whether there is a value under `k`. -/
def has (d : Dict α) (k : String) : Bool := (d.at? k).isSome

/-- Write `v` under `k` unless the key is taken. -/
def putNew (d : Dict α) (k : String) (v : α) : Dict α := if d.has k then d else d.put k v

def without (d : Dict α) (k : String) : Dict α := List.filter (fun e => e.1 ≠ k) d

/-- Write every pair of `entries` in turn; of two pairs with one key the later one stays. -/
def putAll (d : Dict α) (entries : List (String × α)) : Dict α :=
  entries.foldl (fun d e => d.put e.1 e.2) d

/-- The dictionary of a list of pairs. -/
def ofEntries (entries : List (String × α)) : Dict α := putAll [] entries

def keys (d : Dict α) : List String := List.map Prod.fst d

/-- The keys ascend strictly, so no key occurs twice. -/
def Ascending (d : Dict α) : Prop := d.Pairwise (fun a b => a.1 < b.1)

/-! ### Reading after writing -/

theorem at?_put (d : Dict α) (k k' : String) (v : α) :
    (d.put k v).at? k' = if k = k' then some v else d.at? k' := by
  induction d with
  | nil => simp [put, at?]
  | cons e rest ih =>
    obtain ⟨key, old⟩ := e
    by_cases hk : k = key
    · subst hk
      by_cases hk' : k = k' <;> simp [put, at?, hk']
    · by_cases hlt : k < key
      · simp [put, at?, hk, hlt]
      · by_cases hkey : key = k'
        · subst hkey; simp [put, at?, hk, hlt]
        · simp [put, at?, hk, hlt, hkey, ih]

@[simp] theorem at?_put_self (d : Dict α) (k : String) (v : α) : (d.put k v).at? k = some v := by
  simp [at?_put]

theorem at?_put_of_ne (d : Dict α) {k k' : String} (h : k ≠ k') (v : α) :
    (d.put k v).at? k' = d.at? k' := by
  simp [at?_put, h]

/-- The second of two writes at one key is the one that counts. -/
@[simp] theorem put_put_self (d : Dict α) (k : String) (v w : α) :
    (d.put k v).put k w = d.put k w := by
  induction d with
  | nil => simp [put]
  | cons e rest ih =>
    obtain ⟨key, old⟩ := e
    by_cases hk : k = key
    · subst hk; simp [put]
    · by_cases hlt : k < key <;> simp [put, hk, hlt, ih]

@[simp] theorem at?_without_self (d : Dict α) (k : String) : (d.without k).at? k = none := by
  induction d with
  | nil => rfl
  | cons e rest ih =>
    obtain ⟨key, old⟩ := e
    unfold without at ih ⊢
    by_cases hk : key = k
    · simpa [hk] using ih
    · simpa [hk, at?] using ih

theorem at?_without_of_ne (d : Dict α) {k k' : String} (h : k ≠ k') :
    (d.without k).at? k' = d.at? k' := by
  induction d with
  | nil => rfl
  | cons e rest ih =>
    obtain ⟨key, old⟩ := e
    unfold without at ih ⊢
    by_cases hk : key = k
    · simpa [hk, at?, h] using ih
    · rw [List.filter_cons_of_pos (by simpa using hk)]
      unfold at?
      rw [ih]

/-- A dictionary without some keys. -/
theorem at?_foldl_without (d : Dict α) (keys : List String) (k : String) :
    (keys.foldl without d).at? k = if k ∈ keys then none else d.at? k := by
  induction keys generalizing d with
  | nil => rfl
  | cons key keys ih =>
    rw [List.foldl_cons, ih]
    by_cases hkey : key = k
    · simp [hkey]
    · simp [Ne.symm hkey, at?_without_of_ne d hkey]

private theorem put_comm_of_lt (d : Dict α) {k l : String} (h : k < l) (v w : α) :
    (d.put k v).put l w = (d.put l w).put k v := by
  have hkl : k ≠ l := fun e => String.lt_irrefl _ (e ▸ h)
  have hnl : ¬ l < k := String.lt_asymm h
  induction d with
  | nil => simp [put, hkl, hkl.symm, h, hnl]
  | cons e rest ih =>
    obtain ⟨key, old⟩ := e
    by_cases hk : k = key
    · subst hk; simp [put, hkl.symm, hnl]
    · by_cases hlt : k < key
      · by_cases hl : l = key
        · subst hl; simp [put, hk, hlt, hkl.symm, hnl]
        · by_cases hllt : l < key <;>
            simp [put, hk, hlt, hl, hllt, hkl, hkl.symm, h, hnl]
      · by_cases hl : l = key
        · subst hl; exact absurd h hlt
        · by_cases hllt : l < key
          · exact absurd (String.lt_trans h hllt) hlt
          · simp [put, hk, hlt, hl, hllt, ih]

/-- Writes at different keys commute. -/
theorem put_comm (d : Dict α) {k l : String} (h : k ≠ l) (v w : α) :
    (d.put k v).put l w = (d.put l w).put k v := by
  by_cases hlt : k < l
  · exact put_comm_of_lt d hlt v w
  · by_cases hgt : l < k
    · exact (put_comm_of_lt d hgt w v).symm
    · exact absurd (String.le_antisymm hgt hlt) h

/-! ### Order -/

theorem mem_put {d : Dict α} {k : String} {v : α} {e : String × α} (h : e ∈ d.put k v) :
    e = (k, v) ∨ e ∈ d := by
  fun_induction put d k v with
  | case1 => simpa using h
  | case2 => grind
  | case3 => grind
  | case4 => grind

theorem ascending_put {d : Dict α} (h : Ascending d) (k : String) (v : α) :
    Ascending (d.put k v) := by
  induction d with
  | nil => simp [put, Ascending]
  | cons e rest ih =>
    obtain ⟨key, old⟩ := e
    have hrest : Ascending rest := (List.pairwise_cons.1 h).2
    have hhead := (List.pairwise_cons.1 h).1
    unfold put
    split
    · next hk => exact List.pairwise_cons.2 ⟨fun e he => by subst hk; exact hhead e he, hrest⟩
    · split
      · next hlt =>
        refine List.pairwise_cons.2 ⟨fun e he => ?_, h⟩
        rcases List.mem_cons.1 he with he | he
        · subst he; exact hlt
        · exact String.lt_trans hlt (hhead e he)
      · next hk hlt =>
        refine List.pairwise_cons.2 ⟨fun e he => ?_, ih hrest⟩
        rcases mem_put he with he | he
        · subst he
          by_cases hgt : key < k
          · exact hgt
          · exact absurd (String.le_antisymm hgt hlt) hk
        · exact hhead e he

/-- What a dictionary holds is found under its key. -/
theorem Ascending.at?_eq_some_iff {d : Dict α} (h : d.Ascending) {k : String} {v : α} :
    d.at? k = some v ↔ (k, v) ∈ d := by
  induction d with
  | nil => simp [at?]
  | cons e rest ih =>
    obtain ⟨key, old⟩ := e
    obtain ⟨hhead, hrest⟩ := List.pairwise_cons.1 h
    unfold at?
    split
    · next hk =>
      subst hk
      have hnew : ∀ w, (key, w) ∉ rest := fun w hw => String.lt_irrefl key (hhead _ hw)
      simp [hnew, eq_comm]
    · next hk => simp [ih hrest, Ne.symm hk]

theorem ascending_putAll {d : Dict α} (h : Ascending d) (entries : List (String × α)) :
    Ascending (d.putAll entries) := by
  induction entries generalizing d with
  | nil => exact h
  | cons e rest ih => exact ih (ascending_put h e.1 e.2)

theorem ascending_ofEntries (entries : List (String × α)) : Ascending (ofEntries entries) :=
  ascending_putAll List.Pairwise.nil entries

end Dict
end Flowrun
