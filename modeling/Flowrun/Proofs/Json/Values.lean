import Flowrun.Proofs.Json.Trees

/-!
# Values read back

What is read from a document as a free value is settled: of two fields with one key only the later
one is left, the fields ascend, and containers are nested no deeper than allowed. So the value comes
back from its own document (`readsBack_of_value?`), since a dictionary is what its own entries make
(`Dict.Ascending.ofEntries_eq`).
-/

namespace Flowrun

/-! ### Dictionaries of ascending entries -/

namespace Dict

variable {α : Type u}

theorem mem_of_at? {d : Dict α} {k : String} {v : α} (h : d.at? k = some v) : (k, v) ∈ d := by
  induction d with
  | nil => cases h
  | cons e rest ih =>
    rw [at?] at h
    split at h
    · next hk =>
      cases h
      exact hk ▸ List.mem_cons_self
    · exact List.mem_cons_of_mem _ (ih h)

theorem put_of_lt {d : Dict α} {k : String} (h : ∀ e ∈ d, e.1 < k) (v : α) :
    d.put k v = d ++ [(k, v)] := by
  induction d with
  | nil => rfl
  | cons e rest ih =>
    obtain ⟨key, old⟩ := e
    have hkey : key < k := h _ List.mem_cons_self
    have hne : k ≠ key := fun heq => String.lt_irrefl k (heq ▸ hkey)
    rw [put, if_neg hne, if_neg (String.lt_asymm hkey),
      ih fun e he => h e (List.mem_cons_of_mem _ he), List.cons_append]

theorem mem_putAll {d : Dict α} {entries : List (String × α)} {e : String × α}
    (h : e ∈ d.putAll entries) : e ∈ d ∨ e ∈ entries := by
  induction entries generalizing d with
  | nil => exact .inl h
  | cons f entries ih =>
    rcases ih h with hput | hmem
    · rcases mem_put hput with rfl | hd
      · exact .inr List.mem_cons_self
      · exact .inl hd
    · exact .inr (List.mem_cons_of_mem _ hmem)

theorem mem_ofEntries {entries : List (String × α)} {e : String × α} (h : e ∈ ofEntries entries) :
    e ∈ entries :=
  (mem_putAll h).resolve_left List.not_mem_nil

theorem putAll_append {d e : Dict α} (h : Ascending (d ++ e)) : d.putAll e = d ++ e := by
  induction e generalizing d with
  | nil => exact (List.append_nil d).symm
  | cons f rest ih =>
    have hlt : ∀ e ∈ d, e.1 < f.1 := fun e he =>
      (List.pairwise_append.1 h).2.2 e he f List.mem_cons_self
    have hsplit : d ++ f :: rest = (d ++ [f]) ++ rest := by simp
    rw [hsplit] at h ⊢
    rw [← ih h, ← put_of_lt hlt f.2]
    rfl

/-- A dictionary is what its own entries make. -/
theorem Ascending.ofEntries_eq {d : Dict α} (h : Ascending d) : ofEntries d = d :=
  putAll_append h

end Dict

namespace Json

/-! ### Documents of values -/

namespace Tree

mutual

theorem solid_ofValue (v : Value) : (ofValue v).Solid := by
  match v with
  | .null | .bool _ | .number _ | .string _ => trivial
  | .array items => exact solid_ofItems items
  | .object fields => exact solid_ofFields fields

theorem solid_ofItems (vs : List Value) : SolidItems (ofItems vs) := by
  match vs with
  | [] => trivial
  | v :: vs => exact ⟨solid_ofValue v, solid_ofItems vs⟩

theorem solid_ofFields (fs : List (String × Value)) : SolidFields (ofFields fs) := by
  match fs with
  | [] => trivial
  | (_, v) :: fs => exact ⟨solid_ofValue v, solid_ofFields fs⟩

end

end Tree

/-- A value that comes back from its document, where containers may be nested `room` deep. -/
def Value.ReadsBack (room : Nat) (v : Value) : Prop := (Tree.ofValue v).value? room = some v

namespace Tree

variable {room : Nat}

theorem items?_ofItems {vs : List Value} (h : ∀ v ∈ vs, v.ReadsBack room) :
    items? room (ofItems vs) = some vs := by
  induction vs with
  | nil => rfl
  | cons v vs ih =>
    have hv : (ofValue v).value? room = some v := h v List.mem_cons_self
    rw [ofItems, items?, hv, ih fun v hv => h v (List.mem_cons_of_mem _ hv)]
    rfl

theorem fields?_ofFields {fs : List (String × Value)} (h : ∀ f ∈ fs, f.2.ReadsBack room) :
    fields? room (ofFields fs) = some fs := by
  induction fs with
  | nil => rfl
  | cons f fs ih =>
    have hf : (ofValue f.2).value? room = some f.2 := h f List.mem_cons_self
    rw [ofFields, fields?, hf, ih fun f hf => h f (List.mem_cons_of_mem _ hf)]
    rfl

theorem mem_numbers_ofItems {n : Number} {vs : List Value} :
    n ∈ itemNumbers (ofItems vs) ↔ ∃ v ∈ vs, n ∈ (ofValue v).numbers := by
  induction vs with
  | nil => simp [ofItems, itemNumbers]
  | cons v vs ih => simp [ofItems, itemNumbers, ih]

theorem mem_numbers_ofFields {n : Number} {fs : List (String × Value)} :
    n ∈ fieldNumbers (ofFields fs) ↔ ∃ f ∈ fs, n ∈ (ofValue f.2).numbers := by
  induction fs with
  | nil => simp [ofFields, fieldNumbers]
  | cons f fs ih => simp [ofFields, fieldNumbers, ih]

mutual

/-- A value that is read comes back, and its numbers stand in the document. -/
theorem readsBack_of_value? (t : Tree) {room : Nat} {v : Value} (h : t.value? room = some v) :
    v.ReadsBack room ∧ (ofValue v).numbers ⊆ t.numbers := by
  match t, room with
  | .null, _ | .bool _, _ | .number _, _ | .string _, _ =>
    cases h
    exact ⟨rfl, List.Subset.refl _⟩
  | .array items, 0 => cases h
  | .array items, room + 1 =>
    obtain ⟨vs, hvs, rfl⟩ := Option.map_eq_some_iff.1 h
    have hback := readsBack_of_items? items hvs
    refine ⟨?_, fun n hn => ?_⟩
    · rw [Value.ReadsBack, ofValue, value?, items?_ofItems fun v hv => (hback v hv).1]
      rfl
    · obtain ⟨v, hv, hn⟩ := mem_numbers_ofItems.1 hn
      exact (hback v hv).2 hn
  | .object fields, 0 => cases h
  | .object fields, room + 1 =>
    obtain ⟨fs, hfs, rfl⟩ := Option.map_eq_some_iff.1 h
    have hback : ∀ f ∈ Dict.ofEntries fs, _ :=
      fun f hf => readsBack_of_fields? fields hfs f (Dict.mem_ofEntries hf)
    refine ⟨?_, fun n hn => ?_⟩
    · rw [Value.ReadsBack, ofValue, value?, fields?_ofFields fun f hf => (hback f hf).1,
        Option.map_some, (Dict.ascending_ofEntries fs).ofEntries_eq]
    · obtain ⟨f, hf, hn⟩ := mem_numbers_ofFields.1 hn
      exact (hback f hf).2 hn

theorem readsBack_of_items? (ts : List Tree) {room : Nat} {vs : List Value}
    (h : items? room ts = some vs) :
    ∀ v ∈ vs, v.ReadsBack room ∧ (ofValue v).numbers ⊆ itemNumbers ts := by
  match ts with
  | [] =>
    cases h
    nofun
  | t :: ts =>
    obtain ⟨v, hv, h⟩ := Option.bind_eq_some_iff.1 h
    obtain ⟨vs, hvs, h⟩ := Option.bind_eq_some_iff.1 h
    cases h
    refine List.forall_mem_cons.2 ⟨?_, fun v' hv' => ?_⟩
    · exact (readsBack_of_value? t hv).imp_right (List.subset_append_of_subset_left _)
    · exact (readsBack_of_items? ts hvs v' hv').imp_right (List.subset_append_of_subset_right _)

theorem readsBack_of_fields? (fs : List (String × Tree)) {room : Nat} {es : List (String × Value)}
    (h : fields? room fs = some es) :
    ∀ e ∈ es, e.2.ReadsBack room ∧ (ofValue e.2).numbers ⊆ fieldNumbers fs := by
  match fs with
  | [] =>
    cases h
    nofun
  | (k, t) :: fs =>
    obtain ⟨v, hv, h⟩ := Option.bind_eq_some_iff.1 h
    obtain ⟨es, hes, h⟩ := Option.bind_eq_some_iff.1 h
    cases h
    refine List.forall_mem_cons.2 ⟨?_, fun e he => ?_⟩
    · exact (readsBack_of_value? t hv).imp_right (List.subset_append_of_subset_left _)
    · exact (readsBack_of_fields? fs hes e he).imp_right (List.subset_append_of_subset_right _)

end

/-- Only `null` is read as a value that is written as `null`. -/
theorem ofValue_ne_null {t : Tree} {v : Value} (ht : t ≠ .null) (h : t.value? room = some v) :
    ofValue v ≠ .null := by
  match t, room with
  | .null, _ => exact absurd rfl ht
  | .bool _, _ | .number _, _ | .string _, _ =>
    cases h
    nofun
  | .array items, room + 1 | .object fields, room + 1 =>
    obtain ⟨_, -, rfl⟩ := Option.map_eq_some_iff.1 h
    nofun

end Tree
end Json
end Flowrun
