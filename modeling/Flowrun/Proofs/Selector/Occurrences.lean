import Flowrun.Proofs.Selector.Segments
import Flowrun.Selector.Occurrence

/-!
# All occurrences are found

An occurrence in a text has a position and a body (`OccursAt`). Since a body holds no brace, there
is one occurrence at a position at most, and it ends before the next one starts. A search from the
left that goes on behind each occurrence it finds (`Leftmost`) therefore passes over none: it finds
exactly the occurrences there are, in the order of their positions. `bodies` is such a search.

The texts of a value, in the order in which it is walked, are searched one after the other.
-/

namespace Flowrun

namespace Selector

variable {cs body body' : List Char} {i j : Nat}

/-- A reference with this body stands at a position of a text. -/
structure OccursAt (cs : List Char) (i : Nat) (body : List Char) : Prop where
  ne_nil : body ≠ []
  plain : ∀ c ∈ body, isPlain c = true
  stands : enclosed body <+: cs.drop i

@[simp] theorem length_enclosed (body : List Char) : (enclosed body).length = body.length + 3 := by
  simp [enclosed]

theorem OccursAt.exists_opening (h : OccursAt cs i body) :
    ∃ rest, cs.drop i = '$' :: '\x7b' :: rest := by
  obtain ⟨after, hafter⟩ := h.stands
  exact ⟨body ++ ['\x7d'] ++ after, hafter.symm⟩

theorem eq_enclosed_append {rest after : List Char}
    (hclose : rest.dropWhile isPlain = '\x7d' :: after) :
    '$' :: '\x7b' :: rest = enclosed (rest.takeWhile isPlain) ++ after := by
  have hsplit : rest.takeWhile isPlain ++ '\x7d' :: after = rest := by
    rw [← hclose, List.takeWhile_append_dropWhile]
  simp [enclosed, hsplit]

/-- Behind its opening, an occurrence is what stands before the first brace, which closes it. -/
theorem occursAt_iff {rest : List Char} (hrest : cs.drop i = '$' :: '\x7b' :: rest) :
    OccursAt cs i body ↔ body ≠ [] ∧ rest.takeWhile isPlain = body ∧
      ∃ after, rest.dropWhile isPlain = '\x7d' :: after := by
  constructor
  · rintro ⟨hne, hplain, after, hafter⟩
    have hbody : rest = body ++ '\x7d' :: after := by
      simpa [enclosed, hrest, eq_comm] using hafter
    have hclose : isPlain '\x7d' = false := by decide
    rw [hbody, List.takeWhile_append_of_pos hplain, List.dropWhile_append_of_pos hplain,
      List.takeWhile_cons_of_neg (by simp [hclose]), List.dropWhile_cons_of_neg (by simp [hclose]),
      List.append_nil]
    exact ⟨hne, rfl, after, rfl⟩
  · rintro ⟨hne, rfl, after, hafter⟩
    refine ⟨hne, fun c hc => List.mem_takeWhile_imp hc, after, ?_⟩
    rw [hrest, eq_enclosed_append hafter]

namespace OccursAt

theorem unique (h : OccursAt cs i body) (h' : OccursAt cs i body') : body = body' := by
  obtain ⟨rest, hrest⟩ := h.exists_opening
  rw [← ((occursAt_iff hrest).1 h).2.1, ← ((occursAt_iff hrest).1 h').2.1]

theorem getElem?_add (h : OccursAt cs i body) {k : Nat} (hk : k < (enclosed body).length) :
    cs[i + k]? = (enclosed body)[k]? := by
  obtain ⟨after, hafter⟩ := h.stands
  rw [← List.getElem?_drop, ← hafter, List.getElem?_append_left hk]

theorem getElem?_self (h : OccursAt cs i body) : cs[i]? = some '$' :=
  h.getElem?_add (k := 0) (by simp)

/-- No occurrence starts before another one has ended. -/
theorem end_le (h : OccursAt cs i body) (h' : OccursAt cs j body') (hij : i < j) :
    i + (enclosed body).length ≤ j := by
  by_contra hlt
  obtain ⟨k, rfl⟩ := Nat.exists_eq_add_of_lt hij
  rw [length_enclosed] at hlt
  have hdollar : (enclosed body)[k + 1]? = some '$' := by
    rw [← h.getElem?_add (by rw [length_enclosed]; omega), ← Nat.add_assoc]
    exact h'.getElem?_self
  rcases Nat.eq_or_lt_of_le (show k ≤ body.length + 1 by omega) with rfl | hk
  · -- the dollar sign would be the closing brace
    simp [enclosed] at hdollar
  · -- the opening brace would stand in the body or be the closing brace
    have hbrace : (enclosed body)[k + 2]? = some '\x7b' := by
      rw [← h.getElem?_add (by rw [length_enclosed]; omega)]
      exact h'.getElem?_add (k := 1) (by simp)
    have hmem : '\x7b' ∈ body ++ ['\x7d'] := List.mem_of_getElem? (i := k) hbrace
    rcases List.mem_append.1 hmem with hmem | hmem
    · exact absurd (h.plain _ hmem) (by decide)
    · exact absurd hmem (by decide)

end OccursAt

/-! ### Searching from the left -/

/-- What a search from a position on finds that looks for the first occurrence and goes on behind
it. -/
inductive Leftmost (cs : List Char) : Nat → List (Nat × List Char) → Prop
  | done {i : Nat} : (∀ j body, i ≤ j → ¬ OccursAt cs j body) → Leftmost cs i []
  | next {i j : Nat} {body : List Char} {found : List (Nat × List Char)} : i ≤ j →
      (∀ k body', i ≤ k → k < j → ¬ OccursAt cs k body') → OccursAt cs j body →
      Leftmost cs (j + (enclosed body).length) found → Leftmost cs i ((j, body) :: found)

namespace Leftmost

variable {found found' : List (Nat × List Char)}

/-- A search may start later if nothing is passed over. -/
theorem skip (hnone : ∀ body, ¬ OccursAt cs i body) (h : Leftmost cs (i + 1) found) :
    Leftmost cs i found := by
  cases h with
  | done hrest =>
    refine .done fun j body hij hj => ?_
    rcases Nat.eq_or_lt_of_le hij with rfl | hlt
    · exact hnone body hj
    · exact hrest j body hlt hj
  | next hle hbefore hoccurs hfound =>
    refine .next (by omega) (fun k body hik hkj hk => ?_) hoccurs hfound
    rcases Nat.eq_or_lt_of_le hik with rfl | hlt
    · exact hnone body hk
    · exact hbefore k body hlt hkj hk

/-- A search finds all occurrences from its position on. -/
theorem mem_iff (h : Leftmost cs i found) :
    (j, body) ∈ found ↔ i ≤ j ∧ OccursAt cs j body := by
  induction h with
  | done hnone => exact iff_of_false List.not_mem_nil fun h => hnone j body h.1 h.2
  | @next i k first found hle hbefore hfirst hfound ih =>
    rw [List.mem_cons, ih, Prod.mk.injEq]
    constructor
    · rintro (⟨rfl, rfl⟩ | ⟨hj, hoccurs⟩)
      · exact ⟨hle, hfirst⟩
      · exact ⟨by omega, hoccurs⟩
    · rintro ⟨hij, hoccurs⟩
      rcases Nat.lt_trichotomy j k with hjk | rfl | hkj
      · exact absurd hoccurs (hbefore j body hij hjk)
      · exact Or.inl ⟨rfl, hoccurs.unique hfirst⟩
      · exact Or.inr ⟨hfirst.end_le hoccurs hkj, hoccurs⟩

/-- It finds them in order, each one after the one before has ended. -/
theorem pairwise (h : Leftmost cs i found) :
    found.Pairwise fun a b => a.1 + (enclosed a.2).length ≤ b.1 := by
  induction h with
  | done => exact .nil
  | next hle hbefore hfirst hfound ih =>
    exact List.pairwise_cons.2 ⟨fun m hm => (hfound.mem_iff.1 hm).1, ih⟩

theorem unique (h : Leftmost cs i found) (h' : Leftmost cs i found') : found = found' := by
  induction h generalizing found' with
  | done hnone =>
    cases h' with
    | done => rfl
    | next hle _ hoccurs => exact absurd hoccurs (hnone _ _ hle)
  | @next i k first found hle hbefore hfirst hfound ih =>
    cases h' with
    | done hnone => exact absurd hfirst (hnone _ _ hle)
    | @next _ k' first' found' hle' hbefore' hfirst' hfound' =>
      obtain rfl : k = k' := by
        by_contra hne
        rcases Nat.lt_or_gt_of_ne hne with hlt | hlt
        · exact hbefore' k first hle hlt hfirst
        · exact hbefore k' first' hle' hlt hfirst'
      obtain rfl := hfirst.unique hfirst'
      rw [ih hfound']

/-- Nothing starts at an opening brace. -/
theorem skip_opening {rest : List Char} (hrest : cs.drop i = '$' :: '\x7b' :: rest)
    (hnone : ∀ body, ¬ OccursAt cs i body) (h : Leftmost cs (i + 2) found) :
    Leftmost cs i found := by
  refine skip hnone (skip (fun body hbody => ?_) h)
  obtain ⟨rest', hrest'⟩ := hbody.exists_opening
  rw [← List.drop_drop, hrest] at hrest'
  cases hrest'

end Leftmost

/-- The bodies are those that a search from the left finds. -/
theorem exists_leftmost (cs : List Char) :
    ∃ found, Leftmost cs 0 found ∧ bodies cs = found.map Prod.snd := by
  have key : ∀ rest i, cs.drop i = rest →
      ∃ found, Leftmost cs i found ∧ bodies rest = found.map Prod.snd := by
    intro rest
    fun_induction bodies rest with
    | case1 =>
      -- the text is over
      intro i hrest
      refine ⟨[], .done fun j body hij hj => ?_, rfl⟩
      obtain ⟨rest', hrest'⟩ := hj.exists_opening
      rw [List.drop_eq_nil_iff] at hrest
      rw [List.drop_eq_nil_of_le (hrest.trans hij)] at hrest'
      cases hrest'
    | case2 rest after hclose hempty ih =>
      -- nothing stands between the braces
      intro i hrest
      obtain ⟨found, hfound, hbodies⟩ := ih (i + 2) (by rw [← List.drop_drop, hrest]; rfl)
      refine ⟨found, hfound.skip_opening hrest fun body hbody => ?_, hbodies⟩
      obtain ⟨hne, hbody, -⟩ := (occursAt_iff hrest).1 hbody
      exact hne (hbody.symm.trans hempty)
    | case3 rest after hclose hne ih =>
      intro i hrest
      have hoccurs : OccursAt cs i (rest.takeWhile isPlain) :=
        (occursAt_iff hrest).2 ⟨hne, rfl, after, hclose⟩
      have hafter : cs.drop (i + (enclosed (rest.takeWhile isPlain)).length) = after := by
        rw [← List.drop_drop, hrest, eq_enclosed_append hclose, List.drop_left]
      obtain ⟨found, hfound, hbodies⟩ := ih _ hafter
      refine ⟨(i, rest.takeWhile isPlain) :: found, ?_, by rw [hbodies, List.map_cons]⟩
      exact .next (Nat.le_refl i) (fun k _ hik hki => absurd hki (Nat.not_lt.2 hik)) hoccurs hfound
    | case4 rest hopen ih =>
      -- the first brace behind the opening is none that closes
      intro i hrest
      obtain ⟨found, hfound, hbodies⟩ := ih (i + 2) (by rw [← List.drop_drop, hrest]; rfl)
      refine ⟨found, hfound.skip_opening hrest fun body hbody => ?_, hbodies⟩
      obtain ⟨-, -, after, hclose⟩ := (occursAt_iff hrest).1 hbody
      exact hopen after hclose
    | case5 c rest hother ih =>
      intro i hrest
      obtain ⟨found, hfound, hbodies⟩ := ih (i + 1) (by rw [← List.drop_drop, hrest]; rfl)
      refine ⟨found, hfound.skip fun body hbody => ?_, hbodies⟩
      obtain ⟨rest', hrest'⟩ := hbody.exists_opening
      rw [hrest] at hrest'
      obtain ⟨hc, hr⟩ := List.cons.inj hrest'
      exact hother rest' hc hr
  exact key cs 0 rfl

theorem mem_bodies_iff : body ∈ bodies cs ↔ ∃ i, OccursAt cs i body := by
  obtain ⟨found, hfound, hbodies⟩ := exists_leftmost cs
  simp [hbodies, hfound.mem_iff]

end Selector

/-! ### Inside values -/

namespace Json.Value

/-- The values straight inside a value: the items of an array, or what the fields of an object
hold, by their keys. -/
def inner : Value → List Value
  | .array items => items
  | .object fields => fields.map Prod.snd
  | _ => []

/-- What is at a place inside a value. A place is given by positions, from the outside in. -/
def at? : Value → List Nat → Option Value
  | v, [] => some v
  | v, k :: place => v.inner[k]?.bind fun w => at? w place

end Json.Value

namespace Selector

open Json

/-- The texts in a value with their places, in the order of these, and what is found in them. -/
structure Walked (v : Value) (found : List (List Nat × String)) : Prop where
  mem_iff : ∀ place t, (place, t) ∈ found ↔ v.at? place = some (.string t)
  ascending : found.Pairwise fun a b => a.1 < b.1
  occurrences_eq : occurrencesIn v = found.flatMap fun m => occurrences m.2

/-- The same for values that stand side by side, from a position on. -/
structure WalkedFrom (k : Nat) (vs : List Value) (found : List (List Nat × String)) : Prop where
  mem_iff : ∀ place t, (place, t) ∈ found ↔
    ∃ i rest v, place = (k + i) :: rest ∧ vs[i]? = some v ∧ v.at? rest = some (.string t)
  ascending : found.Pairwise fun a b => a.1 < b.1
  occurrences_eq : occurrencesInItems vs = found.flatMap fun m => occurrences m.2

theorem occurrencesInFields_eq (fs : List (String × Value)) :
    occurrencesInFields fs = occurrencesInItems (fs.map Prod.snd) := by
  induction fs with
  | nil => rfl
  | cons f fs ih =>
    obtain ⟨key, v⟩ := f
    rw [occurrencesInFields, ih, List.map_cons, occurrencesInItems]

theorem WalkedFrom.nil (k : Nat) : WalkedFrom k [] [] :=
  ⟨fun place t => by simp, .nil, rfl⟩

theorem WalkedFrom.cons {k : Nat} {v : Value} {vs : List Value}
    {first rest : List (List Nat × String)} (hv : Walked v first)
    (hvs : WalkedFrom (k + 1) vs rest) :
    WalkedFrom k (v :: vs) (first.map (fun m => (k :: m.1, m.2)) ++ rest) where
  mem_iff place t := by
    rw [List.mem_append, hvs.mem_iff]
    constructor
    · rintro (h | ⟨i, inside, w, rfl, hw, hplace⟩)
      · obtain ⟨m, hm, heq⟩ := List.mem_map.1 h
        cases heq
        exact ⟨0, m.1, v, rfl, rfl, (hv.mem_iff _ _).1 hm⟩
      · exact ⟨i + 1, inside, w, by rw [Nat.add_assoc, Nat.add_comm 1], hw, hplace⟩
    · rintro ⟨i, inside, w, rfl, hw, hplace⟩
      cases i with
      | zero =>
        cases hw
        exact Or.inl (List.mem_map.2 ⟨(inside, t), (hv.mem_iff _ _).2 hplace, rfl⟩)
      | succ i => exact Or.inr ⟨i, inside, w, by rw [Nat.add_assoc, Nat.add_comm 1], hw, hplace⟩
  ascending := by
    refine List.pairwise_append.2 ⟨?_, hvs.ascending, ?_⟩
    · refine List.pairwise_map.2 (hv.ascending.imp fun h => ?_)
      exact List.cons_lt_cons_iff.2 (Or.inr ⟨rfl, h⟩)
    · rintro a ha ⟨place, t⟩ hb
      obtain ⟨m, -, rfl⟩ := List.mem_map.1 ha
      obtain ⟨i, inside, w, rfl, -⟩ := (hvs.mem_iff _ _).1 hb
      exact List.cons_lt_cons_iff.2 (Or.inl (by omega))
  occurrences_eq := by
    rw [occurrencesInItems, hv.occurrences_eq, hvs.occurrences_eq, List.flatMap_append,
      List.flatMap_map]

/-- A value that is no text itself holds the texts of what is inside it. -/
theorem WalkedFrom.walked {v : Value} {vs : List Value} {found : List (List Nat × String)}
    (h : WalkedFrom 0 vs found) (hinner : v.inner = vs) (htext : ∀ t, v ≠ .string t)
    (hoccurrences : occurrencesIn v = occurrencesInItems vs) : Walked v found where
  mem_iff place t := by
    rw [h.mem_iff]
    cases place with
    | nil => simpa [Value.at?] using htext t
    | cons k inside => simp [Value.at?, hinner, Option.bind_eq_some_iff]
  ascending := h.ascending
  occurrences_eq := hoccurrences.trans h.occurrences_eq

mutual

theorem exists_walked (v : Value) : ∃ found, Walked v found := by
  cases v with
  | string t =>
    refine ⟨[([], t)], fun place t' => ?_, List.pairwise_singleton _ _, by simp [occurrencesIn]⟩
    cases place with
    | nil => simp [Value.at?, eq_comm]
    | cons k inside => simp [Value.at?, Value.inner]
  | array items =>
    obtain ⟨found, h⟩ := exists_walkedItems 0 items
    exact ⟨found, h.walked rfl nofun rfl⟩
  | object fields =>
    obtain ⟨found, h⟩ := exists_walkedFields 0 fields
    exact ⟨found, h.walked rfl nofun (occurrencesInFields_eq fields)⟩
  | null => exact ⟨[], (WalkedFrom.nil 0).walked rfl nofun rfl⟩
  | bool b => exact ⟨[], (WalkedFrom.nil 0).walked rfl nofun rfl⟩
  | number n => exact ⟨[], (WalkedFrom.nil 0).walked rfl nofun rfl⟩

theorem exists_walkedItems (k : Nat) (vs : List Value) : ∃ found, WalkedFrom k vs found := by
  cases vs with
  | nil => exact ⟨[], .nil k⟩
  | cons v vs =>
    obtain ⟨first, hv⟩ := exists_walked v
    obtain ⟨rest, hvs⟩ := exists_walkedItems (k + 1) vs
    exact ⟨_, .cons hv hvs⟩

theorem exists_walkedFields (k : Nat) (fs : List (String × Value)) :
    ∃ found, WalkedFrom k (fs.map Prod.snd) found := by
  cases fs with
  | nil => exact ⟨[], .nil k⟩
  | cons f fs =>
    obtain ⟨key, v⟩ := f
    obtain ⟨first, hv⟩ := exists_walked v
    obtain ⟨rest, hvs⟩ := exists_walkedFields (k + 1) fs
    exact ⟨_, .cons hv hvs⟩

end

/-- What is found in a text are the selectors of all occurrences of a dollar sign, an opening brace,
a body of one or more characters that are no braces, and a closing brace, in the order in which they
stand there; those whose body is no selector are left out. No two occurrences share a character, and
so every search from the left that goes on behind what it found finds all of them and nothing else.
In a value, all texts are searched, in the order of their places. -/
theorem occurrences_complete (t : String) (v : Value) :
    (∃ found : List (Nat × List Char),
      (∀ i body, (i, body) ∈ found ↔ OccursAt t.toList i body) ∧
      found.Pairwise (fun a b => a.1 + (enclosed a.2).length ≤ b.1) ∧
      (∀ result, Leftmost t.toList 0 result ↔ result = found) ∧
      occurrences t = found.filterMap fun m => ofChars? m.2) ∧
    (∀ i j body body', OccursAt t.toList i body → OccursAt t.toList j body' →
      (i = j ∧ body = body') ∨ i + (enclosed body).length ≤ j ∨
        j + (enclosed body').length ≤ i) ∧
    ∃ found : List (List Nat × String),
      (∀ place text, (place, text) ∈ found ↔ v.at? place = some (.string text)) ∧
      found.Pairwise (fun a b => a.1 < b.1) ∧
      occurrencesIn v = found.flatMap fun m => occurrences m.2 := by
  refine ⟨?_, ?_, ?_⟩
  · obtain ⟨found, hfound, hbodies⟩ := exists_leftmost t.toList
    refine ⟨found, fun i body => ?_, hfound.pairwise, fun result => ?_, ?_⟩
    · rw [hfound.mem_iff, and_iff_right (Nat.zero_le i)]
    · exact ⟨fun hresult => hresult.unique hfound, fun heq => heq ▸ hfound⟩
    · rw [occurrences, hbodies, List.filterMap_map]
      rfl
  · intro i j body body' h h'
    rcases Nat.lt_trichotomy i j with hij | rfl | hji
    · exact Or.inr (Or.inl (h.end_le h' hij))
    · exact Or.inl ⟨rfl, h.unique h'⟩
    · exact Or.inr (Or.inr (h'.end_le h hji))
  · obtain ⟨found, hwalked⟩ := exists_walked v
    exact ⟨found, hwalked.mem_iff, hwalked.ascending, hwalked.occurrences_eq⟩

end Selector
end Flowrun
