import Flowrun.Json.Tree
import Flowrun.Proofs.Json.Tokens

/-!
# Documents read back

A document is read from its own text, if no part of it is void and its numbers read back:

    ofText_text : t.Solid → (∀ n ∈ t.numbers, n.ReadsBack) → ofText t.text = some t

The machine reads the tokens of a document as it reads one value: it ends where it started, with
the document delivered to the innermost container (`foldlM_toTokens`). The items and the fields that
a container already holds are carried along, newest first.

In the other direction, a step of the machine keeps the numbers that it holds and adds that of the
token (`numbers_step`), so a document that was read has no number that no numeral stands for.
-/

namespace Flowrun.Json

variable {ts : List Token} {stack : List Frame}

namespace Tree

mutual

/-- No part of the document is void. -/
def Solid : Tree → Prop
  | .array items => SolidItems items
  | .object fields => SolidFields fields
  | .void => False
  | _ => True

/-- No item of the array has a void part. -/
def SolidItems : List Tree → Prop
  | [] => True
  | t :: ts => Solid t ∧ SolidItems ts

/-- No field of the object has a void part. -/
def SolidFields : List (String × Tree) → Prop
  | [] => True
  | (_, t) :: fs => Solid t ∧ SolidFields fs

end

theorem solidItems_iff {items : List Tree} : SolidItems items ↔ ∀ t ∈ items, t.Solid := by
  induction items with
  | nil => simp [SolidItems]
  | cons t items ih => simp [SolidItems, ih]

theorem solidFields_iff {fields : List (String × Tree)} :
    SolidFields fields ↔ ∀ f ∈ fields, f.2.Solid := by
  induction fields with
  | nil => simp [SolidFields]
  | cons f fields ih => simp [SolidFields, ih]

/-! ### Running the machine -/

/-- The fields of an object that is being read, all of them with their keys. -/
def keyed (fields : List (String × Tree)) : List (Option String × Tree) :=
  fields.map fun f => (some f.1, f.2)

theorem keyed_cons (k : String) (t : Tree) (fields : List (String × Tree)) :
    keyed ((k, t) :: fields) = (some k, t) :: keyed fields := rfl

theorem mapM_keyed (fields : List (String × Tree)) :
    ((keyed fields).mapM fun f => f.1.map fun k => (k, f.2)) = some fields := by
  induction fields with
  | nil => rfl
  | cons f fields ih =>
    rw [keyed_cons, List.mapM_cons, ih]
    rfl

theorem closeObject_keyed (fields : List (String × Tree)) :
    closeObject (keyed fields) = .object fields.reverse := by
  rw [closeObject, keyed, ← List.map_reverse, ← keyed, mapM_keyed]

/-- The first item of an array is read like any other value. -/
theorem foldlM_valueOrClose (t : Tree) (ts : List Token) :
    (t.toTokens ++ ts).foldlM Reading.step (.open stack .valueOrClose) =
      (t.toTokens ++ ts).foldlM Reading.step (.open stack .value) := by
  cases t <;> rfl

theorem foldlM_items_valueOrClose {items : List Tree} (h : items ≠ []) :
    (itemTokens items ++ ts).foldlM Reading.step (.open stack .valueOrClose) =
      (itemTokens items ++ ts).foldlM Reading.step (.open stack .value) := by
  match items with
  | [t] => rw [itemTokens, List.append_assoc, foldlM_valueOrClose]
  | t :: t' :: items =>
    rw [itemTokens, List.append_assoc, foldlM_valueOrClose]
    nofun

theorem foldlM_fields_keyOrClose {fields : List (String × Tree)} (h : fields ≠ []) :
    (fieldTokens fields ++ ts).foldlM Reading.step (.open stack .keyOrClose) =
      (fieldTokens fields ++ ts).foldlM Reading.step (.open stack .key) := by
  match fields with
  | [f] => rfl
  | f :: f' :: fields => rfl

theorem foldlM_key (k : String) (fields : List (Option String × Tree)) (ts : List Token) :
    (.string (some k) :: .colon :: ts).foldlM Reading.step (.open (.object fields :: stack) .key) =
      ts.foldlM Reading.step (.open (.field fields (some k) :: stack) .value) := rfl

mutual

/-- The machine reads the tokens of a document and puts the document where it belongs. -/
theorem foldlM_toTokens (t : Tree) (h : t.Solid) (stack : List Frame) (ts : List Token) :
    (t.toTokens ++ ts).foldlM Reading.step (.open stack .value) =
      (deliver t stack).bind (ts.foldlM Reading.step) := by
  match t with
  | .null => rfl
  | .bool b => rfl
  | .number n => rfl
  | .string s => rfl
  | .array [] => rfl
  | .array (t :: items) =>
    have hitems := foldlM_itemTokens (t :: items) h (List.cons_ne_nil _ _) [] stack ts
    rw [← foldlM_items_valueOrClose (List.cons_ne_nil _ _)] at hitems
    exact hitems
  | .object [] => rfl
  | .object (f :: fields) =>
    have hfields := foldlM_fieldTokens (f :: fields) h (List.cons_ne_nil _ _) [] stack ts
    rw [← foldlM_fields_keyOrClose (List.cons_ne_nil _ _)] at hfields
    exact hfields

theorem foldlM_itemTokens (items : List Tree) (h : SolidItems items) (hne : items ≠ [])
    (read : List Tree) (stack : List Frame) (ts : List Token) :
    (itemTokens items ++ ts).foldlM Reading.step (.open (.array read :: stack) .value) =
      (deliver (.array (read.reverse ++ items)) stack).bind (ts.foldlM Reading.step) := by
  match items with
  | [t] =>
    rw [itemTokens, List.append_assoc, foldlM_toTokens t h.1]
    simp [deliver, Reading.step, onClose]
  | t :: t' :: items =>
    have hmore := foldlM_itemTokens (t' :: items) h.2 (List.cons_ne_nil _ _) (t :: read) stack ts
    rw [itemTokens, List.append_assoc, foldlM_toTokens t h.1]
    · simpa [deliver, Reading.step] using hmore
    · nofun

theorem foldlM_fieldTokens (fields : List (String × Tree)) (h : SolidFields fields)
    (hne : fields ≠ []) (read : List (String × Tree)) (stack : List Frame) (ts : List Token) :
    (fieldTokens fields ++ ts).foldlM Reading.step (.open (.object (keyed read) :: stack) .key) =
      (deliver (.object (read.reverse ++ fields)) stack).bind (ts.foldlM Reading.step) := by
  match fields with
  | [(k, t)] =>
    have ht := foldlM_toTokens t h.1 (.field (keyed read) (some k) :: stack) (.closeObject :: ts)
    have hclose : closeObject ((some k, t) :: keyed read) = .object (read.reverse ++ [(k, t)]) := by
      rw [← keyed_cons, closeObject_keyed, List.reverse_cons]
    rw [fieldTokens, List.cons_append, List.cons_append, List.append_assoc, foldlM_key]
    refine ht.trans ?_
    simp [deliver, Reading.step, onClose, hclose]
  | (k, t) :: f :: fields =>
    have ht := foldlM_toTokens t h.1 (.field (keyed read) (some k) :: stack)
      (.comma :: (fieldTokens (f :: fields) ++ ts))
    have hmore := foldlM_fieldTokens (f :: fields) h.2 (List.cons_ne_nil _ _) ((k, t) :: read)
      stack ts
    rw [fieldTokens, List.cons_append, List.cons_append, List.append_assoc, foldlM_key]
    · refine ht.trans ?_
      simpa [deliver, Reading.step, keyed_cons] using hmore
    · nofun

end

theorem ofTokens_toTokens {t : Tree} (h : t.Solid) : ofTokens t.toTokens = some t := by
  have hread := foldlM_toTokens t h [] []
  rw [List.append_nil] at hread
  rw [ofTokens, hread]
  rfl

/-- A document is read from its own text. -/
theorem ofText_text {t : Tree} (h : t.Solid) (hn : ∀ n ∈ t.numbers, n.ReadsBack) :
    ofText t.text = some t := by
  rw [ofText, text, String.toList_ofList, tokens_chars hn]
  exact ofTokens_toTokens h

end Tree

/-! ### Numbers of a document that was read -/

/-- The numbers that a container holds so far. -/
def Frame.numbers : Frame → List Number
  | .array items => Tree.itemNumbers items
  | .object fields => fields.flatMap fun f => f.2.numbers
  | .field fields _ => fields.flatMap fun f => f.2.numbers

/-- The numbers that were read so far. -/
def Reading.numbers : Reading → List Number
  | .open stack _ => stack.flatMap Frame.numbers
  | .done t => t.numbers

/-- The fields of an object that has a key for each of them. -/
theorem map_snd_of_mapM {fs : List (Option String × Tree)} {gs : List (String × Tree)}
    (h : (fs.mapM fun f => f.1.map fun k => (k, f.2)) = some gs) :
    gs.map Prod.snd = fs.map Prod.snd := by
  induction fs generalizing gs with
  | nil =>
    cases h
    rfl
  | cons f fs ih =>
    rw [List.mapM_cons] at h
    obtain ⟨g, hg, h⟩ := Option.bind_eq_some_iff.1 h
    obtain ⟨gs, hgs, h⟩ := Option.bind_eq_some_iff.1 h
    obtain ⟨k, -, rfl⟩ := Option.map_eq_some_iff.1 hg
    cases h
    simp [ih hgs]

theorem numbers_closeObject (fields : List (Option String × Tree)) :
    (closeObject fields).numbers ⊆ fields.flatMap fun f => f.2.numbers := by
  intro n hn
  unfold closeObject at hn
  split at hn
  · next gs hgs =>
    obtain ⟨g, hg, hn⟩ := Tree.mem_fieldNumbers.1 hn
    have hmem : g.2 ∈ fields.reverse.map Prod.snd :=
      map_snd_of_mapM hgs ▸ List.mem_map_of_mem hg
    obtain ⟨f, hf, heq⟩ := List.mem_map.1 hmem
    exact List.mem_flatMap.2 ⟨f, List.mem_reverse.1 hf, heq ▸ hn⟩
  · cases hn

theorem numbers_deliver {t : Tree} {r : Reading} (h : deliver t stack = some r) :
    r.numbers ⊆ t.numbers ++ stack.flatMap Frame.numbers := by
  unfold deliver at h
  split at h <;> cases h <;>
    simp [Reading.numbers, Frame.numbers, Tree.itemNumbers]

theorem numbers_onValue {r : Reading} {token : Token} (h : onValue stack token = some r)
    {n : Number} (hn : n ∈ r.numbers) :
    token = .number (some n) ∨ n ∈ stack.flatMap Frame.numbers := by
  have hdeliver : ∀ {t}, deliver t stack = some r →
      n ∈ t.numbers ∨ n ∈ stack.flatMap Frame.numbers :=
    fun h => List.mem_append.1 (numbers_deliver h hn)
  cases token with
  | null => exact .inr ((hdeliver h).resolve_left List.not_mem_nil)
  | bool b => exact .inr ((hdeliver h).resolve_left List.not_mem_nil)
  | number m =>
    cases m with
    | none => exact .inr ((hdeliver h).resolve_left List.not_mem_nil)
    | some m => exact (hdeliver h).imp_left fun hm => by rw [List.mem_singleton.1 hm]
  | string s =>
    cases s <;> exact .inr ((hdeliver h).resolve_left List.not_mem_nil)
  | openArray =>
    cases h
    exact .inr hn
  | openObject =>
    cases h
    exact .inr hn
  | _ => cases h

theorem numbers_onKey {r : Reading} {token : Token} (h : onKey stack token = some r) :
    r.numbers ⊆ stack.flatMap Frame.numbers := by
  unfold onKey at h
  split at h
  · split at h
    · cases h
      exact List.Subset.refl _
    · cases h
  · cases h

theorem numbers_onClose {r : Reading} {token : Token} (h : onClose stack token = some r) :
    r.numbers ⊆ stack.flatMap Frame.numbers := by
  unfold onClose at h
  intro n hn
  split at h
  · refine List.mem_append.2 ((List.mem_append.1 (numbers_deliver h hn)).imp_left fun hn => ?_)
    obtain ⟨t, ht, hn⟩ := Tree.mem_itemNumbers.1 hn
    exact Tree.mem_itemNumbers.2 ⟨t, List.mem_reverse.1 ht, hn⟩
  · refine List.mem_append.2 ((List.mem_append.1 (numbers_deliver h hn)).imp_left fun hn => ?_)
    exact numbers_closeObject _ hn
  · cases h

theorem numbers_step {r r' : Reading} {token : Token} (h : r.step token = some r') {n : Number}
    (hn : n ∈ r'.numbers) : token = .number (some n) ∨ n ∈ r.numbers := by
  unfold Reading.step at h
  split at h
  · cases h
  · exact numbers_onValue h hn
  · split at h
    · exact .inr (numbers_onClose h hn)
    · exact numbers_onValue h hn
  · exact .inr (numbers_onKey h hn)
  · split at h
    · exact .inr (numbers_onClose h hn)
    · exact .inr (numbers_onKey h hn)
  · split at h
    · cases h
      exact .inr hn
    · cases h
  · split at h
    · split at h
      · cases h
        exact .inr hn
      · cases h
        exact .inr hn
      · cases h
    · exact .inr (numbers_onClose h hn)

theorem numbers_foldlM {ts : List Token} {r r' : Reading}
    (h : ts.foldlM Reading.step r = some r') {n : Number} (hn : n ∈ r'.numbers) :
    .number (some n) ∈ ts ∨ n ∈ r.numbers := by
  induction ts generalizing r with
  | nil =>
    cases h
    exact .inr hn
  | cons token ts ih =>
    obtain ⟨r₁, hstep, hmore⟩ := Option.bind_eq_some_iff.1 h
    rcases ih hmore with hmem | hmem
    · exact .inl (List.mem_cons_of_mem _ hmem)
    · exact (numbers_step hstep hmem).imp_left fun htoken => by simp [htoken]

namespace Tree

theorem mem_of_ofTokens {t : Tree} (h : ofTokens ts = some t) {n : Number} (hn : n ∈ t.numbers) :
    .number (some n) ∈ ts := by
  unfold ofTokens at h
  split at h
  · next hread =>
    cases h
    exact (numbers_foldlM hread hn).resolve_right List.not_mem_nil
  · cases h

/-- The numbers of a document that was read are such that a numeral can stand for them. -/
theorem inRange_of_ofText {s : String} {t : Tree} (h : ofText s = some t) {n : Number}
    (hn : n ∈ t.numbers) : n.InRange := by
  obtain ⟨ts, htokens, htree⟩ := Option.bind_eq_some_iff.1 h
  exact inRange_of_tokens htokens (mem_of_ofTokens htree hn)

end Tree
end Flowrun.Json
