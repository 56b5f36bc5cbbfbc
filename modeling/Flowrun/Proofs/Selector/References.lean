import Flowrun.Proofs.Selector.Occurrences
import Flowrun.Scope.Reference

/-!
# A text that is one reference

A text is read as a reference if it starts with a dollar sign and an opening brace and ends with a
closing brace, whatever stands in between; the search for references wants no brace in between. So
the two agree on a text that is read as a reference exactly if the selector that is read is `Plain`,
that is, if its segments hold no braces:

    ofReference? t = some s → (occurrences t = [s] ↔ s.Plain)

If they do, braces stood in between, and then what is found is something else: nothing that is found
has a brace in it. Several references one after the other are read as one (`not_forall_sole`).
-/

namespace Flowrun.Selector

open Json Text

variable {s : Selector} {t : String} {cs body : List Char}

/-- There are no braces in the segments. -/
def Plain (s : Selector) : Prop := ∀ x ∈ s.segments, ∀ c ∈ x.toList, isPlain c = true

instance (s : Selector) : Decidable s.Plain :=
  decidable_of_iff (s.segments.all fun x => x.toList.all isPlain) (by simp [Plain])

/-- There are braces in the segments exactly if there are some in what is read. -/
theorem plain_iff (h : ofChars? cs = some s) : s.Plain ↔ ∀ c ∈ cs, isPlain c = true := by
  have hbrace : ∀ c, isPlain c = false → isBlank c = false ∧ c ≠ '.' := by
    intro c hc
    have hcases : c = '\x7b' ∨ c = '\x7d' := by
      simpa [isPlain, Classical.or_iff_not_imp_left] using hc
    rcases hcases with rfl | rfl <;> decide
  constructor
  · intro hplain c hc
    by_contra hnot
    obtain ⟨hblank, hdot⟩ := hbrace c (by simpa using hnot)
    obtain ⟨x, hx, hmem⟩ := (exists_mem_segments_iff h hblank).2 ⟨hc, hdot⟩
    exact hnot (hplain x hx c hmem)
  · intro hplain x hx c hmem
    by_contra hnot
    obtain ⟨hblank, -⟩ := hbrace c (by simpa using hnot)
    exact hnot (hplain c ((exists_mem_segments_iff h hblank).1 ⟨x, hx, hmem⟩).1)

/-- Nothing that is found has a brace in it. -/
theorem plain_of_mem_occurrences (h : s ∈ occurrences t) : s.Plain := by
  obtain ⟨body, hbody, hread⟩ := List.mem_filterMap.1 h
  obtain ⟨i, hoccurs⟩ := mem_bodies_iff.1 hbody
  exact (plain_iff hread).2 hoccurs.plain

/-! ### Searching a reference -/

theorem bodies_cons {c : Char} (hc : c ≠ '$') (cs : List Char) : bodies (c :: cs) = bodies cs := by
  rw [bodies]
  exact fun _ h => absurd h hc

theorem bodies_blank_append {before : List Char} (h : ∀ c ∈ before, isBlank c = true)
    (cs : List Char) : bodies (before ++ cs) = bodies cs := by
  induction before with
  | nil => rfl
  | cons c before ih =>
    have hc : c ≠ '$' := by
      rintro rfl
      exact absurd (h '$' List.mem_cons_self) (by decide)
    rw [List.cons_append, bodies_cons hc, ih fun d hd => h d (List.mem_cons_of_mem c hd)]

/-- A reference without inner braces is found unless it is empty. -/
theorem bodies_enclosed_append (hplain : ∀ c ∈ body, isPlain c = true) (after : List Char) :
    bodies (enclosed body ++ after) = if body = [] then bodies after else body :: bodies after := by
  have hclose : isPlain '\x7d' = false := by decide
  have hdrop : (body ++ '\x7d' :: after).dropWhile isPlain = '\x7d' :: after := by
    rw [List.dropWhile_append_of_pos hplain, List.dropWhile_cons_of_neg (by simp [hclose])]
  have htake : (body ++ '\x7d' :: after).takeWhile isPlain = body := by
    rw [List.takeWhile_append_of_pos hplain, List.takeWhile_cons_of_neg (by simp [hclose]),
      List.append_nil]
  have henclosed : enclosed body ++ after = '$' :: '\x7b' :: (body ++ '\x7d' :: after) := by
    simp [enclosed]
  rw [henclosed, bodies]
  split
  · next after' hafter' =>
    obtain rfl : after = after' := by simpa [hdrop] using hafter'
    rw [htake]
    split
    · next hempty => rw [hempty, List.nil_append, bodies_cons (by decide)]
    · rfl
  · next hnot => exact absurd hdrop (hnot after)

/-- If there is no brace between the outer ones, what stands there is all that is found. -/
theorem occurrences_of_trim (htrim : trim t.toList = enclosed body)
    (hplain : ∀ c ∈ body, isPlain c = true) : occurrences t = (ofChars? body).toList := by
  obtain ⟨before, after, hcs, hbefore, hafter⟩ := exists_trim t.toList
  have hafter : bodies after = [] := by
    have hblank := bodies_blank_append hafter []
    rw [List.append_nil] at hblank
    rw [hblank, bodies]
  rw [occurrences, hcs, htrim, List.append_assoc, bodies_blank_append hbefore,
    bodies_enclosed_append hplain, hafter]
  split
  · next hempty =>
    subst hempty
    rfl
  · cases hread : ofChars? body <;> simp [hread]

/-! ### Reading and searching -/

/-- A text that is read as a reference is found to be this one reference exactly if there are no
braces in the selector, and otherwise something else is found; an input that refers by it holds the
same reference as one that has it as a literal value. If what stands between the outer braces of a
text is free of braces, the text is read like that, and this is all that is found in it. -/
theorem sole_reference_iff (t : String) :
    (∀ s, ofReference? t = some s →
      (occurrences t = [s] ↔ s.Plain) ∧ (¬ s.Plain → s ∉ occurrences t) ∧
      ∀ p : InputParam, p.value = some (.string t) →
        ({ p with valueFrom := .refer }.selectors = { p with valueFrom := .input }.selectors ↔
          s.Plain)) ∧
    ∀ body, trim t.toList = enclosed body → (∀ c ∈ body, isPlain c = true) →
      ofReference? t = ofChars? body ∧ occurrences t = (ofChars? body).toList := by
  refine ⟨fun s h => ?_, fun body htrim hplain => ⟨?_, occurrences_of_trim htrim hplain⟩⟩
  · obtain ⟨body, htrim, hread⟩ := ofReference?_eq_some.1 h
    have hsole : occurrences t = [s] ↔ s.Plain := by
      constructor
      · intro heq
        exact plain_of_mem_occurrences (heq ▸ List.mem_singleton_self s)
      · intro hplain
        rw [occurrences_of_trim htrim ((plain_iff hread).1 hplain), hread, Option.toList_some]
    refine ⟨hsole, fun hnot hmem => hnot (plain_of_mem_occurrences hmem), fun p hp => ?_⟩
    have hrefer : { p with valueFrom := .refer }.selectors = [s] := by
      simp [InputParam.selectors, hp, read?, h]
    have hinput : { p with valueFrom := .input }.selectors = occurrences t := by
      simp [InputParam.selectors, hp, occurrencesIn]
    rw [hrefer, hinput, eq_comm, hsole]
  · rw [ofReference?, referenceBody?_eq_some.2 htrim, Option.bind_some]

/-- Blanks around a reference and around what stands in it make no difference, and a reference
around a reference is something else than what is found in it. -/
theorem sole_reference_iff_padded :
    ofReference? " $\x7b fetch.rows \x7d\n" = some ⟨"fetch", "rows", []⟩ ∧
      occurrences " $\x7b fetch.rows \x7d\n" = [⟨"fetch", "rows", []⟩] ∧
      ofReference? "$\x7b$\x7bfetch.rows\x7d\x7d" = some ⟨"$\x7bfetch", "rows\x7d", []⟩ ∧
      ⟨"$\x7bfetch", "rows\x7d", []⟩ ∉ occurrences "$\x7b$\x7bfetch.rows\x7d\x7d" := by
  have hpadded : ofReference? " $\x7b fetch.rows \x7d\n" = some ⟨"fetch", "rows", []⟩ := by decide
  have hnested : ofReference? "$\x7b$\x7bfetch.rows\x7d\x7d" =
      some ⟨"$\x7bfetch", "rows\x7d", []⟩ := by decide
  obtain ⟨hsole, -⟩ := (sole_reference_iff " $\x7b fetch.rows \x7d\n").1 _ hpadded
  obtain ⟨-, hother, -⟩ := (sole_reference_iff "$\x7b$\x7bfetch.rows\x7d\x7d").1 _ hnested
  exact ⟨hpadded, hsole.2 (by decide), hnested, hother (by decide)⟩

/-- Two references with a text between them are read as one. -/
theorem not_forall_sole : ¬ ∀ (t : String) (s : Selector), ofReference? t = some s →
    occurrences t = [s] := by
  intro h
  have hread : ofReference? "$\x7bfetch.rows\x7d and $\x7bstore.rows\x7d" =
      some ⟨"fetch", "rows\x7d and $\x7bstore", ["rows"]⟩ := by decide
  have hfound : occurrences "$\x7bfetch.rows\x7d and $\x7bstore.rows\x7d" =
      [⟨"fetch", "rows", []⟩, ⟨"store", "rows", []⟩] := by cbv
  have hsole := congrArg List.length (h _ _ hread)
  rw [hfound] at hsole
  exact absurd hsole (by decide)

end Flowrun.Selector
