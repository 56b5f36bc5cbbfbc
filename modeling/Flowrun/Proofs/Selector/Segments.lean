import Flowrun.Proofs.Text
import Flowrun.Selector.Basic

/-!
# Segments of selectors

A selector that was read is `Dotted`: its segments are not empty and hold no dot. Reading the dotted
form of such a selector gives it back if no blank is cut off, and otherwise never, since what is
read is written with no more characters than are left:

    s.Dotted → (ofText? s.text = some s ↔ Text.Bare s.text.toList)

What stands between the braces of a reference is read like a dotted form, and blanks around a
reference do not count.
-/

namespace Flowrun.Selector

open Text

variable {s : Selector} {cs body : List Char}

/-- Every segment can be told apart when they are written with dots between them. -/
def Dotted (s : Selector) : Prop := ∀ x ∈ s.segments, x ≠ "" ∧ '.' ∉ x.toList

theorem ofSegments?_eq_some {xs : List String} : ofSegments? xs = some s ↔ xs = s.segments := by
  cases s
  unfold ofSegments? segments
  split
  · simp
  · next hne => exact iff_of_false nofun fun h => hne _ _ _ h

theorem ofChars?_eq_some : ofChars? cs = some s ↔ dottedSegments cs = s.segments :=
  ofSegments?_eq_some

@[simp] theorem toList_text (s : Selector) :
    s.text.toList = joined '.' (s.segments.map String.toList) :=
  String.toList_ofList

/-- The dotted form holds the characters of the segments, and dots. -/
theorem mem_text {c : Char} (h : c ∈ s.text.toList) : c = '.' ∨ ∃ x ∈ s.segments, c ∈ x.toList := by
  rw [toList_text] at h
  refine (mem_joined h).imp_right ?_
  rintro ⟨p, hp, hc⟩
  obtain ⟨x, hx, rfl⟩ := List.mem_map.1 hp
  exact ⟨x, hx, hc⟩

/-! ### Reading the dotted form -/

theorem mem_dottedSegments {x : String} :
    x ∈ dottedSegments cs ↔ x.toList ∈ pieces '.' (trim cs) ∧ x ≠ "" := by
  unfold dottedSegments
  rw [List.mem_map]
  constructor
  · rintro ⟨p, hp, rfl⟩
    obtain ⟨hmem, hne⟩ := List.mem_filter.1 hp
    exact ⟨by rwa [String.toList_ofList], by simpa using hne⟩
  · rintro ⟨hmem, hne⟩
    exact ⟨x.toList, List.mem_filter.2 ⟨hmem, by simpa using hne⟩, String.ofList_toList⟩

theorem dotted_of_ofChars? (h : ofChars? cs = some s) : s.Dotted := by
  intro x hx
  rw [← ofChars?_eq_some.1 h] at hx
  obtain ⟨hmem, hne⟩ := mem_dottedSegments.1 hx
  exact ⟨hne, not_mem_of_mem_pieces hmem⟩

/-- The segments of what is read hold all characters but dots and blanks. -/
theorem exists_mem_segments_iff (h : ofChars? cs = some s) {c : Char} (hc : isBlank c = false) :
    (∃ x ∈ s.segments, c ∈ x.toList) ↔ c ∈ cs ∧ c ≠ '.' := by
  have htrim : c ∈ trim cs ↔ c ∈ cs := ⟨mem_of_mem_trim, fun hmem => mem_trim hmem hc⟩
  rw [← ofChars?_eq_some.1 h, ← htrim, ← exists_mem_pieces_iff]
  constructor
  · rintro ⟨x, hx, hmem⟩
    exact ⟨x.toList, (mem_dottedSegments.1 hx).1, hmem⟩
  · rintro ⟨p, hp, hmem⟩
    refine ⟨String.ofList p, mem_dottedSegments.2 ⟨by rwa [String.toList_ofList], ?_⟩, ?_⟩
    · rintro hempty
      rw [String.ofList_eq_empty_iff.1 hempty] at hmem
      cases hmem
    · rwa [String.toList_ofList]

/-- Without blanks at its ends, the dotted form is cut where it was put together. -/
theorem Dotted.dottedSegments_text (h : s.Dotted) (hbare : Bare s.text.toList) :
    dottedSegments s.text.toList = s.segments := by
  have hne : s.segments.map String.toList ≠ [] := by simp [segments]
  have hdots : ∀ p ∈ s.segments.map String.toList, '.' ∉ p := by
    intro p hp
    obtain ⟨x, hx, rfl⟩ := List.mem_map.1 hp
    exact (h x hx).2
  have hall : (s.segments.map String.toList).filter (· ≠ []) = s.segments.map String.toList := by
    refine List.filter_eq_self.2 fun p hp => ?_
    obtain ⟨x, hx, rfl⟩ := List.mem_map.1 hp
    simpa using (h x hx).1
  rw [dottedSegments, trim_eq_self_iff.2 hbare, toList_text, pieces_joined hne hdots, hall,
    List.map_map]
  simp [Function.comp_def]

/-- The dotted form of what is read is no longer than what is left when blanks are cut off. -/
theorem length_text_le (h : ofChars? cs = some s) : s.text.toList.length ≤ (trim cs).length := by
  have hpieces := length_joined_filter_le (pieces '.' (trim cs)) '.'
  rw [joined_pieces] at hpieces
  rw [toList_text, ← ofChars?_eq_some.1 h, dottedSegments, List.map_map]
  simpa [Function.comp_def] using hpieces

theorem Dotted.ofText?_text_iff (h : s.Dotted) :
    ofText? s.text = some s ↔ Bare s.text.toList := by
  constructor
  · intro hread
    exact trim_eq_self_iff.1 (trim_eq_of_length_le (length_text_le hread))
  · intro hbare
    exact ofChars?_eq_some.2 (h.dottedSegments_text hbare)

/-! ### Reading references -/

/-- A reference with something between its braces. -/
def enclosed (body : List Char) : List Char := '$' :: '\x7b' :: (body ++ ['\x7d'])

theorem trim_enclosed (body : List Char) : trim (enclosed body) = enclosed body := by
  have hopen : isBlank '$' = false := by decide
  have hclose : isBlank '\x7d' = false := by decide
  refine trim_eq_self_iff.2 ⟨?_, ?_⟩
  · simpa [enclosed] using hopen
  · have hlast : (enclosed body).getLast? = some '\x7d' := by
      rw [enclosed, ← List.cons_append, ← List.cons_append, List.getLast?_concat]
    simpa [hlast] using hclose

theorem referenceBody?_eq_some : referenceBody? cs = some body ↔ trim cs = enclosed body := by
  unfold referenceBody? enclosed
  constructor
  · intro h
    split at h
    · next rest hopen =>
      split at h
      · next inner hclose =>
        cases h
        rw [hopen, List.reverse_eq_cons_iff.1 hclose]
      · cases h
    · cases h
  · intro h
    simp [h]

theorem ofReference?_eq_some {t : String} : ofReference? t = some s ↔
    ∃ body, trim t.toList = enclosed body ∧ ofChars? body = some s := by
  unfold ofReference?
  rw [Option.bind_eq_some_iff]
  simp only [referenceBody?_eq_some]

theorem ofReference?_reference (s : Selector) : ofReference? s.reference = ofText? s.text := by
  have hreference : s.reference.toList = enclosed s.text.toList := by
    simp [reference, enclosed]
  have hbody : referenceBody? s.reference.toList = some s.text.toList := by
    rw [hreference, referenceBody?_eq_some, trim_enclosed]
  rw [ofReference?, hbody, Option.bind_some, ofText?]

theorem dotted_of_read? {t : String} (h : read? t = some s) : s.Dotted := by
  rcases Option.or_eq_some_iff.1 h with hreference | ⟨-, htext⟩
  · obtain ⟨body, -, hbody⟩ := ofReference?_eq_some.1 hreference
    exact dotted_of_ofChars? hbody
  · exact dotted_of_ofChars? htext

end Flowrun.Selector
