import Flowrun.Proofs.Selector.Segments
import Flowrun.Scope.Diagnostic
import Flowrun.Selector.Occurrence

/-!
# The two written forms of a selector

A selector is written with dots, and as a reference with braces around that. Reading takes either
form: it tries the reference first, cuts off blanks and leaves out empty segments. So what was read
is not always read again from what is written for it:

* a blank that stood inside the text, before or behind an empty segment, stands at an end of the
  dotted form, and is cut off when that is read;
* a dotted form may itself be a reference, and then something shorter is read.

Nothing else can happen (`reads_back_iff`): the dotted form gives the selector back exactly if no
blank stands at its ends and it is no reference, and the reference gives it back exactly if no blank
stands at the ends of the dotted form.
-/

namespace Flowrun.Selector

open Json Text

variable {s s' : Selector} {t : String}

/-- What is read as a reference has a shorter dotted form. -/
theorem length_text_lt (h : ofReference? t = some s) : s.text.toList.length < t.toList.length := by
  obtain ⟨body, htrim, hbody⟩ := ofReference?_eq_some.1 h
  have henclosed : (trim t.toList).length = body.length + 3 := by simp [htrim, enclosed]
  calc
    s.text.toList.length ≤ (trim body).length := length_text_le hbody
    _ ≤ body.length := length_trim_le body
    _ < (trim t.toList).length := by omega
    _ ≤ t.toList.length := length_trim_le _

theorem Dotted.read?_text_iff (h : s.Dotted) :
    read? s.text = some s ↔ Bare s.text.toList ∧ ofReference? s.text = none := by
  unfold read?
  cases hreference : ofReference? s.text with
  | none => simpa using h.ofText?_text_iff
  | some s' =>
    refine iff_of_false (fun hread => ?_) (fun hnone => nomatch hnone.2)
    obtain rfl : s' = s := by simpa using hread
    exact Nat.lt_irrefl _ (length_text_lt hreference)

theorem ofReference?_eq_none_of_plain (h : ∀ c ∈ t.toList, isPlain c = true) :
    ofReference? t = none := by
  rw [Option.eq_none_iff_forall_ne_some]
  intro s hs
  obtain ⟨body, htrim, -⟩ := ofReference?_eq_some.1 hs
  have hbrace : '\x7b' ∈ trim t.toList := by simp [htrim, enclosed]
  exact absurd (h _ (mem_of_mem_trim hbrace)) (by decide)

/-- Decoding a text is reading it. -/
theorem read?_string (t : String) : (Tree.string t).read? Diagnostic.readSelector? = read? t := rfl

theorem read?_tree (s : Selector) : s.tree.read? Diagnostic.readSelector? = read? s.text :=
  read?_string s.text

/-- Take a selector that is read from a text. Reading its dotted form gives it back exactly if no
blank stands at an end of that form and the form is no reference, and reading its reference gives it
back exactly if no blank stands at an end of the dotted form. Both do if its segments hold no blanks
and no braces. -/
theorem reads_back_iff (h : (Tree.string t).read? Diagnostic.readSelector? = some s) :
    (s.tree.read? Diagnostic.readSelector? = some s ↔
      Bare s.text.toList ∧ ofReference? s.text = none) ∧
    (ofReference? s.reference = some s ↔ Bare s.text.toList) ∧
    ((∀ x ∈ s.segments, ∀ c ∈ x.toList, isBlank c = false ∧ isPlain c = true) →
      s.tree.read? Diagnostic.readSelector? = some s ∧ ofReference? s.reference = some s) := by
  rw [read?_string] at h
  have hdotted : s.Dotted := dotted_of_read? h
  have htext : s.tree.read? Diagnostic.readSelector? = some s ↔
      Bare s.text.toList ∧ ofReference? s.text = none := by
    rw [read?_tree, hdotted.read?_text_iff]
  have hreference : ofReference? s.reference = some s ↔ Bare s.text.toList := by
    rw [ofReference?_reference, hdotted.ofText?_text_iff]
  refine ⟨htext, hreference, fun hclear => ?_⟩
  have hchars : ∀ c ∈ s.text.toList, isBlank c = false ∧ isPlain c = true := by
    intro c hc
    rcases mem_text hc with rfl | ⟨x, hx, hc⟩
    · decide
    · exact hclear x hx c hc
  have hbare : Bare s.text.toList :=
    ⟨fun c hc => (hchars c (List.mem_of_head? hc)).1,
      fun c hc => (hchars c (List.mem_of_getLast? hc)).1⟩
  exact ⟨htext.2 ⟨hbare, ofReference?_eq_none_of_plain fun c hc => (hchars c hc).2⟩,
    hreference.2 hbare⟩

/-- A reference around a reference: the reference that is written for it gives it back, and the
dotted form, which is the inner reference, does not. -/
theorem reads_back_iff_nested : ∃ s : Selector,
    (Tree.string "$\x7b$\x7bfetch.rows\x7d\x7d").read? Diagnostic.readSelector? = some s ∧
      s.text = "$\x7bfetch.rows\x7d" ∧ ofReference? s.reference = some s ∧
      s.tree.read? Diagnostic.readSelector? ≠ some s := by
  have hread : (Tree.string "$\x7b$\x7bfetch.rows\x7d\x7d").read? Diagnostic.readSelector? =
      some ⟨"$\x7bfetch", "rows\x7d", []⟩ := by decide
  obtain ⟨htext, hreference, -⟩ := reads_back_iff hread
  have hinner : text ⟨"$\x7bfetch", "rows\x7d", []⟩ = "$\x7bfetch.rows\x7d" := by decide
  have hbare : Bare (text ⟨"$\x7bfetch", "rows\x7d", []⟩).toList := by
    rw [hinner]
    exact trim_eq_self_iff.1 (by decide)
  have hsome : ofReference? (text ⟨"$\x7bfetch", "rows\x7d", []⟩) ≠ none := by
    rw [hinner]
    decide
  exact ⟨_, hread, hinner, hreference.2 hbare, fun hagain => hsome (htext.1 hagain).2⟩

/-- What is read is not always read again: a blank before an empty segment is cut off when the
dotted form is read, and when the reference is. -/
theorem not_forall_reads_back : ¬ ∀ (t : String) (s : Selector),
    (Tree.string t).read? Diagnostic.readSelector? = some s →
      s.tree.read? Diagnostic.readSelector? = some s ∧ ofReference? s.reference = some s := by
  intro h
  have hread : (Tree.string "fetch.rows .").read? Diagnostic.readSelector? =
      some ⟨"fetch", "rows ", []⟩ := by decide
  obtain ⟨htext, -⟩ := h _ _ hread
  exact absurd htext (by decide)

end Flowrun.Selector
