import Flowrun.Text.Blank
import Flowrun.Text.Pieces
import Mathlib

/-!
# Trimming and cutting

A text is what is left of it when it is trimmed, with blanks before and after (`exists_trim`), so it
stays as it is exactly if it is `Bare`. The pieces of a text are free of the separator, and pieces
that are free of it are what their text is cut into:

    pieces sep (joined sep ps) = ps

Putting pieces together without the empty ones gives no longer text.
-/

namespace Flowrun.Text

/-! ### Trimming -/

/-- No blank stands at either end of a text. -/
def Bare (cs : List Char) : Prop :=
  (∀ c ∈ cs.head?, isBlank c = false) ∧ ∀ c ∈ cs.getLast?, isBlank c = false

/-- What is cut off is blank. -/
theorem exists_trim (cs : List Char) : ∃ before after, cs = before ++ trim cs ++ after ∧
    (∀ c ∈ before, isBlank c = true) ∧ ∀ c ∈ after, isBlank c = true := by
  refine ⟨cs.takeWhile isBlank, (trimStart cs).rtakeWhile isBlank, ?_, ?_, ?_⟩
  · calc
      cs = cs.takeWhile isBlank ++ trimStart cs := List.takeWhile_append_dropWhile.symm
      _ = cs.takeWhile isBlank ++ (trim cs ++ (trimStart cs).rtakeWhile isBlank) := by
        rw [trim, trimEnd, ← List.rdropWhile, List.rdropWhile_append_rtakeWhile]
      _ = _ := (List.append_assoc _ _ _).symm
  · exact fun c hc => List.mem_takeWhile_imp hc
  · exact fun c hc => List.mem_rtakeWhile_imp hc

theorem length_trim_le (cs : List Char) : (trim cs).length ≤ cs.length := by
  obtain ⟨before, after, hcs, -⟩ := exists_trim cs
  have hlength := congrArg List.length hcs
  simp only [List.length_append] at hlength
  omega

theorem trim_eq_of_length_le {cs : List Char} (h : cs.length ≤ (trim cs).length) :
    trim cs = cs := by
  obtain ⟨before, after, hcs, -⟩ := exists_trim cs
  have hlength := congrArg List.length hcs
  simp only [List.length_append] at hlength
  have hbefore : before = [] := List.length_eq_zero_iff.1 (by omega)
  have hafter : after = [] := List.length_eq_zero_iff.1 (by omega)
  rw [hbefore, hafter, List.nil_append, List.append_nil] at hcs
  exact hcs.symm

/-- A character that is not blank is not cut off. -/
theorem mem_trim {cs : List Char} {c : Char} (h : c ∈ cs) (hc : isBlank c = false) :
    c ∈ trim cs := by
  obtain ⟨before, after, hcs, hbefore, hafter⟩ := exists_trim cs
  rw [hcs, List.mem_append, List.mem_append] at h
  rcases h with (h | h) | h
  · exact absurd (hbefore c h) (by simp [hc])
  · exact h
  · exact absurd (hafter c h) (by simp [hc])

theorem mem_of_mem_trim {cs : List Char} {c : Char} (h : c ∈ trim cs) : c ∈ cs := by
  obtain ⟨before, after, hcs, -⟩ := exists_trim cs
  rw [hcs]
  exact List.mem_append_left _ (List.mem_append_right _ h)

theorem trimStart_eq_self_iff {cs : List Char} :
    trimStart cs = cs ↔ ∀ c ∈ cs.head?, isBlank c = false := by
  rw [trimStart, List.dropWhile_eq_self_iff]
  cases cs <;> simp

theorem trimEnd_eq_self_iff {cs : List Char} :
    trimEnd cs = cs ↔ ∀ c ∈ cs.getLast?, isBlank c = false := by
  rw [← List.head?_reverse, ← trimStart_eq_self_iff, trimEnd, List.reverse_eq_iff, trimStart]

theorem trim_eq_self_iff {cs : List Char} : trim cs = cs ↔ Bare cs := by
  rw [Bare, ← trimStart_eq_self_iff, ← trimEnd_eq_self_iff]
  constructor
  · intro h
    -- nothing is cut off at the end if nothing is cut off at all
    have hend : (trim cs).length ≤ (trimStart cs).length :=
      (List.rdropWhile_prefix isBlank (trimStart cs)).length_le
    have hstart : trimStart cs = cs :=
      (List.dropWhile_suffix isBlank).eq_of_length_le (by rwa [h] at hend)
    exact ⟨hstart, by rwa [trim, hstart] at h⟩
  · rintro ⟨hstart, hend⟩
    rw [trim, hstart, hend]

/-! ### Cutting -/

variable {sep : Char}

theorem pieces_of_not_mem {p : List Char} (h : sep ∉ p) : pieces sep p = [p] := by
  induction p with
  | nil => rfl
  | cons c p ih =>
    obtain ⟨hc, hp⟩ := not_or.1 (mt List.mem_cons.2 h)
    rw [pieces, if_neg (Ne.symm hc), ih hp]

theorem pieces_append {p : List Char} (h : sep ∉ p) (cs : List Char) :
    pieces sep (p ++ sep :: cs) = p :: pieces sep cs := by
  induction p with
  | nil => rw [List.nil_append, pieces, if_pos rfl]
  | cons c p ih =>
    obtain ⟨hc, hp⟩ := not_or.1 (mt List.mem_cons.2 h)
    rw [List.cons_append, pieces, if_neg (Ne.symm hc), ih hp]

/-- Pieces that do not hold the separator are found again. -/
theorem pieces_joined {ps : List (List Char)} (hne : ps ≠ []) (h : ∀ p ∈ ps, sep ∉ p) :
    pieces sep (joined sep ps) = ps := by
  induction ps with
  | nil => exact absurd rfl hne
  | cons p ps ih =>
    have hp := h p List.mem_cons_self
    cases ps with
    | nil => exact pieces_of_not_mem hp
    | cons q ps =>
      have hrest := ih (List.cons_ne_nil q ps) fun x hx => h x (List.mem_cons_of_mem p hx)
      rw [joined, pieces_append hp, hrest]

/-- The pieces hold all characters but the separators. -/
theorem exists_mem_pieces_iff {cs : List Char} {c : Char} :
    (∃ p ∈ pieces sep cs, c ∈ p) ↔ c ∈ cs ∧ c ≠ sep := by
  induction cs with
  | nil => simp [pieces]
  | cons d cs ih =>
    unfold pieces
    split
    · next hd =>
      subst hd
      simp [ih]
      grind
    · next hd =>
      obtain ⟨p, ps, hps⟩ := List.exists_cons_of_ne_nil (pieces_ne_nil sep cs)
      rw [hps] at ih ⊢
      simp at ih ⊢
      grind

theorem not_mem_of_mem_pieces {cs p : List Char} (h : p ∈ pieces sep cs) : sep ∉ p :=
  fun hsep => (exists_mem_pieces_iff.1 ⟨p, h, hsep⟩).2 rfl

theorem mem_joined {ps : List (List Char)} {c : Char} (h : c ∈ joined sep ps) :
    c = sep ∨ ∃ p ∈ ps, c ∈ p := by
  induction ps with
  | nil => cases h
  | cons p ps ih =>
    cases ps with
    | nil => exact Or.inr ⟨p, List.mem_cons_self, h⟩
    | cons q ps =>
      rw [joined, List.mem_append, List.mem_cons] at h
      rcases h with h | rfl | h
      · exact Or.inr ⟨p, List.mem_cons_self, h⟩
      · exact Or.inl rfl
      · refine (ih h).imp_right ?_
        rintro ⟨x, hx, hc⟩
        exact ⟨x, List.mem_cons_of_mem p hx, hc⟩

/-! ### Lengths -/

/-- There is one separator less than there are pieces. -/
theorem length_joined (ps : List (List Char)) :
    (joined sep ps).length = (ps.map List.length).sum + (ps.length - 1) := by
  induction ps with
  | nil => rfl
  | cons p ps ih =>
    cases ps with
    | nil => simp [joined]
    | cons q ps =>
      rw [joined, List.length_append, List.length_cons, ih]
      simp only [List.map_cons, List.sum_cons, List.length_cons]
      omega

theorem length_joined_filter_le (ps : List (List Char)) (sep : Char) :
    (joined sep (ps.filter (· ≠ []))).length ≤ (joined sep ps).length := by
  have hsum : ((ps.filter (· ≠ [])).map List.length).sum = (ps.map List.length).sum := by
    induction ps with
    | nil => rfl
    | cons p ps ih =>
      cases p <;> simp_all
  have hlength := List.length_filter_le (· ≠ []) ps
  rw [length_joined, length_joined, hsum]
  omega

end Flowrun.Text
