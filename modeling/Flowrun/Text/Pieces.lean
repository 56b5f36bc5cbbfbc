/-!
# Cutting a text at a separator

`pieces sep cs` are the runs of `cs` between occurrences of `sep`; there is one more piece than
there are separators, and `joined` puts them together again.
-/

namespace Flowrun.Text

/-- The runs between the separators, empty runs included. -/
def pieces (sep : Char) : List Char → List (List Char)
  | [] => [[]]
  | c :: cs =>
    if c = sep then [] :: pieces sep cs
    else match pieces sep cs with
      | [] => [[c]]
      | p :: ps => (c :: p) :: ps

/-- The pieces with one separator between neighbours. -/
def joined (sep : Char) : List (List Char) → List Char
  | [] => []
  | [p] => p
  | p :: q :: ps => p ++ sep :: joined sep (q :: ps)

theorem pieces_ne_nil (sep : Char) (cs : List Char) : pieces sep cs ≠ [] := by
  cases cs with
  | nil => simp [pieces]
  | cons c cs =>
    unfold pieces
    split
    · simp
    · split <;> simp

@[simp] theorem joined_pieces (sep : Char) (cs : List Char) : joined sep (pieces sep cs) = cs := by
  induction cs with
  | nil => rfl
  | cons c cs ih =>
    obtain ⟨p, ps, h⟩ := List.exists_cons_of_ne_nil (pieces_ne_nil sep cs)
    rw [h] at ih
    by_cases hc : c = sep
    · simp [pieces, hc, h, joined, ih]
    · cases ps with
      | nil => simp_all [pieces, joined]
      | cons q qs => simp_all [pieces, joined]

end Flowrun.Text
