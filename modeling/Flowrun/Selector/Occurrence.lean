import Flowrun.Selector.Basic

/-!
# References inside texts

A text may hold references anywhere. An occurrence is a dollar sign, an opening brace, one or more
characters that are no braces, and a closing brace. `bodies` finds all of them from left to right;
they cannot overlap, since each one ends at the first brace after its start.

Inside a value the texts are searched in the order in which the value is walked: the items of an
array in turn, and the fields of an object by their keys.
-/

namespace Flowrun.Selector

open Json

/-- Neither of the two braces. -/
def isPlain (c : Char) : Bool := c != '\x7b' && c != '\x7d'

theorem length_dropWhile_le (p : α → Bool) (l : List α) : (l.dropWhile p).length ≤ l.length := by
  induction l with
  | nil => simp
  | cons a l ih =>
    rw [List.dropWhile_cons]
    split
    · exact Nat.le_succ_of_le ih
    · exact Nat.le_refl _

/-- What stands between the braces of every occurrence. -/
def bodies : List Char → List (List Char)
  | [] => []
  | '$' :: '\x7b' :: rest =>
    match _h : rest.dropWhile isPlain with
    | '\x7d' :: after =>
      if rest.takeWhile isPlain = [] then bodies rest
      else rest.takeWhile isPlain :: bodies after
    | _ => bodies rest
  | _ :: rest => bodies rest
termination_by cs => cs.length
decreasing_by
  · simp only [List.length_cons]; omega
  · have hlen := length_dropWhile_le isPlain rest
    rw [_h] at hlen
    simp only [List.length_cons] at hlen ⊢
    omega
  · simp only [List.length_cons]; omega
  · simp only [List.length_cons]; omega

/-- The selectors of the references in a text; those whose body is no selector are left out. -/
def occurrences (s : String) : List Selector := (bodies s.toList).filterMap ofChars?

mutual

/-- The selectors of the references in all texts of a value. -/
def occurrencesIn : Value → List Selector
  | .string s => occurrences s
  | .array items => occurrencesInItems items
  | .object fields => occurrencesInFields fields
  | _ => []

/-- The selectors of the references in the items of an array. -/
def occurrencesInItems : List Value → List Selector
  | [] => []
  | v :: vs => occurrencesIn v ++ occurrencesInItems vs

/-- The selectors of the references in the fields of an object. -/
def occurrencesInFields : List (String × Value) → List Selector
  | [] => []
  | (_, v) :: fs => occurrencesIn v ++ occurrencesInFields fs

end

end Flowrun.Selector
