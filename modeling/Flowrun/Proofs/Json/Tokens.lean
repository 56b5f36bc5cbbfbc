import Flowrun.Proofs.Json.Numeral
import Flowrun.Proofs.Json.Strings

/-!
# Documents as tokens

The text of a document falls into the tokens that its shape tells:

    tokens_chars : (∀ n ∈ t.numbers, n.ReadsBack) → tokens t.chars = some t.toTokens

The parts of a text are cut off one after the other. `Cuts cs ts` says that a text is cut into
tokens in no more rounds than it has characters, so the rounds need not be counted on the way
(`Cuts.tokens_eq`); a `Lexeme` is the text of one token, which is cut off whatever follows it, as
long as that cannot go on with a numeral.
-/

namespace Flowrun.Json

variable {cs rest : List Char} {token : Token} {ts : List Token}

/-! ### Cutting a text -/

/-- A text is cut into tokens, in no more rounds than it has characters. -/
def Cuts (cs : List Char) (ts : List Token) : Prop := ∃ n ≤ cs.length, tokensUpTo n cs = some ts

theorem cuts_nil : Cuts [] [] := ⟨0, Nat.le_refl 0, rfl⟩

/-- More rounds do not change what a text was cut into. -/
theorem tokensUpTo_succ {n : Nat} (h : tokensUpTo n cs = some ts) :
    tokensUpTo (n + 1) cs = some ts := by
  induction n generalizing cs ts with
  | zero =>
    unfold tokensUpTo at h
    split at h
    · next hspace =>
      cases h
      have hnone : cs.dropWhile isSpace = [] := by simpa using hspace
      rw [tokensUpTo, hnone]
    · cases h
  | succ n ih =>
    rw [tokensUpTo] at h ⊢
    split at h
    · exact h
    · next c cs hsome =>
      obtain ⟨⟨t, rest⟩, hscan, h⟩ := Option.bind_eq_some_iff.1 h
      obtain ⟨ts, hrest, h⟩ := Option.bind_eq_some_iff.1 h
      simp only [hscan, Option.bind_eq_bind, Option.bind_some, ih hrest]
      exact h

theorem Cuts.tokens_eq (h : Cuts cs ts) : tokens cs = some ts := by
  obtain ⟨n, hn, hcut⟩ := h
  unfold tokens
  generalize cs.length = rounds at hn ⊢
  induction hn with
  | refl => exact hcut
  | step _ ih => exact tokensUpTo_succ ih

/-- The token at the front of a text, and then the others. -/
theorem Cuts.cons {c : Char} {tail : List Char} (hrest : Cuts rest ts)
    (hscan : Token.scan (c :: tail) = some (token, rest)) (hspace : isSpace c = false)
    (hsuffix : rest <:+ tail) : Cuts (c :: tail) (token :: ts) := by
  obtain ⟨n, hn, hcut⟩ := hrest
  refine ⟨n + 1, Nat.succ_le_succ (Nat.le_trans hn hsuffix.length_le), ?_⟩
  have hdrop : (c :: tail).dropWhile isSpace = c :: tail := by simp [hspace]
  rw [tokensUpTo, hdrop]
  simp [hscan, hcut]

theorem Cuts.quotedText (hrest : Cuts rest ts) (s : String) :
    Cuts (quotedText s ++ rest) (.string (some s) :: ts) :=
  hrest.cons (scan_quotedText s rest) rfl (List.suffix_append ..)

theorem Cuts.key (hrest : Cuts rest ts) (k : String) :
    Cuts (Json.quotedText k ++ ':' :: rest) (.string (some k) :: .colon :: ts) :=
  (hrest.cons rfl rfl (List.suffix_refl rest)).quotedText k

section Numerals

variable {c : Char} {tail : List Char}

theorem isSpace_of_numeral (h : c = '-' ∨ c.isDigit) : isSpace c = false := by
  by_contra hspace
  simp only [isSpace, Bool.not_eq_false, Bool.or_eq_true, beq_iff_eq] at hspace
  rcases hspace with ((rfl | rfl) | rfl) | rfl <;> exact absurd h (by decide)

/-- What starts a numeral starts no other token. -/
theorem scan_of_numeral (h : c = '-' ∨ c.isDigit) : Token.scan (c :: tail) =
    (Numeral.scan (c :: tail)).map fun r => (.number r.1.number?, r.2) := by
  rw [Token.scan.eq_def]
  split
  · next heq => cases heq
  iterate 10
    next heq =>
      cases heq
      exact absurd h (by decide)
  rfl

theorem Cuts.number (hrest : Cuts rest ts) (hends : EndsNumeral rest) {n : Number}
    (hn : n.ReadsBack) : Cuts (n.text.toList ++ rest) (.number (some n) :: ts) := by
  obtain ⟨t, hscan, hnumber⟩ := hn.scan
  obtain ⟨c, tail, htext, hc⟩ := Numeral.head_of_scan hscan
  have hfront := Numeral.scan_append hscan hends
  rw [htext, List.cons_append] at hfront ⊢
  refine hrest.cons ?_ (isSpace_of_numeral hc) (List.suffix_append ..)
  rw [scan_of_numeral hc, hfront]
  simp [hnumber]

end Numerals

/-! ### Numbers of a text -/

theorem inRange_of_scan {n : Number} (h : Token.scan cs = some (.number (some n), rest)) :
    n.InRange := by
  rw [Token.scan.eq_def] at h
  split at h
  iterate 10 cases h
  · obtain ⟨r, -, hr⟩ := Option.map_eq_some_iff.1 h
    cases hr
  · obtain ⟨r, -, hr⟩ := Option.map_eq_some_iff.1 h
    obtain ⟨hnumber, -⟩ := Prod.mk.inj hr
    exact Numeral.inRange_of_number? (Token.number.inj hnumber)

theorem inRange_of_tokens {n : Number} (h : tokens cs = some ts) (hn : .number (some n) ∈ ts) :
    n.InRange := by
  unfold tokens at h
  generalize cs.length = rounds at h
  induction rounds generalizing cs ts with
  | zero =>
    unfold tokensUpTo at h
    split at h <;> cases h
    cases hn
  | succ rounds ih =>
    rw [tokensUpTo] at h
    split at h
    · cases h
      cases hn
    · obtain ⟨⟨token, rest⟩, hscan, h⟩ := Option.bind_eq_some_iff.1 h
      obtain ⟨more, hrest, h⟩ := Option.bind_eq_some_iff.1 h
      cases h
      rcases List.mem_cons.1 hn with rfl | hn
      · exact inRange_of_scan hscan
      · exact ih hn hrest

/-! ### The tokens of a document -/

namespace Tree

mutual

/-- The tokens of a document. -/
def toTokens : Tree → List Token
  | .null => [.null]
  | .bool b => [.bool b]
  | .number n => [.number (some n)]
  | .string s => [.string (some s)]
  | .array items => .openArray :: itemTokens items
  | .object fields => .openObject :: fieldTokens fields
  | .void => [.null]

/-- The tokens of the items of an array and of its end. -/
def itemTokens : List Tree → List Token
  | [] => [.closeArray]
  | [t] => toTokens t ++ [.closeArray]
  | t :: ts => toTokens t ++ .comma :: itemTokens ts

/-- The tokens of the fields of an object and of its end. -/
def fieldTokens : List (String × Tree) → List Token
  | [] => [.closeObject]
  | [(k, t)] => .string (some k) :: .colon :: (toTokens t ++ [.closeObject])
  | (k, t) :: fs => .string (some k) :: .colon :: (toTokens t ++ .comma :: fieldTokens fs)

end

mutual

/-- The numbers in a document. -/
def numbers : Tree → List Number
  | .number n => [n]
  | .array items => itemNumbers items
  | .object fields => fieldNumbers fields
  | _ => []

/-- The numbers in the items of an array. -/
def itemNumbers : List Tree → List Number
  | [] => []
  | t :: ts => numbers t ++ itemNumbers ts

/-- The numbers in the fields of an object. -/
def fieldNumbers : List (String × Tree) → List Number
  | [] => []
  | (_, t) :: fs => numbers t ++ fieldNumbers fs

end

theorem mem_itemNumbers {n : Number} {items : List Tree} :
    n ∈ itemNumbers items ↔ ∃ t ∈ items, n ∈ t.numbers := by
  induction items with
  | nil => simp [itemNumbers]
  | cons t items ih => simp [itemNumbers, ih]

theorem mem_fieldNumbers {n : Number} {fields : List (String × Tree)} :
    n ∈ fieldNumbers fields ↔ ∃ f ∈ fields, n ∈ f.2.numbers := by
  induction fields with
  | nil => simp [fieldNumbers]
  | cons f fields ih => simp [fieldNumbers, ih]

mutual

theorem cuts_chars (t : Tree) {rest : List Char} {ts : List Token}
    (hn : ∀ n ∈ t.numbers, n.ReadsBack) (hends : EndsNumeral rest) (hrest : Cuts rest ts) :
    Cuts (chars t ++ rest) (t.toTokens ++ ts) := by
  match t with
  | .null => exact hrest.cons rfl rfl (List.suffix_append ['u', 'l', 'l'] rest)
  | .bool true => exact hrest.cons rfl rfl (List.suffix_append ['r', 'u', 'e'] rest)
  | .bool false => exact hrest.cons rfl rfl (List.suffix_append ['a', 'l', 's', 'e'] rest)
  | .number n => exact hrest.number hends (hn n (by simp [numbers]))
  | .string s => exact hrest.quotedText s
  | .array items => exact (cuts_itemChars items hn hrest).cons rfl rfl (List.suffix_refl _)
  | .object fields => exact (cuts_fieldChars fields hn hrest).cons rfl rfl (List.suffix_refl _)
  | .void => exact hrest.cons rfl rfl (List.suffix_append ['u', 'l', 'l'] rest)

theorem cuts_itemChars (items : List Tree) {rest : List Char} {ts : List Token}
    (hn : ∀ n ∈ itemNumbers items, n.ReadsBack) (hrest : Cuts rest ts) :
    Cuts (itemChars items ++ rest) (itemTokens items ++ ts) := by
  match items with
  | [] => exact hrest.cons rfl rfl (List.suffix_refl _)
  | [t] =>
    have hclose : Cuts (']' :: rest) (.closeArray :: ts) :=
      hrest.cons rfl rfl (List.suffix_refl _)
    have ht := cuts_chars t (fun n h => hn n (List.mem_append_left _ h))
      (endsNumeral_cons (by decide)) hclose
    simpa [itemChars, itemTokens] using ht
  | t :: t' :: items =>
    have hmore := cuts_itemChars (t' :: items) (fun n h => hn n (List.mem_append_right _ h)) hrest
    have hcomma : Cuts (',' :: (itemChars (t' :: items) ++ rest))
        (.comma :: (itemTokens (t' :: items) ++ ts)) := hmore.cons rfl rfl (List.suffix_refl _)
    have ht := cuts_chars t (fun n h => hn n (List.mem_append_left _ h))
      (endsNumeral_cons (by decide)) hcomma
    simpa [itemChars, itemTokens] using ht

theorem cuts_fieldChars (fields : List (String × Tree)) {rest : List Char} {ts : List Token}
    (hn : ∀ n ∈ fieldNumbers fields, n.ReadsBack) (hrest : Cuts rest ts) :
    Cuts (fieldChars fields ++ rest) (fieldTokens fields ++ ts) := by
  match fields with
  | [] => exact hrest.cons rfl rfl (List.suffix_refl _)
  | [(k, t)] =>
    have hclose : Cuts ('\x7d' :: rest) (.closeObject :: ts) :=
      hrest.cons rfl rfl (List.suffix_refl _)
    have ht := cuts_chars t (fun n h => hn n (List.mem_append_left _ h))
      (endsNumeral_cons (by decide)) hclose
    simpa [fieldChars, fieldTokens] using ht.key k
  | (k, t) :: f :: fields =>
    have hmore := cuts_fieldChars (f :: fields) (fun n h => hn n (List.mem_append_right _ h)) hrest
    have hcomma : Cuts (',' :: (fieldChars (f :: fields) ++ rest))
        (.comma :: (fieldTokens (f :: fields) ++ ts)) := hmore.cons rfl rfl (List.suffix_refl _)
    have ht := cuts_chars t (fun n h => hn n (List.mem_append_left _ h))
      (endsNumeral_cons (by decide)) hcomma
    simpa [fieldChars, fieldTokens] using ht.key k

end

/-- The text of a document falls into its tokens. -/
theorem tokens_chars {t : Tree} (hn : ∀ n ∈ t.numbers, n.ReadsBack) :
    tokens t.chars = some t.toTokens := by
  have hcut := cuts_chars t hn endsNumeral_nil cuts_nil
  simpa using hcut.tokens_eq

end Tree
end Flowrun.Json
