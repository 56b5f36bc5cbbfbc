import Mathlib.Data.List.TakeWhile
import Flowrun.Json.Number

/-!
# Numerals in a text

`Numeral.scan` takes the longest numeral, so what it finds at the front of `cs ++ rest` is what it
finds in `cs` only if `rest` cannot go on with it: `rest` has to end the numeral.

    scan_append : scan cs = some (t, left) → EndsNumeral rest →
      scan (cs ++ rest) = some (t, left ++ rest)

A number is written so that it reads back if its text is a numeral for the same number. Every
integer that some numeral stands for does so (`Number.readsBack_integer`); of the double precision
numbers not all do, since the value of a long numeral is rounded twice.
-/

namespace Flowrun.Json

variable {cs rest left : List Char} {t : Numeral}

/-- Nothing at the front could be a part of a numeral. -/
def EndsNumeral (rest : List Char) : Prop :=
  ∀ c ∈ rest.head?, c.isDigit = false ∧ c ≠ '.' ∧ c ≠ 'e' ∧ c ≠ 'E'

theorem endsNumeral_nil : EndsNumeral [] := nofun

theorem endsNumeral_cons {c : Char}
    (h : c.isDigit = false ∧ c ≠ '.' ∧ c ≠ 'e' ∧ c ≠ 'E') : EndsNumeral (c :: rest) := by
  rintro c' ⟨⟩
  exact h

theorem forall_head?_append {p : Char → Prop} (hcs : ∀ c ∈ cs.head?, p c)
    (hrest : ∀ c ∈ rest.head?, p c) : ∀ c ∈ (cs ++ rest).head?, p c := by
  cases cs with
  | nil => exact hrest
  | cons c cs => exact hcs

/-! ### Scanning the front of a text -/

theorem digitRun_append (hrest : EndsNumeral rest) :
    digitRun (cs ++ rest) = ((digitRun cs).1, (digitRun cs).2 ++ rest) := by
  have hnone : rest.takeWhile Char.isDigit = [] ∧ rest.dropWhile Char.isDigit = rest := by
    cases rest with
    | nil => exact ⟨rfl, rfl⟩
    | cons c rest => simp [(hrest c rfl).1]
  induction cs with
  | nil => simp [digitRun, hnone]
  | cons c cs ih =>
    simp only [digitRun, List.cons_append, List.takeWhile_cons, List.dropWhile_cons,
      Prod.mk.injEq] at ih ⊢
    cases c.isDigit <;> simp [ih]

/-- The digits at the front, if there are any, and what follows them. -/
def someDigits (cs : List Char) : Option (List Char × List Char) :=
  if (digitRun cs).1 = [] then none else some (digitRun cs)

theorem someDigits_append {ds : List Char} (h : someDigits cs = some (ds, left))
    (hrest : EndsNumeral rest) : someDigits (cs ++ rest) = some (ds, left ++ rest) := by
  unfold someDigits at h ⊢
  rw [digitRun_append hrest]
  split at h
  · cases h
  · next hdigits =>
    rw [if_neg hdigits, Option.some.inj h]

theorem wholePart_append {whole : List Char} (h : wholePart cs = some (whole, left))
    (hrest : EndsNumeral rest) : wholePart (cs ++ rest) = some (whole, left ++ rest) := by
  unfold wholePart at h
  split at h
  · cases h
  · cases h
    rfl
  · next c cs hzero =>
    split at h
    · next hdigit =>
      obtain ⟨rfl, rfl⟩ := Prod.mk.inj (Option.some.inj h)
      rw [List.cons_append, wholePart, if_pos hdigit, ← List.cons_append, digitRun_append hrest]
      · rfl
      · exact hzero
    · cases h

theorem fractionPart_point (cs : List Char) :
    fractionPart ('.' :: cs) = (someDigits cs).map fun r => (some r.1, r.2) := by
  rw [fractionPart, someDigits]
  split <;> simp_all

theorem fractionPart_of_ne (h : ∀ c ∈ cs.head?, c ≠ '.') :
    fractionPart cs = some (none, cs) := by
  fun_cases fractionPart cs <;> simp_all

theorem fractionPart_append {fraction : Option (List Char)}
    (h : fractionPart cs = some (fraction, left)) (hrest : EndsNumeral rest) :
    fractionPart (cs ++ rest) = some (fraction, left ++ rest) := by
  -- Only if `cs` is empty do we see the front of `rest`.
  by_cases hpoint : cs.head? = some '.'
  · obtain ⟨cs, rfl⟩ := List.head?_eq_some_iff.1 hpoint
    rw [fractionPart_point] at h
    obtain ⟨⟨ds, left'⟩, hdigits, heq⟩ := Option.map_eq_some_iff.1 h
    cases heq
    rw [List.cons_append, fractionPart_point, someDigits_append hdigits hrest]
    rfl
  · have hne : ∀ c ∈ cs.head?, c ≠ '.' := fun c hc e => hpoint (e ▸ hc)
    rw [fractionPart_of_ne hne] at h
    cases h
    exact fractionPart_of_ne (forall_head?_append hne fun c hc => (hrest c hc).2.1)

/-- Whether an exponent is negative, and what follows its sign. -/
def exponentSign : List Char → Bool × List Char
  | '-' :: cs => (true, cs)
  | '+' :: cs => (false, cs)
  | cs => (false, cs)

theorem exponentSign_append (h : cs ≠ []) :
    exponentSign (cs ++ rest) = ((exponentSign cs).1, (exponentSign cs).2 ++ rest) := by
  cases cs with
  | nil => exact absurd rfl h
  | cons c cs =>
    rw [List.cons_append]
    by_cases hminus : c = '-'
    · subst hminus
      rfl
    · by_cases hplus : c = '+'
      · subst hplus
        rfl
      · simp [exponentSign, hminus, hplus]

theorem exponentPart_mark {c : Char} (hc : c = 'e' ∨ c = 'E') (cs : List Char) :
    exponentPart (c :: cs) = (someDigits (exponentSign cs).2).map
      fun r => (some ((exponentSign cs).1, r.1), r.2) := by
  unfold exponentPart someDigits
  simp only [if_pos hc]
  fun_cases exponentSign cs <;> split <;> simp_all

theorem exponentPart_of_ne (h : ∀ c ∈ cs.head?, c ≠ 'e' ∧ c ≠ 'E') :
    exponentPart cs = some (none, cs) := by
  fun_cases exponentPart cs <;> simp_all

theorem exponentPart_append {exponent : Option (Bool × List Char)}
    (h : exponentPart cs = some (exponent, left)) (hrest : EndsNumeral rest) :
    exponentPart (cs ++ rest) = some (exponent, left ++ rest) := by
  by_cases hmark : ∃ c ∈ cs.head?, c = 'e' ∨ c = 'E'
  · obtain ⟨c, hhead, hc⟩ := hmark
    obtain ⟨cs, rfl⟩ := List.head?_eq_some_iff.1 hhead
    rw [exponentPart_mark hc] at h
    obtain ⟨⟨ds, left'⟩, hdigits, heq⟩ := Option.map_eq_some_iff.1 h
    cases heq
    -- A sign at the front of `rest` is never seen, since an exponent has digits.
    have hsome : cs ≠ [] := by
      rintro rfl
      cases hdigits
    rw [List.cons_append, exponentPart_mark hc, exponentSign_append hsome,
      someDigits_append hdigits hrest]
    rfl
  · have hne : ∀ c ∈ cs.head?, c ≠ 'e' ∧ c ≠ 'E' := by simpa [not_or] using hmark
    rw [exponentPart_of_ne hne] at h
    cases h
    exact exponentPart_of_ne (forall_head?_append hne fun c hc => (hrest c hc).2.2)

namespace Numeral

/-- A numeral without its sign. -/
def scanUnsigned (negative : Bool) (cs : List Char) : Option (Numeral × List Char) := do
  let (whole, cs) ← wholePart cs
  let (fraction, cs) ← fractionPart cs
  let (exponent, cs) ← exponentPart cs
  return (⟨negative, whole, fraction, exponent⟩, cs)

theorem scan_minus (cs : List Char) : scan ('-' :: cs) = scanUnsigned true cs := rfl

theorem scan_of_ne (h : ∀ c ∈ cs.head?, c ≠ '-') : scan cs = scanUnsigned false cs := by
  cases cs with
  | nil => rfl
  | cons c cs =>
    have hc : c ≠ '-' := h c rfl
    simp [scan, scanUnsigned, hc]

theorem scanUnsigned_eq_some {negative : Bool} :
    scanUnsigned negative cs = some (t, left) ↔ ∃ whole afterWhole fraction afterFraction exponent,
      wholePart cs = some (whole, afterWhole) ∧
      fractionPart afterWhole = some (fraction, afterFraction) ∧
      exponentPart afterFraction = some (exponent, left) ∧
      t = ⟨negative, whole, fraction, exponent⟩ := by
  unfold scanUnsigned
  constructor
  · intro h
    obtain ⟨⟨whole, cs₁⟩, hwhole, h⟩ := Option.bind_eq_some_iff.1 h
    obtain ⟨⟨fraction, cs₂⟩, hfraction, h⟩ := Option.bind_eq_some_iff.1 h
    obtain ⟨⟨exponent, cs₃⟩, hexponent, h⟩ := Option.bind_eq_some_iff.1 h
    cases h
    exact ⟨whole, cs₁, fraction, cs₂, exponent, hwhole, hfraction, hexponent, rfl⟩
  · rintro ⟨whole, cs₁, fraction, cs₂, exponent, hwhole, hfraction, hexponent, rfl⟩
    rw [hwhole]
    simp [hfraction, hexponent]

theorem scanUnsigned_append {negative : Bool} (h : scanUnsigned negative cs = some (t, left))
    (hrest : EndsNumeral rest) :
    scanUnsigned negative (cs ++ rest) = some (t, left ++ rest) := by
  obtain ⟨whole, cs₁, fraction, cs₂, exponent, hwhole, hfraction, hexponent, rfl⟩ :=
    scanUnsigned_eq_some.1 h
  exact scanUnsigned_eq_some.2 ⟨whole, cs₁ ++ rest, fraction, cs₂ ++ rest, exponent,
    wholePart_append hwhole hrest, fractionPart_append hfraction hrest,
    exponentPart_append hexponent hrest, rfl⟩

theorem scan_append (h : scan cs = some (t, left)) (hrest : EndsNumeral rest) :
    scan (cs ++ rest) = some (t, left ++ rest) := by
  by_cases hminus : cs.head? = some '-'
  · obtain ⟨cs, rfl⟩ := List.head?_eq_some_iff.1 hminus
    exact scanUnsigned_append h hrest
  · rw [scan_of_ne fun c hc e => hminus (e ▸ hc)] at h
    rw [scan_of_ne]
    · exact scanUnsigned_append h hrest
    · cases cs with
      | nil => cases h
      | cons c cs => exact fun c hc e => hminus (e ▸ hc)

/-- A numeral starts with its sign or with a digit. -/
theorem head_of_scan (h : scan cs = some (t, left)) :
    ∃ c tail, cs = c :: tail ∧ (c = '-' ∨ c.isDigit) := by
  by_cases hminus : cs.head? = some '-'
  · obtain ⟨cs, rfl⟩ := List.head?_eq_some_iff.1 hminus
    exact ⟨'-', cs, rfl, .inl rfl⟩
  · rw [scan_of_ne fun c hc e => hminus (e ▸ hc)] at h
    obtain ⟨whole, cs₁, _, _, _, hwhole, _⟩ := scanUnsigned_eq_some.1 h
    unfold wholePart at hwhole
    split at hwhole
    · cases hwhole
    · exact ⟨'0', _, rfl, .inr (by decide)⟩
    · next c tail _ =>
      split at hwhole
      · next hdigit => exact ⟨c, tail, rfl, .inr hdigit⟩
      · cases hwhole

end Numeral

/-! ### Numbers that read back -/

/-- The number that a text spells. -/
def Number.ofText? (s : String) : Option Number := match Numeral.scan s.toList with
  | some (t, []) => t.number?
  | _ => none

/-- A number that is read from its own text. -/
def Number.ReadsBack (n : Number) : Prop := Number.ofText? n.text = some n

instance (n : Number) : Decidable n.ReadsBack := inferInstanceAs (Decidable (_ = _))

theorem Number.ReadsBack.scan {n : Number} (h : n.ReadsBack) :
    ∃ t : Numeral, Numeral.scan n.text.toList = some (t, []) ∧ t.number? = some n := by
  unfold ReadsBack ofText? at h
  split at h
  · next t hscan => exact ⟨t, hscan, h⟩
  · cases h

/-! ### Integers -/

theorem digitsValue_toDigits (n : Nat) : digitsValue (Nat.toDigits 10 n) = n := by
  have hstep : (fun n c => n * 10 + digitValue c) =
      fun n (c : Char) => 10 * n + (c.toNat - '0'.toNat) := by
    funext n c
    rw [Nat.mul_comm]
    rfl
  have hvalue := @Nat.ofDigitChars_ten_toDigits n
  rwa [Nat.ofDigitChars, ← hstep] at hvalue

/-- The digits of a number do not start with a zero. -/
theorem head_toDigits_ne_zero {n : Nat} (h : 0 < n) : (Nat.toDigits 10 n).head? ≠ some '0' := by
  induction n using Nat.strongRecOn with
  | ind n ih =>
    rw [Nat.toDigits_eq_if (by decide)]
    split
    · have hdigit : ∀ d < 10, 0 < d → [Nat.digitChar d].head? ≠ some '0' := by decide
      exact hdigit n ‹_› h
    · rw [List.head?_append, Option.or_of_isSome (by simp)]
      exact ih _ (by omega) (by omega)

theorem wholePart_toDigits (n : Nat) :
    wholePart (Nat.toDigits 10 n) = some (Nat.toDigits 10 n, []) := by
  rcases Nat.eq_zero_or_pos n with rfl | hpos
  · rfl
  · have hdigits : ∀ c ∈ Nat.toDigits 10 n, c.isDigit :=
      fun c hc => Nat.isDigit_of_mem_toDigits (by decide) (by decide) hc
    have hhead := head_toDigits_ne_zero hpos
    have hne : Nat.toDigits 10 n ≠ [] := Nat.toDigits_ne_nil
    obtain ⟨c, cs, hcs⟩ := List.exists_cons_of_ne_nil hne
    rw [hcs] at hdigits hhead ⊢
    rw [wholePart, if_pos (hdigits c (List.mem_cons_self ..)), digitRun,
      List.takeWhile_eq_self_iff.2 hdigits, List.dropWhile_eq_nil_iff.2 hdigits]
    rintro rfl
    exact hhead rfl

theorem scanUnsigned_toDigits (negative : Bool) (n : Nat) :
    Numeral.scanUnsigned negative (Nat.toDigits 10 n) =
      some (⟨negative, Nat.toDigits 10 n, none, none⟩, []) :=
  Numeral.scanUnsigned_eq_some.2
    ⟨_, [], none, [], none, wholePart_toDigits n, rfl, rfl, rfl⟩

/-- A number that a numeral can stand for. -/
def Number.InRange : Number → Prop
  | .integer n => -(Nat.pow 2 63 : Nat) ≤ n ∧ n < (wordLimit : Nat)
  | .real _ => True

namespace Numeral

theorem inRange_of_integer? {n : Int} (h : t.integer? = some n) : (Number.integer n).InRange := by
  simp only [integer?, Option.ite_none_left_eq_some] at h
  obtain ⟨-, h⟩ := h
  simp only [Number.InRange]
  split at h
  · obtain ⟨hn, hvalue⟩ := Option.ite_none_right_eq_some.1 h
    cases hvalue
    omega
  · obtain ⟨hn, hvalue⟩ := Option.ite_none_right_eq_some.1 h
    cases hvalue
    omega

theorem inRange_of_number? {n : Number} (h : t.number? = some n) : n.InRange := by
  unfold number? at h
  split at h
  · next hinteger =>
    cases h
    exact inRange_of_integer? hinteger
  · obtain ⟨x, -, rfl⟩ := Option.map_eq_some_iff.1 h
    trivial

theorem scan_toDigits (n : Nat) :
    scan (Nat.toDigits 10 n) = some (⟨false, Nat.toDigits 10 n, none, none⟩, []) := by
  rw [scan_of_ne, scanUnsigned_toDigits]
  rintro c hc rfl
  have hdigit := Nat.isDigit_of_mem_toDigits (by decide) (by decide) (List.mem_of_mem_head? hc)
  cases hdigit

end Numeral

/-- Every integer that a numeral can stand for reads back. -/
theorem Number.readsBack_integer {n : Int} (h : (Number.integer n).InRange) :
    (Number.integer n).ReadsBack := by
  obtain ⟨hlow, hhigh⟩ := h
  unfold ReadsBack ofText?
  cases n with
  | ofNat m =>
    have htext : (text (.integer (.ofNat m))).toList = Nat.toDigits 10 m := by
      rw [text, Int.toString_eq_repr, Int.repr, Nat.repr_eq_ofList_toDigits, String.toList_ofList]
    have hm : m < wordLimit := Int.ofNat_lt.1 hhigh
    rw [htext, Numeral.scan_toDigits]
    simp [Numeral.number?, Numeral.integer?, digitsValue_toDigits, hm]
  | negSucc m =>
    have htext : (text (.integer (.negSucc m))).toList = '-' :: Nat.toDigits 10 (m + 1) := by
      rw [text, Int.toString_eq_repr, Int.repr, Nat.repr_eq_ofList_toDigits]
      simp
    have hm : m + 1 ≤ Nat.pow 2 63 := by omega
    rw [htext, Numeral.scan_minus, scanUnsigned_toDigits]
    simp [Numeral.number?, Numeral.integer?, digitsValue_toDigits, hm, Int.negSucc_eq]

-- The number that is written as `16223382662.463161`, whose digits do not fit in 53 bits.
set_option maxRecDepth 20000 in
example : ¬ (Number.real ⟨false, 8505724849337486, -19⟩).ReadsBack := by decide +kernel

end Flowrun.Json
