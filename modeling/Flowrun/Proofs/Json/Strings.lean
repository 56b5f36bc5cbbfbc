import Flowrun.Json.Printer
import Flowrun.Json.Token

/-!
# Strings read back

A string is written character by character, and every character is read as one unit
(`exists_unit`): itself, or, for the control characters without a short escape, the number that four
hexadecimal digits spell. No such number is a surrogate, so the units join to the same characters:

    scan_quotedText : Token.scan (quotedText s ++ rest) = some (.string (some s), rest)
-/

namespace Flowrun.Json

/-! ### Reading one unit -/

theorem stringUnits_plain {c : Char} (hcontrol : ¬ c.toNat < 0x20) (hquote : c ≠ '"')
    (hescape : c ≠ '\\') (tail : List Char) :
    stringUnits (c :: tail) = (stringUnits tail).map fun r => (.char c :: r.1, r.2) := by
  rw [stringUnits.eq_5 _ _ hquote (fun _ _ _ _ _ h => absurd h hescape)
    (fun _ _ h => absurd h hescape), if_neg (by simp [hcontrol, hescape])]
  cases stringUnits tail <;> rfl

theorem stringUnits_short {e c : Char} (h : shortEscape? e = some c) (tail : List Char) :
    stringUnits ('\\' :: e :: tail) =
      (stringUnits tail).map fun r => (.char c :: r.1, r.2) := by
  have hhex : e ≠ 'u' := by
    rintro rfl
    cases h
  rw [stringUnits.eq_4 _ _ fun _ _ _ _ _ h => absurd h hhex, h]
  cases stringUnits tail <;> rfl

theorem stringUnits_hex {a b c d : Char} {n : Nat} (h : hexUnit? a b c d = some n)
    (tail : List Char) :
    stringUnits ('\\' :: 'u' :: a :: b :: c :: d :: tail) =
      (stringUnits tail).map fun r => (.escaped n :: r.1, r.2) := by
  rw [stringUnits, h]
  cases stringUnits tail <;> rfl

theorem hexUnit?_hexDigit : ∀ n < 0x20,
    hexUnit? '0' '0' (hexDigit (n / 16)) (hexDigit (n % 16)) = some n := by
  decide

theorem decodeUnits_escaped {n : Nat} (h : n < 0x20) (us : List StringUnit) :
    decodeUnits (.escaped n :: us) = (decodeUnits us).map (Char.ofNat n :: ·) := by
  have hhigh : ¬ isHighSurrogate n := by
    simp only [isHighSurrogate, Bool.and_eq_true, decide_eq_true_eq]
    omega
  have hlow : ¬ isLowSurrogate n := by
    simp only [isLowSurrogate, Bool.and_eq_true, decide_eq_true_eq]
    omega
  rw [decodeUnits.eq_def]
  exact (if_neg hhigh).trans (if_neg hlow)

/-- A character that is written is read as one unit, which stands for it. -/
theorem exists_unit (c : Char) : ∃ u,
    (∀ tail, stringUnits (quotedChar c ++ tail) =
      (stringUnits tail).map fun r => (u :: r.1, r.2)) ∧
    ∀ us, decodeUnits (u :: us) = (decodeUnits us).map (c :: ·) := by
  unfold quotedChar
  split
  iterate 7 exact ⟨.char _, fun tail => stringUnits_short rfl tail, fun us => rfl⟩
  next hquote hescape _ _ _ _ _ =>
    split
    · next hcontrol =>
      refine ⟨.escaped c.toNat, fun tail => stringUnits_hex ?_ tail, fun us => ?_⟩
      · exact hexUnit?_hexDigit c.toNat hcontrol
      · rw [decodeUnits_escaped hcontrol, Char.ofNat_toNat]
    · next hcontrol =>
      exact ⟨.char c, stringUnits_plain hcontrol hquote hescape, fun us => rfl⟩

theorem stringUnits_quoted (cs rest : List Char) :
    ∃ us, stringUnits (cs.flatMap quotedChar ++ '"' :: rest) = some (us, rest) ∧
      decodeUnits us = some cs := by
  induction cs with
  | nil => exact ⟨[], rfl, rfl⟩
  | cons c cs ih =>
    obtain ⟨us, hread, hdecode⟩ := ih
    obtain ⟨u, hunit, hchar⟩ := exists_unit c
    refine ⟨u :: us, ?_, ?_⟩
    · rw [List.flatMap_cons, List.append_assoc, hunit, hread]
      rfl
    · rw [hchar, hdecode]
      rfl

theorem scan_quotedText (s : String) (rest : List Char) :
    Token.scan (quotedText s ++ rest) = some (.string (some s), rest) := by
  obtain ⟨us, hread, hdecode⟩ := stringUnits_quoted s.toList rest
  simp [quotedText, Token.scan, hread, hdecode]

end Flowrun.Json
