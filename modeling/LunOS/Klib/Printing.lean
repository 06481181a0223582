import LunOS.Console.Kvsprintf

/-!
# Numbers that are read back

The texts of `ul_to_str`, `ui64_to_hex_str` and `itoa` against what a text has to satisfy to be the
numeral of a number: it reads back as the number, and has no leading zeros.

- `Prints`: a function leaves a text in every array that has room for it, and returns its length.
- `ulToStr_ui64ToHexStr_print`: both print the numeral of every value, in the arrays of their callers.
- `itoa_prints_iff`: `itoa` prints the numeral of every `int` but the least one.
-/

namespace LunOS.Klib
open LunOS.Buffers LunOS.Console
open LunOS.Numerals (IsNumeral IsSigned isNumeral_iff isSigned_iff readSigned)

/-! ## Numerals -/

lemma isNumeral_ascii_iff {b n : ℕ} (hb : 2 ≤ b) (hb' : b ≤ 16) {s : CString} :
    IsNumeral ascii.toAlphabet b n s ↔ s = numeral b n :=
  isNumeral_iff hb hb'

lemma isSigned_ascii_iff {i : ℤ} {s : CString} : IsSigned ascii 10 i s ↔ s = decimal i :=
  isSigned_iff (by omega) (by decide)

/-! ## Printing -/

/-- The text and its terminator are all that is written, and they need no more than their room. -/
def Prints (f : List UInt8 → Except Object (ℕ × List UInt8)) (s : CString) : Prop :=
  ∀ str : List UInt8, s.length < str.length →
    f str = .ok (s.length, s ++ 0 :: str.drop (s.length + 1))

/-- There is exactly one text without leading zeros that reads back as the value, and it is printed.
With the terminator it fits into the arrays of the callers. -/
theorem ulToStr_ui64ToHexStr_print (value : BitVec 64) :
    (∃ s, (∀ t, IsNumeral ascii.toAlphabet 10 value.toNat t ↔ t = s) ∧
      Prints (ulToStr value) s ∧ s.length + 1 ≤ maxIntDigits) ∧
    (∃ s, (∀ t, IsNumeral ascii.toAlphabet 16 value.toNat t ↔ t = s) ∧
      Prints (ui64ToHexStr value) s ∧ s.length + 1 ≤ maxHexDigits) := by
  have hdec := decNumeral_length_le value.isLt
  have hhex := hexNumeral_length_le value
  constructor
  · refine ⟨numeral 10 value.toNat, fun t => isNumeral_ascii_iff (by omega) (by omega), ?_, ?_⟩
    · exact fun str hroom => ulToStr_eq hroom
    · exact Nat.succ_le_succ hdec
  · refine ⟨numeral 16 value.toNat, fun t => isNumeral_ascii_iff (by omega) (by omega), ?_, ?_⟩
    · exact fun str hroom => ui64ToHexStr_eq hroom
    · exact Nat.succ_le_succ hhex

/-- `itoa` on any buffer. -/
lemma itoa_prints (i : BitVec 32) : Prints (itoa i) (itoaText i) := by
  have hlength := itoaText_length_le i
  exact fun str hroom => itoa_eq hroom (by omega)

/-- In an array with room for both only one text is printed. -/
lemma Prints.unique {f : List UInt8 → Except Object (ℕ × List UInt8)} {s t : CString}
    (hs : Prints f s) (ht : Prints f t) : s = t := by
  have hroom : s.length < (List.replicate (s.length + t.length + 1) (0 : UInt8)).length := by
    rw [List.length_replicate]
    omega
  have hroom' : t.length < (List.replicate (s.length + t.length + 1) (0 : UInt8)).length := by
    rw [List.length_replicate]
    omega
  have heq := (hs _ hroom).symm.trans (ht _ hroom')
  obtain ⟨hlength, happend⟩ := Prod.mk.inj (Except.ok.inj heq)
  exact (List.append_inj happend hlength).1

/-- The least `int` is its own negative, and is printed as `-(`. -/
theorem itoa_prints_iff (i : BitVec 32) :
    (∃ s, (∀ t, IsSigned ascii 10 i.toInt t ↔ t = s) ∧ Prints (itoa i) s) ↔
      i ≠ BitVec.intMin 32 := by
  have htext := itoa_prints i
  constructor
  · rintro ⟨s, hs, hprints⟩ rfl
    have hdecimal : decimal (BitVec.intMin 32).toInt = s := (hs _).mp (isSigned_ascii_iff.mpr rfl)
    have hbad : itoaText (BitVec.intMin 32) = s := htext.unique hprints
    rw [← hdecimal] at hbad
    exact absurd hbad (by decide)
  · intro hi
    have hdecimal : itoaText i = decimal i.toInt := if_neg hi
    rw [hdecimal] at htext
    exact ⟨decimal i.toInt, fun t => isSigned_ascii_iff, htext⟩

/-- `-2147483648` in an array of 21 bytes: the text is `-(`, of length 2, and stands for no number. -/
theorem itoa_intMin_eq :
    itoa (BitVec.intMin 32) (List.replicate maxIntDigits 0) =
      .ok (2, [45, 40, 0] ++ List.replicate 18 0) ∧
    readSigned ascii 10 [45, 40] = none ∧
    ¬ ∃ s, IsSigned ascii 10 (BitVec.intMin 32).toInt s ∧ Prints (itoa (BitVec.intMin 32)) s := by
  have htext := itoa_prints (BitVec.intMin 32)
  refine ⟨htext _ (by decide), by decide, ?_⟩
  rintro ⟨s, hs, hprints⟩
  have hread : readSigned ascii 10 [45, 40] = some (BitVec.intMin 32).toInt := by
    have hsame : itoaText (BitVec.intMin 32) = s := htext.unique hprints
    rw [← hsame] at hs
    exact hs.reads
  exact absurd hread (by decide)

end LunOS.Klib
