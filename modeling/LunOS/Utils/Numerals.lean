import Mathlib.Data.Nat.Digits.Lemmas
import Mathlib.Tactic.Ring

/-!
# Numerals

Texts that stand for numbers in base `b`, the first digit first.

- `Alphabet`, `SignedAlphabet`: the characters of the digits, and a sign.
- `read`, `readSigned`: the number that a text stands for.
- `IsNumeral`, `IsSigned`: a text reads back as the number and has no leading zeros. Such a text is
  unique (`isNumeral_iff`, `isSigned_iff`).
-/

namespace LunOS.Numerals
open List

/-- Characters for the digits below `size`, and the digits of these characters. -/
structure Alphabet (γ : Type*) where
  size : ℕ
  char : ℕ → γ
  digit : γ → Option ℕ
  digit_char : ∀ d < size, digit (char d) = some d
  char_of_digit : ∀ c d, digit c = some d → c = char d

variable {γ : Type*}

section

variable (A : Alphabet γ) (b : ℕ)

/-- Reading on, after the number `n`. -/
def readFrom : ℕ → List γ → Option ℕ
  | n, [] => some n
  | n, c :: s =>
    match A.digit c with
    | some d => if d < b then readFrom (n * b + d) s else none
    | none => none

/-- There is no number without a digit. -/
def read : List γ → Option ℕ
  | [] => none
  | c :: s => readFrom A b 0 (c :: s)

/-- A zero in front is the only character. -/
def Unpadded (s : List γ) : Prop := ∀ rest, s = A.char 0 :: rest → rest = []

/-- `s` is how `n` is written. -/
structure IsNumeral (n : ℕ) (s : List γ) : Prop where
  reads : read A b s = some n
  unpadded : Unpadded A s

/-- The numeral of `n`. -/
def numeral (n : ℕ) : List γ :=
  if n = 0 then [A.char 0] else ((Nat.digits b n).map A.char).reverse

variable {A b} {n m : ℕ} {s : List γ}

/-! ## Digits -/

lemma Alphabet.char_injective {d e : ℕ} (hd : d < A.size) (he : e < A.size)
    (h : A.char d = A.char e) : d = e := by
  have hdigit := A.digit_char d hd
  rw [h, A.digit_char e he] at hdigit
  exact (Option.some.inj hdigit).symm

/-- Horner's rule. -/
lemma readFrom_map (hb : b ≤ A.size) {ds : List ℕ} (hds : ∀ d ∈ ds, d < b) (n : ℕ) :
    readFrom A b n (ds.map A.char) =
      some (n * b ^ ds.length + Nat.ofDigits b ds.reverse) := by
  induction ds generalizing n with
  | nil => simp [readFrom]
  | cons d ds ih =>
    have hd : d < b := hds d mem_cons_self
    have hrest := ih (fun e he => hds e (mem_cons_of_mem _ he)) (n * b + d)
    rw [map_cons, readFrom, A.digit_char d (hd.trans_le hb)]
    simp only [if_pos hd]
    rw [hrest, reverse_cons, Nat.ofDigits_append, Nat.ofDigits_singleton, length_reverse,
      length_cons]
    congr 1
    ring

/-- Only digits below `b` are read. -/
lemma exists_digits_of_readFrom (h : readFrom A b n s = some m) :
    ∃ ds : List ℕ, s = ds.map A.char ∧ ∀ d ∈ ds, d < b := by
  induction s generalizing n with
  | nil => exact ⟨[], rfl, by simp⟩
  | cons c s ih =>
    rw [readFrom] at h
    cases hdigit : A.digit c with
    | none => simp [hdigit] at h
    | some d =>
      simp only [hdigit] at h
      split_ifs at h with hd
      obtain ⟨ds, rfl, hds⟩ := ih h
      refine ⟨d :: ds, ?_, forall_mem_cons.mpr ⟨hd, hds⟩⟩
      rw [map_cons, A.char_of_digit c d hdigit]

lemma read_of_ne_nil (hs : s ≠ []) : read A b s = readFrom A b 0 s := by
  cases s with
  | nil => exact absurd rfl hs
  | cons c s => rfl

/-! ## Numerals -/

variable (hb : 2 ≤ b) (hsize : b ≤ A.size)
include hb hsize

/-- Numerals are read back. -/
lemma isNumeral_numeral (n : ℕ) : IsNumeral A b n (numeral A b n) := by
  have hzero : 0 < A.size := by omega
  unfold numeral
  by_cases hn : n = 0
  · rw [if_pos hn, hn]
    refine ⟨?_, fun rest hrest => (List.cons.inj hrest).2.symm⟩
    simp [read, readFrom, A.digit_char 0 hzero, show 0 < b by omega]
  · have hdigits : Nat.digits b n ≠ [] := Nat.digits_ne_nil_iff_ne_zero.mpr hn
    have hlt : ∀ d ∈ (Nat.digits b n).reverse, d < b := fun d hd =>
      Nat.digits_lt_base hb (mem_reverse.mp hd)
    rw [if_neg hn, ← map_reverse]
    refine ⟨?_, fun rest hrest => ?_⟩
    · rw [read_of_ne_nil (by simpa using hdigits), readFrom_map hsize hlt, reverse_reverse,
        Nat.ofDigits_digits, Nat.zero_mul, Nat.zero_add]
    · -- the first digit is the last one of `Nat.digits`, which is not zero
      exfalso
      have hlast := Nat.getLast_digit_ne_zero b hn
      have hrev : (Nat.digits b n).reverse =
          (Nat.digits b n).getLast hdigits :: (Nat.digits b n).dropLast.reverse := by
        conv_lhs => rw [← dropLast_append_getLast hdigits]
        rw [reverse_append]
        rfl
      rw [hrev, map_cons] at hrest
      have hhead := (List.cons.inj hrest).1
      have hsmall := Nat.digits_lt_base hb (getLast_mem hdigits)
      exact hlast (A.char_injective (hsmall.trans_le hsize) hzero hhead)

/-- What reads back as `n` without leading zeros is its numeral. -/
lemma IsNumeral.eq (h : IsNumeral A b n s) : s = numeral A b n := by
  have hs : s ≠ [] := by
    rintro rfl
    exact absurd h.reads (by simp [read])
  have hreads := h.reads
  rw [read_of_ne_nil hs] at hreads
  obtain ⟨ds, rfl, hds⟩ := exists_digits_of_readFrom hreads
  rw [readFrom_map hsize hds, Nat.zero_mul, Nat.zero_add, Option.some.injEq] at hreads
  have hne : ds ≠ [] := fun hnil => hs (by rw [hnil, map_nil])
  obtain ⟨d, ds, rfl⟩ := exists_cons_of_ne_nil hne
  unfold numeral
  by_cases hd : d = 0
  · have hnil : ds = [] := map_eq_nil_iff.mp (h.unpadded _ (by rw [map_cons, hd]))
    have hn : n = 0 := by
      rw [← hreads, hd, hnil]
      rfl
    rw [if_pos hn, hd, hnil]
    rfl
  · have hback : Nat.digits b n = (d :: ds).reverse := by
      rw [← hreads]
      refine Nat.digits_ofDigits b (by omega) _ (fun e he => hds e (mem_reverse.mp he)) ?_
      intro _
      simpa using hd
    have hn : n ≠ 0 := by
      rintro rfl
      simp at hback
    rw [if_neg hn, hback, map_reverse, reverse_reverse]

/-- A number has one numeral. -/
lemma isNumeral_iff : IsNumeral A b n s ↔ s = numeral A b n := by
  constructor
  · exact fun h => h.eq hb hsize
  · rintro rfl
    exact isNumeral_numeral hb hsize n

end

/-! ## Signs -/

/-- An alphabet with a sign that is not a digit. -/
structure SignedAlphabet (γ : Type*) extends Alphabet γ where
  minus : γ
  digit_minus : digit minus = none

section

variable [DecidableEq γ] (S : SignedAlphabet γ) (b : ℕ)

/-- The number that a numeral with a sign stands for. -/
def readSigned : List γ → Option ℤ
  | [] => none
  | c :: s =>
    if c = S.minus then (read S.toAlphabet b s).map fun n : ℕ => -(n : ℤ)
    else (read S.toAlphabet b (c :: s)).map fun n : ℕ => (n : ℤ)

/-- There is a sign exactly in front of a negative number, and no zero in front of the digits. -/
structure IsSigned (i : ℤ) (s : List γ) : Prop where
  reads : readSigned S b s = some i
  sign : s.head? = some S.minus ↔ i < 0
  unpadded : ∀ digits, s = digits ∨ s = S.minus :: digits → Unpadded S.toAlphabet digits

/-- The numeral of `i`. -/
def signed (i : ℤ) : List γ :=
  if i < 0 then S.minus :: numeral S.toAlphabet b i.natAbs
  else numeral S.toAlphabet b i.natAbs

variable {S b} {i : ℤ} {s : List γ}

omit [DecidableEq γ] in
/-- No text of digits starts with the sign. -/
lemma head?_ne_minus {n : ℕ} (h : read S.toAlphabet b s = some n) : s.head? ≠ some S.minus := by
  intro hhead
  obtain ⟨t, rfl⟩ : ∃ t, s = S.minus :: t := List.head?_eq_some_iff.mp hhead
  simp [read, readFrom, S.digit_minus] at h

lemma readSigned_of_head?_ne (hs : s.head? ≠ some S.minus) :
    readSigned S b s = (read S.toAlphabet b s).map fun n : ℕ => (n : ℤ) := by
  cases s with
  | nil => rfl
  | cons c s => exact if_neg fun hc => hs (by rw [hc, List.head?_cons])

variable (hb : 2 ≤ b) (hsize : b ≤ S.size)
include hb hsize

lemma isSigned_signed (i : ℤ) : IsSigned S b i (signed S b i) := by
  have hnum : IsNumeral S.toAlphabet b i.natAbs (numeral S.toAlphabet b i.natAbs) :=
    isNumeral_numeral hb hsize i.natAbs
  have hhead := head?_ne_minus hnum.reads
  unfold signed
  by_cases hi : i < 0
  · rw [if_pos hi]
    refine ⟨?_, by simp [hi], fun digits hdigits => ?_⟩
    · rw [readSigned, if_pos rfl, hnum.reads, Option.map_some]
      congr 1
      omega
    · rcases hdigits with rfl | hcons
      · -- the sign is not a zero
        intro rest hrest
        have hzero := S.digit_char 0 (by omega)
        rw [← (List.cons.inj hrest).1, S.digit_minus] at hzero
        cases hzero
      · rw [← (List.cons.inj hcons).2]
        exact hnum.unpadded
  · rw [if_neg hi]
    refine ⟨?_, by simp [hi, hhead], fun digits hdigits => ?_⟩
    · rw [readSigned_of_head?_ne hhead, hnum.reads, Option.map_some]
      congr 1
      omega
    · rcases hdigits with rfl | hcons
      · exact hnum.unpadded
      · exact absurd (by rw [hcons, List.head?_cons]) hhead

lemma IsSigned.eq (h : IsSigned S b i s) : s = signed S b i := by
  have hreads := h.reads
  unfold signed
  by_cases hi : i < 0
  · obtain ⟨digits, rfl⟩ := List.head?_eq_some_iff.mp (h.sign.mpr hi)
    rw [readSigned, if_pos rfl] at hreads
    obtain ⟨n, hn, hneg⟩ := Option.map_eq_some_iff.mp hreads
    obtain rfl : n = i.natAbs := by omega
    have hnum : IsNumeral S.toAlphabet b i.natAbs digits :=
      ⟨hn, h.unpadded digits (.inr rfl)⟩
    rw [if_pos hi, hnum.eq hb hsize]
  · rw [readSigned_of_head?_ne (fun hhead => hi (h.sign.mp hhead))] at hreads
    obtain ⟨n, hn, hpos⟩ := Option.map_eq_some_iff.mp hreads
    obtain rfl : n = i.natAbs := by omega
    have hnum : IsNumeral S.toAlphabet b i.natAbs s := ⟨hn, h.unpadded s (.inl rfl)⟩
    rw [if_neg hi, ← hnum.eq hb hsize]

/-- So has an integer. -/
lemma isSigned_iff : IsSigned S b i s ↔ s = signed S b i := by
  constructor
  · exact fun h => h.eq hb hsize
  · rintro rfl
    exact isSigned_signed hb hsize i

end

end LunOS.Numerals
