import LunOS.Klib.Strings
import LunOS.Utils.Buffers
import LunOS.Utils.Memory
import LunOS.Utils.Numerals

/-!
# Numbers as text

`reverse_str`, `ui64_to_hex_str`, `ul_to_str` and `itoa`, on an array whose bounds are checked. The
digits are written from the last one on, and then reversed in place.

- `ascii`: the digits `0` to `9` and `A` to `F`, and the sign.
- `numeral b n`: the digits of `n`, the first one first.
- `ui64ToHexStr_eq`, `ulToStr_eq`, `itoa_eq`: what the functions leave in an array that is large
  enough.
-/

namespace LunOS.Klib
open LunOS.Buffers LunOS.Memory List

/-! ## The functions -/

/-- `strlen`, which does not stop before a terminator. -/
def strlen : List UInt8 → Except Object ℕ
  | [] => .error .str
  | c :: rest => if c = 0 then .ok 0 else do
    let n ← strlen rest
    return n + 1

/-- The loop of `reverse_str`, from `end` downwards. -/
def reverseLoop : ℕ → ℕ → List UInt8 → Except Object (List UInt8)
  | 0, _, str => .ok str
  | e + 1, start, str =>
    if start < e + 1 then do
      let tmp ← read .str str start
      let last ← read .str str (e + 1)
      let str ← write .str str start last
      let str ← write .str str (e + 1) tmp
      reverseLoop e (start + 1) str
    else .ok str

/-- `end` is a `size_t`, so the empty string wraps around. -/
def reverseStr (str : List UInt8) : Except Object (List UInt8) := do
  let n ← strlen str
  reverseLoop ((n + 2 ^ 64 - 1) % 2 ^ 64) 0 str

/-- `while(val > 0) { str[index++] = digit; val = next; }`. Every turn writes one byte further, so an
array of `n` bytes is left in turn `n + 1` at the latest. -/
def digitsLoop (digit : ℕ → UInt8) (next : ℕ → ℕ) :
    ℕ → ℕ → ℕ → List UInt8 → Except Object (ℕ × List UInt8)
  | 0, _, _, _ => .error .str
  | turns + 1, val, index, str =>
    if 0 < val then do
      let str ← write .str str index (digit val)
      digitsLoop digit next turns (next val) (index + 1) str
    else .ok (index, str)

/-- `str[index] = '\0'; reverse_str(str); return index;` -/
def finishDigits (index : ℕ) (str : List UInt8) : Except Object (ℕ × List UInt8) := do
  let str ← write .str str index 0
  let str ← reverseStr str
  return (index, str)

/-- `"0123456789ABCDEF"` -/
def hexDigits : List UInt8 :=
  [48, 49, 50, 51, 52, 53, 54, 55, 56, 57, 65, 66, 67, 68, 69, 70]

def hexDigit (val : ℕ) : UInt8 := hexDigits.getD (val &&& 0xF) 0

/-- `ui64_to_hex_str` -/
def ui64ToHexStr (val : BitVec 64) (str : List UInt8) : Except Object (ℕ × List UInt8) :=
  if val = 0 then do
    let str ← write .str str 0 48
    let str ← write .str str 1 0
    return (1, str)
  else do
    let (index, str) ← digitsLoop hexDigit (· >>> 4) (str.length + 1) val.toNat 0 str
    finishDigits index str

def decDigit (val : ℕ) : UInt8 := 48 + UInt8.ofNat (val % 10)

/-- `ul_to_str` -/
def ulToStr (value : BitVec 64) (str : List UInt8) : Except Object (ℕ × List UInt8) :=
  if value = 0 then do
    let str ← write .str str 0 48
    finishDigits 1 str
  else do
    let (i, str) ← digitsLoop decDigit (· / 10) (str.length + 1) value.toNat 0 str
    finishDigits i str

/-- `i` behind `if(i < 0) i = -i;`, which stays negative for the least `int`. -/
def itoaAbs (i : BitVec 32) : ℤ := if i.toInt < 0 then (-i).toInt else i.toInt

/-- The first turn of the `do` loop is made in any case, the others while `i` is positive; `%` and `/`
round towards zero. -/
def itoa (i : BitVec 32) (str : List UInt8) : Except Object (ℕ × List UInt8) := do
  let str ← write .str str 0 (UInt8.ofNat ((itoaAbs i).tmod 10 + 48).toNat)
  let (index, str) ← digitsLoop decDigit (· / 10) (str.length + 1) ((itoaAbs i).tdiv 10).toNat 1 str
  if i.toInt < 0 then do
    let str ← write .str str index 45
    finishDigits (index + 1) str
  else finishDigits index str

/-! ## Numerals -/

/-- A digit up to 15, with capital letters. -/
def digitChar (d : ℕ) : UInt8 := UInt8.ofNat (if d < 10 then 48 + d else 55 + d)

/-- The value of a digit. -/
def digitValue (c : UInt8) : Option ℕ :=
  if 48 ≤ c.toNat ∧ c.toNat ≤ 57 then some (c.toNat - 48)
  else if 65 ≤ c.toNat ∧ c.toNat ≤ 70 then some (c.toNat - 55)
  else none

lemma eq_digitChar_of_digitValue (c : UInt8) (d : ℕ) (h : digitValue c = some d) :
    c = digitChar d := by
  have hc : UInt8.ofNat c.toNat = c := UInt8.ofNat_toNat
  unfold digitValue at h
  unfold digitChar
  split_ifs at h with hdecimal hletter
  · cases h
    rw [if_pos (by omega), show 48 + (c.toNat - 48) = c.toNat by omega, hc]
  · cases h
    rw [if_neg (by omega), show 55 + (c.toNat - 55) = c.toNat by omega, hc]

/-- The digits `0` to `9` and `A` to `F`, and the sign. -/
def ascii : Numerals.SignedAlphabet UInt8 where
  size := 16
  char := digitChar
  digit := digitValue
  digit_char := by decide
  char_of_digit := eq_digitChar_of_digitValue
  minus := 45
  digit_minus := by decide

/-- The digits of a number, without leading zeros. -/
def numeral (b n : ℕ) : CString := Numerals.numeral ascii.toAlphabet b n

/-- The decimal numeral of an integer. -/
def decimal (i : ℤ) : CString := Numerals.signed ascii 10 i

lemma decimal_eq (i : ℤ) : decimal i =
    if i < 0 then 45 :: numeral 10 i.natAbs else numeral 10 i.natAbs := rfl

/-- What `itoa` writes: the least `int` cannot be negated, and is cut after one character. -/
def itoaText (i : BitVec 32) : CString := if i = BitVec.intMin 32 then [45, 40] else decimal i.toInt

variable {b : ℕ} {s : CString} {str : List UInt8} {i : BitVec 32}

/-- The digits of a bounded number. -/
lemma numeral_length_le {n k : ℕ} (hb : 2 ≤ b) (hk : 0 < k) (h : n < b ^ k) :
    (numeral b n).length ≤ k := by
  unfold numeral Numerals.numeral
  split_ifs
  · exact hk
  · rw [length_reverse, length_map]
    exact (Nat.digits_length_le_iff hb n).mpr h

lemma digitChar_ne_zero {d : ℕ} (hd : d < 16) : digitChar d ≠ 0 := by
  interval_cases d <;> decide

lemma zero_notMem_digits (hb : 2 ≤ b) (hb' : b ≤ 16) (n : ℕ) :
    0 ∉ (Nat.digits b n).map digitChar := by
  intro hmem
  obtain ⟨d, hd, hzero⟩ := mem_map.mp hmem
  exact digitChar_ne_zero ((Nat.digits_lt_base hb hd).trans_le hb') hzero

/-! ## Reversal -/

/-- The part between the two ends is reversed; the induction takes off its first and last byte. -/
lemma reverseLoop_append {a mid b : List UInt8} {e : ℕ} (he : e + 1 = a.length + mid.length) :
    reverseLoop e a.length (a ++ (mid ++ b)) = .ok (a ++ (mid.reverse ++ b)) := by
  induction hlen : mid.length using Nat.strong_induction_on generalizing a mid b e with
  | _ n ih =>
  by_cases hshort : mid.length ≤ 1
  · -- the two ends have met
    have hrev : mid.reverse = mid := by
      match mid with
      | [] => rfl
      | [x] => rfl
    rw [hrev]
    cases e with
    | zero => rfl
    | succ e => rw [reverseLoop, if_neg (by omega)]
  · -- `x` and `y` are exchanged, `m` is left
    obtain ⟨x, m, y, rfl⟩ : ∃ x m y, mid = x :: (m ++ [y]) := by
      match mid with
      | [] => exact absurd (by simp) hshort
      | [x] => exact absurd (by simp) hshort
      | x :: z :: l =>
        refine ⟨x, (z :: l).dropLast, (z :: l).getLast (cons_ne_nil _ _), ?_⟩
        rw [dropLast_concat_getLast]
    simp only [length_cons, length_append, length_nil] at he hlen
    obtain rfl : e = a.length + m.length + 1 := by omega
    have hfirst : read Object.str (a ++ (x :: (m ++ [y]) ++ b)) a.length = .ok x :=
      read_append _ _ _
    have hlast : ∀ z, a ++ (z :: (m ++ [y]) ++ b) = a ++ z :: m ++ y :: b := by simp
    have hend : a.length + m.length + 1 = (a ++ x :: m).length := by
      rw [length_append, length_cons]
      rfl
    have hend' : a.length + m.length + 1 = (a ++ y :: m).length := by
      rw [length_append, length_cons]
      rfl
    have hread : read Object.str (a ++ (x :: (m ++ [y]) ++ b)) (a.length + m.length + 1) =
        .ok y := by
      rw [hlast, hend]
      exact read_append _ _ _
    have hwrite : write Object.str (a ++ (x :: (m ++ [y]) ++ b)) a.length y =
        .ok (a ++ (y :: (m ++ [y]) ++ b)) := write_append _ _ _ _
    have hwrite' : write Object.str (a ++ (y :: (m ++ [y]) ++ b)) (a.length + m.length + 1) x =
        .ok (a ++ y :: m ++ x :: b) := by
      rw [hlast, hend']
      exact write_append _ _ _ _
    have hnext : a ++ y :: m ++ x :: b = (a ++ [y]) ++ (m ++ x :: b) := by simp
    have hstart : a.length + 1 = (a ++ [y]).length := by simp
    rw [reverseLoop, if_pos (by omega), hfirst, ok_bind, hread, ok_bind, hwrite, ok_bind, hwrite',
      ok_bind, hnext, hstart, ih m.length (by omega) (by rw [← hstart]; omega) rfl]
    simp

/-- The length up to the NUL. -/
lemma strlen_append (h0 : 0 ∉ s) (rest : List UInt8) :
    strlen (s ++ 0 :: rest) = .ok s.length := by
  induction s with
  | nil => rfl
  | cons c s ih =>
    have hc : c ≠ 0 := fun heq => h0 (heq ▸ mem_cons_self)
    rw [cons_append, strlen, if_neg hc, ih fun hmem => h0 (mem_cons_of_mem _ hmem)]
    rfl

/-- `reverse_str` reverses the string. -/
lemma reverseStr_append (h0 : 0 ∉ s) (hs : s ≠ []) (hlong : s.length ≤ 2 ^ 64) (rest : List UInt8) :
    reverseStr (s ++ 0 :: rest) = .ok (s.reverse ++ 0 :: rest) := by
  have hpos := length_pos_of_ne_nil hs
  have hend : (s.length + 2 ^ 64 - 1) % 2 ^ 64 = s.length - 1 := by omega
  unfold reverseStr
  rw [strlen_append h0, ok_bind, hend]
  exact reverseLoop_append (a := []) (by rw [length_nil]; omega)

/-- The terminator goes behind the digits, which are then put right. -/
lemma finishDigits_append (h0 : 0 ∉ s) (hs : s ≠ []) (hlong : s.length ≤ 2 ^ 64) (x : UInt8)
    (rest : List UInt8) :
    finishDigits s.length (s ++ x :: rest) = .ok (s.length, s.reverse ++ 0 :: rest) := by
  unfold finishDigits
  rw [write_append, ok_bind, reverseStr_append h0 hs hlong]
  rfl

/-! ## The digits -/

/-- The loop appends the digits, the last one first. -/
lemma digitsLoop_append (hb : 2 ≤ b) {digit : ℕ → UInt8} {next : ℕ → ℕ}
    (hdigit : ∀ v, digit v = digitChar (v % b)) (hnext : ∀ v, next v = v / b) {turns val : ℕ}
    (front : List UInt8) {rest : List UInt8} (hrest : (Nat.digits b val).length ≤ rest.length)
    (hturns : (Nat.digits b val).length < turns) :
    digitsLoop digit next turns val front.length (front ++ rest) =
      .ok ((front ++ (Nat.digits b val).map digitChar).length,
        front ++ (Nat.digits b val).map digitChar ++ rest.drop (Nat.digits b val).length) := by
  induction turns generalizing val front rest with
  | zero => exact absurd hturns (by omega)
  | succ turns ih =>
    rw [digitsLoop]
    by_cases hval : 0 < val
    · have hdigits := Nat.digits_def' hb hval
      rw [hdigits, length_cons] at hrest hturns
      obtain ⟨x, rest, rfl⟩ : ∃ x l, rest = x :: l := by
        cases rest with
        | nil => cases hrest
        | cons x l => exact ⟨x, l, rfl⟩
      rw [length_cons] at hrest
      have happend : front ++ digitChar (val % b) :: rest =
          (front ++ [digitChar (val % b)]) ++ rest := by simp
      have hindex : front.length + 1 = (front ++ [digitChar (val % b)]).length := by simp
      rw [if_pos hval, write_append, ok_bind, hdigit, hnext, happend, hindex,
        ih _ (by omega) (by omega), hdigits]
      simp
    · obtain rfl : val = 0 := by omega
      rw [if_neg hval]
      simp

/-- A number in an array of its own: the loop and the end. -/
lemma digits_finish (hb : 2 ≤ b) (hb' : b ≤ 16) {digit : ℕ → UInt8} {next : ℕ → ℕ}
    (hdigit : ∀ v, digit v = digitChar (v % b)) (hnext : ∀ v, next v = v / b) {val : ℕ}
    (hval : val ≠ 0) (hroom : (numeral b val).length < str.length)
    (hlong : (numeral b val).length ≤ 2 ^ 64) :
    (do let (i, str) ← digitsLoop digit next (str.length + 1) val 0 str
        finishDigits i str) =
      .ok ((numeral b val).length, numeral b val ++ 0 :: str.drop ((numeral b val).length + 1)) := by
  have hnum : numeral b val = ((Nat.digits b val).map digitChar).reverse := if_neg hval
  have hlength : (numeral b val).length = (Nat.digits b val).length := by
    rw [hnum, length_reverse, length_map]
  have hrest : (Nat.digits b val).length ≤ str.length := by omega
  have hturns : (Nat.digits b val).length < str.length + 1 := by omega
  have hloop := digitsLoop_append hb hdigit hnext [] hrest hturns
  rw [nil_append, nil_append, length_nil] at hloop
  have hne : (Nat.digits b val).map digitChar ≠ [] := by
    rw [ne_eq, map_eq_nil_iff]
    exact Nat.digits_ne_nil_iff_ne_zero.mpr hval
  have hdrop := drop_eq_getElem_cons (l := str) (i := (Nat.digits b val).length) (by omega)
  rw [hloop, ok_bind]
  simp only
  rw [hdrop, finishDigits_append (zero_notMem_digits hb hb' val) hne
    (by rw [length_map, ← hlength]; exact hlong), ← hnum, length_map, hlength]

lemma hexDigit_eq (v : ℕ) : hexDigit v = digitChar (v % 16) := by
  have hmask : v &&& 0xF = v % 16 := land_lowMask v 4
  have htable : ∀ d < 16, hexDigits.getD d 0 = digitChar d := by decide
  unfold hexDigit
  rw [hmask]
  exact htable _ (Nat.mod_lt _ (by omega))

lemma decDigit_eq (v : ℕ) : decDigit v = digitChar (v % 10) := by
  have htable : ∀ d < 10, 48 + UInt8.ofNat d = digitChar d := by decide
  exact htable _ (Nat.mod_lt _ (by omega))

lemma hexNumeral_length_le (v : BitVec 64) : (numeral 16 v.toNat).length ≤ 16 :=
  numeral_length_le (by omega) (by omega) (v.isLt.trans_le (by decide))

lemma decNumeral_length_le {n : ℕ} (h : n < 2 ^ 64) : (numeral 10 n).length ≤ 20 :=
  numeral_length_le (by omega) (by omega) (h.trans_le (by decide))

/-- Zero needs a cell for its digit and one for the terminator. -/
lemma exists_two_cells (h : 1 < str.length) : ∃ x y l, str = x :: y :: l := by
  match str with
  | x :: y :: l => exact ⟨x, y, l, rfl⟩

/-- `ui64_to_hex_str` writes the numeral. -/
lemma ui64ToHexStr_eq {val : BitVec 64} (hroom : (numeral 16 val.toNat).length < str.length) :
    ui64ToHexStr val str = .ok ((numeral 16 val.toNat).length,
      numeral 16 val.toNat ++ 0 :: str.drop ((numeral 16 val.toNat).length + 1)) := by
  unfold ui64ToHexStr
  by_cases hval : val = 0
  · have hnum : numeral 16 val.toNat = [48] := if_pos (congrArg BitVec.toNat hval)
    rw [hnum] at hroom ⊢
    obtain ⟨x, y, rest, rfl⟩ := exists_two_cells hroom
    rw [if_pos hval]
    rfl
  · have hnat : val.toNat ≠ 0 := fun heq => hval (BitVec.eq_of_toNat_eq heq)
    have hlong := hexNumeral_length_le val
    rw [if_neg hval]
    exact digits_finish (by omega) (by omega) hexDigit_eq (fun v => Nat.shiftRight_eq_div_pow v 4)
      hnat hroom (by omega)

/-- `ul_to_str` writes the numeral. -/
lemma ulToStr_eq {value : BitVec 64} (hroom : (numeral 10 value.toNat).length < str.length) :
    ulToStr value str = .ok ((numeral 10 value.toNat).length,
      numeral 10 value.toNat ++ 0 :: str.drop ((numeral 10 value.toNat).length + 1)) := by
  unfold ulToStr
  by_cases hval : value = 0
  · have hnum : numeral 10 value.toNat = [48] := if_pos (congrArg BitVec.toNat hval)
    rw [hnum] at hroom ⊢
    obtain ⟨x, y, rest, rfl⟩ := exists_two_cells hroom
    rw [if_pos hval]
    exact finishDigits_append (s := [48]) (by decide) (by decide) (by decide) y rest
  · have hnat : value.toNat ≠ 0 := fun heq => hval (BitVec.eq_of_toNat_eq heq)
    have hlong := decNumeral_length_le value.isLt
    rw [if_neg hval]
    exact digits_finish (by omega) (by omega) decDigit_eq (fun v => rfl) hnat hroom (by omega)

/-! ## Signed numbers -/

/-- The digits of `itoa` in the order it writes them, without the sign. -/
def itoaDigits (i : BitVec 32) : CString :=
  UInt8.ofNat ((itoaAbs i).tmod 10 + 48).toNat ::
    (Nat.digits 10 ((itoaAbs i).tdiv 10).toNat).map digitChar

/-- What `itoa` reverses. -/
def itoaReversed (i : BitVec 32) : CString :=
  if i.toInt < 0 then itoaDigits i ++ [45] else itoaDigits i

lemma numeral_ten_eq (n : ℕ) :
    (digitChar (n % 10) :: (Nat.digits 10 (n / 10)).map digitChar).reverse = numeral 10 n := by
  unfold numeral Numerals.numeral
  by_cases hn : n = 0
  · rw [hn]
    rfl
  · rw [if_neg hn, Nat.digits_def' (b := 10) (n := n) (by omega) (by omega)]
    rfl

/-- The absolute value, but for `INT_MIN`. -/
lemma itoaAbs_eq (hi : i ≠ BitVec.intMin 32) : itoaAbs i = i.toInt.natAbs := by
  unfold itoaAbs
  split_ifs with hneg
  · rw [BitVec.toInt_neg_of_ne_intMin hi]
    omega
  · omega

/-- The digits of `itoa`. -/
lemma itoaDigits_reverse (hi : i ≠ BitVec.intMin 32) :
    (itoaDigits i).reverse = numeral 10 i.toInt.natAbs := by
  have hmod : ((itoaAbs i).tmod 10 + 48).toNat = 48 + i.toInt.natAbs % 10 := by
    rw [itoaAbs_eq hi, Int.tmod_eq_emod_of_nonneg (by omega)]
    omega
  have hdiv : ((itoaAbs i).tdiv 10).toNat = i.toInt.natAbs / 10 := by
    rw [itoaAbs_eq hi, Int.tdiv_eq_ediv_of_nonneg (by omega)]
    omega
  have hdigit : UInt8.ofNat (48 + i.toInt.natAbs % 10) = digitChar (i.toInt.natAbs % 10) := by
    unfold digitChar
    rw [if_pos (by omega)]
  unfold itoaDigits
  rw [hmod, hdiv, hdigit, numeral_ten_eq]

lemma itoaReversed_reverse (i : BitVec 32) : (itoaReversed i).reverse = itoaText i := by
  unfold itoaText
  by_cases hi : i = BitVec.intMin 32
  · rw [hi]
    decide
  · rw [if_neg hi]
    unfold itoaReversed
    rw [decimal_eq]
    split_ifs
    · rw [reverse_append, itoaDigits_reverse hi]
      rfl
    · exact itoaDigits_reverse hi

lemma zero_notMem_itoaDigits (i : BitVec 32) : 0 ∉ itoaDigits i := by
  intro hmem
  by_cases hi : i = BitVec.intMin 32
  · rw [hi] at hmem
    exact absurd hmem (by decide)
  · rw [← mem_reverse, itoaDigits_reverse hi] at hmem
    unfold numeral Numerals.numeral at hmem
    split_ifs at hmem
    · exact absurd hmem (by decide)
    · exact zero_notMem_digits (by omega) (by omega) _ (mem_reverse.mp hmem)

/-- The loop of `itoa`, both turns that are always made and the others. -/
lemma itoa_loop (i : BitVec 32) (x : UInt8) (rest : List UInt8)
    (hroom : (itoaDigits i).length ≤ rest.length + 1) :
    (do let str ← write Object.str (x :: rest) 0 (UInt8.ofNat ((itoaAbs i).tmod 10 + 48).toNat)
        digitsLoop decDigit (· / 10) (str.length + 1) ((itoaAbs i).tdiv 10).toNat 1 str) =
      .ok ((itoaDigits i).length, itoaDigits i ++ (x :: rest).drop (itoaDigits i).length) := by
  have hlength : (itoaDigits i).length =
      (Nat.digits 10 ((itoaAbs i).tdiv 10).toNat).length + 1 := by
    unfold itoaDigits
    rw [length_cons, length_map]
  have hrest : (Nat.digits 10 ((itoaAbs i).tdiv 10).toNat).length ≤ rest.length := by omega
  have hturns : (Nat.digits 10 ((itoaAbs i).tdiv 10).toNat).length < rest.length + 2 := by omega
  have hnext : ∀ v : ℕ, (· / 10) v = v / 10 := fun _ => rfl
  have hloop := digitsLoop_append (by omega) decDigit_eq hnext
    [UInt8.ofNat ((itoaAbs i).tmod 10 + 48).toNat] hrest hturns
  rw [hlength, drop_succ_cons]
  refine hloop.trans ?_
  rw [singleton_append, ← hlength]
  rfl

/-- `itoa` writes its text. -/
lemma itoa_eq (hroom : (itoaText i).length < str.length) (hlong : (itoaText i).length ≤ 2 ^ 64) :
    itoa i str = .ok ((itoaText i).length,
      itoaText i ++ 0 :: str.drop ((itoaText i).length + 1)) := by
  have htext := itoaReversed_reverse i
  have hlength : (itoaText i).length = (itoaReversed i).length := by
    rw [← htext, length_reverse]
  have hzero := zero_notMem_itoaDigits i
  have hne : itoaDigits i ≠ [] := cons_ne_nil _ _
  rw [hlength] at hroom hlong ⊢
  rw [← htext]
  obtain ⟨x, rest, rfl⟩ : ∃ x l, str = x :: l := by
    cases str with
    | nil => cases hroom
    | cons x l => exact ⟨x, l, rfl⟩
  unfold itoaReversed at hroom hlong ⊢
  have hmono : (itoaDigits i).length < (x :: rest).length := by
    split_ifs at hroom
    · rw [length_append] at hroom
      omega
    · exact hroom
  have hloop := itoa_loop i x rest (by rw [length_cons] at hmono; omega)
  have hdrop := drop_eq_getElem_cons hmono
  unfold itoa
  rw [← bind_assoc, hloop, ok_bind, hdrop]
  simp only
  by_cases hneg : i.toInt < 0
  · simp only [if_pos hneg] at hroom hlong ⊢
    rw [length_append, length_singleton] at hroom
    obtain ⟨y, hdrop'⟩ : ∃ y, (x :: rest).drop ((itoaDigits i).length + 1) =
        y :: (x :: rest).drop ((itoaDigits i).length + 1 + 1) :=
      ⟨_, drop_eq_getElem_cons hroom⟩
    have happend : ∀ l, itoaDigits i ++ 45 :: l = (itoaDigits i ++ [45]) ++ l := by simp
    have hindex : (itoaDigits i).length + 1 = (itoaDigits i ++ [45]).length := by simp
    rw [write_append, ok_bind, hdrop', happend, hindex]
    refine finishDigits_append ?_ (by simp) hlong _ _
    rw [mem_append, not_or]
    exact ⟨hzero, by decide⟩
  · simp only [if_neg hneg] at hroom hlong ⊢
    exact finishDigits_append hzero hne hlong _ _

/-- At most a sign and ten digits. -/
lemma itoaText_length_le (i : BitVec 32) : (itoaText i).length ≤ 11 := by
  unfold itoaText
  rw [decimal_eq]
  have hnum : ∀ n < 10 ^ 10, (numeral 10 n).length ≤ 10 := fun n hn =>
    numeral_length_le (by omega) (by omega) hn
  have habs : i.toInt.natAbs < 10 ^ 10 := by
    have hlow := BitVec.le_toInt i
    have hhigh := BitVec.toInt_lt (x := i)
    omega
  split_ifs
  · decide
  · rw [length_cons]
    have := hnum _ habs
    omega
  · have := hnum _ habs
    omega

end LunOS.Klib
