import Mathlib.Data.Fin.Basic
import Mathlib.Logic.Function.Basic
import Mathlib.Tactic

/-!
# `memmove`

Memory is a map from addresses to what is stored there, bytes or anything larger. An address is a
natural number, as no object reaches over the end of the address space.

- `memmove_apply`: what every address holds behind the call, in terms of memory before it.
- `memmove_view`: moving bytes of whole records moves the records.
-/

namespace LunOS.Klib
open Function

variable {β γ : Type*}

/-- `dst[i] = src[i];` -/
def copyUnit (m : ℕ → β) (dst src i : ℕ) : ℕ → β := update m (dst + i) (m (src + i))

/-- `for (size_t i = 0; i < size; i++) dst[i] = src[i];` -/
def copyForward (m : ℕ → β) (dst src : ℕ) : ℕ → (ℕ → β)
  | 0 => m
  | i + 1 => copyUnit (copyForward m dst src i) dst src i

/-- `for (size_t i = size; i != 0; i--) dst[i-1] = src[i-1];` -/
def copyBackward (m : ℕ → β) (dst src : ℕ) : ℕ → (ℕ → β)
  | 0 => m
  | i + 1 => copyBackward (copyUnit m dst src i) dst src i

/-- `memmove` -/
def memmove (m : ℕ → β) (dst src size : ℕ) : ℕ → β :=
  if dst < src then copyForward m dst src size else copyBackward m dst src size

/-- Behind `i` turns of the loop the first `i` units are copied: what a turn reads lies above what
was written. -/
lemma copyForward_apply {m : ℕ → β} {dst src : ℕ} (h : dst < src) (size x : ℕ) :
    copyForward m dst src size x =
      if dst ≤ x ∧ x < dst + size then m (src + (x - dst)) else m x := by
  induction size generalizing x with
  | zero =>
    rw [if_neg (by omega)]
    rfl
  | succ i ih =>
    rw [copyForward, copyUnit, update_apply]
    by_cases hx : x = dst + i
    · rw [if_pos hx, if_pos (by omega), ih, if_neg (by omega), hx, Nat.add_sub_cancel_left]
    · rw [if_neg hx, ih]
      by_cases hin : dst ≤ x ∧ x < dst + i
      · rw [if_pos hin, if_pos (by omega)]
      · rw [if_neg hin, if_neg (by omega)]

/-- From above the first `i` units are still to be copied: they lie below what was written. -/
lemma copyBackward_apply {m : ℕ → β} {dst src : ℕ} (h : src ≤ dst) (size x : ℕ) :
    copyBackward m dst src size x =
      if dst ≤ x ∧ x < dst + size then m (src + (x - dst)) else m x := by
  induction size generalizing m x with
  | zero =>
    rw [if_neg (by omega)]
    rfl
  | succ i ih =>
    rw [copyBackward, ih]
    by_cases hin : dst ≤ x ∧ x < dst + i
    · rw [if_pos hin, if_pos (by omega), copyUnit, update_of_ne (by omega)]
    · rw [if_neg hin, copyUnit, update_apply]
      by_cases hx : x = dst + i
      · rw [if_pos hx, if_pos (by omega), hx, Nat.add_sub_cancel_left]
      · rw [if_neg hx, if_neg (by omega)]

/-- `memmove`, at every address. -/
lemma memmove_apply (m : ℕ → β) (dst src size x : ℕ) : memmove m dst src size x =
    if dst ≤ x ∧ x < dst + size then m (src + (x - dst)) else m x := by
  unfold memmove
  by_cases h : dst < src
  · rw [if_pos h, copyForward_apply h]
  · rw [if_neg h, copyBackward_apply (by omega)]

/-- The destination holds the source as it was, and every other byte is kept, however the two
overlap. -/
theorem memmove_correct (m : ℕ → UInt8) (dst src size : ℕ) :
    (∀ i < size, memmove m dst src size (dst + i) = m (src + i)) ∧
      ∀ x, x < dst ∨ dst + size ≤ x → memmove m dst src size x = m x := by
  constructor
  · intro i hi
    rw [memmove_apply, if_pos (by omega), Nat.add_sub_cancel_left]
  · intro x hx
    rw [memmove_apply, if_neg (by omega)]

example : (List.range 6).map (memmove id 2 0 4) = [0, 1, 0, 1, 2, 3] := by decide
example : (List.range 6).map (memmove id 0 2 4) = [2, 3, 4, 5, 4, 5] := by decide

/-- Records of `w` bytes: the bytes of the record `i` go through `f`. -/
def view (w : ℕ) (f : (Fin w → β) → γ) (m : ℕ → β) (i : ℕ) : γ := f fun k => m (w * i + k)

/-- A `memmove` of whole records. -/
lemma memmove_view (w : ℕ) (f : (Fin w → β) → γ) (m : ℕ → β) (dst src n : ℕ) :
    view w f (memmove m (w * dst) (w * src) (w * n)) = memmove (view w f m) dst src n := by
  funext i
  rw [memmove_apply]
  unfold view
  by_cases hin : dst ≤ i ∧ i < dst + n
  · obtain ⟨j, hj⟩ := Nat.exists_eq_add_of_le hin.1
    have hlast : w * (j + 1) ≤ w * n := Nat.mul_le_mul_left w (by omega)
    rw [if_pos hin]
    congr 1
    funext k
    have hk := k.isLt
    rw [memmove_apply, if_pos, hj, Nat.add_sub_cancel_left]
    · congr 1
      rw [Nat.mul_add, Nat.mul_add]
      omega
    · rw [hj, Nat.mul_add]
      rw [Nat.mul_succ] at hlast
      omega
  · rw [if_neg hin]
    congr 1
    funext k
    have hk := k.isLt
    rw [memmove_apply, if_neg]
    rcases not_and_or.mp hin with hlow | hhigh
    · have hbelow : w * (i + 1) ≤ w * dst := Nat.mul_le_mul_left w (by omega)
      rw [Nat.mul_succ] at hbelow
      omega
    · have habove : w * (dst + n) ≤ w * i := Nat.mul_le_mul_left w (by omega)
      rw [Nat.mul_add] at habove
      omega

end LunOS.Klib
