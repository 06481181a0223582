import LunOS.BuddyAllocator.ArenaTheorems
import LunOS.Pmm.Common

/-!
# The order search of `kmalloc`

The loop doubles a 64-bit block size until the total of a request fits.

- `orderLoop_found`: for totals up to `2 ^ 63` the loop stops at the least order that holds them.
- `orderLoop_ends_iff`: for larger ones it does not stop.
-/

namespace LunOS.Pmm
open LunOS.Dyadic LunOS.Memory LunOS.BuddyAllocator LunOS.SlabAllocator

variable {size total : ℕ}

/-! ## Block sizes -/

lemma blockSize_eq_pow (order : ℕ) : blockSize order = 2 ^ (12 + order) := blockSize_eq order

lemma blockSize_succ (order : ℕ) : blockSize (order + 1) = blockSize order * 2 := by
  rw [blockSize_eq, blockSize_eq, size_succ, Nat.mul_two]

lemma blockSize_le {i j : ℕ} (h : i ≤ j) : blockSize i ≤ blockSize j := by
  rw [blockSize_eq, blockSize_eq]
  exact size_le_size h

/-- A power of two in 64 bits is at most `2 ^ 63`. -/
lemma u64_two_pow_le (k : ℕ) : u64 (2 ^ k) ≤ 2 ^ 63 := by
  unfold u64
  by_cases hk : k < 64
  · have hle : 2 ^ k ≤ 2 ^ 63 := Nat.pow_le_pow_right (by norm_num) (by omega)
    rw [Nat.mod_eq_of_lt (by omega)]
    exact hle
  · have hdvd : 2 ^ 64 ∣ 2 ^ k := pow_dvd_pow 2 (by omega)
    rw [Nat.mod_eq_zero_of_dvd hdvd]
    omega

/-! ## The loop -/

/-- A total above `2 ^ 63` is never reached, whatever the number of turns: `block_size` stays a
power of two in 64 bits. -/
lemma orderLoop_none (h : 2 ^ 63 < total) : ∀ (turns order k : ℕ),
    orderLoop total turns order (u64 (2 ^ k)) = none := by
  intro turns
  induction turns with
  | zero => intro order k; rfl
  | succ turns ih =>
    intro order k
    have hle := u64_two_pow_le k
    -- from `2 ^ 64` on this is 0, and stays 0
    have hnext : u64 (u64 (2 ^ k) <<< 1) = u64 (2 ^ (k + 1)) := by
      unfold u64
      rw [Nat.shiftLeft_eq, pow_one, Nat.mod_mul_mod, pow_succ 2 k]
    unfold orderLoop
    rw [if_pos (by omega), hnext]
    exact ih _ (k + 1)

/-- A total that some block holds is reached after as many turns as its order is away, at the
least order that holds it. The induction is on the number of orders left up to `top`, and no block
size on the way wraps. -/
lemma orderLoop_least {top : ℕ} (htop : top ≤ 51) (h : total ≤ blockSize top) :
    ∀ (n order turns : ℕ), order + n = top → n < turns → ∃ o, order ≤ o ∧ o ≤ top ∧
      orderLoop total turns order (blockSize order) = some o ∧ total ≤ blockSize o ∧
      ∀ k, order ≤ k → k < o → blockSize k < total := by
  intro n
  induction n with
  | zero =>
    intro order turns heq hturns
    obtain ⟨turns, rfl⟩ : ∃ m, turns = m + 1 := ⟨turns - 1, by omega⟩
    have hord : order = top := by omega
    subst hord
    refine ⟨order, le_rfl, le_rfl, ?_, h, fun k hk hlt => by omega⟩
    unfold orderLoop
    rw [if_neg (by omega)]
  | succ n ih =>
    intro order turns heq hturns
    obtain ⟨turns, rfl⟩ : ∃ m, turns = m + 1 := ⟨turns - 1, by omega⟩
    unfold orderLoop
    by_cases hlt : blockSize order < total
    · have hnext : u64 (blockSize order <<< 1) = blockSize (order + 1) := by
        have hpow : blockSize (order + 1) ≤ blockSize 51 := blockSize_le (by omega)
        have hmax : blockSize 51 = 2 ^ 63 := by decide
        rw [Nat.shiftLeft_eq, pow_one, ← blockSize_succ]
        exact Nat.mod_eq_of_lt (by omega)
      -- `order` is a `uint8_t`, far from its limit
      rw [if_pos hlt, hnext, Nat.mod_eq_of_lt (by omega)]
      rcases ih (order + 1) turns (by omega) (by omega) with ⟨o, ho, hto, hloop, hfit, hleast⟩
      refine ⟨o, by omega, hto, hloop, hfit, fun k hk hko => ?_⟩
      by_cases hkeq : k = order
      · rw [hkeq]
        exact hlt
      · exact hleast k (by omega) hko
    · rw [if_neg hlt]
      exact ⟨order, le_rfl, by omega, rfl, by omega, fun k hk hko => by omega⟩

/-- The 64 turns of the model find the least order that holds the total. -/
lemma orderLoop_found (h : total ≤ 2 ^ 63) : ∃ order, order ≤ 51 ∧
    orderLoop total 64 0 pageFrameSize = some order ∧ total ≤ blockSize order ∧
    ∀ k < order, blockSize k < total := by
  have htop : total ≤ blockSize 51 := by
    rw [blockSize_eq_pow]
    exact h
  rcases orderLoop_least le_rfl htop 51 0 64 rfl (by omega) with ⟨o, _, ho, hloop, hfit, hleast⟩
  exact ⟨o, ho, hloop, hfit, fun k hk => hleast k (Nat.zero_le k) hk⟩

/-- The loop ends after some number of turns exactly for totals up to `2 ^ 63`. -/
lemma orderLoop_ends_iff :
    (∃ turns order, orderLoop total turns 0 pageFrameSize = some order) ↔ total ≤ 2 ^ 63 := by
  constructor
  · rintro ⟨turns, order, hloop⟩
    by_contra hbig
    have hlarge : 2 ^ 63 < total := by omega
    have hnone := orderLoop_none hlarge turns 0 12
    rw [show u64 (2 ^ 12) = pageFrameSize by decide, hloop] at hnone
    cases hnone
  · intro h
    rcases orderLoop_found h with ⟨order, _, hloop, _⟩
    exact ⟨64, order, hloop⟩

/-- The order the loop stops at is the least one that holds the total. -/
lemma orderLoop_spec {order : ℕ} (hloop : orderLoop total 64 0 pageFrameSize = some order) :
    total ≤ blockSize order ∧ ∀ k < order, blockSize k < total := by
  rcases orderLoop_found (orderLoop_ends_iff.mp ⟨64, order, hloop⟩) with ⟨o, _, hfound, hspec⟩
  cases hfound.symm.trans hloop
  exact hspec

/-! ## Totals -/

/-- `total_size` of a request. -/
def totalSize (size : ℕ) : ℕ := u64 (allocHeaderSize + size + 4)

lemma totalSize_of_lt (h : size + 20 < 2 ^ 64) : totalSize size = size + 20 := by
  unfold totalSize u64 allocHeaderSize
  rw [Nat.mod_eq_of_lt (by omega)]
  omega

lemma totalSize_of_wrap (hsize : size < 2 ^ 64) (h : 2 ^ 64 ≤ size + 20) :
    totalSize size = size + 20 - 2 ^ 64 := by
  unfold totalSize u64 allocHeaderSize
  omega

end LunOS.Pmm
