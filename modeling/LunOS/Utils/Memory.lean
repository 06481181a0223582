import Mathlib.Tactic

/-!
# Byte memory and little-endian fields

A memory is a total map from addresses to bytes. `readLE m a n` is the little-endian value of the
`n` bytes at `a`, `writeLE m a n v` stores the low `n` bytes of `v` there. The lemmas are the ones
a field access needs: a field read back after it was written, a field away from a write, and a
field of two memories that agree on its bytes. The masks of a 64-bit word that clear or keep its
low bits are division and remainder (`land_highMask`, `land_lowMask`).
-/

namespace LunOS.Memory

/-- Byte-addressed memory. -/
abbrev Mem := ℕ → UInt8

/-- The little-endian value of `n` bytes at `a`. -/
def readLE (m : Mem) : ℕ → ℕ → ℕ
  | _, 0 => 0
  | a, n + 1 => (m a).toNat + 256 * readLE m (a + 1) n

/-- Store the low `n` bytes of `v` at `a`, little-endian. -/
def writeLE (m : Mem) (a n v : ℕ) : Mem := fun x =>
  if a ≤ x ∧ x < a + n then UInt8.ofNat (v / 256 ^ (x - a)) else m x

lemma writeLE_of_outside {m : Mem} {a n v x : ℕ} (h : x < a ∨ a + n ≤ x) :
    writeLE m a n v x = m x := by
  unfold writeLE
  rw [if_neg (by omega)]

/-- A field depends only on its own bytes. -/
lemma readLE_congr {m m' : Mem} {n : ℕ} : ∀ {a : ℕ},
    (∀ x, a ≤ x → x < a + n → m x = m' x) → readLE m a n = readLE m' a n := by
  induction n with
  | zero => intro a _; rfl
  | succ n ih =>
    intro a h
    have hrest : readLE m (a + 1) n = readLE m' (a + 1) n :=
      ih fun x hx hx' => h x (by omega) (by omega)
    rw [readLE, readLE, h a (le_refl a) (by omega), hrest]

/-- A field away from a write keeps its value. -/
lemma readLE_writeLE_of_disjoint {m : Mem} {a n b k v : ℕ} (h : a + n ≤ b ∨ b + k ≤ a) :
    readLE (writeLE m b k v) a n = readLE m a n :=
  readLE_congr fun _ hx hx' => writeLE_of_outside (by omega)

/-- Reading a field back gives the value stored, up to its width. -/
lemma readLE_writeLE_mod (m : Mem) : ∀ (n a v : ℕ),
    readLE (writeLE m a n v) a n = v % 256 ^ n := by
  intro n
  induction n with
  | zero => intro a v; simp [readLE, Nat.mod_one]
  | succ n ih =>
    intro a v
    -- the tail of the field is the field of `v / 256` one byte further
    have htail : readLE (writeLE m a (n + 1) v) (a + 1) n
        = readLE (writeLE m (a + 1) n (v / 256)) (a + 1) n := by
      refine readLE_congr fun x hx hx' => ?_
      unfold writeLE
      rw [if_pos (by omega), if_pos (by omega), Nat.div_div_eq_div_mul, ← pow_succ',
        show x - (a + 1) + 1 = x - a by omega]
    have hhead : (writeLE m a (n + 1) v a).toNat = v % 256 := by
      unfold writeLE
      rw [if_pos (by omega), Nat.sub_self, pow_zero, Nat.div_one]
      simp
    rw [readLE, htail, ih, hhead, pow_succ', Nat.mod_mul]

/-- What was written is read. -/
lemma readLE_writeLE_same {m : Mem} {a n v : ℕ} (h : v < 256 ^ n) :
    readLE (writeLE m a n v) a n = v := by
  rw [readLE_writeLE_mod, Nat.mod_eq_of_lt h]

/-- The low byte of a word. -/
lemma readLE_mod (m : Mem) (a n : ℕ) : readLE m a (n + 1) % 256 = (m a).toNat := by
  have := (m a).toNat_lt
  rw [readLE, Nat.add_mul_mod_self_left, Nat.mod_eq_of_lt (by omega)]

/-! ## Masks -/

/-- Keeping the low `k` bits is the remainder by `2 ^ k`. -/
lemma land_lowMask (x k : ℕ) : x &&& (2 ^ k - 1) = x % 2 ^ k :=
  Nat.and_two_pow_sub_one_eq_mod x k

/-- Clearing the low `k` bits of an `n`-bit word subtracts the remainder. -/
lemma land_highMask {x n k : ℕ} (hk : k ≤ n) (hx : x < 2 ^ n) :
    x &&& (2 ^ n - 2 ^ k) = x / 2 ^ k * 2 ^ k := by
  have hmask : 2 ^ n - 2 ^ k = 2 ^ k * (2 ^ (n - k) - 1) := by
    rw [Nat.mul_sub, ← pow_add, mul_one, Nat.add_sub_cancel' hk]
  apply Nat.eq_of_testBit_eq
  intro i
  rw [hmask, Nat.testBit_and, Nat.testBit_two_pow_mul, Nat.testBit_two_pow_sub_one,
    Nat.mul_comm (x / 2 ^ k), Nat.testBit_two_pow_mul, Nat.testBit_div_two_pow]
  by_cases hi : k ≤ i
  · simp only [hi, decide_true, Bool.true_and, Nat.sub_add_cancel hi]
    by_cases hin : i < n
    · simp [show i - k < n - k by omega]
    · have hbit : x.testBit i = false :=
        Nat.testBit_lt_two_pow (lt_of_lt_of_le hx (Nat.pow_le_pow_right (by norm_num) (by omega)))
      simp [hbit]
  · simp [hi]

end LunOS.Memory
