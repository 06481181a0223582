import Mathlib.Order.Basic

/-!
# Counted loops

`loop body n` is `for (i = 0; i < n; i++)` on a state.
-/

namespace LunOS.Loops

variable {σ : Type*} {α : Type*} {body : ℕ → σ → σ}

/-- `for (i = 0; i < n; i++)` -/
def loop (body : ℕ → σ → σ) : ℕ → σ → σ
  | 0, s => s
  | n + 1, s => body n (loop body n s)

/-- What holds of the state behind `i` turns. -/
lemma loop_inv {P : ℕ → σ → Prop} {n : ℕ} {s : σ} (h0 : P 0 s)
    (hstep : ∀ i < n, ∀ s, P i s → P (i + 1) (body i s)) : P n (loop body n s) := by
  induction n with
  | zero => exact h0
  | succ n ih =>
    have hn : P n (loop body n s) := ih fun i hi => hstep i (by omega)
    exact hstep n (by omega) _ hn

/-- What no turn changes. -/
lemma loop_field {f : σ → α} (body : ℕ → σ → σ) (h : ∀ i s, f (body i s) = f s) (n : ℕ) (s : σ) :
    f (loop body n s) = f s := by
  induction n with
  | zero => rfl
  | succ n ih => exact (h n _).trans ih

end LunOS.Loops
