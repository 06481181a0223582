import Mathlib.Data.Fintype.Card
import Mathlib.Logic.Relation

/-!
# Threads over a shared state

A thread moves by itself: it reads and changes the shared state and its own state, and any
interleaving of the moves of all threads is a run.

- `Step P`: one thread makes a move of `P`.
- `Reachable.invariant`: what holds initially and is kept by every move holds in every state.
- `count p s`: the number of threads whose own state has the property `p`, and how a move changes
  it.
-/

namespace LunOS.Threads
open Function

variable {ι σ τ : Type*}

/-- The shared state and the own state of each thread. -/
structure State (ι σ τ : Type*) where
  shared : σ
  own : ι → τ

section
variable [DecidableEq ι]

/-- The state after a move of thread `i`. -/
def State.move (s : State ι σ τ) (i : ι) (g : σ) (t : τ) : State ι σ τ :=
  ⟨g, update s.own i t⟩

/-- Thread `i` makes a move `P i`. -/
inductive Step (P : ι → σ → τ → σ → τ → Prop) : State ι σ τ → State ι σ τ → Prop
  | move {s : State ι σ τ} {i : ι} {g : σ} {t : τ} (h : P i s.shared (s.own i) g t) :
      Step P s (s.move i g t)

/-- The states reachable from `s₀` by any interleaving. -/
def Reachable (P : ι → σ → τ → σ → τ → Prop) (s₀ s : State ι σ τ) : Prop :=
  Relation.ReflTransGen (Step P) s₀ s

variable {P : ι → σ → τ → σ → τ → Prop} {s₀ s : State ι σ τ} {i j : ι} {g : σ} {t : τ}

lemma Reachable.refl : Reachable P s₀ s₀ := Relation.ReflTransGen.refl

/-- A run goes on with a move. -/
lemma Reachable.move (h : Reachable P s₀ s) (hst : P i s.shared (s.own i) g t) :
    Reachable P s₀ (s.move i g t) := Relation.ReflTransGen.tail h (.move hst)

/-- The rule for invariants. -/
lemma Reachable.invariant {I : State ι σ τ → Prop} (h : Reachable P s₀ s) (hinit : I s₀)
    (hmove : ∀ (s : State ι σ τ) (i : ι) (g : σ) (t : τ), I s → P i s.shared (s.own i) g t →
      I (s.move i g t)) : I s := by
  induction h with
  | refl => exact hinit
  | tail _ hst ih =>
    cases hst with
    | move hP => exact hmove _ _ _ _ ih hP

@[simp] lemma State.move_shared : (s.move i g t).shared = g := rfl

@[simp] lemma State.move_own_self : (s.move i g t).own i = t :=
  update_self ..

lemma State.move_own_of_ne (h : j ≠ i) : (s.move i g t).own j = s.own j :=
  update_of_ne h ..

/-- Of two moves of one thread the second remains. -/
lemma State.move_move {g' : σ} {t' : τ} : (s.move i g t).move i g' t' = s.move i g' t' := by
  unfold State.move
  rw [update_idem]

/-- What holds of the own states after a move. -/
lemma State.forall_move_own {Q : ι → τ → Prop} (hi : Q i t) (hj : ∀ j, j ≠ i → Q j (s.own j)) :
    ∀ j, Q j ((s.move i g t).own j) := by
  intro j
  by_cases hji : j = i
  · rw [hji, State.move_own_self]
    exact hi
  · rw [State.move_own_of_ne hji]
    exact hj j hji

end

/-! ## Counting -/

section
variable [Fintype ι] {s : State ι σ τ}

/-- The number of threads with property `p`. -/
def count (p : τ → Prop) [DecidablePred p] (s : State ι σ τ) : ℕ :=
  (Finset.univ.filter fun i => p (s.own i)).card

variable {p : τ → Prop} [DecidablePred p]

lemma count_eq_zero_iff : count p s = 0 ↔ ∀ i, ¬ p (s.own i) := by
  simp [count, Finset.filter_eq_empty_iff]

/-- A thread without the property is not counted. -/
lemma count_lt_card {i : ι} (h : ¬ p (s.own i)) : count p s < Fintype.card ι := by
  apply Finset.card_lt_univ_of_notMem (x := i)
  simp [h]

variable [DecidableEq ι] {i : ι} {g : σ} {t : τ}

/-- A move that does not count. -/
lemma count_move_of_iff (h : p t ↔ p (s.own i)) : count p (s.move i g t) = count p s := by
  unfold count
  congr 1
  apply Finset.filter_congr
  intro j _
  by_cases hji : j = i
  · rw [hji, State.move_own_self, h]
  · rw [State.move_own_of_ne hji]

/-- The thread gains the property. -/
lemma count_move_gain (h : ¬ p (s.own i)) (ht : p t) :
    count p (s.move i g t) = count p s + 1 := by
  have hset : (Finset.univ.filter fun j => p ((s.move i g t).own j))
      = insert i (Finset.univ.filter fun j => p (s.own j)) := by
    ext j
    by_cases hji : j = i
    · simp [hji, ht]
    · simp [hji, State.move_own_of_ne hji]
  unfold count
  rw [hset, Finset.card_insert_of_notMem (by simp [h])]

/-- The thread loses the property. -/
lemma count_move_lose (h : p (s.own i)) (ht : ¬ p t) :
    count p (s.move i g t) + 1 = count p s := by
  -- the move back gains it
  have hback : s = (s.move i g t).move i s.shared (s.own i) := by
    cases s with
    | mk shared own => simp [State.move]
  have hgain := count_move_gain (s := s.move i g t) (i := i) (g := s.shared) (t := s.own i)
    (by rw [State.move_own_self]; exact ht) h
  rw [← hback] at hgain
  exact hgain.symm

end

end LunOS.Threads
