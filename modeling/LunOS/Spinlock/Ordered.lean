import Mathlib.Data.BitVec
import Mathlib.Order.Basic
import LunOS.Utils.Threads

/-!
# Two spinlocks at a time

`acquire_locks_ordered` of `spinlock.h` takes two spinlocks in the order of their addresses. A lock
is named by its address, and every `atomic_xchg`, `atomic_read` and `atomic_set` is a step of its
own. A CPU calls `acquire_locks_ordered` with any two distinct locks while it holds none, and later
unlocks both in either order.

- `Inv`: a lock whose word is 0 is free, and a lock has one holder.
- `ordered_locking_safe`: this holds in every interleaving, and no CPUs wait for each other in a
  cycle, because a CPU that holds a lock waits for one with a higher address.
-/

namespace LunOS.OrderedLocks
open LunOS.Threads Function

abbrev Word := BitVec 32

/-- The words of the spinlocks, by address. -/
abbrev Locks := ℕ → Word

/-- The locals `first` and `second` of `acquire_locks_ordered`. -/
structure Pair where
  first : ℕ
  second : ℕ
  lt : first < second

/-- The order `acquire_locks_ordered` chooses. -/
def acquireOrder (lockA lockB : ℕ) (hne : lockA ≠ lockB) : Pair :=
  if h : lockA < lockB then ⟨lockA, lockB, h⟩ else ⟨lockB, lockA, by omega⟩

/-- The atomic access a CPU makes next. -/
inductive Pc
  /-- none, and no lock is held -/
  | idle
  /-- `spinlock_lock(first)`: the `atomic_xchg` -/
  | first (p : Pair)
  /-- `spinlock_lock(first)`: the `atomic_read` of the inner loop -/
  | firstSpin (p : Pair)
  /-- `spinlock_lock(second)`: the `atomic_xchg` -/
  | second (p : Pair)
  /-- `spinlock_lock(second)`: the `atomic_read` of the inner loop -/
  | secondSpin (p : Pair)
  /-- both locks are held, and one of them will be unlocked -/
  | both (p : Pair)
  /-- one lock is left to unlock -/
  | one (lock : ℕ)

/-- The moves of a CPU. -/
inductive Move {ι : Type*} : ι → Locks → Pc → Locks → Pc → Prop
  | call {i : ι} {m : Locks} (lockA lockB : ℕ) (hne : lockA ≠ lockB) :
      Move i m .idle m (.first (acquireOrder lockA lockB hne))
  | xchgFirst {i : ι} {m : Locks} {p : Pair} : Move i m (.first p) (update m p.first 1)
      (if m p.first ≠ 0 then .firstSpin p else .second p)
  | readFirst {i : ι} {m : Locks} {p : Pair} : Move i m (.firstSpin p) m
      (if m p.first ≠ 0 then .firstSpin p else .first p)
  | xchgSecond {i : ι} {m : Locks} {p : Pair} : Move i m (.second p) (update m p.second 1)
      (if m p.second ≠ 0 then .secondSpin p else .both p)
  | readSecond {i : ι} {m : Locks} {p : Pair} : Move i m (.secondSpin p) m
      (if m p.second ≠ 0 then .secondSpin p else .second p)
  | unlockFirst {i : ι} {m : Locks} {p : Pair} :
      Move i m (.both p) (update m p.first 0) (.one p.second)
  | unlockSecond {i : ι} {m : Locks} {p : Pair} :
      Move i m (.both p) (update m p.second 0) (.one p.first)
  | unlockLast {i : ι} {m : Locks} {lock : ℕ} :
      Move i m (.one lock) (update m lock 0) .idle

abbrev LockState (ι : Type*) := State ι Locks Pc

/-- Every lock as `SPINLOCK_INIT` sets it, and every CPU outside. -/
def LockState.init (ι : Type*) : LockState ι := ⟨fun _ => 0, fun _ => .idle⟩

/-- The locks a CPU holds. -/
def Holds : Pc → ℕ → Prop
  | .idle, _ | .first _, _ | .firstSpin _, _ => False
  | .second p, l | .secondSpin p, l => l = p.first
  | .both p, l => l = p.first ∨ l = p.second
  | .one lock, l => l = lock

/-- The lock a CPU is trying to take. -/
def wants : Pc → Option ℕ
  | .first p | .firstSpin p => some p.first
  | .second p | .secondSpin p => some p.second
  | _ => none

/-- CPU `i` waits for a lock that CPU `j` holds. -/
def WaitsFor {ι : Type*} (s : LockState ι) (i j : ι) : Prop :=
  ∃ l, wants (s.own i) = some l ∧ Holds (s.own j) l

/-! ## One holder -/

section
variable {ι : Type*} {s : LockState ι} {i : ι}

/-- The invariant of the lock words. -/
structure Inv (s : LockState ι) : Prop where
  busy : ∀ l i, Holds (s.own i) l → s.shared l ≠ 0
  unique : ∀ l i j, Holds (s.own i) l → Holds (s.own j) l → i = j

lemma inv_init : Inv (LockState.init ι) := ⟨fun _ _ h => h.elim, fun _ _ _ h => h.elim⟩

variable [DecidableEq ι]

/-- What a move must respect: a lock is taken only while its word is 0, its word is cleared only by
its holder, and the words of the locks the CPU holds are set. -/
structure Lawful (m : Locks) (pc : Pc) (m' : Locks) (pc' : Pc) : Prop where
  takes : ∀ l, Holds pc' l → Holds pc l ∨ m l = 0
  clears : ∀ l, m' l = 0 → m l = 0 ∨ Holds pc l
  sets : ∀ l, Holds pc' l → m' l ≠ 0

/-- One move keeps the invariant. -/
lemma Inv.move (h : Inv s) {m' : Locks} {pc' : Pc}
    (hlaw : Lawful s.shared (s.own i) m' pc') : Inv (s.move i m' pc') := by
  -- a lock that another CPU holds is neither taken nor cleared
  have hother : ∀ l j, j ≠ i → Holds (s.own j) l → ¬ Holds pc' l ∧ m' l ≠ 0 := by
    intro l j hj hheld
    refine ⟨fun hi => ?_, fun hzero => ?_⟩
    · rcases hlaw.takes l hi with hi | hfree
      · exact hj (h.unique l j i hheld hi)
      · exact h.busy l j hheld hfree
    · rcases hlaw.clears l hzero with hfree | hi
      · exact h.busy l j hheld hfree
      · exact hj (h.unique l j i hheld hi)
  refine ⟨fun l => ?_, fun l j k hj hk => ?_⟩
  · exact State.forall_move_own (Q := fun _ pc => Holds pc l → m' l ≠ 0) (hlaw.sets l)
      fun j hj hheld => (hother l j hj hheld).2
  · by_cases hji : j = i
    · by_cases hki : k = i
      · rw [hji, hki]
      · rw [hji, State.move_own_self] at hj
        rw [State.move_own_of_ne hki] at hk
        exact absurd hj (hother l k hki hk).1
    · rw [State.move_own_of_ne hji] at hj
      by_cases hki : k = i
      · rw [hki, State.move_own_self] at hk
        exact absurd hk (hother l j hji hj).1
      · rw [State.move_own_of_ne hki] at hk
        exact h.unique l j k hj hk

/-- Setting a word clears no other. -/
lemma eq_zero_of_set {m : Locks} {a l : ℕ} (h : update m a 1 l = 0) : m l = 0 := by
  by_cases hl : l = a
  · rw [hl, update_self] at h
    exact absurd h (by decide)
  · rw [update_of_ne hl] at h
    exact h

/-- Clearing a word clears no other. -/
lemma eq_zero_of_clear {m : Locks} {a l : ℕ} (h : update m a 0 l = 0) :
    m l = 0 ∨ l = a := by
  by_cases hl : l = a
  · exact Or.inr hl
  · rw [update_of_ne hl] at h
    exact Or.inl h

omit [DecidableEq ι] in
/-- The moves are lawful for a CPU whose locks are set. -/
lemma Move.lawful {m m' : Locks} {pc pc' : Pc} (hm : Move i m pc m' pc')
    (hbusy : ∀ l, Holds pc l → m l ≠ 0) : Lawful m pc m' pc' := by
  cases hm with
  | call lockA lockB hne => exact ⟨fun l h => h.elim, fun l h => Or.inl h, fun l h => h.elim⟩
  | @xchgFirst p =>
    by_cases hfree : m p.first ≠ 0
    · -- `atomic_xchg` stores 1 also when it fails, over a word that was set already
      rw [if_pos hfree]
      exact ⟨fun l h => h.elim, fun l h => Or.inl (eq_zero_of_set h), fun l h => h.elim⟩
    · rw [if_neg hfree]
      have hzero : m p.first = 0 := not_not.mp hfree
      refine ⟨fun l h => ?_, fun l h => Or.inl (eq_zero_of_set h), fun l h => ?_⟩
      · rw [show l = p.first from h]
        exact Or.inr hzero
      · rw [show l = p.first from h, update_self]
        decide
  | @readFirst p =>
    have hnone : ∀ l, ¬ Holds (if m p.first ≠ 0 then .firstSpin p else .first p) l := by
      intro l
      split_ifs <;> exact id
    exact ⟨fun l h => absurd h (hnone l), fun l h => Or.inl h, fun l h => absurd h (hnone l)⟩
  | @xchgSecond p =>
    have hfirst : update m p.second 1 p.first ≠ 0 :=
      fun h => hbusy p.first rfl (eq_zero_of_set h)
    by_cases hfree : m p.second ≠ 0
    · rw [if_pos hfree]
      refine ⟨fun l h => Or.inl h, fun l h => Or.inl (eq_zero_of_set h), fun l h => ?_⟩
      rw [show l = p.first from h]
      exact hfirst
    · rw [if_neg hfree]
      have hzero : m p.second = 0 := not_not.mp hfree
      refine ⟨fun l h => ?_, fun l h => Or.inl (eq_zero_of_set h), fun l h => ?_⟩
      · rcases h with h | h
        · exact Or.inl h
        · rw [h]
          exact Or.inr hzero
      · rcases h with h | h
        · rw [h]
          exact hfirst
        · rw [h, update_self]
          decide
  | @readSecond p =>
    have hsame : ∀ l, Holds (if m p.second ≠ 0 then .secondSpin p else .second p) l →
        Holds (.secondSpin p) l := by
      intro l
      split_ifs <;> exact id
    exact ⟨fun l h => Or.inl (hsame l h), fun l h => Or.inl h, fun l h => hbusy l (hsame l h)⟩
  | @unlockFirst p =>
    have hlt := p.lt
    refine ⟨fun l h => Or.inl (Or.inr h), fun l h => ?_, fun l h => ?_⟩
    · rcases eq_zero_of_clear h with h | h
      · exact Or.inl h
      · exact Or.inr (Or.inl h)
    · rw [show l = p.second from h, update_of_ne (by omega)]
      exact hbusy p.second (Or.inr rfl)
  | @unlockSecond p =>
    have hlt := p.lt
    refine ⟨fun l h => Or.inl (Or.inl h), fun l h => ?_, fun l h => ?_⟩
    · rcases eq_zero_of_clear h with h | h
      · exact Or.inl h
      · exact Or.inr (Or.inr h)
    · rw [show l = p.first from h, update_of_ne (by omega)]
      exact hbusy p.first (Or.inl rfl)
  | unlockLast =>
    refine ⟨fun l h => h.elim, fun l h => ?_, fun l h => h.elim⟩
    exact eq_zero_of_clear h

lemma Reachable.inv (h : Reachable Move (LockState.init ι) s) : Inv s :=
  h.invariant inv_init fun _ i _ _ hinv hm =>
    hinv.move (hm.lawful fun l hheld => hinv.busy l i hheld)

/-! ## No cycle -/

omit [DecidableEq ι]

/-- A CPU that waits while it holds a lock waits for one with a higher address. -/
lemma holds_lt_wants {pc : Pc} {l l' : ℕ} (h : Holds pc l) (hw : wants pc = some l') : l < l' := by
  cases pc with
  | second p =>
    cases hw
    rw [show l = p.first from h]
    exact p.lt
  | secondSpin p =>
    cases hw
    rw [show l = p.first from h]
    exact p.lt
  | first p => exact h.elim
  | firstSpin p => exact h.elim
  | idle => cases hw
  | both p => cases hw
  | one lock => cases hw

/-- Along a chain of waiting CPUs the addresses they wait for rise. -/
lemma wants_lt_of_chain {j : ι} (h : Relation.TransGen (WaitsFor s) i j) {l l' : ℕ}
    (hi : wants (s.own i) = some l) (hj : wants (s.own j) = some l') : l < l' := by
  -- on the chain, from its end: every CPU but the first holds what the one before it waits for
  induction h generalizing l' with
  | single hwait =>
    rcases hwait with ⟨k, hk, hheld⟩
    rw [hi] at hk
    cases hk
    exact holds_lt_wants hheld hj
  | tail _ hwait ih =>
    rcases hwait with ⟨k, hk, hheld⟩
    exact (ih hk).trans (holds_lt_wants hheld hj)

/-- Nobody waits for itself. -/
lemma not_waits_cycle (i : ι) : ¬ Relation.TransGen (WaitsFor s) i i := by
  intro h
  have hfirst : ∃ j, WaitsFor s i j := by
    rcases Relation.TransGen.head'_iff.mp h with ⟨j, hwait, _⟩
    exact ⟨j, hwait⟩
  -- on a cycle the address CPU `i` waits for would be higher than itself
  rcases hfirst with ⟨_, l, hl, _⟩
  exact lt_irrefl l (wants_lt_of_chain h hl hl)

/-- In every interleaving a spinlock has at most one holder, and there is no cycle of CPUs each of
which waits for a lock that the next one holds. -/
theorem ordered_locking_safe [DecidableEq ι] (h : Reachable Move (LockState.init ι) s) :
    (∀ l i j, Holds (s.own i) l → Holds (s.own j) l → i = j) ∧
      ¬ ∃ i, Relation.TransGen (WaitsFor s) i i := by
  refine ⟨(Reachable.inv h).unique, ?_⟩
  rintro ⟨i, hcycle⟩
  exact not_waits_cycle i hcycle

/-- Two CPUs take the same pair in opposite argument order: the first has one lock, the second
tries to take it. -/
def opposed : LockState (Fin 2) :=
  (((LockState.init (Fin 2)).move 0 (fun _ => 0) (.first (acquireOrder 16 32 (by decide)))).move 1
    (fun _ => 0) (.first (acquireOrder 32 16 (by decide)))).move 0
    (update (fun _ => 0) 16 1) (.second (acquireOrder 16 32 (by decide)))

theorem ordered_locking_safe_opposed :
    (∀ l i j, Holds (opposed.own i) l → Holds (opposed.own j) l → i = j) ∧
      ¬ ∃ i, Relation.TransGen (WaitsFor opposed) i i :=
  ordered_locking_safe (((Reachable.refl.move (.call 16 32 (by decide))).move
    (.call 32 16 (by decide))).move .xchgFirst)

end

end LunOS.OrderedLocks
