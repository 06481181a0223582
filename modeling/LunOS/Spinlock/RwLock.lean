import Mathlib.Data.BitVec
import LunOS.Utils.Threads

/-!
# The reader-writer lock

`rwlock` of `spinlock.h`: one 32-bit word, bit 31 for the writer and the other bits for the number
of readers. A CPU is at one of the program points of the six functions, and every atomic access is
a step of its own, so the steps of all CPUs interleave freely. `cpu_pause` and `memory_barrier`
change no state.

- `WordOk`: the word counts the readers, or is `RWLOCK_WRITER_MASK` for one writer.
- `rwlock_exclusion`: this holds in every state of every interleaving of fewer than `2 ^ 31 - 1`
  CPUs.
-/

namespace LunOS.RwLock
open LunOS.Threads

abbrev Word := BitVec 32

/-- `RWLOCK_WRITER_MASK`. -/
def writerMask : Word := 1#32 <<< 31

/-- `RWLOCK_READER_MASK`. -/
def readerMask : Word := writerMask - 1

/-- The two ways to hold the lock. -/
inductive Mode
  | reader
  | writer
deriving DecidableEq

/-- The atomic access a CPU makes next, with the local variables it needs. -/
inductive Pc
  /-- none: the CPU is in no function of the lock -/
  | idle
  /-- `rwlock_read_lock`: an `atomic_read` -/
  | readLock
  /-- `rwlock_read_lock`: the `atomic_cmpxchg` -/
  | readLockCas (oldVal : Word)
  /-- `rwlock_read_trylock`: the `atomic_read` -/
  | readTrylock
  /-- `rwlock_read_trylock`: the `atomic_cmpxchg` -/
  | readTrylockCas (oldVal : Word)
  /-- `rwlock_read_unlock`: the `atomic_dec` -/
  | readUnlock
  /-- `rwlock_write_lock`: the `atomic_cmpxchg` -/
  | writeLock
  /-- `rwlock_write_lock`: the `atomic_read` of the inner loop -/
  | writeLockSpin
  /-- `rwlock_write_trylock`: the `atomic_cmpxchg` -/
  | writeTrylock
  /-- `rwlock_write_unlock`: the `atomic_set` -/
  | writeUnlock
deriving DecidableEq

/-- A CPU: where it is, and how it holds the lock. -/
structure Cpu where
  pc : Pc
  held : Option Mode
deriving DecidableEq

/-- Go on at another point, holding what was held. -/
def Cpu.goto (c : Cpu) (pc : Pc) : Cpu := { c with pc := pc }

/-- The next atomic access of a CPU: the word and the CPU after it. -/
def advance (w : Word) (c : Cpu) : Word × Cpu :=
  match c.pc with
  | .idle => (w, c)
  | .readLock =>
    if w &&& writerMask ≠ 0 then (w, c.goto .readLock)
    -- whether `new_val` overflows or not: `continue` in a `do`-`while` goes on with the condition
    else (w, c.goto (.readLockCas w))
  | .readLockCas oldVal =>
    if w = oldVal then (oldVal + 1, ⟨.idle, some .reader⟩) else (w, c.goto .readLock)
  | .readTrylock =>
    if w &&& writerMask ≠ 0 then (w, c.goto .idle)
    else if (w + 1) &&& readerMask = 0 then (w, c.goto .idle)
    else (w, c.goto (.readTrylockCas w))
  | .readTrylockCas oldVal =>
    if w = oldVal then (oldVal + 1, ⟨.idle, some .reader⟩) else (w, c.goto .idle)
  | .readUnlock => (w - 1, ⟨.idle, none⟩)
  | .writeLock =>
    if w = 0 then (writerMask, ⟨.idle, some .writer⟩) else (w, c.goto .writeLockSpin)
  | .writeLockSpin => if w ≠ 0 then (w, c.goto .writeLockSpin) else (w, c.goto .writeLock)
  | .writeTrylock =>
    if w = 0 then (writerMask, ⟨.idle, some .writer⟩) else (w, c.goto .idle)
  | .writeUnlock => (0, ⟨.idle, none⟩)

/-- The next access takes the lock. -/
def Acquires (w : Word) : Pc → Prop
  | .readLockCas oldVal => w = oldVal
  | .readTrylockCas oldVal => w = oldVal
  | .writeLock => w = 0
  | .writeTrylock => w = 0
  | _ => False

/-- The functions a CPU may call: each locking function at any time, and the unlocking function of
the mode in which it holds the lock. -/
inductive Call : Option Mode → Pc → Prop
  | readLock {held : Option Mode} : Call held .readLock
  | readTrylock {held : Option Mode} : Call held .readTrylock
  | writeLock {held : Option Mode} : Call held .writeLock
  | writeTrylock {held : Option Mode} : Call held .writeTrylock
  | readUnlock : Call (some .reader) .readUnlock
  | writeUnlock : Call (some .writer) .writeUnlock

/-- A move of a CPU: it calls a function, or makes its next atomic access. A CPU that holds the lock
does not take it again. -/
inductive Move {ι : Type*} : ι → Word → Cpu → Word → Cpu → Prop
  | call {i : ι} {w : Word} {c : Cpu} {pc : Pc} (hidle : c.pc = .idle) (h : Call c.held pc) :
      Move i w c w (c.goto pc)
  | access {i : ι} {w : Word} {c : Cpu} (honce : Acquires w c.pc → c.held = none) :
      Move i w c (advance w c).1 (advance w c).2

abbrev RwState (ι : Type*) := State ι Word Cpu

/-- `RWLOCK_INIT`, and no CPU in a function. -/
def RwState.init (ι : Type*) : RwState ι := ⟨0, fun _ => ⟨.idle, none⟩⟩

/-! ## The word -/

section
variable {ι : Type*} [Fintype ι]

/-- The number of CPUs that hold the lock in a mode. -/
def holders (m : Mode) (s : RwState ι) : ℕ := count (fun c : Cpu => c.held = some m) s

/-- No writer, and the word is the number of readers; or one writer, no reader, and the word is
the mask. -/
def WordOk (s : RwState ι) : Prop :=
  (holders .writer s = 0 ∧ s.shared.toNat = holders .reader s) ∨
    (holders .writer s = 1 ∧ holders .reader s = 0 ∧ s.shared = writerMask)

/-- What a CPU knows at its program point: the value it read had no writer, and it unlocks what it
holds. -/
def CpuOk (c : Cpu) : Prop :=
  match c.pc with
  | .readLockCas oldVal => oldVal.toNat < 2 ^ 31
  | .readTrylockCas oldVal => oldVal.toNat < 2 ^ 31
  | .readUnlock => c.held = some .reader
  | .writeUnlock => c.held = some .writer
  | _ => True

/-- The invariant of the lock. -/
structure Inv (s : RwState ι) : Prop where
  word : WordOk s
  cpu : ∀ i, CpuOk (s.own i)

lemma toNat_one : (1 : Word).toNat = 1 := rfl

/-- Without the writer bit the word is below `2 ^ 31`. -/
lemma toNat_lt_of_and_writerMask {w : Word} (h : w &&& writerMask = 0) : w.toNat < 2 ^ 31 := by
  have hbit : w.getLsbD 31 = false := by
    have hget := congrArg (fun v : Word => v.getLsbD 31) h
    simpa [writerMask] using hget
  by_contra hge
  -- from `2 ^ 31` on bit 31 is set
  have hlt : w.toNat < 2 ^ 32 := w.isLt
  have htest : w.toNat.testBit 31 = true := by
    rw [Nat.testBit_eq_decide_div_mod_eq]
    have hdiv : w.toNat / 2 ^ 31 = 1 := by omega
    rw [hdiv]
    decide
  rw [BitVec.getLsbD, htest] at hbit
  cases hbit

variable [DecidableEq ι] {s : RwState ι} {i : ι} {w : Word} {c : Cpu}

lemma holders_move_same (m : Mode) (h : c.held = (s.own i).held) :
    holders m (s.move i w c) = holders m s :=
  count_move_of_iff (by rw [h])

/-- A step that leaves the word and the holders alone. -/
lemma WordOk.same (h : WordOk s) (hc : c.held = (s.own i).held) :
    WordOk (s.move i s.shared c) := by
  unfold WordOk
  rw [holders_move_same .writer hc, holders_move_same .reader hc]
  exact h

omit [DecidableEq ι] in
/-- A word without the writer bit means that no writer holds the lock. -/
lemma WordOk.no_writer (h : WordOk s) (hw : s.shared.toNat < 2 ^ 31) :
    holders .writer s = 0 ∧ s.shared.toNat = holders .reader s := by
  rcases h with hread | ⟨_, _, hmask⟩
  · exact hread
  · rw [hmask] at hw
    exact absurd hw (by decide)

/-- A reader comes in. It did not hold the lock before, so fewer CPUs than there are do, and the
count stays clear of the writer bit. -/
lemma WordOk.enterReader (h : WordOk s) (hcard : Fintype.card ι < 2 ^ 31 - 1)
    (hw : s.shared.toNat < 2 ^ 31) (hfree : (s.own i).held = none) (hc : c.held = some .reader) :
    WordOk (s.move i (s.shared + 1) c) := by
  rcases h.no_writer hw with ⟨hnone, hcount⟩
  have hlt : holders .reader s < 2 ^ 31 - 1 :=
    (count_lt_card (i := i) (by rw [hfree]; simp)).trans hcard
  have hread : holders .reader (s.move i (s.shared + 1) c) = holders .reader s + 1 :=
    count_move_gain (by rw [hfree]; simp) hc
  have hwrite : holders .writer (s.move i (s.shared + 1) c) = holders .writer s :=
    count_move_of_iff (by rw [hc, hfree]; simp)
  refine Or.inl ⟨?_, ?_⟩
  · rw [hwrite, hnone]
  · rw [hread, State.move_shared, BitVec.toNat_add, hcount, toNat_one]
    exact Nat.mod_eq_of_lt (by omega)

/-- The writer comes in. -/
lemma WordOk.enterWriter (h : WordOk s) (hw : s.shared = 0) (hfree : (s.own i).held = none)
    (hc : c.held = some .writer) : WordOk (s.move i writerMask c) := by
  rcases h.no_writer (by rw [hw]; decide) with ⟨hnone, hcount⟩
  have hread : holders .reader (s.move i writerMask c) = holders .reader s :=
    count_move_of_iff (by rw [hc, hfree]; simp)
  have hwrite : holders .writer (s.move i writerMask c) = holders .writer s + 1 :=
    count_move_gain (by rw [hfree]; simp) hc
  refine Or.inr ⟨?_, ?_, rfl⟩
  · rw [hwrite, hnone]
  · rw [hread, ← hcount, hw]
    rfl

/-- A reader leaves. -/
lemma WordOk.leaveReader (h : WordOk s) (hheld : (s.own i).held = some .reader)
    (hc : c.held = none) : WordOk (s.move i (s.shared - 1) c) := by
  have hread : holders .reader (s.move i (s.shared - 1) c) + 1 = holders .reader s :=
    count_move_lose hheld (by rw [hc]; simp)
  have hwrite : holders .writer (s.move i (s.shared - 1) c) = holders .writer s :=
    count_move_of_iff (by rw [hc, hheld]; simp)
  rcases h with ⟨hnone, hcount⟩ | ⟨_, hzero, _⟩
  · refine Or.inl ⟨?_, ?_⟩
    · rw [hwrite, hnone]
    · -- the word counts CPU `i`, so the decrement does not borrow
      have hlt : s.shared.toNat < 2 ^ 32 := s.shared.isLt
      rw [State.move_shared, BitVec.toNat_sub, toNat_one]
      omega
  · omega

/-- The writer leaves. -/
lemma WordOk.leaveWriter (h : WordOk s) (hheld : (s.own i).held = some .writer)
    (hc : c.held = none) : WordOk (s.move i 0 c) := by
  have hread : holders .reader (s.move i 0 c) = holders .reader s :=
    count_move_of_iff (by rw [hc, hheld]; simp)
  have hwrite : holders .writer (s.move i 0 c) + 1 = holders .writer s :=
    count_move_lose hheld (by rw [hc]; simp)
  rcases h with ⟨hnone, _⟩ | ⟨hone, hzero, _⟩
  · omega
  · refine Or.inl ⟨by omega, ?_⟩
    rw [hread, hzero]
    rfl

/-! ## Every interleaving -/

/-- An access keeps the word right. -/
lemma Inv.word_access (h : Inv s) (hcard : Fintype.card ι < 2 ^ 31 - 1)
    (honce : Acquires s.shared (s.own i).pc → (s.own i).held = none) :
    WordOk (s.move i (advance s.shared (s.own i)).1 (advance s.shared (s.own i)).2) := by
  have hcpu := h.cpu i
  unfold CpuOk at hcpu
  unfold advance
  cases hpc : (s.own i).pc with
  | idle => exact h.word.same rfl
  | readLock =>
    simp only
    split_ifs
    · exact h.word.same rfl
    · exact h.word.same rfl
  | readLockCas oldVal =>
    rw [hpc] at honce hcpu
    simp only at hcpu ⊢
    split_ifs with hw
    · -- the word is still the one read, so no writer holds the lock
      rw [← hw] at hcpu ⊢
      exact h.word.enterReader hcard hcpu (honce hw) rfl
    · exact h.word.same rfl
  | readTrylock =>
    simp only
    split_ifs
    · exact h.word.same rfl
    · exact h.word.same rfl
    · exact h.word.same rfl
  | readTrylockCas oldVal =>
    rw [hpc] at honce hcpu
    simp only at hcpu ⊢
    split_ifs with hw
    · rw [← hw] at hcpu ⊢
      exact h.word.enterReader hcard hcpu (honce hw) rfl
    · exact h.word.same rfl
  | readUnlock =>
    rw [hpc] at hcpu
    exact h.word.leaveReader hcpu rfl
  | writeLock =>
    rw [hpc] at honce
    simp only
    split_ifs with hw
    · exact h.word.enterWriter hw (honce hw) rfl
    · exact h.word.same rfl
  | writeLockSpin =>
    simp only
    split_ifs
    · exact h.word.same rfl
    · exact h.word.same rfl
  | writeTrylock =>
    rw [hpc] at honce
    simp only
    split_ifs with hw
    · exact h.word.enterWriter hw (honce hw) rfl
    · exact h.word.same rfl
  | writeUnlock =>
    rw [hpc] at hcpu
    exact h.word.leaveWriter hcpu rfl

/-- After an access a CPU knows what its next program point needs. -/
lemma cpuOk_advance (w : Word) (c : Cpu) : CpuOk (advance w c).2 := by
  unfold advance
  cases hpc : c.pc <;> simp only
  case idle => simp [CpuOk, hpc]
  case readLock =>
    split_ifs with hw
    · trivial
    · exact toNat_lt_of_and_writerMask (not_not.mp hw)
  case readTrylock =>
    split_ifs with hw
    · trivial
    · trivial
    · exact toNat_lt_of_and_writerMask (not_not.mp hw)
  all_goals first | trivial | split_ifs <;> trivial

/-- A call that may start. -/
lemma cpuOk_call {c : Cpu} {pc : Pc} (h : Call c.held pc) : CpuOk (c.goto pc) := by
  generalize hheld : c.held = held at h
  cases h <;> trivial

/-- One move keeps the invariant. -/
lemma Inv.move (h : Inv s) (hcard : Fintype.card ι < 2 ^ 31 - 1) {g : Word} {t : Cpu}
    (hm : Move i s.shared (s.own i) g t) : Inv (s.move i g t) := by
  generalize hc : s.own i = c at hm
  cases hm with
  | call _ hcall =>
    refine ⟨h.word.same (by rw [hc]; rfl), State.forall_move_own (Q := fun _ c => CpuOk c) ?_
      fun j _ => h.cpu j⟩
    exact cpuOk_call hcall
  | access honce =>
    subst hc
    exact ⟨h.word_access hcard honce, State.forall_move_own (Q := fun _ c => CpuOk c)
      (cpuOk_advance _ _) fun j _ => h.cpu j⟩

omit [DecidableEq ι] in
lemma inv_init : Inv (RwState.init ι) := by
  have hzero : ∀ m, holders m (RwState.init ι) = 0 := by
    intro m
    exact count_eq_zero_iff.mpr fun i => by simp [RwState.init]
  refine ⟨Or.inl ⟨hzero .writer, ?_⟩, fun i => trivial⟩
  rw [hzero .reader]
  rfl

/-- In every state that fewer than `2 ^ 31 - 1` CPUs can reach, by any interleaving of the atomic
accesses, either no writer holds the lock and the word is the number of readers, or one writer and
no reader holds it and the word is `RWLOCK_WRITER_MASK`. -/
theorem rwlock_exclusion (hcard : Fintype.card ι < 2 ^ 31 - 1)
    (h : Reachable Move (RwState.init ι) s) :
    (holders .writer s = 0 ∧ s.shared.toNat = holders .reader s) ∨
      (holders .writer s = 1 ∧ holders .reader s = 0 ∧ s.shared = writerMask) := by
  have hinv : Inv s := h.invariant inv_init fun _ _ _ _ hinv hm => hinv.move hcard hm
  exact hinv.word

/-- One of two CPUs, named by `Bool`, has read the free lock and taken it as a reader. -/
def oneReader : RwState Bool :=
  (((RwState.init Bool).move false 0 ⟨.readLock, none⟩).move false 0 ⟨.readLockCas 0, none⟩).move
    false 1 ⟨.idle, some .reader⟩

/-- The other CPU wants to write, finds the lock taken and waits. -/
def writerWaits : RwState Bool :=
  (oneReader.move true 1 ⟨.writeLock, none⟩).move true 1 ⟨.writeLockSpin, none⟩

theorem rwlock_exclusion_writerWaits :
    (writerWaits.own true).pc = .writeLockSpin ∧
      ((holders .writer writerWaits = 0 ∧ writerWaits.shared.toNat = holders .reader writerWaits) ∨
        (holders .writer writerWaits = 1 ∧ holders .reader writerWaits = 0 ∧
          writerWaits.shared = writerMask)) :=
  ⟨rfl, rwlock_exclusion (by decide) (((((Reachable.refl.move (.call rfl .readLock)).move
    (.access fun h => h.elim)).move (.access fun _ => rfl)).move (.call rfl .writeLock)).move
    (.access fun _ => rfl))⟩

end

end LunOS.RwLock
