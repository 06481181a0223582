import LunOS.Spinlock.RwLock
import Mathlib.Data.Nat.Bitwise

/-!
# The largest number of readers

`rwlock_read_lock` and `rwlock_read_trylock` both test whether one more reader would overflow into
the writer bit. In `rwlock_read_lock` the test has no effect: its `continue` goes on with the
`atomic_cmpxchg` in the condition of the loop. Here the word starts with any value, the other CPUs
make any calls, and what every access in `rwlock_read_lock` does is compared with
`rwlock_read_trylock`.

- `TraceRun`: an interleaving with the list of its accesses.
- `readLock_guarded_iff`: the two functions agree on every access but one from `2 ^ 31 - 1` readers.
-/

namespace LunOS.RwLock
open LunOS.Threads

/-! ## Words -/

lemma writerMask_toNat : writerMask.toNat = 2 ^ 31 := by decide

lemma readerMask_toNat : readerMask.toNat = 2 ^ 31 - 1 := by decide

/-- The writer bit is clear exactly in the words below `2 ^ 31`. -/
lemma and_writerMask_eq_zero_iff {w : Word} : w &&& writerMask = 0 ↔ w.toNat < 2 ^ 31 := by
  refine ⟨toNat_lt_of_and_writerMask, fun hlt => ?_⟩
  apply BitVec.eq_of_toNat_eq
  have hbit : w.toNat.testBit 31 = false := Nat.testBit_lt_two_pow hlt
  rw [BitVec.toNat_and, writerMask_toNat, Nat.and_two_pow, hbit]
  rfl

lemma toNat_ne_of_ne_readerMask {w : Word} (h : w ≠ readerMask) : w.toNat ≠ 2 ^ 31 - 1 := by
  intro heq
  exact h (BitVec.eq_of_toNat_eq (heq.trans readerMask_toNat.symm))

/-- One more reader sets the writer bit exactly from `2 ^ 31 - 1` readers. -/
lemma succ_and_writerMask {w : Word} (hw : w.toNat < 2 ^ 31) :
    (w + 1) &&& writerMask = 0 ↔ w ≠ readerMask := by
  have hsucc : (w + 1).toNat = w.toNat + 1 := by
    rw [BitVec.toNat_add, toNat_one]
    omega
  rw [and_writerMask_eq_zero_iff, hsucc]
  constructor
  · rintro hlt rfl
    rw [readerMask_toNat] at hlt
    omega
  · intro hne
    have hmax := toNat_ne_of_ne_readerMask hne
    omega

/-- The test for overflow meets `2 ^ 31 - 1` readers and no other word without the writer bit. -/
lemma succ_and_readerMask {w : Word} (hw : w.toNat < 2 ^ 31) :
    (w + 1) &&& readerMask = 0 ↔ w = readerMask := by
  have hsucc : (w + 1).toNat = w.toNat + 1 := by
    rw [BitVec.toNat_add, toNat_one]
    omega
  have hmod : ((w + 1) &&& readerMask).toNat = (w.toNat + 1) % 2 ^ 31 := by
    rw [BitVec.toNat_and, readerMask_toNat, Nat.and_two_pow_sub_one_eq_mod, hsucc]
  constructor
  · intro hzero
    rw [hzero] at hmod
    have hmod' : (0 : ℕ) = (w.toNat + 1) % 2 ^ 31 := hmod
    by_contra hne
    have hmax := toNat_ne_of_ne_readerMask hne
    omega
  · rintro rfl
    decide

/-! ## The two functions -/

/-- The CPU is in `rwlock_read_lock`. -/
def InReadLock (pc : Pc) : Prop := pc = .readLock ∨ ∃ oldVal, pc = .readLockCas oldVal

/-- `rwlock_read_trylock` takes the lock when nobody else accesses the word. -/
def TrylockTakes (w : Word) : Prop :=
  (advance w (advance w ⟨.readTrylock, none⟩).2).2.held = some .reader

/-- When a try succeeds. -/
lemma trylockTakes_iff (w : Word) : TrylockTakes w ↔ w.toNat < 2 ^ 31 ∧ w ≠ readerMask := by
  unfold TrylockTakes
  by_cases hw : w &&& writerMask = 0
  · have hlt := and_writerMask_eq_zero_iff.mp hw
    by_cases hmax : w = readerMask
    · -- the overflow is noticed
      rw [hmax]
      exact iff_of_false (by decide) fun h => h.2 rfl
    · have hroom : ¬(w + 1) &&& readerMask = 0 := fun h => hmax ((succ_and_readerMask hlt).mp h)
      have hread : (advance w ⟨.readTrylock, none⟩).2 = ⟨.readTrylockCas w, none⟩ := by
        unfold advance
        simp only
        rw [if_neg (not_not.mpr hw), if_neg hroom]
        rfl
      rw [hread]
      exact iff_of_true (by simp [advance]) ⟨hlt, hmax⟩
  · have hread : (advance w ⟨.readTrylock, none⟩).2 = ⟨.idle, none⟩ := by
      unfold advance
      simp only
      rw [if_pos hw]
      rfl
    rw [hread]
    exact iff_of_false (by simp [advance]) fun h => hw (and_writerMask_eq_zero_iff.mpr h.1)

/-- What is expected of an access to the word `w` in `rwlock_read_lock`. -/
structure ReadGuarded (w : Word) (c : Cpu) : Prop where
  installs : (advance w c).1 ≠ w → (advance w c).1 &&& writerMask = 0
  takes : Acquires w c.pc → TrylockTakes w
  waits : w = readerMask → (advance w c).1 = w ∧ InReadLock (advance w c).2.pc

/-- The `atomic_cmpxchg` of `rwlock_read_lock` meets the word that was read, with `2 ^ 31 - 1`
readers. -/
def AtMaximum (w : Word) (c : Cpu) : Prop := c.pc = .readLockCas readerMask ∧ w = readerMask

/-- A CPU compares with a word that had no writer. -/
def ReadClean (c : Cpu) : Prop := ∀ oldVal, c.pc = .readLockCas oldVal → oldVal.toNat < 2 ^ 31

variable {w : Word} {c : Cpu}

lemma readGuarded_readLock (hpc : c.pc = .readLock) : ReadGuarded w c := by
  have hsame : (advance w c).1 = w := by
    unfold advance
    rw [hpc]
    simp only
    split_ifs <;> rfl
  have hstays : InReadLock (advance w c).2.pc := by
    unfold advance
    rw [hpc]
    simp only
    split_ifs
    · exact Or.inl rfl
    · exact Or.inr ⟨w, rfl⟩
  refine ⟨fun hne => absurd hsame hne, fun hacq => ?_, fun _ => ⟨hsame, hstays⟩⟩
  rw [hpc] at hacq
  exact hacq.elim

/-- A successful `atomic_cmpxchg` adds a reader to a word without a writer. -/
lemma readGuarded_cas {oldVal : Word} (hpc : c.pc = .readLockCas oldVal)
    (hclean : oldVal.toNat < 2 ^ 31) : ReadGuarded w c ↔ ¬AtMaximum w c := by
  by_cases hw : w = oldVal
  · have hnew : (advance w c).1 = oldVal + 1 := by simp [advance, hpc, hw]
    have hidle : (advance w c).2.pc = .idle := by simp [advance, hpc, hw]
    constructor
    · rintro hguard ⟨-, hmax⟩
      rcases (hguard.waits hmax).2 with hpc' | ⟨v, hpc'⟩
      · rw [hidle] at hpc'
        cases hpc'
      · rw [hidle] at hpc'
        cases hpc'
    · intro hnot
      have hmax : oldVal ≠ readerMask := by
        rintro rfl
        exact hnot ⟨hpc, hw⟩
      refine ⟨fun _ => ?_, fun _ => ?_, fun heq => absurd (hw.symm.trans heq) hmax⟩
      · rw [hnew]
        exact (succ_and_writerMask hclean).mpr hmax
      · rw [hw]
        exact (trylockTakes_iff oldVal).mpr ⟨hclean, hmax⟩
  · -- another CPU has changed the word in between, and the loop starts again
    have hsame : (advance w c).1 = w := by simp [advance, hpc, hw]
    have hagain : (advance w c).2.pc = .readLock := by simp [advance, hpc, hw, Cpu.goto]
    have hguard : ReadGuarded w c := by
      refine ⟨fun hne => absurd hsame hne, fun hacq => ?_, fun _ => ⟨hsame, Or.inl hagain⟩⟩
      rw [hpc] at hacq
      exact absurd hacq hw
    refine iff_of_true hguard ?_
    rintro ⟨hpc', hmax⟩
    rw [hpc, Pc.readLockCas.injEq] at hpc'
    exact hw (hmax.trans hpc'.symm)

lemma readGuarded_iff (hin : InReadLock c.pc) (hclean : ReadClean c) :
    ReadGuarded w c ↔ ¬AtMaximum w c := by
  rcases hin with hpc | ⟨oldVal, hpc⟩
  · refine iff_of_true (readGuarded_readLock hpc) ?_
    rintro ⟨hpc', -⟩
    rw [hpc] at hpc'
    cases hpc'
  · exact readGuarded_cas hpc (hclean oldVal hpc)

/-- An access leaves a CPU with a word that had no writer. -/
lemma readClean_advance (w : Word) (c : Cpu) (hc : ReadClean c) : ReadClean (advance w c).2 := by
  intro oldVal hpc
  cases hold : c.pc with
  | idle =>
    have hsame : (advance w c).2 = c := by simp [advance, hold]
    rw [hsame] at hpc
    exact hc oldVal hpc
  | readLock =>
    unfold advance at hpc
    rw [hold] at hpc
    simp only at hpc
    split_ifs at hpc with hw
    · exact absurd hpc (by simp [Cpu.goto])
    · have hval : w = oldVal := Pc.readLockCas.inj hpc
      rw [← hval]
      exact toNat_lt_of_and_writerMask (not_not.mp hw)
  | _ =>
    -- no other access leads to this point
    unfold advance at hpc
    rw [hold] at hpc
    simp only at hpc
    try split_ifs at hpc
    all_goals exact absurd hpc (by simp [Cpu.goto])

/-! ## Every interleaving -/

variable {ι : Type*} [DecidableEq ι]

/-- The first program point of a function. -/
def Entry (pc : Pc) : Prop :=
  pc ∈ [.readLock, .readTrylock, .readUnlock, .writeLock, .writeTrylock, .writeUnlock]

/-- An interleaving of calls of any of the functions and of accesses, with the word and the CPU
before every access. -/
inductive TraceRun (s₀ : RwState ι) : List (Word × Cpu) → RwState ι → Prop
  | start : TraceRun s₀ [] s₀
  | call {l : List (Word × Cpu)} {s : RwState ι} (i : ι) (pc : Pc) (h : TraceRun s₀ l s)
      (hidle : (s.own i).pc = .idle) (hpc : Entry pc) :
      TraceRun s₀ l (s.move i s.shared ((s.own i).goto pc))
  | access {l : List (Word × Cpu)} {s : RwState ι} (i : ι) (h : TraceRun s₀ l s) :
      TraceRun s₀ ((s.shared, s.own i) :: l)
        (s.move i (advance s.shared (s.own i)).1 (advance s.shared (s.own i)).2)

/-- Any word, and CPUs that are in no function and hold the lock in any way. -/
def RwState.start (w : Word) (held : ι → Option Mode) : RwState ι := ⟨w, fun i => ⟨.idle, held i⟩⟩

/-- The step and the run lemma in one: CPUs are clean after every step and before every access. -/
lemma TraceRun.clean {held : ι → Option Mode} {l : List (Word × Cpu)} {s : RwState ι}
    (h : TraceRun (RwState.start w held) l s) :
    (∀ i, ReadClean (s.own i)) ∧ ∀ a ∈ l, ReadClean a.2 := by
  induction h with
  | start =>
    refine ⟨fun i oldVal hpc => ?_, fun a ha => absurd ha List.not_mem_nil⟩
    exact absurd hpc (by simp [RwState.start])
  | @call l s i pc _ _ hpc ih =>
    refine ⟨State.forall_move_own (Q := fun _ c => ReadClean c) ?_ fun j _ => ih.1 j, ih.2⟩
    intro oldVal hcas
    have hcas' : pc = .readLockCas oldVal := hcas
    rw [hcas'] at hpc
    exact absurd hpc (by simp [Entry])
  | @access l s i _ ih =>
    refine ⟨State.forall_move_own (Q := fun _ c => ReadClean c)
      (readClean_advance _ _ (ih.1 i)) fun j _ => ih.1 j, ?_⟩
    exact List.forall_mem_cons.mpr ⟨ih.1 i, ih.2⟩

/-- In every interleaving, from every word, all accesses in `rwlock_read_lock` are as expected if and
only if none of them is a comparison that meets `2 ^ 31 - 1` readers. -/
theorem readLock_guarded_iff {held : ι → Option Mode} {l : List (Word × Cpu)} {s : RwState ι}
    (h : TraceRun (RwState.start w held) l s) :
    (∀ a ∈ l, InReadLock a.2.pc → ReadGuarded a.1 a.2) ↔ ∀ a ∈ l, ¬AtMaximum a.1 a.2 := by
  have hclean := h.clean.2
  constructor
  · intro hall a ha hmax
    have hin : InReadLock a.2.pc := Or.inr ⟨readerMask, hmax.1⟩
    exact (readGuarded_iff hin (hclean a ha)).mp (hall a ha hin) hmax
  · intro hnone a ha hin
    exact (readGuarded_iff hin (hclean a ha)).mpr (hnone a ha)

/-- A CPU takes the lock with 5 readers. -/
theorem readLock_guarded_five :
    ReadGuarded 5 ⟨.readLockCas 5, none⟩ ∧ (advance 5 ⟨.readLockCas 5, none⟩).1 = 6 := by
  have hcall : TraceRun (RwState.start 5 fun _ : Unit => none) [] _ :=
    TraceRun.start.call () .readLock rfl (by simp [Entry])
  have hrun := (hcall.access ()).access ()
  have hguarded := (readLock_guarded_iff hrun).mpr (by
    intro a ha
    rcases List.mem_pair.mp ha with rfl | rfl
    · rintro ⟨-, hmax⟩
      exact absurd hmax (by decide)
    · rintro ⟨-, hmax⟩
      exact absurd hmax (by decide))
  exact ⟨hguarded _ List.mem_cons_self (Or.inr ⟨5, rfl⟩), by decide⟩

/-- With `2 ^ 31 - 1` readers, `rwlock_read_lock` takes the lock and makes the word
`RWLOCK_WRITER_MASK`, and `rwlock_read_trylock` does not take it. -/
theorem readLock_overflows :
    TraceRun (RwState.start readerMask fun _ : Unit => none)
        [(readerMask, ⟨.readLockCas readerMask, none⟩), (readerMask, ⟨.readLock, none⟩)]
        ⟨writerMask, fun _ => ⟨.idle, some .reader⟩⟩ ∧
      ¬TrylockTakes readerMask ∧ ¬ReadGuarded readerMask ⟨.readLockCas readerMask, none⟩ := by
  have hcall : TraceRun (RwState.start readerMask fun _ : Unit => none) [] _ :=
    TraceRun.start.call () .readLock rfl (by simp [Entry])
  have hrun := (hcall.access ()).access ()
  refine ⟨hrun, fun htakes => ((trylockTakes_iff _).mp htakes).2 rfl, fun hguard => ?_⟩
  have hwaits := (hguard.waits rfl).1
  exact absurd hwaits (by decide)

end LunOS.RwLock
