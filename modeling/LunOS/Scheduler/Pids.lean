import LunOS.Scheduler.Common

/-!
# Process ids

`create_user_task` draws pids from a counter that starts at 1 and goes back to 2 after `PID_MAX`. A
run creates user tasks and destroys live ones, in any order and number; every draw is numbered. The
memory descriptor of a new task is as `kmalloc` returned it, and `mm_free` in `task_destroy` follows
its pointers, so only a task whose descriptor the caller has filled in is destroyed.

- `pidOf n`: the pid of the `n`-th draw.
- `pids_unique_iff`: the pids of the live tasks differ unless two of them were drawn a multiple of
  `PID_MAX - 1` apart.
- `pid_used_twice`: a long-lived task and a run of more than a billion creations, most of which find
  no memory for a descriptor.
-/

namespace LunOS.Scheduler
open LunOS.Ds List

/-! ## Draws -/

/-- The pid of the `n`-th draw, counted from 1. -/
def pidOf (n : ℕ) : ℕ := if n ≤ 1 then 1 else 2 + (n - 2) % (pidMax - 1)

/-- `incr_pid_ctr` goes from one draw to the next. -/
lemma incrPidCtr_pidOf {n : ℕ} (hn : 1 ≤ n) : incrPidCtr (pidOf n) = (pidOf n, pidOf (n + 1)) := by
  have hlt : (n - 2) % (pidMax - 1) < pidMax - 1 := Nat.mod_lt _ (by decide)
  unfold incrPidCtr pidOf
  unfold pidMax at hlt ⊢
  simp only [Prod.mk.injEq, true_and]
  split_ifs <;> omega

/-- Two draws give the same pid when they are a whole number of rounds apart. -/
lemma pidOf_eq_iff {n m : ℕ} (hn : 1 ≤ n) (hm : 1 ≤ m) (hne : n ≠ m) :
    pidOf n = pidOf m ↔ 2 ≤ n ∧ 2 ≤ m ∧ n % (pidMax - 1) = m % (pidMax - 1) := by
  unfold pidOf pidMax
  split_ifs <;> omega

/-! ## Runs -/

/-- The scheduler and the counter, the number of draws so far, the live user tasks with the numbers of
their draws, and those whose descriptor and stack the caller has set. -/
structure PidRun where
  sched : SchedState
  pidCounter : ℕ
  drawn : ℕ
  live : List (ℕ × ℕ)
  filled : List ℕ

/-- `create_user_task`, with the results of its two calls of `kmalloc`. -/
def PidRun.create (r : PidRun) (task md : Option ℕ) : PidRun :=
  let (made, s, pidCounter) := createUserTask r.sched r.pidCounter task md
  { r with
    sched := s
    pidCounter := pidCounter
    -- the pid is drawn before the memory descriptor is allocated
    drawn := if task.isSome then r.drawn + 1 else r.drawn
    live := match made with
      | none => r.live
      | some t => (t, r.drawn + 1) :: r.live }

/-- `task_destroy` on the lists; its `mm_free` and `kfree` change no list and no pid. -/
def PidRun.destroy (r : PidRun) (t : ℕ) : PidRun :=
  { r with
    sched := taskDestroy r.sched t
    live := r.live.filter (·.1 ≠ t)
    filled := r.filled.filter (· ≠ t) }

/-- One step; `kmalloc` returns memory of no live task. -/
inductive PidStep : PidRun → PidRun → Prop
  | create {r : PidRun} (task md : Option ℕ) (hfresh : ∀ t ∈ task, ∀ n, (t, n) ∉ r.live) :
      PidStep r (r.create task md)
  | fill {r : PidRun} {t n : ℕ} (h : (t, n) ∈ r.live) :
      PidStep r { r with filled := t :: r.filled }
  | destroy {r : PidRun} {t n : ℕ} (h : (t, n) ∈ r.live) (hfilled : t ∈ r.filled) :
      PidStep r (r.destroy t)

/-- The counter before the first draw. -/
def PidRun.init (s : SchedState) : PidRun := ⟨s, 1, 0, [], []⟩

/-- The states of runs. -/
def PidReachable (s : SchedState) : PidRun → Prop := Runs.Reachable (· = PidRun.init s) PidStep

/-! ## One call of `create_user_task` -/

variable {s : SchedState} {r r' : PidRun}

lemma createUserTask_made (c t : ℕ) (md : Option ℕ) :
    (createUserTask s c (some t) md).1 = md.map fun _ => t := by
  cases md <;> rfl

/-- One draw, whatever follows. -/
lemma createUserTask_counter (c t : ℕ) (md : Option ℕ) :
    (createUserTask s c (some t) md).2.2 = (incrPidCtr c).2 := by
  cases md <;> rfl

/-- The task gets the drawn pid, also when there is no memory for its descriptor. -/
lemma createUserTask_pid (c t : ℕ) (md : Option ℕ) :
    ((createUserTask s c (some t) md).2.1.task t).pid = (incrPidCtr c).1 := by
  cases md <;> simp [createUserTask, SchedState.setTask, SchedState.mapHeap]

lemma createUserTask_task_of_ne (c : ℕ) {t u : ℕ} (md : Option ℕ) (hu : u ≠ t) :
    (createUserTask s c (some t) md).2.1.task u = s.task u := by
  cases md <;> simp [createUserTask, createTask, SchedState.setTask, SchedState.mapHeap, hu]

/-- A call that gets memory for the task uses up the next draw, which is the new task's. -/
lemma PidRun.mem_live_create {t : ℕ} {md : Option ℕ} {u n : ℕ} :
    (u, n) ∈ (r.create (some t) md).live ↔
      (u = t ∧ n = r.drawn + 1 ∧ md ≠ none) ∨ (u, n) ∈ r.live := by
  cases md with
  | none => simp [PidRun.create, createUserTask_made]
  | some m => simp [PidRun.create, createUserTask_made]

/-! ## Invariant -/

/-- The counter is at the next draw, and every live task has the pid of its own draw. -/
structure PidInv (r : PidRun) : Prop where
  counter : r.pidCounter = pidOf (r.drawn + 1)
  pid : ∀ t n, (t, n) ∈ r.live → 1 ≤ n ∧ n ≤ r.drawn ∧ (r.sched.task t).pid = pidOf n
  draw : ∀ t u n, (t, n) ∈ r.live → (u, n) ∈ r.live → t = u

lemma pidInv_init (s : SchedState) : PidInv (PidRun.init s) := by
  refine ⟨rfl, fun t n h => ?_, fun t u n h => ?_⟩
  · exact absurd h not_mem_nil
  · exact absurd h not_mem_nil

/-- A draw of the counter. -/
lemma PidInv.create (h : PidInv r) {task md : Option ℕ}
    (hfresh : ∀ t ∈ task, ∀ n, (t, n) ∉ r.live) : PidInv (r.create task md) := by
  cases task with
  | none => exact ⟨h.counter, h.pid, h.draw⟩
  | some t =>
    have hctr : incrPidCtr r.pidCounter = (pidOf (r.drawn + 1), pidOf (r.drawn + 1 + 1)) := by
      rw [h.counter]
      exact incrPidCtr_pidOf (by omega)
    have hdrawn : (r.create (some t) md).drawn = r.drawn + 1 := rfl
    constructor
    · show (createUserTask r.sched r.pidCounter (some t) md).2.2 = _
      rw [createUserTask_counter, hctr, hdrawn]
    · intro u n hu
      show 1 ≤ n ∧ n ≤ r.drawn + 1 ∧
        ((createUserTask r.sched r.pidCounter (some t) md).2.1.task u).pid = pidOf n
      rcases PidRun.mem_live_create.mp hu with ⟨rfl, rfl, -⟩ | hold
      · rw [createUserTask_pid, hctr]
        exact ⟨by omega, by omega, rfl⟩
      · have hne : u ≠ t := by
          rintro rfl
          exact hfresh u rfl n hold
        rw [createUserTask_task_of_ne _ _ hne]
        have hpid := h.pid u n hold
        exact ⟨hpid.1, by omega, hpid.2.2⟩
    · -- a draw made earlier has a smaller number than the new one
      intro u v n hu hv
      rcases PidRun.mem_live_create.mp hu with ⟨hut, hn, -⟩ | hu
      · rcases PidRun.mem_live_create.mp hv with ⟨hvt, -, -⟩ | hv
        · rw [hut, hvt]
        · have := (h.pid v n hv).2.1
          omega
      · rcases PidRun.mem_live_create.mp hv with ⟨-, hn, -⟩ | hv
        · have := (h.pid u n hu).2.1
          omega
        · exact h.draw u v n hu hv

/-- A task is destroyed. -/
lemma PidInv.destroy (h : PidInv r) (t : ℕ) : PidInv (r.destroy t) := by
  refine ⟨h.counter, fun u n hu => ?_, fun u v n hu hv => ?_⟩
  · exact h.pid u n (mem_filter.mp hu).1
  · exact h.draw u v n (mem_filter.mp hu).1 (mem_filter.mp hv).1

/-- The pids are those of the draws. -/
lemma PidReachable.pidInv (h : PidReachable s r) : PidInv r := by
  refine h.invariant (fun r hr => ?_) fun r r' hinv hst => ?_
  · rw [hr]
    exact pidInv_init s
  · cases hst with
    | create task md hfresh => exact hinv.create hfresh
    | fill => exact ⟨hinv.counter, hinv.pid, hinv.draw⟩
    | destroy => exact hinv.destroy _

lemma PidReachable.create (h : PidReachable s r) {t : ℕ} (md : Option ℕ)
    (hfresh : ∀ n, (t, n) ∉ r.live) : PidReachable s (r.create (some t) md) := by
  refine h.step (.create (some t) md fun u hu n => ?_)
  rw [← Option.mem_some.mp hu]
  exact hfresh n

/-! ## Uniqueness -/

/-- In every reachable state the pids of the live tasks differ exactly when no two of them were
drawn a whole number of rounds of the counter apart. -/
theorem pids_unique_iff (h : PidReachable s r) :
    (∀ t n u m, (t, n) ∈ r.live → (u, m) ∈ r.live → t ≠ u →
      (r.sched.task t).pid ≠ (r.sched.task u).pid) ↔
    ∀ t n u m, (t, n) ∈ r.live → (u, m) ∈ r.live → t ≠ u →
      ¬ (2 ≤ n ∧ 2 ≤ m ∧ n % (pidMax - 1) = m % (pidMax - 1)) := by
  have hinv := h.pidInv
  -- for two live tasks the two conditions are the same one
  have hpair : ∀ t n u m, (t, n) ∈ r.live → (u, m) ∈ r.live → t ≠ u →
      ((r.sched.task t).pid = (r.sched.task u).pid ↔
        2 ≤ n ∧ 2 ≤ m ∧ n % (pidMax - 1) = m % (pidMax - 1)) := by
    intro t n u m ht hu hne
    have hdraws : n ≠ m := by
      rintro rfl
      exact hne (hinv.draw t u n ht hu)
    rw [(hinv.pid t n ht).2.2, (hinv.pid u m hu).2.2]
    exact pidOf_eq_iff (hinv.pid t n ht).1 (hinv.pid u m hu).1 hdraws
  constructor
  · intro hdiff t n u m ht hu hne
    rw [← hpair t n u m ht hu hne]
    exact hdiff t n u m ht hu hne
  · intro hdraws t n u m ht hu hne
    rw [Ne, hpair t n u m ht hu hne]
    exact hdraws t n u m ht hu hne

/-- Two tasks, created one after the other. -/
def twoUsers : PidRun :=
  ((PidRun.init coldState).create (some 1) (some 100)).create (some 2) (some 200)

theorem pids_unique_twoUsers :
    twoUsers.live = [(2, 2), (1, 1)] ∧
      ∀ t n u m, (t, n) ∈ twoUsers.live → (u, m) ∈ twoUsers.live → t ≠ u →
        (twoUsers.sched.task t).pid ≠ (twoUsers.sched.task u).pid := by
  have hone : PidReachable coldState ((PidRun.init coldState).create (some 1) (some 100)) :=
    PidReachable.create (.init rfl) (some 100) fun _ => not_mem_nil
  have htwo : PidReachable coldState twoUsers :=
    hone.create (some 200) fun n hn => by simp [PidRun.create, createUserTask, PidRun.init] at hn
  have hlive : twoUsers.live = [(2, 2), (1, 1)] := rfl
  refine ⟨hlive, (pids_unique_iff htwo).mpr ?_⟩
  -- one of the two draws is the first one
  intro t n u m ht hu hne
  simp only [hlive, mem_cons, Prod.mk.injEq, not_mem_nil, or_false] at ht hu
  omega

/-! ## A long run -/

/-- A call that finds no memory for a descriptor uses up a draw, any number of times. -/
lemma PidReachable.rounds (h : PidReachable s r) {t : ℕ} (hfresh : ∀ n, (t, n) ∉ r.live) (k : ℕ) :
    ∃ r', PidReachable s r' ∧ r'.live = r.live ∧ r'.drawn = r.drawn + k := by
  induction k with
  | zero => exact ⟨r, h, rfl, rfl⟩
  | succ k ih =>
    rcases ih with ⟨r₁, h₁, hlive₁, hdrawn₁⟩
    refine ⟨_, h₁.create none (t := t) (hlive₁ ▸ hfresh), hlive₁, ?_⟩
    show r₁.drawn + 1 = _
    omega

/-- Task 1 has the second pid and stays; calls without memory for a descriptor use up pids until the
counter has wrapped, and the task created then has the pid of task 1. -/
theorem pid_used_twice :
    ∃ r, PidReachable coldState r ∧ r.live = [(2, pidMax + 1), (1, 2)] ∧
      (r.sched.task 1).pid = 2 ∧ (r.sched.task 2).pid = 2 := by
  -- the first pid, 1, never comes again, so the long-lived task is the second
  have h₁ : PidReachable coldState ((PidRun.init coldState).create (some 1) none) :=
    PidReachable.create (.init rfl) none fun _ => not_mem_nil
  have h₂ := h₁.create (t := 1) (some 100) fun _ => not_mem_nil
  have hlive₂ : (((PidRun.init coldState).create (some 1) none).create (some 1) (some 100)).live =
    [(1, 2)] := rfl
  -- up to `PID_MAX`; by induction on the rounds, since there are too many to run
  rcases h₂.rounds (t := 2) (by simp [hlive₂]) (pidMax - 2) with ⟨r₃, h₃, hlive₃, hdrawn₃⟩
  have h₄ := h₃.create (t := 2) (some 200) (by simp [hlive₃, hlive₂])
  have hpidMax : 2 + (pidMax - 2) = pidMax := by decide
  have hlive₄ : (r₃.create (some 2) (some 200)).live = [(2, pidMax + 1), (1, 2)] := by
    show (2, r₃.drawn + 1) :: r₃.live = _
    rw [hdrawn₃, hlive₃, hlive₂]
    show [(2, 2 + (pidMax - 2) + 1), (1, 2)] = _
    rw [hpidMax]
  refine ⟨_, h₄, hlive₄, ?_, ?_⟩
  · exact (h₄.pidInv.pid 1 2 (by simp [hlive₄])).2.2
  · exact (h₄.pidInv.pid 2 (pidMax + 1) (by simp [hlive₄])).2.2

end LunOS.Scheduler
