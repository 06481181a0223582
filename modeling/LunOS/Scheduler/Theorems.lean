import LunOS.Scheduler.Queues

/-!
# What `schedule` dispatches

- `SchedInv`: the run queues are circular lists of live tasks, each on the queue of its CPU; a task
  that has exited is linked to itself.
- `dispatches_queued_iff`: in every reachable state, `schedule` hands a member of the run queue to
  `load_next_task` exactly when the timer called it, the current task has not exited, and there is
  a current task or a queued one. After `task_exit` it always dispatches the task that exited.
-/

namespace LunOS.Scheduler
open LunOS.Ds Function List

/-- The invariant with the tasks on each run queue. -/
structure SchedInv (s : SchedState) (queue : CpuId → List ℕ) : Prop where
  all : Circular s.heap .allTasks (s.created.map .tasks)
  queues : ∀ c, Circular s.heap (.cpuRunqueue c) ((queue c).map .tasksRunnable)
  queued : ∀ c, ∀ t ∈ queue c,
    t ∈ s.created ∧ (s.task t).state ≠ .zombie ∧ (s.task t).cpuId = c
  current : ∀ c p, s.currentTask c = some p →
    ∃ t, p = .task t ∧ t ∈ s.created ∧ ((s.task t).state ≠ .zombie → t ∈ queue c)
  exited : ∀ t ∈ s.created, (s.task t).state = .zombie →
    Circular s.heap (.tasksRunnable t) []
  alone : ∀ t ∈ s.created, (s.task t).parent = none ∧ Circular s.heap (.children t) []

variable {s s' : SchedState} {queue : CpuId → List ℕ}

lemma SchedInv.toQueueInv (h : SchedInv s queue) : QueueInv s queue :=
  ⟨h.all, h.queues, fun c t ht => ⟨(h.queued c t ht).1, (h.queued c t ht).2.2⟩, h.alone⟩

/-- What the invariant adds to the lists. -/
lemma QueueInv.toSchedInv (h : QueueInv s queue)
    (hlive : ∀ c, ∀ t ∈ queue c, (s.task t).state ≠ .zombie)
    (hcurrent : ∀ c p, s.currentTask c = some p →
      ∃ t, p = .task t ∧ t ∈ s.created ∧ ((s.task t).state ≠ .zombie → t ∈ queue c))
    (hexited : ∀ t ∈ s.created, (s.task t).state = .zombie →
      Circular s.heap (.tasksRunnable t) []) : SchedInv s queue :=
  ⟨h.all, h.queues, fun c t ht => ⟨(h.queued c t ht).1, hlive c t ht, (h.queued c t ht).2⟩,
    hcurrent, hexited, h.alone⟩

lemma SchedInv.init (s : SchedState) (hnew : s.created = []) :
    SchedInv (schedulerInit s) fun _ => [] := by
  apply (QueueInv.init s hnew).toSchedInv
  · intro c t ht
    exact absurd ht not_mem_nil
  · intro c p hp
    exact absurd hp (Option.some_ne_none p).symm
  · intro t ht
    rw [show (schedulerInit s).created = [] from hnew] at ht
    exact absurd ht not_mem_nil

/-! ## `schedule` -/

variable {c : CpuId} {t : ℕ}

/-- Run queue nodes are nodes of tasks. -/
lemma SchedInv.containerOf_mem {n : Node} (hn : n ∈ (queue c).map Node.tasksRunnable) :
    ∃ t ∈ queue c, containerOf n = .task t := by
  rcases mem_map.mp hn with ⟨t, ht, heq⟩
  rw [← heq]
  exact ⟨t, ht, rfl⟩

lemma pickNext_of_current (hcur : s.currentTask c = some (.task t)) :
    pickNext s c = if nextNode s c (.tasksRunnable t) ≠ .cpuRunqueue c then
      some (containerOf (nextNode s c (.tasksRunnable t))) else none := by
  unfold pickNext
  rw [hcur]
  rfl

/-- The task after a queued current one is queued, also around the end of the queue. -/
lemma SchedInv.pickNext_queued (h : SchedInv s queue) (ht : t ∈ queue c)
    (hcur : s.currentTask c = some (.task t)) :
    ∃ t' ∈ queue c, pickNext s c = some (.task t') := by
  have hq := h.queues c
  have hmem : Node.tasksRunnable t ∈ (queue c).map Node.tasksRunnable :=
    mem_map.mpr ⟨t, ht, rfl⟩
  have hne : ∀ n ∈ (queue c).map Node.tasksRunnable, n ≠ .cpuRunqueue c := by
    intro n hn
    rcases mem_map.mp hn with ⟨t', _, heq⟩
    rw [← heq]
    exact Node.noConfusion
  -- the node the source ends up with
  have hnode : nextNode s c (.tasksRunnable t) ∈ (queue c).map Node.tasksRunnable := by
    unfold nextNode
    rcases hq.next_mem hmem with hnext | hnext
    · rw [if_neg (hne _ hnext)]
      exact hnext
    · rw [if_pos hnext]
      cases hlist : queue c with
      | nil =>
        rw [hlist] at ht
        exact absurd ht not_mem_nil
      | cons t' rest =>
        rw [hlist, map_cons] at hq
        rw [hq.next_head]
        exact mem_cons_self
  rcases SchedInv.containerOf_mem hnode with ⟨t', ht', htask⟩
  refine ⟨t', ht', ?_⟩
  rw [pickNext_of_current hcur, if_pos (hne _ hnode), htask]

/-- Without a current task the first queued one is picked. -/
lemma SchedInv.pickNext_first (h : SchedInv s queue) (hcur : s.currentTask c = none) :
    pickNext s c = (queue c).head?.map .task := by
  have hq := h.queues c
  have hempty := hq.listEmpty_iff
  unfold pickNext
  rw [hcur]
  simp only
  cases hlist : queue c with
  | nil =>
    rw [hlist] at hempty
    rw [if_neg (not_not.mpr (hempty.mpr rfl))]
    rfl
  | cons t rest =>
    rw [hlist] at hempty hq
    rw [if_pos (fun he => absurd (hempty.mp he) (cons_ne_nil _ _)), hq.next_head]
    rfl

/-- A task that has exited picks itself. -/
lemma SchedInv.pickNext_exited (h : SchedInv s queue) (ht : t ∈ s.created)
    (hcur : s.currentTask c = some (.task t)) (hz : (s.task t).state = .zombie) :
    pickNext s c = some (.task t) := by
  have hself : s.heap.next (.tasksRunnable t) = .tasksRunnable t := (h.exited t ht hz).seg.1
  have hnode : nextNode s c (.tasksRunnable t) = .tasksRunnable t := by
    unfold nextNode
    rw [hself, if_neg Node.noConfusion]
  rw [pickNext_of_current hcur, hnode, if_pos (by simp)]
  rfl

/-- `schedule` dispatches what it picks, or stays with the current task. -/
lemma schedule_of_pick {p : TaskPtr} (hp : pickNext s c = some p) :
    schedule s c =
      (some p, { s with currentTask := update s.currentTask c (some p) }) := by
  unfold schedule
  simp only [hp]
  by_cases heq : some p = s.currentTask c
  · rw [if_neg (fun hne => hne.2 heq), ← heq]
    rw [heq, update_eq_self]
  · rw [if_pos ⟨Option.some_ne_none p, heq⟩]

lemma schedule_of_none (hp : pickNext s c = none) :
    schedule s c = (s.currentTask c, s) := by
  unfold schedule
  rw [hp, if_neg (fun hne => hne.1 rfl)]

/-- A dispatched task becomes current. -/
lemma SchedInv.setCurrent (h : SchedInv s queue) (ht : t ∈ s.created)
    (hq : (s.task t).state ≠ .zombie → t ∈ queue c) :
    SchedInv { s with currentTask := update s.currentTask c (some (.task t)) } queue := by
  refine ⟨h.all, h.queues, h.queued, fun c' p hp => ?_, h.exited, h.alone⟩
  by_cases hc : c' = c
  · rw [hc] at hp ⊢
    have hpt : some (.task t) = some p := (update_self c _ s.currentTask).symm.trans hp
    exact ⟨t, (Option.some.inj hpt).symm, ht, hq⟩
  · exact h.current c' p ((update_of_ne hc _ s.currentTask).symm.trans hp)

/-- A dispatch moves no task. -/
lemma SchedInv.schedule (h : SchedInv s queue) (c : CpuId) : SchedInv (schedule s c).2 queue := by
  cases hp : pickNext s c with
  | none =>
    rw [schedule_of_none hp]
    exact h
  | some p =>
    rw [schedule_of_pick hp]
    have hpick : ∃ t, p = .task t ∧ t ∈ s.created ∧
        ((s.task t).state ≠ .zombie → t ∈ queue c) := by
      cases hcur : s.currentTask c with
      | none =>
        rw [h.pickNext_first hcur] at hp
        rcases Option.map_eq_some_iff.mp hp with ⟨t, ht, heq⟩
        have hmem := mem_of_head? ht
        exact ⟨t, heq.symm, (h.queued c t hmem).1, fun _ => hmem⟩
      | some q =>
        rcases h.current c q hcur with ⟨t, hq, ht, hmem⟩
        rw [hq] at hcur
        by_cases hz : (s.task t).state = .zombie
        · rw [h.pickNext_exited ht hcur hz] at hp
          exact ⟨t, (Option.some.inj hp).symm, ht, fun hne => absurd hz hne⟩
        · rcases h.pickNext_queued (hmem hz) hcur with ⟨t', ht', heq⟩
          rw [heq] at hp
          exact ⟨t', (Option.some.inj hp).symm, (h.queued c t' ht').1, fun _ => ht'⟩
    rcases hpick with ⟨t, heq, ht, hq⟩
    rw [heq]
    exact h.setCurrent ht hq

/-! ## A new task -/

/-- A new task is on no queue. -/
lemma CreatesTask.inv (hnew : CreatesTask s s' t) (h : SchedInv s queue) (ht : t ∉ s.created) :
    SchedInv s' queue := by
  have hne : ∀ t' ∈ s.created, t' ≠ t := fun t' ht' => ne_of_mem_of_not_mem ht' ht
  apply (hnew.queueInv h.toQueueInv ht).toSchedInv
  · intro c t' ht'
    have hq := h.queued c t' ht'
    rw [hnew.others t' (hne t' hq.1)]
    exact hq.2.1
  · intro c p hp
    rw [hnew.current] at hp
    obtain ⟨t', heq, ht', hq⟩ := h.current c p hp
    rw [hnew.created]
    refine ⟨t', heq, mem_append_left _ ht', ?_⟩
    rw [hnew.others t' (hne t' ht')]
    exact hq
  · intro t' ht' hz
    rw [hnew.created] at ht'
    obtain ht' | ht' := mem_append.mp ht'
    · rw [hnew.others t' (hne t' ht')] at hz
      apply (h.exited t' ht' hz).congr
      intro z hzmem
      rw [mem_singleton.mp hzmem]
      exact hnew.frame _ (by simpa [freshNodes] using hne t' ht') (by simp)
    · -- the new task is running
      rw [mem_singleton.mp ht', hnew.state] at hz
      exact absurd hz TaskState.noConfusion

section
variable (h : SchedInv s queue)
include h

/-- A task on no queue is put at the end of one. -/
lemma SchedInv.place {r : Task} {id : CpuId} (ht : t ∈ s.created)
    (hlive : (s.task t).state ≠ .zombie) (hq : ∀ c, t ∉ queue c) (hstate : r.state ≠ .zombie)
    (hcpu : r.cpuId = id) (hparent : r.parent = none) (counter : CpuId → ℤ) :
    SchedInv (schedTask { s.setTask t r with taskCounter := counter } t id)
      (update queue id (queue id ++ [t])) := by
  have hother : ∀ t', t' ≠ t → update s.task t r t' = s.task t' :=
    fun t' hne => update_of_ne hne _ _
  have hself : update s.task t r t = r := update_self t r s.task
  have hset : QueueInv { s.setTask t r with taskCounter := counter } queue :=
    h.toQueueInv.setTask hparent (fun c hmem => absurd hmem (hq c)) counter
  have hset_cpu : (update s.task t r t).cpuId = id := by rw [hself, hcpu]
  apply (hset.link ht hq hset_cpu).toSchedInv
  · intro c t' ht'
    show (update s.task t r t').state ≠ .zombie
    rcases Rings.mem_append_update_iff.mp ht' with hmem | ⟨_, heq⟩
    · rw [hother t' fun heq => hq c (heq ▸ hmem)]
      exact (h.queued c t' hmem).2.1
    · rw [heq, hself]
      exact hstate
  · intro c p hp
    obtain ⟨t', heq, ht', hmem⟩ := h.current c p hp
    refine ⟨t', heq, ht', fun hz => ?_⟩
    have hne : t' ≠ t := by
      intro heq'
      rw [heq'] at hmem
      exact hq c (hmem hlive)
    have hz' : (s.task t').state ≠ .zombie := by
      rw [← hother t' hne]
      exact hz
    by_cases hc : c = id
    · rw [hc, update_self, ← hc]
      exact mem_append_left _ (hmem hz')
    · rw [update_of_ne hc]
      exact hmem hz'
  · intro t' ht' hz
    change (update s.task t r t').state = .zombie at hz
    have hne : t' ≠ t := by
      intro heq
      rw [heq, hself] at hz
      exact hstate hz
    rw [hother t' hne] at hz
    have hout : t' ∉ queue id := fun hmem => (h.queued id t' hmem).2.1 hz
    apply (h.exited t' ht' hz).congr
    intro z hzmem
    rw [mem_singleton.mp hzmem]
    exact hset.link_frame (by simpa using hne) (by simpa using hout)

/-- A task that is created and queued. -/
lemma SchedInv.create {stack : ℕ} (ht : t ∉ s.created)
    (hcreate : createAndScheduleKernelTask s (some t) (some stack) = some s') :
    ∃ queue', SchedInv s' queue' := by
  obtain ⟨hres, hnew⟩ := createKernelTask_creates h.all ht stack
  have hinv := hnew.inv h ht
  have hq : ∀ c, t ∉ queue c := fun c hmem => ht (h.queued c t hmem).1
  unfold createAndScheduleKernelTask at hcreate
  cases hk : createKernelTask s (some t) (some stack) with
  | mk res s₁ =>
    rw [hk] at hres hnew hinv hcreate
    simp only at hres hnew hinv hcreate
    rw [hres] at hcreate
    have hcreate' := Option.some.inj hcreate
    rw [← hcreate']
    refine ⟨_, hinv.place (r := { s₁.task t with cpuId := (findLeastBusyCpu s₁).1 }) ?_ ?_ hq ?_ rfl
      ?_ _⟩
    · rw [hnew.created]
      exact mem_append_right _ mem_cons_self
    · rw [hnew.state]
      exact TaskState.noConfusion
    · rw [hnew.state]
      exact TaskState.noConfusion
    · exact hnew.parent

/-! ## Exit -/

/-- `sched_remove_task` of a task that has left before does nothing. -/
lemma SchedInv.unlink_exited (ht : t ∈ s.created) (hz : (s.task t).state = .zombie) :
    schedRemoveTask s t = s ∧ without queue t = queue := by
  have hself := h.exited t ht hz
  have hout : ∀ c, t ∉ queue c := fun c hmem => (h.queued c t hmem).2.1 hz
  constructor
  · show { s with heap := listDel s.heap (.tasksRunnable t) } = s
    rw [listDel_self hself.seg.1 hself.seg.2]
  · funext c
    exact erase_of_not_mem (hout c)

/-- `sched_remove_task` of a current task: it is on no queue afterwards and linked to itself, and
other nodes change only where they are on a queue. -/
lemma SchedInv.removed (ht : t ∈ s.created) (hq : (s.task t).state ≠ .zombie → t ∈ queue c) :
    QueueInv (schedRemoveTask s t) (without queue t) ∧
    Circular (schedRemoveTask s t).heap (.tasksRunnable t) [] ∧
    ∀ z, (∀ c', z ∉ Node.cpuRunqueue c' :: (queue c').map .tasksRunnable) →
      (schedRemoveTask s t).heap.next z = s.heap.next z ∧
        (schedRemoveTask s t).heap.prev z = s.heap.prev z := by
  by_cases hz : (s.task t).state = .zombie
  · obtain ⟨hsame, hqueue⟩ := h.unlink_exited ht hz
    rw [hsame, hqueue]
    exact ⟨h.toQueueInv, h.exited t ht hz, fun _ _ => ⟨rfl, rfl⟩⟩
  · have hmem := hq hz
    exact ⟨h.toQueueInv.unlink hmem, h.toQueueInv.unlink_self hmem,
      fun z hout => h.toQueueInv.unlink_frame hmem (hout c)⟩

/-- A task that exits becomes a zombie on no queue. -/
lemma SchedInv.leave {r : Task} (ht : t ∈ s.created) (hq : (s.task t).state ≠ .zombie → t ∈ queue c)
    (hstate : r.state = .zombie) (hparent : r.parent = none) (counter : CpuId → ℤ) :
    SchedInv { (schedRemoveTask s t).setTask t r with taskCounter := counter }
      (without queue t) := by
  obtain ⟨hqueues, hself, hframe⟩ := h.removed ht hq
  have hother : ∀ t', t' ≠ t → update s.task t r t' = s.task t' :=
    fun t' hne => update_of_ne hne _ _
  have hupdate : update s.task t r t = r := update_self t r s.task
  have hgone : ∀ c', t ∉ without queue t c' := fun c' hmem =>
    (h.toQueueInv.mem_without.mp hmem).1 rfl
  apply (hqueues.setTask hparent (fun c' hmem => absurd hmem (hgone c')) counter).toSchedInv
  · intro c' t' ht'
    have hq' := h.toQueueInv.mem_without.mp ht'
    show (update s.task t r t').state ≠ .zombie
    rw [hother t' hq'.1]
    exact (h.queued c' t' hq'.2).2.1
  · intro c' p hp
    obtain ⟨t', heq, ht', hin⟩ := h.current c' p hp
    refine ⟨t', heq, ht', fun hz => ?_⟩
    change (update s.task t r t').state ≠ .zombie at hz
    have hne : t' ≠ t := by
      intro heq'
      rw [heq', hupdate] at hz
      exact hz hstate
    rw [hother t' hne] at hz
    exact (mem_erase_of_ne hne).mpr (hin hz)
  · intro t' ht' hz
    change (update s.task t r t').state = .zombie at hz
    by_cases hne : t' = t
    · rw [hne]
      exact hself
    · rw [hother t' hne] at hz
      apply (h.exited t' ht' hz).congr
      intro z hzmem
      rw [mem_singleton.mp hzmem]
      apply hframe
      intro c'
      have hout : t' ∉ queue c' := fun hin => (h.queued c' t' hin).2.1 hz
      simpa using hout

/-- `task_exit` reaches `schedule`: these tasks have no parent and no children. -/
lemma SchedInv.exit (hcur : s.currentTask c = some (.task t)) (exitCode : ℤ) :
    
    ∃ s' queue', taskExitBeforeSchedule s t exitCode = some s' ∧ SchedInv s' queue' ∧
      s'.currentTask = s.currentTask ∧ t ∈ s'.created ∧ (s'.task t).state = .zombie := by
  obtain ⟨t', heq, ht, hq⟩ := h.current c _ hcur
  rw [← TaskPtr.task.inj heq] at ht hq
  have halone := h.alone t ht
  have hchildren : (schedRemoveTask s t).heap.next (.children t) = .children t := by
    have hframe := (h.removed ht hq).2.2 (.children t) (by simp)
    rw [hframe.1]
    exact halone.2.seg.1
  obtain ⟨r, hstate, hparent, hrun⟩ := taskExitBeforeSchedule_eq halone.1 hchildren exitCode
  refine ⟨_, _, hrun, h.leave ht hq hstate hparent _, rfl, ht, ?_⟩
  show (update s.task t r t).state = .zombie
  rw [update_self]
  exact hstate

/-! ## Runs -/

lemma SchedInv.step (hst : SchedStep s s') : ∃ queue', SchedInv s' queue' := by
  cases hst with
  | create t stack hfresh hcreate => exact h.create hfresh hcreate
  | timer c => exact ⟨queue, h.schedule c⟩
  | exit c exitCode hexit =>
    unfold taskExit at hexit
    cases hcur : s.currentTask c with
    | none =>
      rw [hcur] at hexit
      exact absurd hexit (Option.some_ne_none _).symm
    | some p =>
      rcases h.current c p hcur with ⟨t, heq, _⟩
      rw [heq] at hcur
      rcases h.exit hcur exitCode with ⟨s₁, queue', hrun, hinv, _⟩
      rw [hcur] at hexit
      simp only [hrun, Option.map_some, Option.some.injEq] at hexit
      have hs' : (Scheduler.schedule s₁ c).2 = s' := by rw [hexit]
      rw [← hs']
      exact ⟨queue', hinv.schedule c⟩

end

lemma SchedReachable.inv (h : SchedReachable s) : ∃ queue, SchedInv s queue := by
  refine h.invariant (fun s hs => ?_) fun s s' hinv hst => ?_
  · rcases hs with ⟨s₀, hnew, hs⟩
    rw [hs]
    exact ⟨_, SchedInv.init s₀ hnew⟩
  · rcases hinv with ⟨queue, hinv⟩
    exact hinv.step hst

/-- The queue of the invariant is what the pointers say. -/
lemma SchedInv.onRunqueue_iff (h : SchedInv s queue) (c : CpuId) (t : ℕ) :
    OnRunqueue s c t ↔ t ∈ queue c :=
  h.toQueueInv.onRunqueue_iff c t

/-- A call of `schedule`: by the timer, or at the end of `task_exit`. -/
inductive ScheduleCall
  | timer (c : CpuId)
  | exit (c : CpuId) (exitCode : ℤ)

def ScheduleCall.cpu : ScheduleCall → CpuId
  | .timer c => c
  | .exit c _ => c

/-- The state in which `schedule` chooses. -/
def ScheduleCall.state (s : SchedState) : ScheduleCall → Option SchedState
  | .timer _ => some s
  | .exit c exitCode =>
    match s.currentTask c with
    | some (.task t) => taskExitBeforeSchedule s t exitCode
    | _ => none

/-- The timer called, the current task has not exited, and there is a current task or a queued
one. -/
def Dispatchable (s : SchedState) : ScheduleCall → Prop
  | .timer c => (s.currentTask c = none → listEmpty s.heap (.cpuRunqueue c) = false) ∧
    ∀ t, s.currentTask c = some (.task t) → (s.task t).state ≠ .zombie
  | .exit _ _ => False

/-- When a tick finds a task. -/
lemma SchedInv.timer_dispatch_iff (h : SchedInv s queue) (c : CpuId) :
    (∃ t, (Scheduler.schedule s c).1 = some (.task t) ∧ OnRunqueue s c t) ↔
      Dispatchable s (.timer c) := by
  cases hcur : s.currentTask c with
  | none =>
    have hempty := (h.queues c).listEmpty_iff
    have hfirst := h.pickNext_first hcur
    cases hlist : queue c with
    | nil =>
      -- nothing to run, so the context at `NULL` is loaded
      rw [hlist] at hfirst hempty
      rw [schedule_of_none hfirst, hcur]
      unfold Dispatchable
      simp [hcur, hempty.mpr rfl]
    | cons t rest =>
      rw [hlist] at hfirst hempty
      rw [schedule_of_pick hfirst]
      have hon : OnRunqueue s c t := by
        rw [h.onRunqueue_iff, hlist]
        exact mem_cons_self
      unfold Dispatchable
      refine ⟨fun _ => ⟨fun _ => ?_, fun t' ht' => ?_⟩, fun _ => ⟨t, rfl, hon⟩⟩
      · rw [← Bool.not_eq_true]
        exact fun he => absurd (hempty.mp he) (cons_ne_nil _ _)
      · rw [hcur] at ht'
        exact absurd ht' (Option.some_ne_none _).symm
  | some p =>
    rcases h.current c p hcur with ⟨t, heq, ht, hq⟩
    rw [heq] at hcur
    unfold Dispatchable
    by_cases hz : (s.task t).state = .zombie
    · -- it is dispatched again
      rw [schedule_of_pick (h.pickNext_exited ht hcur hz)]
      refine ⟨fun hon => ?_, fun hcond => absurd hz (hcond.2 t hcur)⟩
      rcases hon with ⟨t', ht', hon⟩
      rw [← TaskPtr.task.inj (Option.some.inj ht'), h.onRunqueue_iff] at hon
      exact absurd hz (h.queued c t hon).2.1
    · rcases h.pickNext_queued (hq hz) hcur with ⟨t', ht', hpick⟩
      rw [schedule_of_pick hpick]
      refine ⟨fun _ => ⟨fun hnone => ?_, fun t'' ht'' => ?_⟩, fun _ =>
        ⟨t', rfl, (h.onRunqueue_iff c t').mpr ht'⟩⟩
      · rw [hcur] at hnone
        exact absurd hnone (Option.some_ne_none _)
      · rw [hcur] at ht''
        rw [← TaskPtr.task.inj (Option.some.inj ht'')]
        exact hz

/-- In every reachable state: a call of `schedule` hands a member of the CPU's run queue to
`load_next_task` if and only if it is `Dispatchable`. -/
theorem dispatches_queued_iff (hr : SchedReachable s) {call : ScheduleCall}
    (hcall : call.state s = some s') :
    (∃ t, (schedule s' call.cpu).1 = some (.task t) ∧ OnRunqueue s' call.cpu t) ↔
      Dispatchable s call := by
  rcases hr.inv with ⟨queue, h⟩
  cases call with
  | timer c =>
    cases hcall
    exact h.timer_dispatch_iff c
  | exit c exitCode =>
    cases hcur : s.currentTask c with
    | none =>
      simp only [ScheduleCall.state, hcur] at hcall
      exact absurd hcall (Option.some_ne_none _).symm
    | some p =>
      rcases h.current c p hcur with ⟨t, heq, _⟩
      rw [heq] at hcur
      rcases h.exit hcur exitCode with ⟨s₁, queue', hrun, hinv, hsame, ht, hz⟩
      simp only [ScheduleCall.state, hcur] at hcall
      have hs' : s₁ = s' := Option.some.inj (hrun.symm.trans hcall)
      rw [← hs', ScheduleCall.cpu, hinv.timer_dispatch_iff c]
      refine ⟨fun hcond => ?_, False.elim⟩
      rw [← hsame] at hcur
      exact hcond.2 t hcur hz

/-- One task is created, and the timer of CPU 0 dispatches it. -/
def oneTask : SchedState :=
  (schedule ((createAndScheduleKernelTask (schedulerInit coldState) (some 0x1000)
    (some 0x2000)).getD coldState) 0).2

lemma coldState_reachable : SchedReachable (schedulerInit coldState) := .init ⟨coldState, rfl, rfl⟩

lemma oneTask_reachable : SchedReachable oneTask := by
  have h₁ : SchedReachable ((createAndScheduleKernelTask (schedulerInit coldState) (some 0x1000)
      (some 0x2000)).getD coldState) :=
    coldState_reachable.step (SchedStep.create 0x1000 0x2000 not_mem_nil rfl)
  exact h₁.step (SchedStep.timer 0)

theorem dispatches_queued_oneTask :
    ∃ t, (schedule oneTask 0).1 = some (.task t) ∧ OnRunqueue oneTask 0 t :=
  (@dispatches_queued_iff oneTask oneTask oneTask_reachable (.timer 0) rfl).mpr
    ⟨by decide, fun t ht => by
      rw [← TaskPtr.task.inj (Option.some.inj ht)]
      decide⟩

/-- The state in which the only task has exited and `schedule` is about to choose. -/
def oneTaskExited : SchedState := (taskExitBeforeSchedule oneTask 0x1000 0).getD coldState

/-- A task that exits is dispatched again, as a zombie that is on no run queue; and a CPU without
tasks loads the context at `NULL`. -/
theorem exited_task_dispatched :
    (SchedReachable oneTask ∧ (ScheduleCall.exit 0 0).state oneTask = some oneTaskExited ∧
      (schedule oneTaskExited 0).1 = some (.task 0x1000) ∧
      (oneTaskExited.task 0x1000).state = .zombie ∧ ¬OnRunqueue oneTaskExited 0 0x1000) ∧
    SchedReachable (schedulerInit coldState) ∧ (schedule (schedulerInit coldState) 3).1 = none := by
  refine ⟨⟨oneTask_reachable, rfl, by decide, by decide, ?_⟩, coldState_reachable, by decide⟩
  intro hon
  rcases hon with ⟨l, hl, hmem⟩
  have hnil : l = [] := hl.listEmpty_iff.mp (by decide)
  rw [hnil] at hmem
  exact not_mem_nil hmem

end LunOS.Scheduler
