import LunOS.Ds.Rings
import LunOS.Scheduler.Common

/-!
# The run queues as lists

- `QueueInv`: the run queues are circular lists of tasks, each task on the queue of its CPU.
- `createKernelTask_creates`, `QueueInv.link`, `QueueInv.unlink`: what creating a task,
  `sched_task` and `sched_remove_task` do to the lists.
- `taskExitBeforeSchedule_eq`: `task_exit` of a task without parent and children.
-/

namespace LunOS.Scheduler
open LunOS.Ds Function List

/-- The lists, with the tasks on each run queue. No task has a parent or children: these functions
give it none. -/
structure QueueInv (s : SchedState) (queue : CpuId → List ℕ) : Prop where
  all : Circular s.heap .allTasks (s.created.map .tasks)
  queues : ∀ c, Circular s.heap (.cpuRunqueue c) ((queue c).map .tasksRunnable)
  queued : ∀ c, ∀ t ∈ queue c, t ∈ s.created ∧ (s.task t).cpuId = c
  alone : ∀ t ∈ s.created, (s.task t).parent = none ∧ Circular s.heap (.children t) []

/-- The run queues as lists of one kind. -/
def queueKind : Kind Node CpuId ℕ where
  head := .cpuRunqueue
  node := .tasksRunnable
  head_inj _ _ h := Node.cpuRunqueue.inj h
  node_inj _ _ h := Node.tasksRunnable.inj h
  apart _ _ := Node.noConfusion

variable {s s' : SchedState} {queue : CpuId → List ℕ}

/-- All queues are empty. -/
lemma QueueInv.init (s : SchedState) (hnew : s.created = []) :
    QueueInv (schedulerInit s) fun _ => [] := by
  have hcreated : (schedulerInit s).created = [] := hnew
  have hall : Circular (schedulerInit s).heap .allTasks [] := by
    apply (circular_listInit s.heap Node.allTasks).congr
    intro z hz
    apply foldl_listInit_of_notMem
    rw [mem_singleton.mp hz]
    simp
  constructor
  · rw [hcreated]
    exact hall
  · intro c
    apply foldl_listInit_of_mem
    exact mem_map.mpr ⟨c, mem_finRange c, rfl⟩
  · intro c t ht
    exact absurd ht not_mem_nil
  · intro t ht
    rw [hcreated] at ht
    exact absurd ht not_mem_nil

/-- `schedule` writes the current task only. -/
lemma schedule_writes (s : SchedState) (c : CpuId) :
    ∃ current, (schedule s c).2 = { s with currentTask := current } := by
  unfold schedule
  by_cases hnext : pickNext s c ≠ none ∧ pickNext s c ≠ s.currentTask c
  · simp only [if_pos hnext]
    exact ⟨_, rfl⟩
  · simp only [if_neg hnext]
    exact ⟨s.currentTask, rfl⟩

variable {t : ℕ} {c : CpuId}

section
variable (h : QueueInv s queue)
include h

/-- A task is on one queue only. -/
lemma QueueInv.cpu_unique {c' : CpuId} (ht : t ∈ queue c) (ht' : t ∈ queue c') : c = c' :=
  (h.queued c t ht).2.symm.trans (h.queued c' t ht').2

/-- The lists of `QueueInv` are lists of the kind, for the tasks that are queued. -/
lemma QueueInv.rings :
    Rings queueKind s.heap (fun _ => True) (fun t => ∃ c, t ∈ queue c) queue where
  ring c _ := h.queues c
  mem c _ _ ht := ⟨c, ht⟩
  one _ _ _ _ _ := h.cpu_unique
  loose := by
    rintro t ⟨c, ht⟩ hout
    exact absurd ht (hout c trivial)

lemma QueueInv.nodup (c : CpuId) : (queue c).Nodup :=
  h.rings.nodup (b := c) trivial

/-- The lists are what the pointers say. -/
lemma QueueInv.onRunqueue_iff (c : CpuId) (t : ℕ) : OnRunqueue s c t ↔ t ∈ queue c :=
  h.rings.on_ring_iff (b := c) trivial

/-- What changes nodes of run queues only leaves the other lists alone. -/
lemma QueueInv.of_frame {queue' : CpuId → List ℕ} (hcreated : s'.created = s.created)
    (htask : s'.task = s.task) (hframe : ∀ z, ¬ queueKind.Covers z → SameAt s.heap s'.heap z)
    (hqueues : ∀ c, Circular s'.heap (.cpuRunqueue c) ((queue' c).map .tasksRunnable))
    (hqueued : ∀ c, ∀ t ∈ queue' c, t ∈ s.created ∧ (s.task t).cpuId = c) : QueueInv s' queue' := by
  constructor
  · rw [hcreated]
    apply h.all.congr
    intro z hz
    obtain heq | hz := mem_cons.mp hz
    · rw [heq]
      exact hframe _ (by simp [Kind.Covers, queueKind])
    · obtain ⟨t, _, heq⟩ := mem_map.mp hz
      rw [← heq]
      exact hframe _ (by simp [Kind.Covers, queueKind])
  · exact hqueues
  · rw [hcreated, htask]
    exact hqueued
  · intro t ht
    rw [hcreated] at ht
    rw [htask]
    refine ⟨(h.alone t ht).1, (h.alone t ht).2.congr fun z hz => ?_⟩
    rw [mem_singleton.mp hz]
    exact hframe _ (by simp [Kind.Covers, queueKind])

/-- A task that is not queued may be given any CPU. -/
lemma QueueInv.setTask {r : Task} (hparent : r.parent = none)
    (hcpu : ∀ c, t ∈ queue c → r.cpuId = c) (counter : CpuId → ℤ) :
    QueueInv { s.setTask t r with taskCounter := counter } queue := by
  constructor
  · exact h.all
  · exact h.queues
  · intro c t' ht'
    show t' ∈ s.created ∧ (update s.task t r t').cpuId = c
    by_cases hne : t' = t
    · rw [hne] at ht' ⊢
      rw [update_self]
      exact ⟨(h.queued c t ht').1, hcpu c ht'⟩
    · rw [update_of_ne hne]
      exact h.queued c t' ht'
  · intro t' ht'
    show (update s.task t r t').parent = none ∧ _
    by_cases hne : t' = t
    · rw [hne, update_self]
      exact ⟨hparent, (h.alone t (hne ▸ ht')).2⟩
    · rw [update_of_ne hne]
      exact h.alone t' ht'

end

/-! ## A new task -/

/-- What `create_kernel_task` leaves behind. -/
structure CreatesTask (s s' : SchedState) (t : ℕ) : Prop where
  created : s'.created = s.created ++ [t]
  current : s'.currentTask = s.currentTask
  others : ∀ t', t' ≠ t → s'.task t' = s.task t'
  state : (s'.task t).state = .running
  parent : (s'.task t).parent = none
  all : Circular s'.heap .allTasks (s'.created.map .tasks)
  fresh : ∀ n ∈ freshNodes t, Circular s'.heap n []
  frame : ∀ z ∉ freshNodes t, z ∉ Node.allTasks :: s'.created.map .tasks →
    s'.heap.next z = s.heap.next z ∧ s'.heap.prev z = s.heap.prev z

/-- The new task is on `all_tasks`. -/
lemma createKernelTask_creates (hall : Circular s.heap .allTasks (s.created.map .tasks))
    (ht : t ∉ s.created) (stack : ℕ) :
    (createKernelTask s (some t) (some stack)).1 = some t ∧
      CreatesTask s (createKernelTask s (some t) (some stack)).2 t := by
  have hinits : Circular ((freshNodes t).foldl listInit s.heap) .allTasks
      (s.created.map .tasks) := by
    apply hall.congr
    intro z hz
    apply foldl_listInit_of_notMem
    rcases mem_cons.mp hz with hz | hz
    · rw [hz]
      simp [freshNodes]
    · rcases mem_map.mp hz with ⟨t', _, heq⟩
      rw [← heq]
      simp [freshNodes]
  have hnot : Node.tasks t ∉ Node.allTasks :: s.created.map Node.tasks := by
    simpa using ht
  have hmap : (s.created ++ [t]).map Node.tasks = s.created.map Node.tasks ++ [.tasks t] := by
    rw [map_append]
    rfl
  refine ⟨rfl, rfl, rfl, fun t' hne => ?_, ?_, ?_, ?_, fun n hn => ?_, fun z hz hout => ?_⟩
  · exact (update_of_ne hne _ _).trans (update_of_ne hne _ _)
  · simp [createKernelTask, createTask, SchedState.setTask, SchedState.mapHeap]
  · simp [createKernelTask, createTask, SchedState.setTask, SchedState.mapHeap]
  · show Circular (listAddTail ((freshNodes t).foldl listInit s.heap) (.tasks t) .allTasks)
      .allTasks ((s.created ++ [t]).map .tasks)
    rw [hmap]
    exact hinits.listAddTail hnot
  · apply (foldl_listInit_of_mem hn s.heap).congr
    intro z hz
    rw [mem_singleton.mp hz]
    simp only [freshNodes, mem_cons, not_mem_nil, or_false] at hn
    apply hinits.listAddTail_frame
    · rcases hn with hn | hn | hn | hn | hn <;> simp [hn]
    · rcases hn with hn | hn | hn | hn | hn <;> simp [hn]
  · have hout' : z ∉ (Node.allTasks :: s.created.map Node.tasks) ∧ z ≠ .tasks t := by
      change z ∉ Node.allTasks :: (s.created ++ [t]).map Node.tasks at hout
      rw [hmap] at hout
      simpa [not_or, and_assoc] using hout
    have hadd := hinits.listAddTail_frame hout'.2 hout'.1
    have hinit := foldl_listInit_of_notMem hz s.heap
    exact ⟨hadd.1.trans hinit.1, hadd.2.trans hinit.2⟩

/-- A new task is on no queue. -/
lemma CreatesTask.queueInv (hnew : CreatesTask s s' t) (h : QueueInv s queue) (ht : t ∉ s.created) :
    QueueInv s' queue := by
  have hne : ∀ t' ∈ s.created, t' ≠ t := fun t' ht' => ne_of_mem_of_not_mem ht' ht
  constructor
  · exact hnew.all
  · intro c
    apply (h.queues c).congr
    intro z hz
    obtain heq | hz := mem_cons.mp hz
    · rw [heq]
      exact hnew.frame _ (by simp [freshNodes]) (by simp)
    · obtain ⟨t', ht', heq⟩ := mem_map.mp hz
      rw [← heq]
      exact hnew.frame _ (by simpa [freshNodes] using hne t' (h.queued c t' ht').1) (by simp)
  · intro c t' ht'
    have hq := h.queued c t' ht'
    rw [hnew.others t' (hne t' hq.1), hnew.created]
    exact ⟨mem_append_left _ hq.1, hq.2⟩
  · intro t' ht'
    rw [hnew.created] at ht'
    obtain ht' | ht' := mem_append.mp ht'
    · rw [hnew.others t' (hne t' ht')]
      refine ⟨(h.alone t' ht').1, (h.alone t' ht').2.congr fun z hz => ?_⟩
      rw [mem_singleton.mp hz]
      exact hnew.frame _ (by simpa [freshNodes] using hne t' ht') (by simp)
    · rw [mem_singleton.mp ht']
      exact ⟨hnew.parent, hnew.fresh _ (by simp [freshNodes])⟩

/-! ## Onto a queue -/

/-- `sched_task` changes nodes of that queue and of the task only. -/
lemma QueueInv.link_frame (h : QueueInv s queue) {id : CpuId} {z : Node}
    (hzt : z ≠ .tasksRunnable t) (hz : z ∉ Node.cpuRunqueue id :: (queue id).map .tasksRunnable) :
    (schedTask s t id).heap.next z = s.heap.next z ∧
      (schedTask s t id).heap.prev z = s.heap.prev z :=
  (h.queues id).listAddTail_frame hzt hz

/-- `sched_task` of a task on no queue. -/
lemma QueueInv.link (h : QueueInv s queue) {id : CpuId} (ht : t ∈ s.created) (hq : ∀ c, t ∉ queue c)
    (hcpu : (s.task t).cpuId = id) :
    QueueInv (schedTask s t id) (update queue id (queue id ++ [t])) := by
  have hcreated : (schedTask s t id).created = s.created := rfl
  apply h.of_frame hcreated rfl
  · intro z hz
    exact h.rings.add_frame (b := id) (t := t) trivial hz
  · intro c
    exact (h.rings.add_new (b := id) trivial fun c _ => hq c).ring c trivial
  · intro c t' ht'
    rcases Rings.mem_append_update_iff.mp ht' with hmem | ⟨hc, heq⟩
    · exact h.queued c t' hmem
    · rw [heq, hc]
      exact ⟨ht, hcpu⟩

/-! ## Off a queue -/

/-- The queues after a task has left. -/
def without (queue : CpuId → List ℕ) (t : ℕ) : CpuId → List ℕ := fun c => (queue c).erase t

lemma QueueInv.mem_without (h : QueueInv s queue) {t' : ℕ} :
    t' ∈ without queue t c ↔ t' ≠ t ∧ t' ∈ queue c :=
  List.Nodup.mem_erase_iff (h.nodup c)

/-- `sched_remove_task` changes nodes of the queue only. -/
lemma QueueInv.unlink_frame (h : QueueInv s queue) (ht : t ∈ queue c) {z : Node}
    (hz : z ∉ Node.cpuRunqueue c :: (queue c).map .tasksRunnable) :
    (schedRemoveTask s t).heap.next z = s.heap.next z ∧
      (schedRemoveTask s t).heap.prev z = s.heap.prev z :=
  (h.queues c).listDel_frame (mem_map.mpr ⟨t, ht, rfl⟩) hz

/-- `sched_remove_task` of a queued task. -/
lemma QueueInv.unlink (h : QueueInv s queue) (ht : t ∈ queue c) :
    QueueInv (schedRemoveTask s t) (without queue t) := by
  have hcreated : (schedRemoveTask s t).created = s.created := rfl
  apply h.of_frame hcreated rfl
  · intro z hz
    exact h.rings.del_frame ⟨c, ht⟩ hz
  · intro c'
    exact (h.rings.del ⟨c, ht⟩).ring c' trivial
  · intro c' t' ht'
    exact h.queued c' t' (h.mem_without.mp ht').2

/-- The task is left linked to itself. -/
lemma QueueInv.unlink_self (h : QueueInv s queue) (ht : t ∈ queue c) :
    Circular (schedRemoveTask s t).heap (.tasksRunnable t) [] := by
  apply (h.rings.del ⟨c, ht⟩).loose t ⟨c, ht⟩
  intro c' _ hmem
  exact (h.mem_without.mp hmem).1 rfl

/-- `task_exit` of a task without parent and children, with its memory given back or without
any: it reaches `schedule`. -/
lemma taskExitBeforeSchedule_eq (hparent : (s.task t).parent = none)
    (hchildren : (schedRemoveTask s t).heap.next (.children t) = .children t) (exitCode : ℤ) :
    ∃ r : Task, r.state = .zombie ∧ r.parent = none ∧
      taskExitBeforeSchedule s t exitCode = some { (schedRemoveTask s t).setTask t r with
        taskCounter := update s.taskCounter (s.task t).cpuId
          (s.taskCounter (s.task t).cpuId - 1) } := by
  have hchildren' : (listDel s.heap (.tasksRunnable t)).next (.children t) = .children t :=
    hchildren
  unfold taskExitBeforeSchedule
  simp only [schedRemoveTask, SchedState.setTask, SchedState.mapHeap, update_self]
  by_cases hmd : (s.task t).md = none
  · use { s.task t with exitCode := exitCode, state := .zombie }
    simp only [hmd, ne_eq, not_true_eq_false, if_false, update_self, hparent, hchildren',
      and_self]
  · use { s.task t with exitCode := exitCode, state := .zombie, md := none }
    simp only [hmd, ne_eq, not_false_eq_true, if_true, update_self, hparent,
      hchildren', not_true_eq_false, if_false, update_idem, and_self]

end LunOS.Scheduler
