import LunOS.Ds.Lists
import LunOS.Utils.Runs
import Mathlib.Algebra.Ring.Nat
import Mathlib.Data.Fintype.Basic
import Mathlib.Data.List.FinRange

/-!
# Tasks and the scheduler

The task lists of `tasks.c`, the run queues of `scheduler.c` and the placement and exit of tasks in
`task_manager.c`. A task is known by its address; each of its list nodes is a node of one heap,
together with the heads `all_tasks` and `__percpu_cpu_runqueue`. Every function is one atomic step:
the locks are not part of this model. `kmalloc` and the memory of a task (`mm_free`) are modelled
elsewhere, so the functions that allocate take the result of `kmalloc`.
-/

namespace LunOS.Scheduler
open LunOS.Ds Function

/-- `MAX_CORES` -/
def maxCores : ℕ := 4

abbrev CpuId := Fin maxCores

instance : NeZero maxCores := ⟨by decide⟩

/-- `enum task_state` -/
inductive TaskState
  | running
  | sleepingInterruptible
  | sleepingUninterruptible
  | stopped
  | traced
  | zombie
  | dead
deriving DecidableEq

/-- `struct task` without the saved registers and the list nodes; pointers are `none` for `NULL`. -/
structure Task where
  pid : ℕ
  tgid : ℕ
  cpuId : CpuId
  priority : ℤ
  state : TaskState
  md : Option ℕ
  kernelStackBase : Option ℕ
  parent : Option ℕ
  exitCode : ℤ
  exitSignal : ℤ

/-- The list nodes: two kinds of heads that are variables, and six nodes in every task. -/
inductive Node
  | allTasks
  | cpuRunqueue (c : CpuId)
  | children (t : ℕ)
  | siblings (t : ℕ)
  | zombieChildren (t : ℕ)
  | zombieSiblings (t : ℕ)
  | tasks (t : ℕ)
  | tasksRunnable (t : ℕ)
deriving DecidableEq

/-- A pointer to a task: to a proper one, or to where a task would lie around a node that is no
`tasks_runnable`. -/
inductive TaskPtr
  | task (t : ℕ)
  | wild (n : Node)
deriving DecidableEq

/-- `container_of(node, struct task, tasks_runnable)`. -/
def containerOf : Node → TaskPtr
  | .tasksRunnable t => .task t
  | n => .wild n

/-- `&p->tasks_runnable`. -/
def TaskPtr.tasksRunnable : TaskPtr → Node
  | .task t => .tasksRunnable t
  | .wild n => n

/-- `created` records the tasks that were made, in order. -/
structure SchedState where
  heap : ListHeap Node
  task : ℕ → Task
  currentTask : CpuId → Option TaskPtr
  taskCounter : CpuId → ℤ
  created : List ℕ

namespace SchedState

/-- The record of a task is replaced. -/
def setTask (s : SchedState) (t : ℕ) (r : Task) : SchedState :=
  { s with task := update s.task t r }

/-- The nodes are changed by `f`. -/
def mapHeap (s : SchedState) (f : ListHeap Node → ListHeap Node) : SchedState :=
  { s with heap := f s.heap }

end SchedState

/-! ## `scheduler.c` -/

/-- `scheduler_init` -/
def schedulerInit (s : SchedState) : SchedState :=
  { s with
    heap := ((List.finRange maxCores).map .cpuRunqueue).foldl listInit (listInit s.heap .allTasks)
    currentTask := fun _ => none }

/-- `sched_task` -/
def schedTask (s : SchedState) (t : ℕ) (c : CpuId) : SchedState :=
  s.mapHeap fun h => listAddTail h (.tasksRunnable t) (.cpuRunqueue c)

/-- `sched_remove_task` -/
def schedRemoveTask (s : SchedState) (t : ℕ) : SchedState :=
  s.mapHeap fun h => listDel h (.tasksRunnable t)

/-- The node after a queued one, around the head of the queue. -/
def nextNode (s : SchedState) (c : CpuId) (currentNode : Node) : Node :=
  if s.heap.next currentNode = .cpuRunqueue c then s.heap.next (.cpuRunqueue c)
  else s.heap.next currentNode

/-- The task `schedule` picks. -/
def pickNext (s : SchedState) (c : CpuId) : Option TaskPtr :=
  match s.currentTask c with
  | none =>
    if ¬listEmpty s.heap (.cpuRunqueue c) then some (containerOf (s.heap.next (.cpuRunqueue c)))
    else none
  | some current =>
    let node := nextNode s c current.tasksRunnable
    if node ≠ .cpuRunqueue c then some (containerOf node) else none

/-- `schedule` on a CPU. The first component is the task whose context goes to `load_next_task`,
which does not return; `none` is `load_next_task(&current->cpu_context)` with `current == NULL`. -/
def schedule (s : SchedState) (c : CpuId) : Option TaskPtr × SchedState :=
  let next := pickNext s c
  if next ≠ none ∧ next ≠ s.currentTask c then
    (next, { s with currentTask := update s.currentTask c next })
  else (s.currentTask c, s)

/-! ## `tasks.c` -/

/-- `create_task` at the address `kmalloc` returned. `cpu_id` and `kernel_stack_base` keep what
the memory held. -/
def createTask (s : SchedState) (t : ℕ) : SchedState :=
  let s := s.setTask t { s.task t with
    pid := 0, tgid := 0, priority := 99, state := .running, md := none, parent := none,
    exitCode := 0, exitSignal := 0 }
  s.mapHeap fun h =>
    let h := listInit h (.siblings t)
    let h := listInit h (.children t)
    let h := listInit h (.zombieSiblings t)
    listInit h (.zombieChildren t)

/-- `create_kernel_task` with the results of its two calls of `kmalloc`. -/
def createKernelTask (s : SchedState) (task stack : Option ℕ) : Option ℕ × SchedState :=
  match task, stack with
  | none, _ => (none, s)
  | some t, none => (none, createTask s t)
  | some t, some stack =>
    let s := createTask s t
    let s := s.setTask t { s.task t with kernelStackBase := some stack }
    let s := s.mapHeap fun h =>
      let h := listInit h (.tasksRunnable t)
      listAddTail h (.tasks t) .allTasks
    (some t, { s with created := s.created ++ [t] })

/-- The nodes that the creation of a task initialises. -/
def freshNodes (t : ℕ) : List Node :=
  [.siblings t, .children t, .zombieSiblings t, .zombieChildren t, .tasksRunnable t]

/-- The value `PID_MAX`, after which pids are handed out again from 2. -/
def pidMax : ℕ := 1111111111

/-- `incr_pid_ctr`: the pid, and the counter after it. -/
def incrPidCtr (pidCounter : ℕ) : ℕ × ℕ :=
  let next := (pidCounter + 1) % 2 ^ 32
  (pidCounter, if next > pidMax then 2 else next)

/-- `create_user_task` with the results of its two calls of `kmalloc`, and `pid_counter` before and
after. -/
def createUserTask (s : SchedState) (pidCounter : ℕ) (task md : Option ℕ) :
    Option ℕ × SchedState × ℕ :=
  match task with
  | none => (none, s, pidCounter)
  | some t =>
    let s := createTask s t
    let (pid, pidCounter) := incrPidCtr pidCounter
    let s := s.setTask t { s.task t with pid := pid, tgid := pid, md := md }
    match md with
    -- the task is freed again, but its pid is used up
    | none => (none, s, pidCounter)
    | some _ =>
      let s := s.mapHeap fun h =>
        let h := listInit h (.tasksRunnable t)
        listAddTail h (.tasks t) .allTasks
      (some t, { s with created := s.created ++ [t] }, pidCounter)

/-- What `task_destroy` does to the lists; the rest of it gives memory back. -/
def taskDestroy (s : SchedState) (t : ℕ) : SchedState :=
  s.mapHeap fun h =>
    let h := listDel h (.tasks t)
    listDel h (.siblings t)

/-- `task_add_child` -/
def taskAddChild (s : SchedState) (parent child : ℕ) : SchedState :=
  if (s.task child).parent ≠ some parent then s
  else s.mapHeap fun h => listAddTail h (.siblings child) (.children parent)

/-- `task_remove_child` -/
def taskRemoveChild (s : SchedState) (parent child : ℕ) : SchedState :=
  if (s.task child).parent ≠ some parent then s
  else s.mapHeap fun h => listDel h (.siblings child)

/-- `task_remove_zombie` -/
def taskRemoveZombie (s : SchedState) (parent zombie : ℕ) : SchedState :=
  if (s.task zombie).parent ≠ some parent then s
  else s.mapHeap fun h => listDel h (.zombieSiblings zombie)

/-- `task_add_zombie` -/
def taskAddZombie (s : SchedState) (parent zombie : ℕ) : SchedState :=
  if (s.task zombie).parent ≠ some parent then s
  else s.mapHeap fun h =>
    let h := listDel h (.siblings zombie)
    listAddTail h (.zombieSiblings zombie) (.zombieChildren parent)

/-- The loop of `task_orphan_children`; `none` when it has not ended after that many turns. -/
def orphanLoop (head : Node) : ℕ → Node → ListHeap Node → Option (ListHeap Node)
  | 0, _, _ => none
  | fuel + 1, node, h =>
    if node = head then some h else orphanLoop head fuel (h.next node) (listDel h node)

/-- A proper list of children has at most as many nodes as there are tasks. -/
def taskOrphanChildren (s : SchedState) (t : ℕ) : Option SchedState :=
  (orphanLoop (.children t) (s.created.length + 1) (s.heap.next (.children t)) s.heap).map
    fun h => { s with heap := h }

/-! ## `task_manager.c` -/

/-- `find_least_busy_cpu`: the choice, and the counter it raises. -/
def findLeastBusyCpu (s : SchedState) : CpuId × SchedState :=
  let min := (List.finRange maxCores).tail.foldl
    (fun (m : ℤ × CpuId) i => if s.taskCounter i < m.1 then (s.taskCounter i, i) else m)
    (s.taskCounter 0, 0)
  (min.2, { s with
    taskCounter := update s.taskCounter min.2 (s.taskCounter min.2 + 1) })

/-- `create_and_schedule_kernel_task`. Without memory the source writes through a `NULL` pointer;
that is `none` here. -/
def createAndScheduleKernelTask (s : SchedState) (task stack : Option ℕ) : Option SchedState :=
  match createKernelTask s task stack with
  | (none, _) => none
  | (some t, s) =>
    let (id, s) := findLeastBusyCpu s
    let s := s.setTask t { s.task t with cpuId := id }
    some (schedTask s t id)

/-- `task_exit` up to the call of `schedule`, for a current task that is a proper one. -/
def taskExitBeforeSchedule (s : SchedState) (t : ℕ) (exitCode : ℤ) : Option SchedState :=
  let s := s.setTask t { s.task t with exitCode := exitCode, state := .zombie }
  let s := schedRemoveTask s t
  let id := (s.task t).cpuId
  let s := { s with taskCounter := update s.taskCounter id (s.taskCounter id - 1) }
  let s := if (s.task t).md ≠ none then s.setTask t { s.task t with md := none } else s
  let s := match (s.task t).parent with
    | none => s
    | some parent =>
      if (s.task parent).state = .sleepingInterruptible then taskAddZombie s parent t else s
  if s.heap.next (.children t) ≠ .children t then taskOrphanChildren s t else some s

/-- `task_exit` on a CPU: what `schedule` hands to `load_next_task`, and the state. -/
def taskExit (s : SchedState) (c : CpuId) (exitCode : ℤ) : Option (Option TaskPtr × SchedState) :=
  match s.currentTask c with
  | some (.task t) => (taskExitBeforeSchedule s t exitCode).map fun s => schedule s c
  | _ => none

/-- `wake_up_task`: also this places the task on the least busy CPU. -/
def wakeUpTask (s : SchedState) (t : ℕ) : SchedState :=
  let s := s.setTask t { s.task t with state := .running }
  let (id, s) := findLeastBusyCpu s
  let s := s.setTask t { s.task t with cpuId := id }
  schedTask s t id

/-! ## Runs -/

/-- One step: a task is created and placed, the timer calls `schedule`, or a current task exits. -/
inductive SchedStep : SchedState → SchedState → Prop
  | create {s s' : SchedState} (t stack : ℕ) (hfresh : t ∉ s.created)
      (h : createAndScheduleKernelTask s (some t) (some stack) = some s') : SchedStep s s'
  | timer {s : SchedState} (c : CpuId) : SchedStep s (schedule s c).2
  | exit {s s' : SchedState} {p : Option TaskPtr} (c : CpuId) (exitCode : ℤ)
      (h : taskExit s c exitCode = some (p, s')) : SchedStep s s'

/-- The states reachable after `scheduler_init`, whatever memory held before. -/
def SchedReachable : SchedState → Prop :=
  Runs.Reachable (fun s => ∃ s₀ : SchedState, s₀.created = [] ∧ s = schedulerInit s₀) SchedStep

/-- A task is on the run queue of a CPU: following `next` from the head leads to its node before
it leads back. -/
def OnRunqueue (s : SchedState) (c : CpuId) (t : ℕ) : Prop :=
  ∃ l, Circular s.heap (.cpuRunqueue c) l ∧ Node.tasksRunnable t ∈ l

/-- Memory that was never used. -/
def coldState : SchedState where
  heap := ⟨id, id⟩
  task := fun _ => ⟨0, 0, 0, 0, .running, none, none, none, 0, 0⟩
  currentTask := fun _ => none
  taskCounter := fun _ => 0
  created := []

end LunOS.Scheduler
