import LunOS.Scheduler.Theorems
import LunOS.Utils.Rotation

/-!
# Round robin

The calls of `schedule` on one CPU, with new tasks put on its run queue in between.

- `Follows`: the run queue and the current task are a list with a cursor.
- `Follows.run`: the tasks that are dispatched are those the cursor visits.
- `round_robin`: from one dispatch of a task to the next every other task that was queued all the
  time is dispatched once; without new tasks as many calls as there are tasks dispatch each once.
-/

namespace LunOS.Scheduler
open LunOS.Ds LunOS.Rotation List

/-- What happens to the run queue of a CPU. -/
inductive QueueEvent
  | schedule
  | schedTask (t : ℕ)

/-- The tasks put on the queue. -/
def newTasks : List QueueEvent → List ℕ
  | [] => []
  | .schedule :: es => newTasks es
  | .schedTask t :: es => t :: newTasks es

/-- The state after the events. -/
def afterEvents (c : CpuId) (s : SchedState) : List QueueEvent → SchedState
  | [] => s
  | .schedule :: es => afterEvents c (schedule s c).2 es
  | .schedTask t :: es => afterEvents c (schedTask s t c) es

/-- What the calls of `schedule` hand to `load_next_task`. -/
def dispatches (c : CpuId) (s : SchedState) : List QueueEvent → List (Option TaskPtr)
  | [] => []
  | .schedule :: es => (schedule s c).1 :: dispatches c (schedule s c).2 es
  | .schedTask t :: es => dispatches c (schedTask s t c) es

/-! ## The queue as a list with a cursor -/

/-- The queue of a CPU and its current task are those of the rota. -/
structure Follows (s : SchedState) (c : CpuId) (r : Rota ℕ) : Prop where
  queue : Circular s.heap (.cpuRunqueue c) (r.items.map .tasksRunnable)
  current : s.currentTask c = some (.task r.current)
  mem : r.current ∈ r.items

variable {s : SchedState} {c : CpuId} {r : Rota ℕ}

/-- No task is on the queue twice. -/
lemma Follows.nodup (h : Follows s c r) : r.items.Nodup :=
  (nodup_cons.mp h.queue.nodup).2.of_map _

/-- Past the head of the queue or not, the source finds the task behind the current one. -/
lemma Follows.nextNode (h : Follows s c r) :
    nextNode s c (.tasksRunnable r.current) = .tasksRunnable r.turn.current := by
  obtain ⟨front, back, hitems⟩ := append_of_mem h.mem
  have hnd := nodup_append_nil h.nodup
  have hq := h.queue
  have hseg := h.queue.seg
  rw [hitems, map_append, map_cons, seg_append] at hseg
  cases back with
  | nil =>
    have hlast : s.heap.next (.tasksRunnable r.current) = .cpuRunqueue c := hseg.2.1
    unfold Scheduler.nextNode
    rw [if_pos hlast, Rota.turn_first hitems hnd]
    -- the first node behind the head
    cases front with
    | nil =>
      rw [hitems] at hq ⊢
      exact hq.next_head
    | cons t front =>
      rw [hitems] at hq ⊢
      exact hq.next_head
  | cons t back =>
    have hnext : s.heap.next (.tasksRunnable r.current) = .tasksRunnable t := hseg.2.1.1
    unfold Scheduler.nextNode
    rw [hnext, if_neg Node.noConfusion, Rota.turn_next hitems hnd]

/-- The next task is on the queue. -/
lemma Rota.turn_mem (hmem : r.current ∈ r.items) (hnd : r.items.Nodup) :
    r.turn.current ∈ r.items := by
  obtain ⟨front, back, hitems⟩ := append_of_mem hmem
  cases back with
  | nil =>
    rw [Rota.turn_first hitems (nodup_append_nil hnd), hitems]
    cases front with
    | nil => exact mem_cons_self
    | cons t front => exact mem_cons_self
  | cons t back =>
    rw [Rota.turn_next hitems (nodup_append_nil hnd), hitems]
    simp

/-- A call of `schedule` is a turn. -/
lemma Follows.schedule (h : Follows s c r) :
    (schedule s c).1 = some (.task r.turn.current) ∧ Follows (schedule s c).2 c r.turn := by
  have hpick : pickNext s c = some (.task r.turn.current) := by
    rw [pickNext_of_current h.current, h.nextNode, if_pos (by simp)]
    rfl
  rw [schedule_of_pick hpick]
  exact ⟨rfl, h.queue, Function.update_self c _ _, Rota.turn_mem h.mem h.nodup⟩

/-- `sched_task` of a task that is not queued adds it at the end. -/
lemma Follows.schedTask (h : Follows s c r) {t : ℕ} (ht : t ∉ r.items) :
    Follows (schedTask s t c) c (r.add t) := by
  have hnot : Node.tasksRunnable t ∉ Node.cpuRunqueue c :: r.items.map .tasksRunnable := by
    simpa using ht
  have hqueue : Circular (Scheduler.schedTask s t c).heap (.cpuRunqueue c)
      ((r.add t).items.map .tasksRunnable) := by
    rw [Rota.add, map_append]
    exact h.queue.listAddTail hnot
  exact ⟨hqueue, h.current, mem_append_left _ h.mem⟩

/-- The event of the rota. -/
def QueueEvent.toRotation : QueueEvent → Event ℕ
  | .schedule => .turn
  | .schedTask t => .add t

lemma added_toRotation (es : List QueueEvent) :
    added (es.map QueueEvent.toRotation) = newTasks es := by
  induction es with
  | nil => rfl
  | cons e es ih =>
    cases e with
    | schedule => exact ih
    | schedTask t => exact congrArg (t :: ·) ih

/-- The run: what is dispatched is what the cursor visits. -/
lemma Follows.run (h : Follows s c r) {es : List QueueEvent}
    (hnew : (r.items ++ newTasks es).Nodup) :
    dispatches c s es = (visits r (es.map QueueEvent.toRotation)).map (fun t => some (.task t)) ∧
      Follows (afterEvents c s es) c (after r (es.map QueueEvent.toRotation)) := by
  induction es generalizing s r with
  | nil => exact ⟨rfl, h⟩
  | cons e es ih =>
    cases e with
    | schedule =>
      have hstep := h.schedule
      have hrest := ih hstep.2 hnew
      rw [dispatches, hstep.1, hrest.1]
      exact ⟨rfl, hrest.2⟩
    | schedTask t =>
      have hmid : (r.items ++ t :: newTasks es).Nodup := hnew
      have ht : t ∉ r.items := fun hmem =>
        (nodup_append.mp hmid).2.2 t hmem t mem_cons_self rfl
      apply ih (h.schedTask ht)
      rw [Rota.add, append_assoc]
      exact hmid

lemma newTasks_append (es es' : List QueueEvent) :
    newTasks (es ++ es') = newTasks es ++ newTasks es' := by
  rw [← added_toRotation, map_append, added_append, added_toRotation, added_toRotation]

/-! ## The order of the dispatches -/

/-- From one dispatch of the current task to the next. -/
lemma Follows.between (h : Follows s c r) {mid : List QueueEvent}
    (hnew : (r.items ++ newTasks mid).Nodup)
    (hnot : some (.task r.current) ∉ dispatches c s mid)
    (hagain : (Scheduler.schedule (afterEvents c s mid) c).1 = some (.task r.current)) {y : ℕ}
    (hne : y ≠ r.current) (hon : OnRunqueue s c y) :
    (dispatches c s mid).count (some (.task y)) = 1 := by
  have hrun := h.run hnew
  have hy : y ∈ r.items := by
    obtain ⟨l, hl, hmem⟩ := hon
    rw [hl.unique h.queue] at hmem
    simpa using hmem
  have hinj : Function.Injective fun t : ℕ => some (TaskPtr.task t) :=
    fun _ _ heq => TaskPtr.task.inj (Option.some.inj heq)
  rw [hrun.1] at hnot ⊢
  rw [hrun.2.schedule.1] at hagain
  rw [← added_toRotation] at hnew
  have hcount := visits_between h.mem hnew (fun hmem => hnot (mem_map_of_mem hmem))
    (hinj hagain) hy hne
  rw [count_map_of_injective _ _ hinj]
  exact hcount

/-- A current task that is queued, any calls of `schedule` on its CPU and any new tasks put on the
queue in between: from one dispatch of `x` to the next, every other task that was on the queue all
the time is dispatched exactly once. Without new tasks, as many calls as there are tasks dispatch
each of them once and end at the task they started from. -/
theorem round_robin {ts : List ℕ} {cur : ℕ}
    (hq : Circular s.heap (.cpuRunqueue c) (ts.map .tasksRunnable))
    (hcur : s.currentTask c = some (.task cur)) (hmem : cur ∈ ts) :
    (∀ (pre mid : List QueueEvent) (x y : ℕ) (s₁ : SchedState),
      (ts ++ newTasks (pre ++ mid)).Nodup →
      schedule (afterEvents c s pre) c = (some (.task x), s₁) →
      some (.task x) ∉ dispatches c s₁ mid →
      (schedule (afterEvents c s₁ mid) c).1 = some (.task x) →
      y ≠ x → OnRunqueue s₁ c y → (dispatches c s₁ mid).count (some (.task y)) = 1) ∧
    (dispatches c s (List.replicate ts.length .schedule)).Perm
      (ts.map fun t => some (.task t)) ∧
    (afterEvents c s (List.replicate ts.length .schedule)).currentTask c = some (.task cur) := by
  have h : Follows s c ⟨ts, cur⟩ := ⟨hq, hcur, hmem⟩
  constructor
  · intro pre mid x y s₁ hnew hfirst hnot hagain hne hon
    rw [newTasks_append, ← append_assoc] at hnew
    have hpre := h.run (nodup_append.mp hnew).1
    have hstep := hpre.2.schedule
    rw [hfirst] at hstep
    have hx : (after ⟨ts, cur⟩ (pre.map QueueEvent.toRotation)).turn.current = x :=
      (TaskPtr.task.inj (Option.some.inj hstep.1)).symm
    rw [← hx] at hnot hagain hne
    apply hstep.2.between _ hnot hagain hne hon
    rw [Rota.turn, after_items, added_toRotation]
    exact hnew
  · obtain ⟨front, back, hitems⟩ := append_of_mem hmem
    have hnone : newTasks (List.replicate ts.length .schedule) = [] := by
      induction ts.length with
      | zero => rfl
      | succ n ih => exact ih
    have hmap : (List.replicate ts.length QueueEvent.schedule).map QueueEvent.toRotation =
        List.replicate ts.length .turn := map_replicate
    have hnew : (ts ++ newTasks (List.replicate ts.length .schedule)).Nodup := by
      rw [hnone]
      exact nodup_append_nil h.nodup
    have hrun := h.run hnew
    have haround := visits_turns_around (r := ⟨ts, cur⟩) hitems h.nodup
    rw [hmap] at hrun
    constructor
    · rw [hrun.1, haround]
      apply List.Perm.map
      -- `back ++ front ++ [cur]` against `front ++ cur :: back`
      rw [hitems, append_assoc]
      exact perm_append_comm.trans (by simp)
    · rw [hrun.2.current, after_current, haround]
      simp

/-- Three tasks on the queue of CPU 0, the first of them current. -/
def threeTasks : SchedState :=
  afterEvents 0 (schedulerInit coldState) [.schedTask 5, .schedTask 6, .schedTask 7, .schedule]

lemma threeTasks_queue :
    Circular threeTasks.heap (.cpuRunqueue 0) ([5, 6, 7].map .tasksRunnable) := by
  constructor
  · decide
  · simp only [map_cons, map_nil, Seg]
    decide

/-- Task 6 is dispatched, task 8 is new, and when task 6 comes again task 7 has run once. -/
theorem round_robin_threeTasks :
    (dispatches 0 (schedule threeTasks 0).2 [.schedTask 8, .schedule, .schedule, .schedule]).count
      (some (.task 7)) = 1 ∧
    (dispatches 0 threeTasks [.schedule, .schedule, .schedule]).Perm
      [some (.task 5), some (.task 6), some (.task 7)] := by
  have h := @round_robin threeTasks 0 [5, 6, 7] 5 threeTasks_queue (by decide) (by decide)
  constructor
  · apply h.1 [] [.schedTask 8, .schedule, .schedule, .schedule] 6 7 _ (by decide) rfl (by decide)
      (by decide) (by decide)
    exact ⟨_, threeTasks_queue, by decide⟩
  · exact h.2.1

end LunOS.Scheduler
