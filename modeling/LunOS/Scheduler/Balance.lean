import LunOS.Scheduler.Theorems

/-!
# Load counters

`__percpu_task_counter` and the run queues are separate state: `find_least_busy_cpu` and `task_exit`
write the one, `sched_task` and `sched_remove_task` the other.

- `findLeastBusyCpu_le`: the chosen CPU has a least counter.
- `LoadInv`: each counter is the length of its queue.
- `counters_match_queues`: this holds in every run of `create_and_schedule_kernel_task`,
  `wake_up_task` and `task_exit`; a task goes to a shortest queue, and without exits the lengths of
  any two queues differ by at most one.
-/

namespace LunOS.Scheduler
open LunOS.Ds Function List

/-! ## A least value -/

/-- The scan for a least value: what it finds, and that nothing is below. -/
lemma foldl_least {ι : Type*} (f : ι → ℤ) (is : List ι) (i : ι) :
    let m := is.foldl (fun (m : ℤ × ι) j => if f j < m.1 then (f j, j) else m) (f i, i)
    m.1 = f m.2 ∧ m.1 ≤ f i ∧ ∀ j ∈ is, m.1 ≤ f j := by
  induction is generalizing i with
  | nil => exact ⟨rfl, le_refl _, fun j hj => absurd hj not_mem_nil⟩
  | cons k is ih =>
    intro m
    -- the scan goes on from the lesser of the two
    by_cases hlt : f k < f i
    · have hm : m = is.foldl (fun (m : ℤ × ι) j => if f j < m.1 then (f j, j) else m) (f k, k) := by
        simp only [m, foldl_cons, if_pos hlt]
      obtain ⟨hval, hk, hrest⟩ := ih k
      rw [← hm] at hval hk hrest
      exact ⟨hval, hk.trans hlt.le, forall_mem_cons.mpr ⟨hk, hrest⟩⟩
    · have hm : m = is.foldl (fun (m : ℤ × ι) j => if f j < m.1 then (f j, j) else m) (f i, i) := by
        simp only [m, foldl_cons, if_neg hlt]
      obtain ⟨hval, hi, hrest⟩ := ih i
      rw [← hm] at hval hi hrest
      have hk : m.1 ≤ f k := by omega
      exact ⟨hval, hi, forall_mem_cons.mpr ⟨hk, hrest⟩⟩

/-- No CPU has fewer tasks. -/
lemma findLeastBusyCpu_le (s : SchedState) (c : CpuId) :
    s.taskCounter (findLeastBusyCpu s).1 ≤ s.taskCounter c := by
  obtain ⟨hval, hfirst, hrest⟩ := foldl_least s.taskCounter (List.finRange maxCores).tail 0
  have hle : s.taskCounter (findLeastBusyCpu s).1 ≤ s.taskCounter 0 := hval ▸ hfirst
  have hmem : c = 0 ∨ c ∈ (List.finRange maxCores).tail := by
    revert c
    decide
  obtain heq | htail := hmem
  · rw [heq]
    exact hle
  · exact hval ▸ hrest c htail

/-! ## Counters and queues -/

/-- The counters count the tasks of the queues. -/
structure LoadInv (s : SchedState) (queue : CpuId → List ℕ) : Prop extends QueueInv s queue where
  counter : ∀ c, s.taskCounter c = (queue c).length

variable {s s' : SchedState} {queue queue' : CpuId → List ℕ}

lemma LoadInv.init (hnew : s.created = []) (hzero : ∀ c, s.taskCounter c = 0) :
    LoadInv (schedulerInit s) fun _ => [] :=
  ⟨QueueInv.init s hnew, hzero⟩

/-- What `create_and_schedule_kernel_task` and `wake_up_task` have in common. -/
def placeTask (s : SchedState) (t : ℕ) : SchedState :=
  let (id, s) := findLeastBusyCpu s
  let s := s.setTask t { s.task t with cpuId := id }
  schedTask s t id

/-- A task is put at the end of a shortest queue. -/
def PlacedOnShortest (queue queue' : CpuId → List ℕ) (t : ℕ) : Prop :=
  ∃ c, queue' = update queue c (queue c ++ [t]) ∧
    ∀ c', (queue c).length ≤ (queue c').length

variable {t : ℕ}

section
variable (h : LoadInv s queue)
include h

/-- A task is placed. -/
lemma LoadInv.placeTask (ht : t ∈ s.created) (hq : ∀ c, t ∉ queue c) :
    ∃ queue', LoadInv (placeTask s t) queue' ∧ PlacedOnShortest queue queue' t := by
  have hleast := findLeastBusyCpu_le s
  generalize hid : (findLeastBusyCpu s).1 = id at hleast
  have hparent : ({ s.task t with cpuId := id } : Task).parent = none := (h.alone t ht).1
  have hset : QueueInv { s.setTask t { s.task t with cpuId := id } with
      taskCounter := update s.taskCounter id (s.taskCounter id + 1) } queue :=
    h.setTask hparent (fun c hmem => absurd hmem (hq c)) _
  have hcpu : (update s.task t { s.task t with cpuId := id } t).cpuId = id := by
    rw [update_self]
  have hplace : Scheduler.placeTask s t = schedTask { s.setTask t { s.task t with cpuId := id } with
      taskCounter := update s.taskCounter id (s.taskCounter id + 1) } t id := by
    rw [← hid]
    rfl
  rw [hplace]
  refine ⟨_, ⟨hset.link ht hq hcpu, fun c => ?_⟩, id, rfl, fun c' => ?_⟩
  · show update s.taskCounter id (s.taskCounter id + 1) c = _
    by_cases hc : c = id
    · rw [hc, update_self, update_self, length_append, h.counter id]
      rfl
    · rw [update_of_ne hc, update_of_ne hc, h.counter c]
  · have hle := hleast c'
    rw [h.counter id, h.counter c'] at hle
    exact_mod_cast hle

lemma LoadInv.schedule (c : CpuId) : LoadInv (schedule s c).2 queue := by
  rcases schedule_writes s c with ⟨current, hsame⟩
  rw [hsame]
  exact ⟨⟨h.all, h.queues, h.queued, h.alone⟩, h.counter⟩

/-- A task made by `create_kernel_task` is on no queue. -/
lemma LoadInv.createKernelTask (ht : t ∉ s.created) (stack : ℕ) :
    LoadInv (createKernelTask s (some t) (some stack)).2 queue :=
  ⟨(createKernelTask_creates h.all ht stack).2.queueInv h.toQueueInv ht, h.counter⟩

/-- A task is created. -/
lemma LoadInv.create (ht : t ∉ s.created) {stack : ℕ}
    (hcreate : createAndScheduleKernelTask s (some t) (some stack) = some s') :
    ∃ queue', LoadInv s' queue' ∧ PlacedOnShortest queue queue' t := by
  have hs' : Scheduler.placeTask (Scheduler.createKernelTask s (some t) (some stack)).2 t = s' :=
    Option.some.inj hcreate
  rw [← hs']
  apply (h.createKernelTask ht stack).placeTask
  · exact mem_append_right _ mem_cons_self
  · exact fun c hmem => ht (h.queued c t hmem).1

/-- A task wakes up. -/
lemma LoadInv.wakeUpTask (ht : t ∈ s.created) (hq : ∀ c, t ∉ queue c) :
    ∃ queue', LoadInv (wakeUpTask s t) queue' ∧ PlacedOnShortest queue queue' t := by
  have hparent : ({ s.task t with state := .running } : Task).parent = none := (h.alone t ht).1
  have hset : LoadInv (s.setTask t { s.task t with state := .running }) queue :=
    ⟨h.setTask hparent (fun c hmem => absurd hmem (hq c)) s.taskCounter, h.counter⟩
  exact hset.placeTask ht hq

/-- A task that exits while it is queued on its CPU. -/
lemma LoadInv.exitBeforeSchedule {c : CpuId} (ht : t ∈ queue c) {exitCode : ℤ}
    (hexit : taskExitBeforeSchedule s t exitCode = some s') : LoadInv s' (without queue t) := by
  obtain ⟨hcreated, hcpu⟩ := h.queued c t ht
  have halone := h.alone t hcreated
  have hchildren : (schedRemoveTask s t).heap.next (.children t) = .children t := by
    rw [(h.unlink_frame ht (by simp)).1]
    exact halone.2.seg.1
  obtain ⟨r, _, hparent, hrun⟩ := taskExitBeforeSchedule_eq halone.1 hchildren exitCode
  have hs' := Option.some.inj (hrun.symm.trans hexit)
  rw [← hs', hcpu]
  have hgone : ∀ c', t ∉ without queue t c' := fun c' hmem => (h.mem_without.mp hmem).1 rfl
  refine ⟨(h.unlink ht).setTask hparent (fun c' hmem => absurd hmem (hgone c')) _, fun c' => ?_⟩
  show update s.taskCounter c (s.taskCounter c - 1) c' = ((queue c').erase t).length
  by_cases hc : c' = c
  · have hpos : 0 < (queue c).length := length_pos_of_mem ht
    rw [hc, update_self, length_erase_of_mem ht, h.counter c]
    omega
  · -- it is on no other queue
    have hout : t ∉ queue c' := fun hmem => hc (h.cpu_unique hmem ht)
    rw [update_of_ne hc, erase_of_not_mem hout, h.counter c']

end

/-! ## Runs -/

/-- The calls, with the addresses `kmalloc` returns. `kernelTask` is `create_kernel_task` alone,
which makes a task that is on no queue yet. -/
inductive LoadEvent
  | create (t stack : ℕ)
  | kernelTask (t stack : ℕ)
  | wake (t : ℕ)
  | exit (c : CpuId) (exitCode : ℤ)
  | timer (c : CpuId)

/-- One event. -/
def LoadEvent.run (s : SchedState) : LoadEvent → Option SchedState
  | .create t stack => createAndScheduleKernelTask s (some t) (some stack)
  | .kernelTask t stack => some (createKernelTask s (some t) (some stack)).2
  | .wake t => some (wakeUpTask s t)
  | .exit c exitCode => (taskExit s c exitCode).map Prod.snd
  | .timer c => some (schedule s c).2

/-- Memory for a task is new; a task that is woken is on no run queue; a task that exits is on the
one of the CPU in its `cpu_id`. -/
def LoadEvent.Allowed (s : SchedState) : LoadEvent → Prop
  | .create t _ => t ∉ s.created
  | .kernelTask t _ => t ∉ s.created
  | .wake t => t ∈ s.created ∧ ∀ c, ¬OnRunqueue s c t
  | .exit c _ => ∃ t, s.currentTask c = some (.task t) ∧ OnRunqueue s (s.task t).cpuId t
  | .timer _ => True

/-- The task that is put on a run queue. -/
def LoadEvent.placed : LoadEvent → Option ℕ
  | .create t _ => some t
  | .wake t => some t
  | _ => none

def LoadEvent.isExit : LoadEvent → Bool
  | .exit _ _ => true
  | _ => false

/-- Runs with their events. -/
inductive LoadRun (s₀ : SchedState) : List LoadEvent → SchedState → Prop
  | nil : LoadRun s₀ [] s₀
  | step {es : List LoadEvent} {s s' : SchedState} (e : LoadEvent) (h : LoadRun s₀ es s)
      (hallowed : e.Allowed s) (hrun : e.run s = some s') : LoadRun s₀ (es ++ [e]) s'

/-- One call: the counters follow the queues, and a task goes to a shortest one. -/
lemma LoadInv.step (h : LoadInv s queue) {e : LoadEvent} (hallowed : e.Allowed s)
    (hrun : e.run s = some s') :
    ∃ queue', LoadInv s' queue' ∧ (∀ t, e.placed = some t → PlacedOnShortest queue queue' t) ∧
      (e.placed = none → e.isExit = false → queue' = queue) := by
  cases e with
  | create t stack =>
    obtain ⟨queue', hinv, hplaced⟩ := h.create hallowed hrun
    exact ⟨queue', hinv, fun t' ht' => Option.some.inj ht' ▸ hplaced,
      fun hnone => absurd hnone (Option.some_ne_none t)⟩
  | kernelTask t stack =>
    cases hrun
    exact ⟨queue, h.createKernelTask hallowed stack,
      fun t' ht' => absurd ht' (Option.some_ne_none t').symm, fun _ _ => rfl⟩
  | wake t =>
    cases hrun
    have hq : ∀ c, t ∉ queue c := fun c hmem => hallowed.2 c ((h.onRunqueue_iff c t).mpr hmem)
    obtain ⟨queue', hinv, hplaced⟩ := h.wakeUpTask hallowed.1 hq
    exact ⟨queue', hinv, fun t' ht' => Option.some.inj ht' ▸ hplaced,
      fun hnone => absurd hnone (Option.some_ne_none t)⟩
  | exit c exitCode =>
    obtain ⟨t, hcur, hon⟩ := hallowed
    obtain ⟨⟨p, s₂⟩, hexit, hs'⟩ := Option.map_eq_some_iff.mp hrun
    unfold taskExit at hexit
    rw [hcur] at hexit
    obtain ⟨s₁, hbefore, hsched⟩ := Option.map_eq_some_iff.mp hexit
    have hs₁ : (Scheduler.schedule s₁ c).2 = s' := by
      rw [hsched]
      exact hs'
    rw [← hs₁]
    have hinv := h.exitBeforeSchedule ((h.onRunqueue_iff _ t).mp hon) hbefore
    exact ⟨_, hinv.schedule c, fun t' ht' => absurd ht' (Option.some_ne_none t').symm,
      fun _ hno => absurd hno Bool.noConfusion⟩
  | timer c =>
    cases hrun
    exact ⟨queue, h.schedule c, fun t' ht' => absurd ht' (Option.some_ne_none t').symm,
      fun _ _ => rfl⟩

/-- Any two lengths differ by at most one. -/
def Balanced (queue : CpuId → List ℕ) : Prop :=
  ∀ c c', (queue c).length ≤ (queue c').length + 1

/-- The loads stay balanced. -/
lemma PlacedOnShortest.balanced (hplaced : PlacedOnShortest queue queue' t) (hb : Balanced queue) :
    Balanced queue' := by
  obtain ⟨id, hqueue', hshort⟩ := hplaced
  have hlength : ∀ c, (queue' c).length = (queue c).length + if c = id then 1 else 0 := by
    intro c
    rw [hqueue']
    by_cases hc : c = id
    · rw [hc, update_self, length_append, if_pos rfl]
      rfl
    · rw [update_of_ne hc, if_neg hc, Nat.add_zero]
  intro c c'
  rw [hlength c, hlength c']
  have hcc' := hb c c'
  by_cases hc : c = id
  · -- the queue that grew was at most as long as the other
    have hle := hshort c'
    rw [← hc] at hle
    rw [if_pos hc]
    omega
  · rw [if_neg hc]
    omega

/-- The counters match in every run. -/
lemma LoadRun.inv {s₀ : SchedState} {es : List LoadEvent} (h : LoadRun s₀ es s)
    (h₀ : LoadInv s₀ queue) :
    ∃ queue', LoadInv s queue' ∧
      ((∀ e ∈ es, e.isExit = false) → Balanced queue → Balanced queue') := by
  induction h with
  | nil => exact ⟨queue, h₀, fun _ hb => hb⟩
  | step e _ hallowed hrun ih =>
    obtain ⟨queue₁, hinv, hbal⟩ := ih
    obtain ⟨queue', hinv', hplaced, hsame⟩ := hinv.step hallowed hrun
    refine ⟨queue', hinv', fun hno hb => ?_⟩
    have hb₁ := hbal (fun e' he' => hno e' (mem_append_left _ he')) hb
    have he := hno e (mem_append_right _ mem_cons_self)
    cases hp : e.placed with
    | none =>
      rw [hsame hp he]
      exact hb₁
    | some t => exact (hplaced t hp).balanced hb₁

/-- From `scheduler_init` with the counters at zero, in every run: each counter is the number of
tasks on its queue; a new or woken task goes to a CPU whose queue is a shortest one; and since a
moment when all queues were empty, unless a task has exited, the lengths of any two queues differ
by at most one. -/
theorem counters_match_queues {s₀ s₁ s : SchedState} {es₁ es : List LoadEvent}
    (hnew : s₀.created = []) (hzero : ∀ c, s₀.taskCounter c = 0)
    (h₁ : LoadRun (schedulerInit s₀) es₁ s₁) (h : LoadRun s₁ es s) :
    ∃ queue : CpuId → List ℕ,
      (∀ c, Circular s.heap (.cpuRunqueue c) ((queue c).map .tasksRunnable)) ∧
      (∀ c, s.taskCounter c = (queue c).length) ∧
      (∀ (e : LoadEvent) (t : ℕ) (s' : SchedState), e.Allowed s → e.run s = some s' →
        e.placed = some t →
        OnRunqueue s' (s'.task t).cpuId t ∧ ∀ c, (queue (s'.task t).cpuId).length ≤ (queue c).length) ∧
      ((∀ c, listEmpty s₁.heap (.cpuRunqueue c) = true) → (∀ e ∈ es, e.isExit = false) →
        ∀ c c', (queue c).length ≤ (queue c').length + 1) := by
  obtain ⟨queue₁, hinv₁, _⟩ := h₁.inv (LoadInv.init hnew hzero)
  obtain ⟨queue, hinv, hbal⟩ := h.inv hinv₁
  refine ⟨queue, hinv.queues, hinv.counter, fun e t s' hallowed hrun ht => ?_, fun hempty hno => ?_⟩
  · obtain ⟨queue', hinv', hplaced, _⟩ := hinv.step hallowed hrun
    obtain ⟨c, hqueue', hshort⟩ := hplaced t ht
    have hmem : t ∈ queue' c := by
      rw [hqueue', update_self]
      exact mem_append_right _ mem_cons_self
    rw [(hinv'.queued c t hmem).2]
    exact ⟨(hinv'.onRunqueue_iff c t).mpr hmem, hshort⟩
  · apply hbal hno
    intro c c'
    have hnil : queue₁ c = [] :=
      map_eq_nil_iff.mp ((hinv₁.queues c).listEmpty_iff.mp (hempty c))
    rw [hnil]
    exact Nat.zero_le _

/-- The first task goes to CPU 0, the second to CPU 1. -/
def twoTasks : SchedState :=
  (((LoadEvent.create 0x1000 0x2000).run (schedulerInit coldState)).bind
    fun s => (LoadEvent.create 0x3000 0x4000).run s).getD coldState

theorem counters_match_twoTasks :
    twoTasks.taskCounter 0 = 1 ∧ twoTasks.taskCounter 1 = 1 ∧ twoTasks.taskCounter 2 = 0 ∧
      ∃ queue : CpuId → List ℕ,
        (∀ c, Circular twoTasks.heap (.cpuRunqueue c) ((queue c).map .tasksRunnable)) ∧
        (∀ c, twoTasks.taskCounter c = (queue c).length) ∧
        ∀ c c', (queue c).length ≤ (queue c').length + 1 := by
  refine ⟨by decide, by decide, by decide, ?_⟩
  have hfirst : LoadEvent.Allowed (schedulerInit coldState) (.create 0x1000 0x2000) :=
    not_mem_nil
  have hrun₁ := LoadRun.nil.step (.create 0x1000 0x2000) hfirst rfl
  have hsecond : 0x3000 ∉ [0x1000] := by decide
  have hrun : LoadRun (schedulerInit coldState)
      [.create 0x1000 0x2000, .create 0x3000 0x4000] twoTasks :=
    hrun₁.step (.create 0x3000 0x4000) hsecond rfl
  obtain ⟨queue, hqueues, hcounter, _, hbal⟩ :=
    @counters_match_queues coldState _ _ _ _ rfl (fun _ => rfl) LoadRun.nil hrun
  exact ⟨queue, hqueues, hcounter, hbal (by decide) (by decide)⟩

end LunOS.Scheduler
