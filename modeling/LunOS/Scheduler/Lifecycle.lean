import LunOS.Scheduler.Families

/-!
# From creation to destruction

A run creates tasks, gives them parents, queues them, changes their states, lets them exit and
destroys those that have exited, in any order. The functions do not check what they are given, so
two results need conditions on the calls:

- `no_reference_to_destroyed`: no pointer to a destroyed task is left where others look.
- `zombies_kept`: a task that exits while its parent is live waits on the parent's zombie list.
-/

namespace LunOS.Scheduler
open LunOS.Ds Function List

/-! ## Runs -/

/-- The scheduler, and what the calls so far were: the tasks that are created and not destroyed,
those of them that have called `task_exit`, those that did so while their parent was live and were
not removed since, the parent that each task was given last, and the tasks that have called
`task_exit` while their parent slept interruptibly and were not removed since. -/
structure TaskRun where
  sched : SchedState
  live : List ℕ
  exited : List ℕ
  owed : List ℕ
  given : ℕ → Option ℕ
  handed : List ℕ

/-- The calls. -/
inductive TaskOp
  | create (t stack : ℕ)
  | addChild (parent child : ℕ)
  | removeChild (parent child : ℕ)
  | sched (t : ℕ) (c : CpuId)
  | setState (t : ℕ) (state : TaskState)
  | exit (t : ℕ) (c : CpuId) (exitCode : ℤ)
  | removeZombie (parent zombie : ℕ)
  | destroy (t : ℕ)

/-- The parent of a task is live and has not exited. -/
def TaskRun.parentLive (r : TaskRun) (t : ℕ) : Bool :=
  match (r.sched.task t).parent with
  | none => false
  | some p => p ∈ r.live && p ∉ r.exited

/-- The parent `task_exit` hands a task to: one that sleeps interruptibly. -/
def waitingParent (s : SchedState) (t : ℕ) : Option ℕ :=
  (s.task t).parent.filter fun p => (s.task p).state = .sleepingInterruptible

namespace TaskRun
variable (r : TaskRun)

/-- `create_kernel_task` with memory for the task at `t` and for its stack. -/
def create (t stack : ℕ) : TaskRun :=
  { r with
    sched := (createKernelTask r.sched (some t) (some stack)).2, live := r.live ++ [t]
    given := update r.given t none }

/-- The caller sets `child->parent` and calls `task_add_child`. -/
def addChild (parent child : ℕ) : TaskRun :=
  let s := r.sched.setTask child { r.sched.task child with parent := some parent }
  { r with sched := taskAddChild s parent child, given := update r.given child (some parent) }

/-- `task_exit`, where `s` is the state before it calls `schedule`. -/
def exit (s : SchedState) (t : ℕ) (c : CpuId) : TaskRun :=
  { r with
    sched := (schedule s c).2
    exited := t :: r.exited
    owed := if r.parentLive t then t :: r.owed else r.owed
    handed := if waitingParent r.sched t = none then r.handed else t :: r.handed }

/-- `task_remove_zombie`, which only logs an error for another parent. -/
def removeZombie (parent zombie : ℕ) : TaskRun :=
  if (r.sched.task zombie).parent = some parent then
    { r with
      sched := taskRemoveZombie r.sched parent zombie
      owed := r.owed.filter (· ≠ zombie)
      handed := r.handed.filter (· ≠ zombie) }
  else { r with sched := taskRemoveZombie r.sched parent zombie }

/-- `task_destroy` -/
def destroy (t : ℕ) : TaskRun :=
  { r with
    sched := taskDestroy r.sched t
    live := r.live.erase t
    exited := r.exited.filter (· ≠ t)
    owed := r.owed.filter (· ≠ t)
    handed := r.handed.filter (· ≠ t) }

end TaskRun

/-- One call. `none` where it makes no sense: `kmalloc` returns memory of no live task, and the
other functions are called for live tasks. `task_exit` ends in `schedule` on the CPU of the task,
which changes nothing that is read here. -/
def exec (r : TaskRun) : TaskOp → Option TaskRun
  | .create t stack => if t ∈ r.live then none else some (r.create t stack)
  | .addChild parent child =>
    if parent ∈ r.live ∧ child ∈ r.live ∧ parent ≠ child then some (r.addChild parent child)
    else none
  | .removeChild parent child =>
    if parent ∈ r.live ∧ child ∈ r.live then
      some { r with sched := taskRemoveChild r.sched parent child }
    else none
  | .sched t c => if t ∈ r.live then some { r with sched := schedTask r.sched t c } else none
  | .setState t state =>
    -- a task that has exited is `TASK_ZOMBIE` to its end
    if t ∈ r.live ∧ t ∉ r.exited then
      some { r with sched := r.sched.setTask t { r.sched.task t with state := state } }
    else none
  | .exit t c exitCode =>
    if t ∈ r.live then (taskExitBeforeSchedule r.sched t exitCode).map fun s => r.exit s t c
    else none
  | .removeZombie parent zombie =>
    if parent ∈ r.live ∧ zombie ∈ r.live then some (r.removeZombie parent zombie) else none
  | .destroy t => if t ∈ r.live ∧ t ∈ r.exited then some (r.destroy t) else none

/-- Nothing is created yet, whatever memory held before `scheduler_init`. -/
def TaskRun.init (s : SchedState) : TaskRun := ⟨schedulerInit s, [], [], [], fun _ => none, []⟩

/-- The states reachable by calls that meet the condition `C`. -/
def TaskReachable (C : TaskRun → TaskOp → Prop) (r₀ : TaskRun) : TaskRun → Prop :=
  Runs.Reachable (· = r₀) fun r r' => ∃ op, C r op ∧ exec r op = some r'

/-- A task is on the list of its parent's children. -/
def OnChildren (s : SchedState) (parent t : ℕ) : Prop :=
  ∃ l, Circular s.heap (.children parent) l ∧ Node.siblings t ∈ l

/-- A task is on the list of its parent's zombies. -/
def OnZombies (s : SchedState) (parent t : ℕ) : Prop :=
  ∃ l, Circular s.heap (.zombieChildren parent) l ∧ Node.zombieSiblings t ∈ l

/-- The conditions under which the lists stay right: a task that has exited is not queued, exits
no more and gets no parent; a node that is linked is not linked again; and a task is destroyed when
every live task that was given it as its parent got another one, and it was removed from the zombies
of the parent that its exit handed it to. -/
def Careful (r : TaskRun) : TaskOp → Prop
  | .addChild _ child => child ∉ r.exited ∧ r.sched.heap.next (.siblings child) = .siblings child
  | .sched t _ => t ∉ r.exited ∧ r.sched.heap.next (.tasksRunnable t) = .tasksRunnable t
  | .exit t _ _ => t ∉ r.exited
  | .destroy t => (∀ u ∈ r.live, u ≠ t → r.given u ≠ some t) ∧ t ∉ r.handed
  | _ => True

/-- A task exits only while a live parent sleeps interruptibly. -/
def Awaited (r : TaskRun) : TaskOp → Prop
  | .exit t _ _ => ∀ p, (r.sched.task t).parent = some p → p ∈ r.live → p ∉ r.exited →
      (r.sched.task p).state = .sleepingInterruptible
  | _ => True

/-! ## The invariant -/

/-- The lists and the parents of the live tasks. -/
structure TaskInv (r : TaskRun) (A : Family) : Prop where
  lists : TaskLists r.sched.heap r.live A
  made : r.live.length ≤ r.sched.created.length
  exited : ∀ t ∈ r.exited, t ∈ r.live
  queued : ∀ c, ∀ t ∈ A.queue c, t ∉ r.exited
  kid : ∀ p ∈ r.live, ∀ t ∈ A.kids p, (r.sched.task t).parent = some p
  zombie : ∀ p ∈ r.live, ∀ t ∈ A.zombies p, t ∈ r.exited ∧ (r.sched.task t).parent = some p
  parent : ∀ t ∈ r.live, ∀ p, (r.sched.task t).parent = some p → p ∈ r.live ∧ p ≠ t
  given : ∀ t ∈ r.live, (r.sched.task t).parent = r.given t
  handed : ∀ p ∈ r.live, ∀ t ∈ A.zombies p, t ∈ r.handed

/-- The tasks that are owed to their parents are on the zombie lists, and no longer children. -/
def Kept (r : TaskRun) (A : Family) : Prop :=
  ∀ z ∈ r.owed, ∃ p ∈ r.live, (r.sched.task z).parent = some p ∧ z ∈ A.zombies p ∧
    ∀ p' ∈ r.live, z ∉ A.kids p'

variable {r r' : TaskRun} {A : Family} {t p : ℕ}

/-- A change of a task's record that keeps its parent. -/
structure SameParents (s s' : SchedState) : Prop where
  created : s'.created = s.created
  parent : ∀ t, (s'.task t).parent = (s.task t).parent

variable {s s' : SchedState} {child : ℕ} {handed : List ℕ}

lemma SameParents.trans {s'' : SchedState} (h : SameParents s s') (h' : SameParents s' s'') :
    SameParents s s'' :=
  ⟨h'.created.trans h.created, fun t => (h'.parent t).trans (h.parent t)⟩

lemma sameParents_setTask {rec : Task} (hrec : rec.parent = (s.task t).parent) :
    SameParents s (s.setTask t rec) := by
  refine ⟨rfl, fun t' => ?_⟩
  show (update s.task t rec t').parent = _
  by_cases heq : t' = t
  · rw [heq, update_self, hrec]
  · rw [update_of_ne heq]

lemma sameParents_removeChild (s : SchedState) (parent child : ℕ) :
    SameParents s (taskRemoveChild s parent child) := by
  unfold taskRemoveChild
  split_ifs <;> exact ⟨rfl, fun _ => rfl⟩

lemma sameParents_removeZombie (s : SchedState) (parent zombie : ℕ) :
    SameParents s (taskRemoveZombie s parent zombie) := by
  unfold taskRemoveZombie
  split_ifs <;> exact ⟨rfl, fun _ => rfl⟩

lemma sameParents_schedule (s : SchedState) (c : CpuId) : SameParents s (schedule s c).2 := by
  rcases schedule_writes s c with ⟨current, hsame⟩
  rw [hsame]
  exact ⟨rfl, fun _ => rfl⟩

lemma TaskRun.create_task_of_ne {t' : ℕ} (stack : ℕ) (hne : t' ≠ t) :
    (r.create t stack).sched.task t' = r.sched.task t' :=
  (update_of_ne hne _ _).trans (update_of_ne hne _ _)

lemma TaskRun.addChild_task_of_ne (hne : t ≠ child) :
    (r.addChild p child).sched.task t = r.sched.task t := by
  unfold TaskRun.addChild taskAddChild
  simp only
  split_ifs <;> exact update_of_ne hne _ _

/-- Emptying one list. -/
lemma mem_update_nil {q : ℕ → List ℕ} {t' : ℕ} (h : t' ∈ update q t [] p) :
    p ≠ t ∧ t' ∈ q p := by
  by_cases hp : p = t
  · rw [hp, update_self] at h
    exact absurd h not_mem_nil
  · rw [update_of_ne hp] at h
    exact ⟨hp, h⟩

/-- No list without tasks. -/
def Family.empty : Family := ⟨fun _ => [], fun _ => [], fun _ => []⟩

/-- No task yet. -/
lemma taskInv_init (s : SchedState) : TaskInv (TaskRun.init s) .empty := by
  have hq : QueueInv (schedulerInit { s with created := [] }) fun _ => [] := QueueInv.init _ rfl
  have hnone : ∀ {P : ℕ → Prop}, ∀ t ∈ (TaskRun.init s).live, P t :=
    fun t ht => absurd ht not_mem_nil
  have hempty : ∀ {P : ℕ → Prop}, ∀ t ∈ ([] : List ℕ), P t :=
    fun t ht => absurd ht not_mem_nil
  refine ⟨⟨⟨fun _ _ => hq.all, fun _ _ => hempty, ?_, hnone⟩,
    ⟨fun c _ => hq.queues c, fun _ _ => hempty, ?_, hnone⟩,
    ⟨hnone, hnone, ?_, hnone⟩, ⟨hnone, hnone, ?_, hnone⟩⟩, Nat.zero_le _, hempty,
    fun _ => hempty, hnone, hnone, hnone, hnone, hnone⟩
  · intro b b' t _ _ ht
    exact absurd ht not_mem_nil
  · intro b b' t _ _ ht
    exact absurd ht not_mem_nil
  · intro b b' t hb
    exact absurd hb not_mem_nil
  · intro b b' t hb
    exact absurd hb not_mem_nil

namespace TaskInv

section
variable (h : TaskInv r A)
include h

lemma onChildren_iff (hp : p ∈ r.live) : OnChildren r.sched p t ↔ t ∈ A.kids p :=
  h.lists.kids.on_ring_iff hp

lemma onZombies_iff (hp : p ∈ r.live) : OnZombies r.sched p t ↔ t ∈ A.zombies p :=
  h.lists.zombies.on_ring_iff hp

/-- A call that only moves nodes. -/
lemma relist {A' : Family} {owed : List ℕ} (hs : SameParents r.sched s)
    (hl : TaskLists s.heap r.live A') (hqueue : ∀ c, ∀ t ∈ A'.queue c, t ∉ r.exited)
    (hkids : ∀ p ∈ r.live, ∀ t ∈ A'.kids p, t ∈ A.kids p)
    (hzombies : ∀ p ∈ r.live, ∀ t ∈ A'.zombies p, t ∈ A.zombies p ∧ t ∈ handed) :
    TaskInv { r with sched := s, owed := owed, handed := handed } A' := by
  refine ⟨hl, ?_, h.exited, hqueue, fun p hp t ht => ?_, fun p hp t ht => ?_,
    fun t ht p hpar => ?_, fun t ht => (hs.parent t).trans (h.given t ht),
    fun p hp t ht => (hzombies p hp t ht).2⟩
  · show r.live.length ≤ s.created.length
    rw [hs.created]
    exact h.made
  · show (s.task t).parent = some p
    rw [hs.parent]
    exact h.kid p hp t (hkids p hp t ht)
  · show t ∈ r.exited ∧ (s.task t).parent = some p
    rw [hs.parent]
    exact h.zombie p hp t (hzombies p hp t ht).1
  · have hpar' : (s.task t).parent = some p := hpar
    rw [hs.parent] at hpar'
    exact h.parent t ht p hpar'

lemma sameZombies : ∀ p ∈ r.live, ∀ t ∈ A.zombies p,
    t ∈ A.zombies p ∧ t ∈ r.handed :=
  fun p hp t ht => ⟨ht, h.handed p hp t ht⟩

/-- A new task has no family. -/
lemma create (ht : t ∉ r.live) (stack : ℕ) :
    TaskInv (r.create t stack)
      { A with kids := update A.kids t [], zombies := update A.zombies t [] } := by
  have hne : ∀ t' ∈ r.live, t' ≠ t := fun t' ht' => ne_of_mem_of_not_mem ht' ht
  have hself : ((r.create t stack).sched.task t).parent = none := by
    simp [TaskRun.create, createKernelTask, createTask, SchedState.setTask, SchedState.mapHeap]
  have hsplit : ∀ t', t' ∈ r.live ++ [t] → t' ∈ r.live ∨ t' = t := by
    intro t' ht'
    rw [mem_append, mem_singleton] at ht'
    exact ht'
  refine ⟨h.lists.create ht, ?_, ?_, h.queued, ?_, ?_, ?_, ?_, ?_⟩
  · show (r.live ++ [t]).length ≤ (r.sched.created ++ [t]).length
    have hmade := h.made
    rw [length_append, length_append]
    omega
  · exact fun t' ht' => mem_append_left _ (h.exited t' ht')
  · intro p hp t' ht'
    -- the new task has no children, so `p` is an old one
    rcases mem_update_nil ht' with ⟨hpt, ht'⟩
    have hp : p ∈ r.live := (hsplit p hp).resolve_right hpt
    rw [TaskRun.create_task_of_ne stack (hne t' (h.lists.kids.mem p hp t' ht'))]
    exact h.kid p hp t' ht'
  · intro p hp t' ht'
    rcases mem_update_nil ht' with ⟨hpt, ht'⟩
    have hp : p ∈ r.live := (hsplit p hp).resolve_right hpt
    rw [TaskRun.create_task_of_ne stack (hne t' (h.lists.zombies.mem p hp t' ht'))]
    exact h.zombie p hp t' ht'
  · intro t' ht' p hpar
    rcases hsplit t' ht' with ht' | ht'
    · rw [TaskRun.create_task_of_ne stack (hne t' ht')] at hpar
      have hold := h.parent t' ht' p hpar
      exact ⟨mem_append_left _ hold.1, hold.2⟩
    · rw [ht', hself] at hpar
      cases hpar
  · intro t' ht'
    show _ = update r.given t none t'
    rcases hsplit t' ht' with ht' | ht'
    · rw [TaskRun.create_task_of_ne stack (hne t' ht'), update_of_ne (hne t' ht')]
      exact h.given t' ht'
    · rw [ht', hself, update_self]
  · intro p hp t' ht'
    rcases mem_update_nil ht' with ⟨hpt, ht'⟩
    exact h.handed p ((hsplit p hp).resolve_right hpt) t' ht'

/-- A new child is behind its siblings. -/
lemma addChild (hp : p ∈ r.live) (hc : child ∈ r.live) (hne : p ≠ child)
    (hexited : child ∉ r.exited) (hloose : r.sched.heap.next (.siblings child) = .siblings child) :
    TaskInv (r.addChild p child) { A with kids := update A.kids p (A.kids p ++ [child]) } := by
  have hout : ∀ p ∈ r.live, child ∉ A.kids p :=
    fun p' hp' => h.lists.kids.not_mem_of_next_self hloose hp'
  have hself : ((r.sched.setTask child { r.sched.task child with parent := some p }).task
      child).parent = some p := by
    simp [SchedState.setTask]
  have hother : ∀ t, t ≠ child →
      (r.sched.setTask child { r.sched.task child with parent := some p }).task t
        = r.sched.task t := fun t hne => update_of_ne hne _ _
  have hstate : taskAddChild (r.sched.setTask child
      { r.sched.task child with parent := some p }) p child =
        (r.sched.setTask child { r.sched.task child with parent := some p }).mapHeap
          fun h => listAddTail h (.siblings child) (.children p) := by
    unfold taskAddChild
    rw [if_neg (not_not.mpr hself)]
  simp only [TaskRun.addChild, hstate]
  refine ⟨h.lists.addKid hp hc hout, h.made, h.exited, h.queued, ?_, ?_, ?_, ?_, h.handed⟩
  · intro p' hp' t ht
    rcases Rings.mem_append_update_iff.mp ht with hold | ⟨hpp, heq⟩
    · have htne : t ≠ child := fun heq => hout p' hp' (heq ▸ hold)
      show ((r.sched.setTask child _).task t).parent = some p'
      rw [hother t htne]
      exact h.kid p' hp' t hold
    · rw [heq, hpp]
      exact hself
  · -- zombies have exited, so the child is none of them
    intro p' hp' t ht
    have hold := h.zombie p' hp' t ht
    have htne : t ≠ child := fun heq => hexited (heq ▸ hold.1)
    refine ⟨hold.1, ?_⟩
    show ((r.sched.setTask child _).task t).parent = some p'
    rw [hother t htne]
    exact hold.2
  · intro t ht p' hpar
    change ((r.sched.setTask child _).task t).parent = some p' at hpar
    by_cases htc : t = child
    · rw [htc, hself] at hpar
      cases hpar
      rw [htc]
      exact ⟨hp, hne⟩
    · rw [hother t htc] at hpar
      exact h.parent t ht p' hpar
  · intro t ht
    show ((r.sched.setTask child _).task t).parent = update r.given child (some p) t
    by_cases htc : t = child
    · rw [htc, hself, update_self]
    · rw [hother t htc, update_of_ne htc]
      exact h.given t ht

/-- A child is taken off. -/
lemma removeChild (hc : child ∈ r.live) :
    ∃ kids, TaskInv { r with sched := taskRemoveChild r.sched p child } { A with kids := kids } ∧
      ∀ p' ∈ r.live, ∀ t ∈ kids p', t ∈ A.kids p' := by
  unfold taskRemoveChild
  by_cases hpar : (r.sched.task child).parent ≠ some p
  · rw [if_pos hpar]
    exact ⟨A.kids, h, fun p' _ t ht => ht⟩
  · rw [if_neg hpar]
    have hsub : ∀ p' ∈ r.live, ∀ t ∈ (A.kids p').erase child, t ∈ A.kids p' :=
      fun p' _ t ht => mem_of_mem_erase ht
    exact ⟨_, h.relist ⟨rfl, fun _ => rfl⟩ (h.lists.removeKid hc) h.queued hsub h.sameZombies, hsub⟩

lemma removeZombie {zombie : ℕ} (hz : zombie ∈ r.live) :
    TaskInv (r.removeZombie p zombie)
      { A with zombies := if (r.sched.task zombie).parent = some p
                          then fun p' => (A.zombies p').erase zombie else A.zombies } := by
  unfold TaskRun.removeZombie taskRemoveZombie
  by_cases hpar : (r.sched.task zombie).parent = some p
  · rw [if_neg (not_not.mpr hpar), if_pos hpar, if_pos hpar]
    refine h.relist ⟨rfl, fun _ => rfl⟩ (h.lists.removeZombie hz) h.queued (fun p' _ t ht => ht)
      fun p' hp' t ht => ?_
    have hmem := (h.lists.zombies.nodup hp').mem_erase_iff.mp ht
    exact ⟨hmem.2, mem_filter.mpr ⟨h.handed p' hp' t hmem.2, decide_eq_true hmem.1⟩⟩
  · rw [if_pos hpar, if_neg hpar, if_neg hpar]
    exact h.relist ⟨rfl, fun _ => rfl⟩ h.lists h.queued (fun p' _ t ht => ht) h.sameZombies

lemma sched (ht : t ∈ r.live) (hexited : t ∉ r.exited)
    (hloose : r.sched.heap.next (.tasksRunnable t) = .tasksRunnable t) (c : CpuId) :
    TaskInv { r with sched := schedTask r.sched t c }
      { A with queue := update A.queue c (A.queue c ++ [t]) } := by
  have hout : ∀ c, t ∉ A.queue c := fun c => h.lists.queues.not_mem_of_next_self hloose trivial
  refine h.relist ⟨rfl, fun _ => rfl⟩ (h.lists.enqueue ht hout c) (fun c' t' ht' => ?_)
    (fun p' _ t ht => ht) h.sameZombies
  rcases Rings.mem_append_update_iff.mp ht' with hold | ⟨_, heq⟩
  · exact h.queued c' t' hold
  · rw [heq]
    exact hexited

/-- Only the state changes. -/
lemma setState (state : TaskState) :
    TaskInv { r with sched := r.sched.setTask t { r.sched.task t with state := state } } A :=
  h.relist (sameParents_setTask rfl) h.lists h.queued (fun _ _ _ ht => ht) h.sameZombies

end

end TaskInv

/-! ## `task_exit` -/

/-- `task_exit` up to the point where it looks at the parent. -/
structure ExitBegins (s s' : SchedState) (t : ℕ) : Prop where
  heap : s'.heap = listDel s.heap (.tasksRunnable t)
  same : SameParents s s'
  others : ∀ u, u ≠ t → s'.task u = s.task u
  state : (s'.task t).state = .zombie

/-- The part of `task_exit` that looks at the parent. -/
def exitToParent (s : SchedState) (t : ℕ) : SchedState :=
  match (s.task t).parent with
  | none => s
  | some parent =>
    if (s.task parent).state = .sleepingInterruptible then taskAddZombie s parent t else s

/-- The part of `task_exit` that looks at the children. -/
def exitOrphans (s : SchedState) (t : ℕ) : Option SchedState :=
  if s.heap.next (.children t) ≠ .children t then taskOrphanChildren s t else some s

/-- The three parts of an exit. -/
lemma taskExitBeforeSchedule_split (s : SchedState) (t : ℕ) (exitCode : ℤ) :
    ∃ s₁, ExitBegins s s₁ t ∧
      taskExitBeforeSchedule s t exitCode = exitOrphans (exitToParent s₁ t) t := by
  unfold taskExitBeforeSchedule
  simp only
  refine ⟨_, ?_, rfl⟩
  -- only the record of the task changes, once or twice
  simp only [schedRemoveTask, SchedState.setTask, SchedState.mapHeap, update_self]
  split_ifs
  · refine ⟨rfl, ⟨rfl, fun u => ?_⟩, fun u hu => ?_, ?_⟩
    · by_cases hu : u = t <;> simp [hu]
    · simp [update_of_ne hu]
    · simp
  · refine ⟨rfl, ⟨rfl, fun u => ?_⟩, fun u hu => ?_, ?_⟩
    · by_cases hu : u = t <;> simp [hu]
    · simp [update_of_ne hu]
    · simp

/-- A task goes from the children to the zombies of a waiting parent. -/
def Family.handOver (A : Family) (t : ℕ) : Option ℕ → Family
  | none => A
  | some p => { A with
      kids := fun p' => (A.kids p').erase t
      zombies := update A.zombies p (A.zombies p ++ [t]) }

/-- The lists after `task_exit`: the task is off its run queue, handed over, and without
children. -/
def Family.afterExit (A : Family) (t : ℕ) (waiting : Option ℕ) : Family :=
  let B := Family.handOver { A with queue := fun c => (A.queue c).erase t } t waiting
  { B with kids := update B.kids t [] }

namespace TaskInv

/-- The task is with the zombies of a waiting parent. -/
lemma exitToParent {s₁ : SchedState} (h : TaskInv r A) (ht : t ∈ r.live) (hexited : t ∉ r.exited)
    (hbegin : ExitBegins r.sched s₁ t) :
    SameParents r.sched (exitToParent s₁ t) ∧ TaskLists (exitToParent s₁ t).heap r.live
      (Family.handOver { A with queue := fun c => (A.queue c).erase t } t
        (waitingParent r.sched t)) := by
  have hl : TaskLists s₁.heap r.live { A with queue := fun c => (A.queue c).erase t } := by
    rw [hbegin.heap]
    exact h.lists.dequeue ht
  unfold waitingParent Scheduler.exitToParent
  rw [hbegin.same.parent t]
  cases hpar : (r.sched.task t).parent with
  | none => exact ⟨hbegin.same, hl⟩
  | some p =>
    -- a task is not its own parent, so the parent's state is what it was before the exit
    have hp := h.parent t ht p hpar
    simp only [hbegin.others p hp.2]
    by_cases hsleeps : (r.sched.task p).state = .sleepingInterruptible
    · have hout : ∀ p' ∈ r.live, t ∉ A.zombies p' :=
        fun p' hp' hin => hexited (h.zombie p' hp' t hin).1
      have hpar₁ : (s₁.task t).parent = some p := (hbegin.same.parent t).trans hpar
      have hstate : taskAddZombie s₁ p t = s₁.mapHeap fun h =>
          listAddTail (listDel h (.siblings t)) (.zombieSiblings t) (.zombieChildren p) := by
        unfold taskAddZombie
        rw [if_neg (not_not.mpr hpar₁)]
      rw [if_pos hsleeps, hstate, Option.filter_some_pos (by simpa using hsleeps)]
      exact ⟨⟨hbegin.same.created, hbegin.same.parent⟩, (hl.removeKid ht).addZombie hp.1 ht hout⟩
    · rw [if_neg hsleeps, Option.filter_some_neg (by simpa using hsleeps)]
      exact ⟨hbegin.same, hl⟩

end TaskInv

/-- The task has no children left. -/
lemma TaskLists.exitOrphans {live : List ℕ} {B : Family} (hl : TaskLists s.heap live B)
    (ht : t ∈ live) (hmade : live.length ≤ s.created.length) :
    ∃ s', exitOrphans s t = some s' ∧ SameParents s s' ∧
      TaskLists s'.heap live { B with kids := update B.kids t [] } := by
  unfold Scheduler.exitOrphans
  by_cases hnone : s.heap.next (.children t) = .children t
  · have hnil : B.kids t = [] := by
      have hempty := (hl.kids.ring t ht).listEmpty_iff.mp (decide_eq_true hnone)
      exact map_eq_nil_iff.mp hempty
    have hupdate : update B.kids t [] = B.kids := by
      rw [← hnil, update_eq_self]
    rw [if_neg (not_not.mpr hnone), hupdate]
    exact ⟨s, rfl, ⟨rfl, fun _ => rfl⟩, hl⟩
  · -- there are no more children than tasks, so the loop ends
    have hlen : (B.kids t).length < s.created.length + 1 := by
      have hsub : (B.kids t).length ≤ live.length :=
        ((hl.kids.nodup ht).subperm fun u hu => hl.kids.mem t ht u hu).length_le
      omega
    rcases hl.orphan ht hlen with ⟨h', hloop, hl'⟩
    rw [if_pos hnone]
    unfold taskOrphanChildren
    rw [hloop]
    exact ⟨_, rfl, ⟨rfl, fun _ => rfl⟩, hl'⟩

namespace TaskInv

/-- `task_exit` of a live task that has not exited comes to its end. -/
lemma taskExit (h : TaskInv r A) (ht : t ∈ r.live) (hexited : t ∉ r.exited) (exitCode : ℤ) :
    ∃ s', taskExitBeforeSchedule r.sched t exitCode = some s' ∧ SameParents r.sched s' ∧
      TaskLists s'.heap r.live (A.afterExit t (waitingParent r.sched t)) := by
  rcases taskExitBeforeSchedule_split r.sched t exitCode with ⟨s₁, hbegin, heq⟩
  rcases h.exitToParent ht hexited hbegin with ⟨hsame, hl⟩
  have hmade := h.made
  rw [← hsame.created] at hmade
  rcases hl.exitOrphans ht hmade with ⟨s', hs', hsame', hl'⟩
  exact ⟨s', heq.trans hs', hsame.trans hsame', hl'⟩

lemma mem_zombies_afterExit {waiting : Option ℕ} {u : ℕ}
    (hu : u ∈ (A.afterExit t waiting).zombies p) :
    u ∈ A.zombies p ∨ (u = t ∧ waiting = some p) := by
  cases waiting with
  | none => exact Or.inl hu
  | some p' =>
    rcases Rings.mem_append_update_iff.mp hu with hold | ⟨hpp, heq⟩
    · exact Or.inl hold
    · rw [hpp]
      exact Or.inr ⟨heq, rfl⟩

lemma mem_kids_afterExit {waiting : Option ℕ} {u : ℕ} (hu : u ∈ (A.afterExit t waiting).kids p) :
    u ∈ A.kids p := by
  have hold := (mem_update_nil hu).2
  cases waiting with
  | none => exact hold
  | some p' => exact mem_of_mem_erase hold

/-- The task has left the queue. -/
lemma queue_afterExit (waiting : Option ℕ) (c : CpuId) :
    (A.afterExit t waiting).queue c = (A.queue c).erase t := by
  cases waiting <;> rfl

lemma parent_of_waitingParent (hw : waitingParent s t = some p) :
    (s.task t).parent = some p := by
  unfold waitingParent at hw
  exact (Option.filter_eq_some_iff.mp hw).1

/-- An exit up to the next dispatch. -/
lemma exit (h : TaskInv r A) (ht : t ∈ r.live) (hsame : SameParents r.sched s')
    (hl : TaskLists s'.heap r.live (A.afterExit t (waitingParent r.sched t))) (c : CpuId) :
    TaskInv (r.exit s' t c) (A.afterExit t (waitingParent r.sched t)) := by
  have hheap : (schedule s' c).2.heap = s'.heap := by
    rcases schedule_writes s' c with ⟨current, hwrites⟩
    rw [hwrites]
  have hall : SameParents r.sched (schedule s' c).2 := hsame.trans (sameParents_schedule s' c)
  refine ⟨?_, ?_, fun u hu => ?_, fun c' u hu => ?_, fun p hp u hu => ?_, fun p hp u hu => ?_,
    fun u hu p hpar => ?_, fun u hu => (hall.parent u).trans (h.given u hu), fun p hp u hu => ?_⟩
  · show TaskLists (schedule s' c).2.heap _ _
    rw [hheap]
    exact hl
  · show r.live.length ≤ (schedule s' c).2.created.length
    rw [hall.created]
    exact h.made
  · rcases mem_cons.mp hu with heq | hu
    · rw [heq]
      exact ht
    · exact h.exited u hu
  · -- `sched_remove_task` took the task off its queue
    rw [queue_afterExit] at hu
    have hmem := ((h.lists.queues.nodup (b := c') trivial).mem_erase_iff).mp hu
    intro hcons
    rcases mem_cons.mp hcons with heq | hin
    · exact hmem.1 heq
    · exact h.queued c' u hmem.2 hin
  · exact (hall.parent u).trans (h.kid p hp u (mem_kids_afterExit hu))
  · show u ∈ t :: r.exited ∧ ((schedule s' c).2.task u).parent = some p
    rw [hall.parent]
    rcases mem_zombies_afterExit hu with hold | ⟨heq, hwait⟩
    · have hz := h.zombie p hp u hold
      exact ⟨mem_cons_of_mem t hz.1, hz.2⟩
    · rw [heq]
      exact ⟨mem_cons_self, parent_of_waitingParent hwait⟩
  · change ((schedule s' c).2.task u).parent = some p at hpar
    rw [hall.parent] at hpar
    exact h.parent u hu p hpar
  · show u ∈ if waitingParent r.sched t = none then r.handed else t :: r.handed
    rcases mem_zombies_afterExit hu with hold | ⟨heq, hwait⟩
    · have hin := h.handed p hp u hold
      split_ifs
      · exact hin
      · exact mem_cons_of_mem t hin
    · rw [hwait, if_neg (Option.some_ne_none p), heq]
      exact mem_cons_self

/-- `task_destroy` of a task that no live task names. -/
lemma destroy (h : TaskInv r A) (ht : t ∈ r.live) (hexited : t ∈ r.exited)
    (hgiven : ∀ u ∈ r.live, u ≠ t → r.given u ≠ some t) (hhanded : t ∉ r.handed) :
    TaskInv (r.destroy t) { A with kids := fun p => (A.kids p).erase t } := by
  have hin : ∀ u, u ∈ r.live.erase t ↔ u ≠ t ∧ u ∈ r.live :=
    fun u => h.lists.nodup.mem_erase_iff
  have hzombie : ∀ p ∈ r.live, t ∉ A.zombies p := fun p hp hin => hhanded (h.handed p hp t hin)
  -- its children and zombies would name it
  have hnobody : ∀ u ∈ r.live, (r.sched.task u).parent = some t → False := by
    intro u hu hpar
    by_cases heq : u = t
    · exact (h.parent u hu t hpar).2 heq.symm
    · exact hgiven u hu heq ((h.given u hu).symm.trans hpar)
  have hkids : A.kids t = [] := by
    rw [eq_nil_iff_forall_not_mem]
    exact fun u hu => hnobody u (h.lists.kids.mem t ht u hu) (h.kid t ht u hu)
  have hzombies : A.zombies t = [] := by
    rw [eq_nil_iff_forall_not_mem]
    exact fun u hu => hnobody u (h.lists.zombies.mem t ht u hu) (h.zombie t ht u hu).2
  have hqueue : ∀ c, t ∉ A.queue c := fun c hin => h.queued c t hin hexited
  refine ⟨h.lists.destroy ht hqueue hzombie hkids hzombies, ?_, fun u hu => ?_, fun c u hu => ?_,
    fun p hp u hu => ?_, fun p hp u hu => ?_, fun u hu p hpar => ?_,
    fun u hu => h.given u ((hin u).mp hu).2, fun p hp u hu => ?_⟩
  · have hle : (r.live.erase t).length ≤ r.live.length := length_erase_le
    exact hle.trans h.made
  · have hmem := mem_filter.mp hu
    exact (hin u).mpr ⟨of_decide_eq_true hmem.2, h.exited u hmem.1⟩
  · intro hu'
    exact h.queued c u hu (mem_filter.mp hu').1
  · exact h.kid p ((hin p).mp hp).2 u (mem_of_mem_erase hu)
  · have hp := ((hin p).mp hp).2
    have hold := h.zombie p hp u hu
    have hne : u ≠ t := fun heq => hzombie p hp (heq ▸ hu)
    exact ⟨mem_filter.mpr ⟨hold.1, decide_eq_true hne⟩, hold.2⟩
  · have hu := ((hin u).mp hu).2
    have hold := h.parent u hu p hpar
    -- the parent stays, because nobody names the destroyed task
    refine ⟨(hin p).mpr ⟨fun heq => ?_, hold.1⟩, hold.2⟩
    rw [heq] at hpar
    exact hnobody u hu hpar
  · have hp := ((hin p).mp hp).2
    have hne : u ≠ t := fun heq => hzombie p hp (heq ▸ hu)
    exact mem_filter.mpr ⟨h.handed p hp u hu, decide_eq_true hne⟩

end TaskInv

/-! ## What every call keeps -/

section
variable (hk : Kept r A)
include hk

/-- An owed task is live and has exited. -/
lemma Kept.exited (h : TaskInv r A) {z : ℕ} (hz : z ∈ r.owed) : z ∈ r.exited ∧ z ∈ r.live := by
  rcases hk z hz with ⟨p, hp, _, hin, _⟩
  exact ⟨(h.zombie p hp z hin).1, h.lists.zombies.mem p hp z hin⟩

/-- A call that leaves the owed tasks with their parents and on their lists, and makes none of
them a child. -/
lemma Kept.of_same {A' : Family} (howed : ∀ z ∈ r'.owed, z ∈ r.owed)
    (hlive : ∀ p ∈ r.live, p ∈ r'.live)
    (hparent : ∀ z ∈ r'.owed, (r'.sched.task z).parent = (r.sched.task z).parent)
    (hzombies : ∀ z ∈ r'.owed, ∀ p ∈ r.live, z ∈ A.zombies p → z ∈ A'.zombies p)
    (hkids : ∀ z ∈ r'.owed, ∀ p ∈ r'.live, z ∈ A'.kids p → ∃ q ∈ r.live, z ∈ A.kids q) :
    Kept r' A' := by
  intro z hz
  rcases hk z (howed z hz) with ⟨p, hp, hpar, hin, hout⟩
  refine ⟨p, hlive p hp, (hparent z hz).trans hpar, hzombies z hz p hp hin, fun p' hp' hkid => ?_⟩
  rcases hkids z hz p' hp' hkid with ⟨q, hq, hkid⟩
  exact hout q hq hkid

/-- `task_exit` hands the task over if its parent is live and waits. -/
lemma Kept.exit (h : TaskInv r A) (hsame : SameParents r.sched s')
    (hwait : ∀ p, (r.sched.task t).parent = some p → p ∈ r.live → p ∉ r.exited →
      (r.sched.task p).state = .sleepingInterruptible) :
    Kept (r.exit s' t c) (A.afterExit t (waitingParent r.sched t)) := by
  have hall := hsame.trans (sameParents_schedule s' c)
  -- the tasks that were owed before stay where they are
  have hold : ∀ z ∈ r.owed, ∃ p ∈ r.live, ((schedule s' c).2.task z).parent = some p ∧
      z ∈ (A.afterExit t (waitingParent r.sched t)).zombies p ∧
      ∀ p' ∈ r.live, z ∉ (A.afterExit t (waitingParent r.sched t)).kids p' := by
    intro z hz
    rcases hk z hz with ⟨p, hp, hpar, hin, hout⟩
    refine ⟨p, hp, (hall.parent z).trans hpar, ?_, fun p' hp' hkid => ?_⟩
    · cases waitingParent r.sched t with
      | none => exact hin
      | some p' => exact Rings.mem_append_update_iff.mpr (Or.inl hin)
    · exact hout p' hp' (TaskInv.mem_kids_afterExit hkid)
  intro z (hz : z ∈ if r.parentLive t then t :: r.owed else r.owed)
  by_cases hlive : r.parentLive t = true
  · rw [if_pos hlive] at hz
    rcases mem_cons.mp hz with heq | hz
    · -- the task itself: its live parent waits
      unfold TaskRun.parentLive at hlive
      cases hpar : (r.sched.task t).parent with
      | none =>
        rw [hpar] at hlive
        cases hlive
      | some p =>
        rw [hpar] at hlive
        simp only [Bool.and_eq_true, decide_eq_true_eq] at hlive
        have hsleeps := hwait p hpar hlive.1 hlive.2
        have hparent : waitingParent r.sched t = some p := by
          unfold waitingParent
          rw [hpar, Option.filter_some_pos (by simpa using hsleeps)]
        rw [heq, hparent]
        refine ⟨p, hlive.1, (hall.parent t).trans hpar, ?_, fun p' hp' hkid => ?_⟩
        · exact Rings.mem_append_update_iff.mpr (Or.inr ⟨rfl, rfl⟩)
        · have hin := (mem_update_nil hkid).2
          exact ((h.lists.kids.nodup hp').mem_erase_iff.mp hin).1 rfl
    · exact hold z hz
  · rw [if_neg hlive] at hz
    exact hold z hz

/-- The owed tasks are not new, and their lists are those of old tasks. -/
lemma Kept.create (h : TaskInv r A) (ht : t ∉ r.live) (stack : ℕ) :
    Kept (r.create t stack)
      { A with kids := update A.kids t [], zombies := update A.zombies t [] } := by
  have hne : ∀ u ∈ r.live, u ≠ t := fun u hu => ne_of_mem_of_not_mem hu ht
  refine hk.of_same (fun z hz => hz) (fun p hp => mem_append_left _ hp) (fun z hz => ?_)
    (fun z hz p hp hin => ?_) fun z hz p hp hkid => ?_
  · rw [TaskRun.create_task_of_ne stack (hne z (hk.exited h hz).2)]
  · show z ∈ update A.zombies t [] p
    rw [update_of_ne (hne p hp)]
    exact hin
  · have hold := mem_update_nil hkid
    rcases mem_append.mp hp with hp | hp
    · exact ⟨p, hp, hold.2⟩
    · exact absurd (mem_singleton.mp hp) hold.1

/-- An owed task has exited, so it is not the one that becomes a child. -/
lemma Kept.addChild (h : TaskInv r A) (hexited : child ∉ r.exited) :
    Kept (r.addChild p child) { A with kids := update A.kids p (A.kids p ++ [child]) } := by
  have hne : ∀ z ∈ r.owed, z ≠ child := fun z hz heq => hexited (heq ▸ (hk.exited h hz).1)
  refine hk.of_same (fun z hz => hz) (fun p hp => hp) (fun z hz => ?_) (fun z _ p _ hin => hin)
    fun z hz p' hp' hkid => ?_
  · rw [TaskRun.addChild_task_of_ne (hne z hz)]
  · rcases Rings.mem_append_update_iff.mp hkid with hold | ⟨_, heq⟩
    · exact ⟨p', hp', hold⟩
    · exact absurd heq (hne z hz)

/-- A removed zombie is owed no more; the others stay where they are. -/
lemma Kept.removeZombie (zombie : ℕ) :
    Kept (r.removeZombie p zombie)
      { A with zombies := if (r.sched.task zombie).parent = some p
                          then fun p' => (A.zombies p').erase zombie else A.zombies } := by
  have hsame := sameParents_removeZombie r.sched p zombie
  unfold TaskRun.removeZombie
  by_cases hpar : (r.sched.task zombie).parent = some p
  · rw [if_pos hpar, if_pos hpar]
    refine hk.of_same (fun z hz => (mem_filter.mp hz).1) (fun p hp => hp)
      (fun z _ => hsame.parent z) (fun z hz p _ hin => ?_) fun z _ p hp hkid => ⟨p, hp, hkid⟩
    have hne : z ≠ zombie := of_decide_eq_true (mem_filter.mp hz).2
    exact (mem_erase_of_ne hne).mpr hin
  · rw [if_neg hpar, if_neg hpar]
    exact hk.of_same (fun z hz => hz) (fun p hp => hp) (fun z _ => hsame.parent z)
      (fun z _ p _ hin => hin) fun z _ p hp hkid => ⟨p, hp, hkid⟩

/-- The parent of another live task is not destroyed. -/
lemma Kept.destroy (h : TaskInv r A) (hgiven : ∀ u ∈ r.live, u ≠ t → r.given u ≠ some t) :
    Kept (r.destroy t) { A with kids := fun p => (A.kids p).erase t } := by
  intro z hz
  have hmem := mem_filter.mp hz
  rcases hk z hmem.1 with ⟨p, hp, hpar, hin, hout⟩
  have hpt : p ≠ t := by
    intro heq
    have hz := (hk.exited h hmem.1).2
    rw [heq, h.given z hz] at hpar
    exact hgiven z hz (of_decide_eq_true hmem.2) hpar
  refine ⟨p, (mem_erase_of_ne hpt).mpr hp, hpar, hin, fun p' hp' hkid => ?_⟩
  exact hout p' (mem_of_mem_erase hp') (mem_of_mem_erase hkid)

end

/-- The invariant after a call that meets its conditions; the owed tasks are kept if the parents
wait. -/
lemma TaskInv.step (h : TaskInv r A) {op : TaskOp} (hC : Careful r op)
    (hexec : exec r op = some r') :
    ∃ A', TaskInv r' A' ∧ (Kept r A → Awaited r op → Kept r' A') := by
  cases op with
  | create t stack =>
    simp only [exec] at hexec
    split_ifs at hexec with ht
    cases hexec
    exact ⟨_, h.create ht stack, fun hk _ => hk.create h ht stack⟩
  | addChild parent child =>
    simp only [exec] at hexec
    split_ifs at hexec with hargs
    cases hexec
    exact ⟨_, h.addChild hargs.1 hargs.2.1 hargs.2.2 hC.1 hC.2, fun hk _ => hk.addChild h hC.1⟩
  | removeChild parent child =>
    simp only [exec] at hexec
    split_ifs at hexec with hargs
    cases hexec
    rcases h.removeChild (p := parent) hargs.2 with ⟨kids, hinv, hsub⟩
    exact ⟨_, hinv, fun hk _ => hk.of_same (fun z hz => hz) (fun p hp => hp)
      (fun z _ => (sameParents_removeChild r.sched parent child).parent z)
      (fun z _ p _ hin => hin) fun z _ p hp hkid => ⟨p, hp, hsub p hp z hkid⟩⟩
  | sched t c =>
    simp only [exec] at hexec
    split_ifs at hexec with ht
    cases hexec
    exact ⟨_, h.sched ht hC.1 hC.2 c, fun hk _ => hk.of_same (fun z hz => hz) (fun p hp => hp)
      (fun z _ => rfl) (fun z _ p _ hin => hin) fun z _ p hp hkid => ⟨p, hp, hkid⟩⟩
  | setState t state =>
    simp only [exec] at hexec
    split_ifs at hexec with ht
    cases hexec
    have hsame : SameParents r.sched (r.sched.setTask t { r.sched.task t with state := state }) :=
      sameParents_setTask rfl
    exact ⟨_, h.setState state, fun hk _ => hk.of_same (fun z hz => hz) (fun p hp => hp)
      (fun z _ => hsame.parent z) (fun z _ p _ hin => hin) fun z _ p hp hkid => ⟨p, hp, hkid⟩⟩
  | exit t c exitCode =>
    simp only [exec] at hexec
    by_cases ht : t ∈ r.live
    · rcases h.taskExit ht hC exitCode with ⟨s', hs', hsame, hl⟩
      rw [if_pos ht, hs'] at hexec
      cases hexec
      exact ⟨_, h.exit ht hsame hl c, fun hk hwait => hk.exit h hsame hwait⟩
    · rw [if_neg ht] at hexec
      cases hexec
  | removeZombie parent zombie =>
    simp only [exec] at hexec
    by_cases hargs : parent ∈ r.live ∧ zombie ∈ r.live
    · rw [if_pos hargs] at hexec
      cases hexec
      exact ⟨_, h.removeZombie (p := parent) hargs.2, fun hk _ => hk.removeZombie zombie⟩
    · rw [if_neg hargs] at hexec
      cases hexec
  | destroy t =>
    simp only [exec] at hexec
    split_ifs at hexec with hargs
    cases hexec
    exact ⟨_, h.destroy hargs.1 hargs.2 hC.1 hC.2, fun hk _ => hk.destroy h hC.1⟩

/-! ## Every run -/

/-- No pointer to a task that is not live: not as the parent of a live task, and on no list that
starts at `all_tasks`, at a run queue or at a live task. -/
structure NoDangling (r : TaskRun) : Prop where
  parent : ∀ t ∈ r.live, ∀ p, (r.sched.task t).parent = some p → p ∈ r.live
  all : ∃ l : List ℕ, Circular r.sched.heap .allTasks (l.map .tasks) ∧ ∀ t ∈ l, t ∈ r.live
  queues : ∀ c, ∃ l : List ℕ, Circular r.sched.heap (.cpuRunqueue c) (l.map .tasksRunnable) ∧
    ∀ t ∈ l, t ∈ r.live
  kids : ∀ p ∈ r.live, ∃ l : List ℕ, Circular r.sched.heap (.children p) (l.map .siblings) ∧
    ∀ t ∈ l, t ∈ r.live
  zombies : ∀ p ∈ r.live, ∃ l : List ℕ,
    Circular r.sched.heap (.zombieChildren p) (l.map .zombieSiblings) ∧ ∀ t ∈ l, t ∈ r.live

/-- No list names a destroyed task. -/
lemma TaskInv.noDangling (h : TaskInv r A) : NoDangling r where
  parent t ht p hpar := (h.parent t ht p hpar).1
  all := ⟨r.live, h.lists.all.ring () trivial, fun _ ht => ht⟩
  queues c := ⟨A.queue c, h.lists.queues.ring c trivial, h.lists.queues.mem c trivial⟩
  kids p hp := ⟨A.kids p, h.lists.kids.ring p hp, h.lists.kids.mem p hp⟩
  zombies p hp := ⟨A.zombies p, h.lists.zombies.ring p hp, h.lists.zombies.mem p hp⟩

/-- In every state reached by careful calls no live task's parent is destroyed, and no node of a
destroyed task is on `all_tasks`, on a run queue, or on a list of a live task. -/
theorem no_reference_to_destroyed {s : SchedState}
    (h : TaskReachable Careful (TaskRun.init s) r) : NoDangling r := by
  -- by induction on the run, with the contents of the lists as they are at each point
  have hinv : ∃ A, TaskInv r A := by
    refine h.invariant (fun r hr => ?_) fun r r' hA hst => ?_
    · rw [hr]
      exact ⟨_, taskInv_init s⟩
    · rcases hA with ⟨A, hA⟩
      rcases hst with ⟨op, hC, hexec⟩
      rcases hA.step hC hexec with ⟨A', hA', _⟩
      exact ⟨A', hA'⟩
  rcases hinv with ⟨A, hA⟩
  exact hA.noDangling

/-- In every state reached by careful calls in which tasks exit only while a live parent sleeps
interruptibly, a task that has exited beside a live parent is on the parent's zombie list and no
child of it, until it is removed. -/
theorem zombies_kept {s : SchedState}
    (h : TaskReachable (fun r op => Careful r op ∧ Awaited r op) (TaskRun.init s) r) :
    ∀ z ∈ r.owed, ∃ p, (r.sched.task z).parent = some p ∧ OnZombies r.sched p z ∧
      ¬ OnChildren r.sched p z := by
  have hinv : ∃ A, TaskInv r A ∧ Kept r A := by
    refine h.invariant (fun r hr => ?_) fun r r' hA hst => ?_
    · rw [hr]
      exact ⟨_, taskInv_init s, fun z hz => absurd hz not_mem_nil⟩
    · rcases hA with ⟨A, hA, hk⟩
      rcases hst with ⟨op, hC, hexec⟩
      rcases hA.step hC.1 hexec with ⟨A', hA', hk'⟩
      exact ⟨A', hA', hk' hk hC.2⟩
  rcases hinv with ⟨A, hA, hk⟩
  intro z hz
  rcases hk z hz with ⟨p, hp, hpar, hin, hout⟩
  refine ⟨p, hpar, (hA.onZombies_iff hp).mpr hin, ?_⟩
  rw [hA.onChildren_iff hp]
  exact hout p hp

/-! ## Two tasks -/

section
variable {C C' : TaskRun → TaskOp → Prop} {r₀ : TaskRun}

lemma TaskReachable.mono (h : TaskReachable C r₀ r) (hC : ∀ r op, C r op → C' r op) :
    TaskReachable C' r₀ r :=
  Runs.Reachable.mono h fun r _ ⟨op, hop, hexec⟩ => ⟨op, hC r op hop, hexec⟩

/-- The state after a call. -/
def TaskRun.after (r : TaskRun) (op : TaskOp) : TaskRun := (exec r op).getD r

/-- A run goes on with a call. -/
lemma TaskReachable.after (h : TaskReachable C r₀ r) (op : TaskOp) (hC : C r op)
    (hsome : (exec r op).isSome = true) : TaskReachable C r₀ (r.after op) := by
  rcases Option.isSome_iff_exists.mp hsome with ⟨r', hr'⟩
  have hafter : r.after op = r' := by
    unfold TaskRun.after
    rw [hr']
    rfl
  rw [hafter]
  exact h.step ⟨op, hC, hr'⟩

end

/-- Task 2 is a child of task 1. -/
def parentAndChild : TaskRun :=
  (((TaskRun.init coldState).after (.create 1 100)).after (.create 2 200)).after (.addChild 1 2)

lemma parentAndChild_reachable :
    TaskReachable (fun r op => Careful r op ∧ Awaited r op) (TaskRun.init coldState)
      parentAndChild := by
  have hone : TaskReachable (fun r op => Careful r op ∧ Awaited r op) (TaskRun.init coldState)
      ((TaskRun.init coldState).after (.create 1 100)) :=
    TaskReachable.after (.init rfl) _ ⟨trivial, trivial⟩ (by decide +kernel)
  have htwo := hone.after (.create 2 200) ⟨trivial, trivial⟩ (by decide +kernel)
  exact htwo.after _ ⟨⟨by decide +kernel, by decide +kernel⟩, trivial⟩ (by decide +kernel)

/-- The child exits while its parent waits. -/
def childWaitedFor : TaskRun :=
  (parentAndChild.after (.setState 1 .sleepingInterruptible)).after (.exit 2 0 0)

lemma childWaitedFor_reachable :
    TaskReachable (fun r op => Careful r op ∧ Awaited r op) (TaskRun.init coldState)
      childWaitedFor := by
  have hset : TaskReachable (fun r op => Careful r op ∧ Awaited r op) (TaskRun.init coldState)
      (parentAndChild.after (.setState 1 .sleepingInterruptible)) :=
    parentAndChild_reachable.after _ ⟨trivial, trivial⟩ (by decide +kernel)
  have hexited : 2 ∉ (parentAndChild.after (.setState 1 .sleepingInterruptible)).exited := by
    decide +kernel
  refine hset.after _ ⟨hexited, fun p hp _ _ => ?_⟩ (by decide +kernel)
  have hpar : ((parentAndChild.after (.setState 1 .sleepingInterruptible)).sched.task 2).parent
      = some 1 := by decide +kernel
  rw [hpar] at hp
  cases hp
  decide +kernel

/-- The parent removes the child from its zombies, and the child is destroyed. -/
def childReaped : TaskRun := (childWaitedFor.after (.removeZombie 1 2)).after (.destroy 2)

theorem no_reference_to_destroyed_childReaped :
    childReaped.live = [1] ∧ NoDangling childReaped := by
  have hwaited : TaskReachable Careful (TaskRun.init coldState) childWaitedFor :=
    childWaitedFor_reachable.mono fun _ _ hC => hC.1
  have hremoved := hwaited.after (.removeZombie 1 2) trivial (by decide +kernel)
  exact ⟨by decide +kernel, no_reference_to_destroyed
    (hremoved.after _ ⟨by decide +kernel, by decide +kernel⟩ (by decide +kernel))⟩

theorem zombies_kept_childWaitedFor :
    ∃ p, (childWaitedFor.sched.task 2).parent = some p ∧
      OnZombies childWaitedFor.sched p 2 ∧ ¬ OnChildren childWaitedFor.sched p 2 :=
  zombies_kept childWaitedFor_reachable 2 (by decide +kernel)

/-- The parent exits and is destroyed before its child. -/
def parentDestroyed : TaskRun := (parentAndChild.after (.exit 1 0 0)).after (.destroy 1)

/-- The child is destroyed while it is on its parent's zombie list. -/
def zombieDestroyed : TaskRun := childWaitedFor.after (.destroy 2)

/-- A live child names its destroyed parent, and a live parent has a destroyed child on its zombie
list. -/
theorem destroyed_tasks_still_named :
    (TaskReachable (fun _ _ => True) (TaskRun.init coldState) parentDestroyed ∧
      2 ∈ parentDestroyed.live ∧ (parentDestroyed.sched.task 2).parent = some 1 ∧
      1 ∉ parentDestroyed.live) ∧
    TaskReachable (fun _ _ => True) (TaskRun.init coldState) zombieDestroyed ∧
      1 ∈ zombieDestroyed.live ∧ OnZombies zombieDestroyed.sched 1 2 ∧
      2 ∉ zombieDestroyed.live := by
  have htwo := parentAndChild_reachable.mono fun _ _ _ => trivial
  have hwaited := childWaitedFor_reachable.mono fun _ _ _ => trivial
  refine ⟨⟨(htwo.after _ trivial (by decide +kernel)).after _ trivial (by decide +kernel), ?_, ?_, ?_⟩,
    hwaited.after _ trivial (by decide +kernel), ?_, ?_, ?_⟩
  · decide +kernel
  · decide +kernel
  · decide +kernel
  · decide +kernel
  · refine ⟨[.zombieSiblings 2], ⟨by decide, ⟨?_, ?_⟩, ?_, ?_⟩, mem_cons_self⟩
    · decide +kernel
    · decide +kernel
    · decide +kernel
    · decide +kernel
  · decide +kernel

/-- The child exits while its parent runs. -/
def childLost : TaskRun := parentAndChild.after (.exit 2 0 0)

/-- A child that exits while its parent runs stays among the children and is on no zombie list. -/
theorem zombie_lost :
    TaskReachable (fun _ _ => True) (TaskRun.init coldState) childLost ∧ 2 ∈ childLost.owed ∧
      (childLost.sched.task 2).parent = some 1 ∧ ¬ OnZombies childLost.sched 1 2 ∧
      OnChildren childLost.sched 1 2 := by
  have htwo := parentAndChild_reachable.mono fun _ _ _ => trivial
  refine ⟨htwo.after _ trivial (by decide +kernel), ?_, ?_, ?_, ?_⟩
  · decide +kernel
  · decide +kernel
  · -- the pointers of the parent's zombie list say that it is empty
    rintro ⟨l, hl, hin⟩
    have hempty : listEmpty childLost.sched.heap (.zombieChildren 1) = true := by decide +kernel
    rw [hl.listEmpty_iff.mp hempty] at hin
    exact absurd hin not_mem_nil
  · refine ⟨[.siblings 2], ⟨by decide, ⟨?_, ?_⟩, ?_, ?_⟩, mem_cons_self⟩
    · decide +kernel
    · decide +kernel
    · decide +kernel
    · decide +kernel

end LunOS.Scheduler
