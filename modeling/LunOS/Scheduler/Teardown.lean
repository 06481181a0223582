import LunOS.MemMgr.Common
import LunOS.Scheduler.Common
import LunOS.Utils.Buckets
import LunOS.Vmm.FrameLog

/-!
# Tasks from `kmalloc` to `kfree`

`create_kernel_task`, `create_user_task` and `task_destroy` with the memory that they obtain and give
back. `create_task` leaves `kernel_stack_base` as the memory held it, and `create_user_task` does not
write to the memory descriptor at all. `task_destroy` follows all of these pointers. For a kernel task
they are set.

- `KernelState`: the tasks, and memory descriptors as memory holds them.
- `teardown_exact_iff`: when a task that is created and destroyed gives back what it got.
-/

namespace LunOS.Scheduler
open LunOS.Ds LunOS.Vmm LunOS.MemMgr LunOS.Buckets PageMachine List

/-! ## State -/

/-- The pointers that `mm_free` follows, in memory that is read as a `struct mem_descriptor`. -/
structure DescriptorMem where
  as : VirtAddr
  regions : Option VirtAddr

/-- The tasks, `pid_counter`, the virtual memory manager, and memory as descriptors and regions;
`mmFreed` records the calls of `mm_free`, the last one first. -/
structure KernelState (σ : Type*) where
  sched : SchedState
  pidCounter : ℕ
  vmm : VmmState σ
  descriptor : VirtAddr → DescriptorMem
  nextRegion : VirtAddr → Option VirtAddr
  mmFreed : List VirtAddr

/-- `sizeof(struct task)` -/
def sizeofTask : ℕ := 312

/-- `KERNEL_STACK_SIZE` -/
def kernelStackSize : ℕ := 4 * 4096

/-- A pointer to a task, `none` for `NULL`. -/
def pointer (p : VirtAddr) : Option ℕ := if p = 0 then none else some p.toNat

def address (t : ℕ) : VirtAddr := BitVec.ofNat 64 t

lemma address_toNat (p : VirtAddr) : address p.toNat = p := by
  unfold address
  rw [BitVec.ofNat_toNat, BitVec.setWidth_eq]

lemma pointer_of_ne {p : VirtAddr} (h : p ≠ 0) : pointer p = some p.toNat := if_neg h

namespace KernelState
variable {σ : Type*}

def setMachine (k : KernelState σ) (s : σ) : KernelState σ :=
  { k with vmm := { k.vmm with machine := s } }

variable [PageMachine σ]

/-! ## The functions -/

/-- `create_kernel_task` -/
def createKernelTask (k : KernelState σ) : Option ℕ × KernelState σ :=
  let (task, s) := kmalloc k.vmm.machine sizeofTask
  if task = 0 then (none, k.setMachine s)
  else
    let (stack, s) := kmalloc s kernelStackSize
    let s := if stack = 0 then kfree s task else s
    let (ktask, sched) := Scheduler.createKernelTask k.sched (pointer task) (pointer stack)
    (ktask, { k.setMachine s with sched := sched })

/-- `create_user_task` -/
def createUserTask (k : KernelState σ) : Option ℕ × KernelState σ :=
  let (task, s) := kmalloc k.vmm.machine sizeofTask
  if task = 0 then (none, k.setMachine s)
  else
    let (md, s) := kmalloc s sizeofMemDescriptor
    let s := if md = 0 then kfree s task else s
    let (utask, sched, pidCounter) :=
      Scheduler.createUserTask k.sched k.pidCounter (pointer task) (pointer md)
    (utask, { k.setMachine s with sched := sched, pidCounter := pidCounter })

/-- The loop of `mm_free`; `none` when it has not ended after that many turns. -/
def freeRegions (next : VirtAddr → Option VirtAddr) : ℕ → Option VirtAddr → σ → Option σ
  | _, none, s => some s
  | 0, some _, _ => none
  | fuel + 1, some current, s => freeRegions next fuel (next current) (kfree s current)

/-- `mm_free`, which reads the descriptor from memory. -/
def mmFree (fuel : ℕ) (k : KernelState σ) (mm : VirtAddr) : Option (KernelState σ) :=
  let k := { k with mmFreed := mm :: k.mmFreed }
  if mm = 0 then some k
  else
    let v := vmmDestroyAddressSpace k.vmm (k.descriptor mm).as
    (freeRegions k.nextRegion fuel (k.descriptor mm).regions v.machine).map fun s =>
      { k with
        vmm := { v with machine := kfree s mm }
        descriptor := Function.update k.descriptor mm { k.descriptor mm with regions := none } }

/-- `if (md) mm_free(md);` -/
def mmFreeIf (fuel : ℕ) (k : KernelState σ) : Option ℕ → Option (KernelState σ)
  | none => some k
  | some md => k.mmFree fuel (address md)

/-- `if (p) kfree(p);` -/
def kfreeIf (s : σ) : Option ℕ → σ
  | none => s
  | some p => kfree s (address p)

/-- `task_destroy` -/
def taskDestroy (fuel : ℕ) (k : KernelState σ) (t : ℕ) : Option (KernelState σ) :=
  let k := { k with sched := Scheduler.taskDestroy k.sched t }
  (k.mmFreeIf fuel (k.sched.task t).md).map fun k =>
    let s := kfreeIf k.vmm.machine (k.sched.task t).kernelStackBase
    k.setMachine (kfree s (address t))

/-! ## Regions -/

variable {fuel : ℕ} {p : Option VirtAddr} {next : VirtAddr → Option VirtAddr} {s : σ}

@[simp] lemma freeRegions_none : freeRegions next fuel none s = some s := by
  cases fuel <;> rfl

/-- The loop over a list of regions. -/
lemma freeRegions_leads {l : List VirtAddr} (h : Leads next p l) (hfuel : l.length ≤ fuel) :
    freeRegions next fuel p s = some (l.foldl kfree s) := by
  induction l generalizing fuel p s with
  | nil =>
    have hp : p = none := h
    rw [hp, freeRegions_none]
    rfl
  | cons a l ih =>
    obtain ⟨hp, hrest⟩ := h
    rw [length_cons] at hfuel
    obtain ⟨n, hn⟩ : ∃ n, fuel = n + 1 := ⟨fuel - 1, by omega⟩
    rw [hp, hn, freeRegions, ih hrest (by omega)]
    rfl

/-- A descriptor without an address space of its own and without regions. -/
lemma mmFree_of_clean (fuel : ℕ) {k : KernelState σ} {mm : VirtAddr} (hmm : mm ≠ 0)
    (has : (k.descriptor mm).as = 0 ∨ (k.descriptor mm).as = k.vmm.kernelAs)
    (hregions : (k.descriptor mm).regions = none) :
    k.mmFree fuel mm = some { k.setMachine (kfree k.vmm.machine mm) with
      descriptor := Function.update k.descriptor mm { k.descriptor mm with regions := none }
      mmFreed := mm :: k.mmFreed } := by
  have hspace : vmmDestroyAddressSpace k.vmm (k.descriptor mm).as = k.vmm := by
    unfold vmmDestroyAddressSpace
    rw [if_pos has]
  unfold KernelState.mmFree
  simp only [if_neg hmm, hspace, hregions, freeRegions_none, Option.map_some]
  rfl

/-- On regions that form a list, this is `mm_free` of the memory manager. -/
lemma mmFree_eq_list {k : KernelState σ} {mm : VirtAddr} {d : VirtAddr → MemDescriptor}
    (has : (d mm).as = (k.descriptor mm).as)
    (hregions : Leads k.nextRegion (k.descriptor mm).regions ((d mm).regions.map MemRegion.addr))
    (hfuel : (d mm).regions.length ≤ fuel) :
    (k.mmFree fuel mm).map KernelState.vmm = some (MemMgr.mmFree ⟨k.vmm, d⟩ mm).vmm := by
  unfold KernelState.mmFree MemMgr.mmFree
  by_cases hmm : mm = 0
  · simp only [if_pos hmm, Option.map_some]
  · simp only [if_neg hmm]
    rw [freeRegions_leads hregions (by rw [length_map]; exact hfuel), has, foldl_map]
    rfl

end KernelState

/-! ## What is recorded -/

section
variable {σ : Type*} [PageMachine σ]

/-- No block was passed to `kfree`. -/
def KeepsBlocks (f : Logged σ → Logged σ) : Prop := ∀ s, (f s).kfreed = s.kfreed

lemma freePageTable_keepsBlocks (pt : VirtAddr) :
    KeepsBlocks fun s : Logged σ => vmmFreePageTable s pt := by
  intro s
  unfold vmmFreePageTable
  split_ifs
  · rfl
  · rfl

lemma freeChildren_keepsBlocks {freeChild : Logged σ → PhysAddr → Logged σ}
    (h : ∀ p, KeepsBlocks fun s => freeChild s p) (pt : VirtAddr) (idxs : List Index) :
    KeepsBlocks (freeChildren freeChild pt idxs) := by
  intro s
  unfold freeChildren
  induction idxs generalizing s with
  | nil => rfl
  | cons i idxs ih =>
    rw [foldl_cons, ih]
    split_ifs
    · exact h _ s
    · rfl

lemma freePdTable_keepsBlocks (p : PhysAddr) :
    KeepsBlocks fun s : Logged σ => freePdTable s p := by
  intro s
  unfold freePdTable
  simp only
  rw [freePageTable_keepsBlocks, freeChildren_keepsBlocks fun q => freePageTable_keepsBlocks _]

lemma freePdpTable_keepsBlocks (p : PhysAddr) :
    KeepsBlocks fun s : Logged σ => freePdpTable s p := by
  intro s
  unfold freePdpTable
  simp only
  rw [freePageTable_keepsBlocks, freeChildren_keepsBlocks freePdTable_keepsBlocks]

/-- The blocks that `vmm_destroy_address_space` passes to `kfree`. -/
def spaceBlocks (kernelAs as : VirtAddr) : List VirtAddr :=
  if as = 0 ∨ as = kernelAs then [] else [as]

lemma spaceBlocks_eq_nil_iff {kernelAs as : VirtAddr} :
    spaceBlocks kernelAs as = [] ↔ as = 0 ∨ as = kernelAs := by
  unfold spaceBlocks
  by_cases h : as = 0 ∨ as = kernelAs
  · rw [if_pos h]
    exact iff_of_true rfl h
  · rw [if_neg h]
    exact iff_of_false (cons_ne_nil _ _) h

lemma vmmDestroyAddressSpace_kfreed (v : VmmState (Logged σ)) (as : VirtAddr) :
    (vmmDestroyAddressSpace v as).machine.kfreed =
      spaceBlocks v.kernelAs as ++ v.machine.kfreed := by
  unfold vmmDestroyAddressSpace spaceBlocks
  split_ifs
  · rfl
  · show as :: _ = _
    rw [freePageTable_keepsBlocks, freeChildren_keepsBlocks freePdpTable_keepsBlocks]
    rfl

/-- A region that is there is freed. -/
lemma freeRegions_kfreed {next : VirtAddr → Option VirtAddr} {fuel : ℕ} {p : Option VirtAddr}
    {s s' : Logged σ} (h : KernelState.freeRegions next fuel p s = some s') :
    ∃ rs, s'.kfreed = rs ++ s.kfreed ∧ (rs = [] → p = none) := by
  induction fuel generalizing p s with
  | zero =>
    cases p with
    | none =>
      rw [KernelState.freeRegions_none, Option.some.injEq] at h
      exact ⟨[], by rw [h]; rfl, fun _ => rfl⟩
    | some current => exact absurd h (by simp [KernelState.freeRegions])
  | succ fuel ih =>
    cases p with
    | none =>
      rw [KernelState.freeRegions, Option.some.injEq] at h
      exact ⟨[], by rw [h]; rfl, fun _ => rfl⟩
    | some current =>
      rw [KernelState.freeRegions] at h
      obtain ⟨rs, hrs, -⟩ := ih h
      refine ⟨rs ++ [current], ?_, fun hnil => absurd hnil (by simp)⟩
      rw [hrs, append_assoc]
      rfl

variable {k k' k₁ : KernelState (Logged σ)} {fuel t : ℕ} {mm : VirtAddr}

/-- What `mm_free` passes to `kfree`. -/
lemma mmFree_kfreed (h : k.mmFree fuel mm = some k') (hmm : mm ≠ 0) :
    ∃ rs, k'.vmm.machine.kfreed =
        mm :: rs ++ spaceBlocks k.vmm.kernelAs (k.descriptor mm).as ++ k.vmm.machine.kfreed ∧
      (rs = [] → (k.descriptor mm).regions = none) ∧ k'.sched = k.sched := by
  unfold KernelState.mmFree at h
  simp only [if_neg hmm] at h
  obtain ⟨s, hs, hk⟩ := Option.map_eq_some_iff.mp h
  obtain ⟨rs, hrs, hnil⟩ := freeRegions_kfreed hs
  refine ⟨rs, ?_, hnil, by rw [← hk]⟩
  rw [← hk]
  show mm :: s.kfreed = _
  rw [hrs, vmmDestroyAddressSpace_kfreed, cons_append, cons_append, append_assoc]

/-- What `task_destroy` passes to `kfree` for a task with a descriptor. -/
lemma taskDestroy_kfreed (h : k.taskDestroy fuel t = some k') {md : ℕ}
    (hmd : (k.sched.task t).md = some md) (hne : address md ≠ 0) :
    ∃ rs, k'.vmm.machine.kfreed =
        address t :: ((k.sched.task t).kernelStackBase.map address).toList ++ (address md :: rs ++
          spaceBlocks k.vmm.kernelAs (k.descriptor (address md)).as) ++ k.vmm.machine.kfreed ∧
      (rs = [] → (k.descriptor (address md)).regions = none) := by
  unfold KernelState.taskDestroy at h
  obtain ⟨k₁, hk₁, hk'⟩ := Option.map_eq_some_iff.mp h
  have htask : (Scheduler.taskDestroy k.sched t).task = k.sched.task := rfl
  simp only [htask, hmd] at hk₁
  obtain ⟨rs, hrs, hnil, hsched⟩ := mmFree_kfreed hk₁ hne
  refine ⟨rs, ?_, hnil⟩
  have hstack : ∀ (s : Logged σ) (p : Option ℕ),
      (KernelState.kfreeIf s p).kfreed = (p.map address).toList ++ s.kfreed := by
    intro s p
    cases p <;> rfl
  rw [← hk']
  show address t :: (KernelState.kfreeIf k₁.vmm.machine _).kfreed = _
  rw [hsched, hstack, hrs]
  simp only [cons_append, append_assoc]
  rfl

end

/-! ## The list of all tasks -/

/-- The lists after a task was created. -/
def createdHeap (h : ListHeap Node) (t : ℕ) : ListHeap Node :=
  listAddTail ((freshNodes t).foldl listInit h) (.tasks t) .allTasks

/-- A new task that is destroyed leaves `all_tasks` as it was. -/
lemma destroyed_allTasks {h : ListHeap Node} {ts : List ℕ} {t : ℕ}
    (hc : Circular h .allTasks (ts.map .tasks)) (ht : t ∉ ts) :
    Circular (listDel (listDel (createdHeap h t) (.tasks t)) (.siblings t)) .allTasks
      (ts.map .tasks) := by
  have hkind : ∀ z ∈ Node.allTasks :: ts.map .tasks, z ∉ freshNodes t ∧ z ≠ .tasks t := by
    intro z hz
    rcases mem_cons.mp hz with hz | hz
    · rw [hz]
      simp [freshNodes]
    · obtain ⟨u, hu, hz⟩ := mem_map.mp hz
      rw [← hz]
      have hut : u ≠ t := ne_of_mem_of_not_mem hu ht
      simp [freshNodes, hut]
  have hc₀ : Circular ((freshNodes t).foldl listInit h) .allTasks (ts.map .tasks) :=
    hc.congr fun z hz => foldl_listInit_of_notMem (hkind z hz).1 h
  have hnew : Node.tasks t ∉ Node.allTasks :: ts.map .tasks := fun hmem => (hkind _ hmem).2 rfl
  have hsame := fun {z : Node} (hz : z ≠ .tasks t) => hc₀.listDel_listAddTail hnew hz
  -- the node for the siblings is linked to itself
  have hself : Circular ((freshNodes t).foldl listInit h) (.siblings t) [] :=
    foldl_listInit_of_mem mem_cons_self h
  have hsiblings := hsame (z := .siblings t) (by simp)
  unfold createdHeap
  rw [listDel_self (hsiblings.1.trans hself.seg.1) (hsiblings.2.trans hself.seg.2)]
  exact hc₀.congr fun z hz => hsame (hkind z hz).2

/-! ## Creation -/

section
variable {σ : Type*} [PageMachine σ]

/-- The block that the next `kmalloc` for a task returns. -/
def KernelState.taskBlock (k : KernelState σ) : VirtAddr := (kmalloc k.vmm.machine sizeofTask).1

/-- The block of the given size that is obtained behind it. -/
def KernelState.secondBlock (k : KernelState σ) (size : ℕ) : VirtAddr :=
  (kmalloc (kmalloc k.vmm.machine sizeofTask).2 size).1

/-- A task was created at the next block, with another block of the given size. -/
structure TaskCreated (k k₁ : KernelState σ) (t size : ℕ) (md stack : Option ℕ) : Prop where
  nonnull : k.taskBlock ≠ 0
  second : k.secondBlock size ≠ 0
  task_eq : t = k.taskBlock.toNat
  vmm : k₁.vmm = { k.vmm with machine := (kmalloc (kmalloc k.vmm.machine sizeofTask).2 size).2 }
  heap : k₁.sched.heap = createdHeap k.sched.heap t
  md : (k₁.sched.task t).md = md
  stack : (k₁.sched.task t).kernelStackBase = stack
  descriptor : k₁.descriptor = k.descriptor
  mmFreed : k₁.mmFreed = k.mmFreed

variable {k k₁ : KernelState σ} {t : ℕ}

/-- The blocks of a kernel task. -/
lemma createKernelTask_created (h : k.createKernelTask = (some t, k₁)) :
    TaskCreated k k₁ t kernelStackSize none (some (k.secondBlock kernelStackSize).toNat) := by
  unfold KernelState.createKernelTask at h
  simp only at h
  by_cases htask : (kmalloc k.vmm.machine sizeofTask).1 = 0
  · rw [if_pos htask] at h
    exact absurd (Prod.mk.inj h).1 (by simp)
  rw [if_neg htask, pointer_of_ne htask] at h
  by_cases hstack : (kmalloc (kmalloc k.vmm.machine sizeofTask).2 kernelStackSize).1 = 0
  · rw [hstack] at h
    exact absurd (Prod.mk.inj h).1 (by simp [pointer, Scheduler.createKernelTask])
  rw [if_neg hstack, pointer_of_ne hstack] at h
  simp only [Scheduler.createKernelTask, Prod.mk.injEq, Option.some.injEq] at h
  obtain ⟨ht, hk⟩ := h
  rw [← ht, ← hk]
  refine ⟨htask, hstack, rfl, rfl, rfl, ?_, ?_, rfl, rfl⟩
  · simp [SchedState.setTask, SchedState.mapHeap, createTask]
  · simp [SchedState.setTask, SchedState.mapHeap, KernelState.secondBlock]

/-- The blocks of a user task. -/
lemma createUserTask_created (h : k.createUserTask = (some t, k₁)) :
    TaskCreated k k₁ t sizeofMemDescriptor (some (k.secondBlock sizeofMemDescriptor).toNat)
      (k.sched.task t).kernelStackBase := by
  unfold KernelState.createUserTask at h
  simp only at h
  by_cases htask : (kmalloc k.vmm.machine sizeofTask).1 = 0
  · rw [if_pos htask] at h
    exact absurd (Prod.mk.inj h).1 (by simp)
  rw [if_neg htask, pointer_of_ne htask] at h
  by_cases hmd : (kmalloc (kmalloc k.vmm.machine sizeofTask).2 sizeofMemDescriptor).1 = 0
  · rw [hmd] at h
    exact absurd (Prod.mk.inj h).1 (by simp [pointer, Scheduler.createUserTask])
  rw [if_neg hmd, pointer_of_ne hmd] at h
  simp only [Scheduler.createUserTask, Prod.mk.injEq, Option.some.injEq] at h
  obtain ⟨ht, hk⟩ := h
  rw [← ht, ← hk]
  refine ⟨htask, hmd, rfl, rfl, rfl, ?_, ?_, rfl, rfl⟩
  · simp [SchedState.setTask, SchedState.mapHeap, KernelState.secondBlock]
  · simp [SchedState.setTask, SchedState.mapHeap, createTask]

end

/-! ## Creation and destruction -/

section
variable {σ : Type*} [PageMachine σ]

/-- From `k` a task was created, which gave `k₁`, and destroyed, which gave `k₂`. The blocks that were
obtained were passed to `kfree`, each once, and nothing else; `mm_free` got the descriptors `mds`, and
the members of `all_tasks` are the tasks `ts` that it had before, in their order. -/
structure Undone (k k₁ k₂ : KernelState (Logged σ)) (ts : List ℕ) (mds : List VirtAddr) :
    Prop where
  blocks : ∃ obtained freed, k₁.vmm.machine.obtained = obtained ++ k.vmm.machine.obtained ∧
    k₂.vmm.machine.kfreed = freed ++ k.vmm.machine.kfreed ∧ freed.Perm obtained
  descriptors : k₂.mmFreed = mds ++ k.mmFreed
  frames : k₂.vmm.machine.freed = k.vmm.machine.freed
  tasks : Circular k₂.sched.heap .allTasks (ts.map .tasks)

/-- The memory that a user task will get holds `NULL` where it has pointers: `kernel_stack_base` of
the task, and `as`, which may be the address space of the kernel, and `regions` of the descriptor. -/
structure CleanMemory (k : KernelState σ) : Prop where
  stack : (k.sched.task k.taskBlock.toNat).kernelStackBase = none
  space : (k.descriptor (k.secondBlock sizeofMemDescriptor)).as = 0 ∨
    (k.descriptor (k.secondBlock sizeofMemDescriptor)).as = k.vmm.kernelAs
  regions : (k.descriptor (k.secondBlock sizeofMemDescriptor)).regions = none

variable {k k₁ k₂ : KernelState (Logged σ)} {t size fuel : ℕ} {md stack : Option ℕ} {ts : List ℕ}

lemma TaskCreated.obtained (h : TaskCreated k k₁ t size md stack) :
    k₁.vmm.machine.obtained = [k.secondBlock size, k.taskBlock] ++ k.vmm.machine.obtained := by
  rw [h.vmm]
  show (if k.secondBlock size = 0 then _ else _) = _
  rw [if_neg h.second]
  show _ :: (if k.taskBlock = 0 then _ else _) = _
  rw [if_neg h.nonnull]
  rfl

lemma TaskCreated.kfreed (h : TaskCreated k k₁ t size md stack) :
    k₁.vmm.machine.kfreed = k.vmm.machine.kfreed := by
  rw [h.vmm]
  rfl

/-- A task without a descriptor gives back its stack and itself. -/
lemma TaskCreated.destroy_kernel
    (h : TaskCreated k k₁ t size none (some (k.secondBlock size).toNat))
    (hlist : Circular k.sched.heap .allTasks (ts.map .tasks)) (hfresh : t ∉ ts)
    (fuel : ℕ) : ∃ k₂, k₁.taskDestroy fuel t = some k₂ ∧ Undone k k₁ k₂ ts [] := by
  have htask : (Scheduler.taskDestroy k₁.sched t).task = k₁.sched.task := rfl
  unfold KernelState.taskDestroy
  simp only [htask, h.md, h.stack, KernelState.mmFreeIf, KernelState.kfreeIf, Option.map_some]
  refine ⟨_, rfl, ⟨_, [k.taskBlock, k.secondBlock size], h.obtained, ?_, List.Perm.swap _ _ _⟩,
    h.mmFreed, ?_, ?_⟩
  · show address t :: address _ :: k₁.vmm.machine.kfreed = _
    rw [h.task_eq, address_toNat, address_toNat, h.kfreed]
    rfl
  · show k₁.vmm.machine.freed = _
    rw [h.vmm]
    rfl
  · show Circular (listDel (listDel k₁.sched.heap _) _) _ _
    rw [h.heap]
    exact destroyed_allTasks hlist hfresh

/-- A task with a descriptor gives back both, if the memory was clean. -/
lemma TaskCreated.destroy_user
    (h : TaskCreated k k₁ t sizeofMemDescriptor (some (k.secondBlock sizeofMemDescriptor).toNat)
      (k.sched.task t).kernelStackBase)
    (hlist : Circular k.sched.heap .allTasks (ts.map .tasks)) (hfresh : t ∉ ts)
    (hclean : CleanMemory k) (fuel : ℕ) :
    ∃ k₂, k₁.taskDestroy fuel t = some k₂ ∧
      Undone k k₁ k₂ ts [k.secondBlock sizeofMemDescriptor] := by
  have htask : (Scheduler.taskDestroy k₁.sched t).task = k₁.sched.task := rfl
  have hstack : (k₁.sched.task t).kernelStackBase = none := by
    rw [h.stack, h.task_eq]
    exact hclean.stack
  have hspace : (k₁.descriptor (k.secondBlock sizeofMemDescriptor)).as = 0 ∨
      (k₁.descriptor (k.secondBlock sizeofMemDescriptor)).as = k₁.vmm.kernelAs := by
    rw [h.descriptor, h.vmm]
    exact hclean.space
  have hregions : (k₁.descriptor (k.secondBlock sizeofMemDescriptor)).regions = none := by
    rw [h.descriptor]
    exact hclean.regions
  have hfree := KernelState.mmFree_of_clean fuel
    (k := { k₁ with sched := Scheduler.taskDestroy k₁.sched t }) h.second hspace hregions
  unfold KernelState.taskDestroy
  simp only [htask, h.md, KernelState.mmFreeIf, address_toNat, hfree, Option.map_some,
    KernelState.setMachine, hstack, KernelState.kfreeIf]
  refine ⟨_, rfl, ⟨_, [k.taskBlock, k.secondBlock sizeofMemDescriptor], h.obtained, ?_,
    List.Perm.swap _ _ _⟩, ?_, ?_, ?_⟩
  · show address t :: _ :: k₁.vmm.machine.kfreed = _
    rw [h.task_eq, address_toNat, h.kfreed]
    rfl
  · show _ :: k₁.mmFreed = _
    rw [h.mmFreed]
    rfl
  · show k₁.vmm.machine.freed = _
    rw [h.vmm]
    rfl
  · show Circular (listDel (listDel k₁.sched.heap _) _) _ _
    rw [h.heap]
    exact destroyed_allTasks hlist hfresh

/-- A further block was passed to `kfree` if the memory was not clean. -/
lemma TaskCreated.clean_of_undone
    (h : TaskCreated k k₁ t sizeofMemDescriptor (some (k.secondBlock sizeofMemDescriptor).toNat)
      (k.sched.task t).kernelStackBase) {mds : List VirtAddr}
    (hdestroy : k₁.taskDestroy fuel t = some k₂) (hundone : Undone k k₁ k₂ ts mds) :
    CleanMemory k := by
  have hne : address (k.secondBlock sizeofMemDescriptor).toNat ≠ 0 := by
    rw [address_toNat]
    exact h.second
  obtain ⟨rs, hkfreed, hregions⟩ := taskDestroy_kfreed hdestroy h.md hne
  obtain ⟨obtained, freed, hobtained, hfreed, hperm⟩ := hundone.blocks
  rw [h.obtained] at hobtained
  rw [hfreed, h.kfreed] at hkfreed
  -- two blocks were obtained, so two were passed to `kfree`
  have hlength := hperm.length_eq
  rw [← append_cancel_right hobtained, append_cancel_right hkfreed] at hlength
  rw [h.stack, h.descriptor, h.vmm, address_toNat] at hlength
  rw [h.descriptor, address_toNat] at hregions
  simp only [length_append, length_cons, length_nil, Option.length_toList,
    Option.isSome_map] at hlength
  have hstack : (k.sched.task t).kernelStackBase = none := by
    cases hbase : (k.sched.task t).kernelStackBase with
    | none => rfl
    | some b =>
      rw [hbase, Option.isSome_some, if_pos rfl] at hlength
      omega
  refine ⟨?_, spaceBlocks_eq_nil_iff.mp (eq_nil_of_length_eq_zero ?_),
    hregions (eq_nil_of_length_eq_zero ?_)⟩
  · rw [← h.task_eq]
    exact hstack
  · omega
  · omega

/-- For arbitrary contents of the memory that `kmalloc` returns, a kernel task that is created and
destroyed is undone. For a user task this is so exactly when the memory was clean. -/
theorem teardown_exact_iff (hlist : Circular k.sched.heap .allTasks (ts.map .tasks))
    (hfresh : k.taskBlock.toNat ∉ ts) :
    (∀ t k₁, k.createKernelTask = (some t, k₁) → ∀ fuel,
      ∃ k₂, k₁.taskDestroy fuel t = some k₂ ∧ Undone k k₁ k₂ ts []) ∧
    ∀ t k₁, k.createUserTask = (some t, k₁) →
      ((∃ fuel k₂, k₁.taskDestroy fuel t = some k₂ ∧
        Undone k k₁ k₂ ts [k.secondBlock sizeofMemDescriptor]) ↔ CleanMemory k) := by
  constructor
  · intro t k₁ hcreate fuel
    have h := createKernelTask_created hcreate
    rw [← h.task_eq] at hfresh
    exact h.destroy_kernel hlist hfresh fuel
  · intro t k₁ hcreate
    have h := createUserTask_created hcreate
    rw [← h.task_eq] at hfresh
    constructor
    · rintro ⟨fuel, k₂, hdestroy, hundone⟩
      exact h.clean_of_undone hdestroy hundone
    · intro hclean
      obtain ⟨k₂, hdestroy, hundone⟩ := h.destroy_user hlist hfresh hclean 0
      exact ⟨0, k₂, hdestroy, hundone⟩

end

/-! ## Two states of memory -/

/-- A task at `0x3000`, and memory of zeros with two blocks to hand out. -/
def cleanState : KernelState (Logged Ram) where
  sched := (Scheduler.createKernelTask (schedulerInit coldState) (some 0x3000) (some 0x4000)).2
  pidCounter := 1
  vmm :=
    { machine :=
        ⟨⟨fun _ _ => 0, ⟨[], nodup_nil, forall_mem_nil _⟩, ⟨[0x1000, 0x2000], by decide, by simp⟩⟩,
          [], [], [], []⟩
      spaces := fun _ => ⟨0, 0⟩
      kernelAs := 0x100 }
  descriptor := fun _ => ⟨0, none⟩
  nextRegion := fun _ => none
  mmFreed := []

/-- Memory with addresses where the pointers are. -/
def staleState : KernelState (Logged Ram) :=
  { cleanState with
    sched := { cleanState.sched with
      task := fun t => { cleanState.sched.task t with kernelStackBase := some 0x5000 } }
    descriptor := fun _ => ⟨0x7000, some 0x8000⟩ }

/-- Both kinds of tasks in memory of zeros, beside another task. -/
theorem teardown_exact_clean :
    (∃ k₁ k₂, cleanState.createKernelTask = (some 0x1000, k₁) ∧
      k₁.taskDestroy 0 0x1000 = some k₂ ∧ Undone cleanState k₁ k₂ [0x3000] []) ∧
    ∃ k₁ fuel k₂, cleanState.createUserTask = (some 0x1000, k₁) ∧
      k₁.taskDestroy fuel 0x1000 = some k₂ ∧ Undone cleanState k₁ k₂ [0x3000] [0x2000] := by
  have hlist : Circular cleanState.sched.heap .allTasks (([0x3000] : List ℕ).map .tasks) :=
    ⟨by decide, by decide, by decide, by decide⟩
  have hkernel : cleanState.createKernelTask = (some 0x1000, cleanState.createKernelTask.2) :=
    Prod.ext (by decide) rfl
  have huser : cleanState.createUserTask = (some 0x1000, cleanState.createUserTask.2) :=
    Prod.ext (by decide) rfl
  have hclean : CleanMemory cleanState := ⟨rfl, Or.inl rfl, rfl⟩
  obtain ⟨hk, hu⟩ := teardown_exact_iff hlist (by decide)
  obtain ⟨k₂, hdestroy, hundone⟩ := hk _ _ hkernel 0
  obtain ⟨fuel, k₂', hdestroy', hundone'⟩ := (hu _ _ huser).mpr hclean
  exact ⟨⟨_, k₂, hkernel, hdestroy, hundone⟩, _, fuel, k₂', huser, hdestroy', hundone'⟩

/-- A user task passes three addresses to `kfree` that memory happened to hold. -/
theorem teardown_frees_stale :
    ∃ k₁, staleState.createUserTask = (some 0x1000, k₁) ∧
      k₁.vmm.machine.obtained = [0x2000, 0x1000] ∧
      (k₁.taskDestroy 1 0x1000).map (fun k₂ => k₂.vmm.machine.kfreed) =
        some [0x1000, 0x5000, 0x2000, 0x8000, 0x7000] := by
  have huser : staleState.createUserTask = (some 0x1000, staleState.createUserTask.2) :=
    Prod.ext (by decide) rfl
  exact ⟨_, huser, by decide +kernel, by decide +kernel⟩

end LunOS.Scheduler
