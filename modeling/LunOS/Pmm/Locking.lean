import LunOS.Pmm.Common
import LunOS.Utils.Locks

/-!
# The locks around the allocators

`kmalloc` and `pmm_alloc_page` take `kmalloc_lock`, `kfree` and `pmm_free_page` take `kfree_lock`,
`mm_expand_heap` calls the buddy allocator without a lock, and `kfree` reads `slab_caches` in
`slab_find_containing` before it takes its lock. A call is given with the data that decide its
branches, so that every path of every entry point is a call.

- `actions`: the locks and sections of each call, in the order of the source.
- `inside_unique`: at most one CPU is inside a section when the calls that run at the same time
  rest on one lock; otherwise two can be (`two_inside`).
-/

namespace LunOS.Pmm
open LunOS.Locks LunOS.Memory LunOS.BuddyAllocator LunOS.SlabAllocator

/-- The locks of the allocators. -/
inductive Lock
  | kmallocLock
  | kfreeLock
deriving DecidableEq

instance : Nonempty Lock := ⟨.kmallocLock⟩

/-- What decides the path of `kfree`: whether the pointer is `NULL`, whether the 8 KiB around it
start with a slab header that names a cache, whether it is in the objects of that slab, and whether
the object looks freed, the block looks freed, or the block looks corrupted. -/
structure KfreePath where
  null : Bool
  slabHeader : Bool
  inObjects : Bool
  objectFreed : Bool
  blockFreed : Bool
  corrupted : Bool

/-- What decides the path of `mm_expand_heap`: a fault below the break, no block, the page tables
`vmm_map_range` allocates, and whether it fails. -/
structure ExpandPath where
  belowBrk : Bool
  noBlock : Bool
  tables : ℕ
  mapFails : Bool

/-- The entry points. `slabFails` says that `slab_alloc_size` returns `NULL`. -/
inductive Call
  | kmalloc (size : ℕ) (slabFails : Bool)
  | kfree (path : KfreePath)
  | pmmAllocPage
  | pmmFreePage
  | mmExpandHeap (path : ExpandPath)

/-- `kmalloc` from the computation of `total_size` on. A size for which the order loop does not
end never gets to the lock. -/
def kmallocBuddyActions (size : ℕ) : List (Action Lock) :=
  match orderLoop (u64 (allocHeaderSize + size + 4)) 64 0 pageFrameSize with
  | none => []
  | some order => if maxSupportedOrder ≤ order then [] else locked .kmallocLock

/-- The locks that `kmalloc` takes and releases. -/
def kmallocActions (size : ℕ) (slabFails : Bool) : List (Action Lock) :=
  if size = 0 then []
  else if size ≤ slabThreshold then
    locked .kmallocLock ++ if slabFails then kmallocBuddyActions size else []
  else kmallocBuddyActions size

/-- `slab_find_containing` reads the cache of a slab header it believes in. -/
def slabFindActions (path : KfreePath) : List (Action Lock) :=
  if path.slabHeader then bare else []

/-- The locks that `kfree` takes and releases. -/
def kfreeActions (path : KfreePath) : List (Action Lock) :=
  if path.null then []
  else slabFindActions path ++
    if path.slabHeader && path.inObjects then
      if path.objectFreed then [] else locked .kfreeLock
    else if path.blockFreed then []
    else if path.corrupted then []
    else locked .kfreeLock

/-- The locks that `mm_expand_heap` takes and releases. -/
def mmExpandHeapActions (path : ExpandPath) : List (Action Lock) :=
  if path.belowBrk then []
  else bare ++ if path.noBlock then []
    else (List.replicate path.tables (locked .kmallocLock)).flatten ++
      if path.mapFails then bare else []

/-- The locks of a call. -/
def Call.actions : Call → List (Action Lock)
  | .kmalloc size slabFails => kmallocActions size slabFails
  | .kfree path => kfreeActions path
  | .pmmAllocPage => locked .kmallocLock
  | .pmmFreePage => locked .kfreeLock
  | .mmExpandHeap path => mmExpandHeapActions path

/-- The states of any number of CPUs; `R` says which calls may run at the same time. -/
def LockReachable {ι : Type*} [DecidableEq ι] (R : Call → Call → Prop) :
    Sys ι Lock Call → Prop :=
  Reachable Call.actions R

/-! ## The paths of the sequential model -/

/-- Whether `slab_alloc_size` returns `NULL`. -/
def slabFails (s : SlabState) (size : ℕ) : Bool :=
  match (slabAllocSize false s size).1 with
  | .object _ => false
  | _ => true

/-- The path of `kfree` when nothing interferes. -/
def kfreePath (s : SlabState) (ptr : ℕ) : KfreePath :=
  let slabStart := ptr &&& (2 ^ 64 - 2 ^ 13)
  let a := u64 (slabStart + (2 ^ 64 - s.buddy.hhdmOffset))
  let header := u64 (ptr + (2 ^ 64 - allocHeaderSize))
  { null := ptr = 0
    slabHeader := readLE s.buddy.mem a 8 = slabMagic ∧ readLE s.buddy.mem (a + 8) 8 ≠ 0
    inObjects := (slabFindContaining s ptr).isSome
    objectFreed := load s ptr 8 = freedPattern
    blockFreed := load s header 8 = freedPattern
    corrupted := load s header 8 ≠ allocMagic ∨
      load s (u64 (ptr + load s (u64 (header + 8)) 4)) 8 ≠ allocMagic }

/-- A path of `kmalloc` without a section leaves the allocators as they are. -/
lemma kmalloc_of_no_actions {s : SlabState} {size : ℕ}
    (h : (Call.kmalloc size (slabFails s size)).actions = []) : (kmalloc s size).2 = s := by
  have hbuddy : kmallocBuddyActions size = [] → (kmallocBuddy s size).2 = s := by
    intro hnil
    unfold kmallocBuddyActions at hnil
    unfold kmallocBuddy
    cases horder : orderLoop (u64 (allocHeaderSize + size + 4)) 64 0 pageFrameSize with
    | none => rfl
    | some order =>
      rw [horder] at hnil
      simp only at hnil ⊢
      by_cases hmax : maxSupportedOrder ≤ order
      · rw [if_pos hmax]
      · rw [if_neg hmax] at hnil
        simp [locked] at hnil
  change kmallocActions size (slabFails s size) = [] at h
  unfold kmallocActions at h
  unfold kmalloc
  by_cases hzero : size = 0
  · rw [if_pos hzero]
  rw [if_neg hzero] at h ⊢
  by_cases hsmall : size ≤ slabThreshold
  · rw [if_pos hsmall] at h
    simp [locked] at h
  · rw [if_neg hsmall] at h ⊢
    exact hbuddy h

/-- `slab_find_containing` finds a slab only behind a header it believes in. -/
lemma slabHeader_of_find {s : SlabState} {ptr a : ℕ} (h : slabFindContaining s ptr = some a) :
    (kfreePath s ptr).slabHeader = true := by
  unfold slabFindContaining at h
  simp only [kfreePath, decide_eq_true_eq]
  by_cases hmagic : readLE s.buddy.mem
      (u64 ((ptr &&& (2 ^ 64 - 2 ^ 13)) + (2 ^ 64 - s.buddy.hhdmOffset))) 8 ≠ slabMagic
  · rw [if_pos hmagic] at h
    exact absurd h (Option.some_ne_none a).symm
  rw [if_neg hmagic] at h
  refine ⟨not_not.mp hmagic, fun hcache => ?_⟩
  rw [if_pos hcache] at h
  exact absurd h (Option.some_ne_none a).symm

/-- `kfree` takes `kfree_lock` exactly when it frees. -/
lemma kfree_frees_iff_locks (s : SlabState) (ptr : ℕ) :
    Action.acquire .kfreeLock ∈ (Call.kfree (kfreePath s ptr)).actions ↔
      (kfree s ptr).1 = .slabFreed ∨ (kfree s ptr).1 = .buddyFreed := by
  have hfind : Action.acquire .kfreeLock ∉ slabFindActions (kfreePath s ptr) := by
    unfold slabFindActions bare
    split <;> simp
  show Action.acquire .kfreeLock ∈ kfreeActions _ ↔ _
  unfold kfreeActions kfree
  by_cases hnull : ptr = 0
  · rw [if_pos (by simpa [kfreePath] using hnull), if_pos hnull]
    simp
  rw [if_neg (by simpa [kfreePath] using hnull), if_neg hnull, List.mem_append,
    or_iff_right hfind]
  cases hslab : slabFindContaining s ptr with
  | some a =>
    have hin : (kfreePath s ptr).inObjects = true := by simp [kfreePath, hslab]
    rw [slabHeader_of_find hslab, hin]
    simp only [Bool.and_self, if_true]
    by_cases hfreed : load s ptr 8 = freedPattern
    · simp [kfreePath, hfreed]
    · simp [kfreePath, hfreed, locked]
  | none =>
    have hin : (kfreePath s ptr).inObjects = false := by simp [kfreePath, hslab]
    rw [hin, Bool.and_false, if_neg Bool.false_ne_true]
    simp only [kfreeBuddy]
    have hblock : (kfreePath s ptr).blockFreed = true ↔
        load s (u64 (ptr + (2 ^ 64 - allocHeaderSize))) 8 = freedPattern := by
      simp only [kfreePath, decide_eq_true_eq]
    have hbad : (kfreePath s ptr).corrupted = true ↔
        load s (u64 (ptr + (2 ^ 64 - allocHeaderSize))) 8 ≠ allocMagic ∨
        load s (u64 (ptr + load s (u64 (u64 (ptr + (2 ^ 64 - allocHeaderSize)) + 8)) 4)) 8
          ≠ allocMagic := by
      simp only [kfreePath, decide_eq_true_eq]
    by_cases hfreed : (kfreePath s ptr).blockFreed = true
    · rw [if_pos hfreed, if_pos (hblock.mp hfreed)]
      simp
    rw [if_neg hfreed, if_neg (fun h => hfreed (hblock.mpr h))]
    by_cases hcorrupted : (kfreePath s ptr).corrupted = true
    · rw [if_pos hcorrupted, if_pos (hbad.mp hcorrupted)]
      simp
    · rw [if_neg hcorrupted, if_neg (fun h => hcorrupted (hbad.mpr h))]
      simp [locked]

/-! ## Sections under one lock -/

/-- All sections of the call are under the lock. -/
def Call.GuardedBy : Call → Lock → Prop
  | .kmalloc _ _, l => l = .kmallocLock
  | .pmmAllocPage, l => l = .kmallocLock
  | .pmmFreePage, l => l = .kfreeLock
  | .kfree path, l => l = .kfreeLock ∧ (path.null ∨ ¬path.slabHeader)
  | .mmExpandHeap path, _ => path.belowBrk

/-- Calls that rest on one lock. -/
def SameLock (k k' : Call) : Prop := ∃ l, k.GuardedBy l ∧ k'.GuardedBy l

lemma runs_kmallocBuddy (l : Lock) (need : Prop) (h : need → Lock.kmallocLock = l) (size : ℕ) :
    Runs l need False False (kmallocBuddyActions size) := by
  unfold kmallocBuddyActions
  split
  · exact runs_nil l need
  · split
    · exact runs_nil l need
    · exact runs_locked l _ need h

/-- `kmalloc` uses its lock properly. -/
lemma runs_kmalloc (l : Lock) (need : Prop) (h : need → Lock.kmallocLock = l) (size : ℕ)
    (fails : Bool) : Runs l need False False (kmallocActions size fails) := by
  unfold kmallocActions
  split
  · exact runs_nil l need
  split
  · apply Runs.append _ (runs_locked l _ need h)
    split
    · exact runs_kmallocBuddy l need h size
    · exact runs_nil l need
  · exact runs_kmallocBuddy l need h size

/-- `kfree` holds its lock in all its sections unless it looks into a slab's cache. -/
lemma runs_kfree (l : Lock) (need : Prop) (path : KfreePath)
    (h : need → Lock.kfreeLock = l ∧ (path.null ∨ ¬path.slabHeader)) :
    Runs l need False False (kfreeActions path) := by
  have hlock := runs_locked l Lock.kfreeLock need fun hn => (h hn).1
  unfold kfreeActions
  split
  · exact runs_nil l need
  case isFalse hnull =>
    have hfind : Runs l need False False (slabFindActions path) := by
      unfold slabFindActions
      split
      case isTrue hslab =>
        have hneed : need = False := by
          apply eq_false
          intro hn
          rcases (h hn).2 with hp | hp
          · exact hnull hp
          · exact hp hslab
        rw [hneed]
        exact runs_bare l
      · exact runs_nil l need
    apply Runs.append _ hfind
    repeat' split
    all_goals first | exact runs_nil l need | exact hlock

/-- Below the break no lock is taken. -/
lemma runs_mmExpandHeap (l : Lock) (need : Prop) (path : ExpandPath) (h : need → path.belowBrk) :
    Runs l need False False (mmExpandHeapActions path) := by
  unfold mmExpandHeapActions
  split
  · exact runs_nil l need
  case isFalse hbelow =>
    have hneed : need = False := eq_false fun hn => hbelow (h hn)
    rw [hneed]
    have htables : ∀ n, Runs l False False False
        (List.replicate n (locked Lock.kmallocLock)).flatten := by
      intro n
      induction n with
      | zero => exact runs_nil l False
      | succ n ih => exact Runs.append ih (runs_locked l _ False False.elim)
    apply Runs.append _ (runs_bare l)
    split
    · exact runs_nil l False
    · apply Runs.append _ (htables path.tables)
      split
      · exact runs_bare l
      · exact runs_nil l False

/-- Every path takes and gives back its locks properly, and holds the lock that guards it. -/
lemma runs_actions (k : Call) (l : Lock) (need : Prop) (h : need → k.GuardedBy l) :
    Runs l need False False k.actions := by
  cases k with
  | kmalloc size fails => exact runs_kmalloc l need (fun hn => (h hn).symm) size fails
  | kfree path => exact runs_kfree l need path fun hn => ⟨(h hn).1.symm, (h hn).2⟩
  | pmmAllocPage => exact runs_locked l _ need fun hn => (h hn).symm
  | pmmFreePage => exact runs_locked l _ need fun hn => (h hn).symm
  | mmExpandHeap path => exact runs_mmExpandHeap l need path h

/-- When calls run at the same time only if they rest on one lock, at most one CPU is inside a
section, in every state and for any number of CPUs. -/
theorem inside_unique {ι : Type} [DecidableEq ι] {s : Sys ι Lock Call}
    (h : LockReachable SameLock s) {i j : ι} (hi : s.inside i) (hj : s.inside j) : i = j := by
  apply Reachable.exclusive _ _ h hi hj
  · intro k l
    exact runs_actions k l False False.elim
  · intro k k' hkk
    rcases hkk with ⟨l, hl, hl'⟩
    exact ⟨l, runs_actions k l True fun _ => hl, runs_actions k' l True fun _ => hl'⟩

/-- CPU 0 is inside `kmalloc(64)` while CPU 1 waits in `pmm_alloc_page`: nobody else is inside. -/
theorem inside_unique_waiting : ∃ s : Sys (Fin 2) Lock Call, LockReachable SameLock s ∧
    s.inside 0 ∧ s.todo 1 ≠ [] ∧ ∀ j, s.inside j → j = 0 := by
  have h₁ : LockReachable SameLock _ := LunOS.Runs.Reachable.step (.init rfl)
    (Step.start (0 : Fin 2) (.kmalloc 64 false) rfl fun _ _ _ hbusy => absurd rfl hbusy)
  have h₂ := h₁.step (Step.acquire 0 .kmallocLock [.enter, .leave, .release .kmallocLock] rfl rfl)
  have h₃ := h₂.step (Step.enter 0 [.leave, .release .kmallocLock] rfl)
  have h₄ := h₃.step (Step.start 1 .pmmAllocPage rfl fun j k' hj _ hk => by
    have hj0 : j = 0 := by omega
    rw [hj0] at hk
    have hkmalloc : k' = .kmalloc 64 false := (Option.some.inj hk).symm
    rw [hkmalloc]
    exact ⟨.kmallocLock, rfl, rfl⟩)
  exact ⟨_, h₄, trivial, List.cons_ne_nil _ _, fun _ hj => inside_unique h₄ hj trivial⟩

/-- `kmalloc` on one CPU and `pmm_free_page` on another are inside at the same time. -/
theorem two_inside : ∃ s : Sys (Fin 2) Lock Call, LockReachable (fun _ _ => True) s ∧
    s.inside 0 ∧ s.inside 1 := by
  have h₁ : LockReachable (fun _ _ => True) _ := LunOS.Runs.Reachable.step (.init rfl)
    (Step.start (0 : Fin 2) (.kmalloc 64 false) rfl fun _ _ _ _ _ => trivial)
  have h₂ := h₁.step (Step.acquire 0 .kmallocLock [.enter, .leave, .release .kmallocLock] rfl rfl)
  have h₃ := h₂.step (Step.enter 0 [.leave, .release .kmallocLock] rfl)
  have h₄ := h₃.step (Step.start 1 .pmmFreePage rfl fun _ _ _ _ _ => trivial)
  have h₅ := h₄.step (Step.acquire 1 .kfreeLock [.enter, .leave, .release .kfreeLock] rfl rfl)
  have h₆ := h₅.step (Step.enter 1 [.leave, .release .kfreeLock] rfl)
  exact ⟨_, h₆, trivial, trivial⟩

end LunOS.Pmm
