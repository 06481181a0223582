import LunOS.MemMgr.Growth
import LunOS.Vmm.RangeEnds
import LunOS.Vmm.Supply

/-!
# What a failed growth loses

`mm_expand_heap` gives its block back when it cannot be mapped. `mm_expand_stack` does not give back
its page: the page is lost when there is no memory for the tables behind it, and when the page of the
fault is mapped already.

- `GrowthState`: the page tables of a task, on the way to the pages that a call may map.
- `LosesNothing`: the frames of a call that failed are free and not mapped.
- `growth_loses_nothing_iff`: when a call loses nothing.
- `taskRun_growthState`: the tables are like this after every run of a task.
-/

namespace LunOS.MemMgr
open LunOS.Vmm LunOS.Radix PageMachine LawfulPageMachine BuddyMachine LawfulBuddyMachine Set
open CountedPageMachine

/-! ## What a call may lose -/

section
variable {σ : Type*} [LawfulPageMachine σ]

/-- The frame of the PML4 of a task. -/
def MmState.root (k : MmState σ) (mm : VirtAddr) : PhysAddr :=
  rootOf k.vmm (k.descriptors mm).as

/-- The frames are free again, and no page is mapped to one of them. -/
structure GivenBack (child : EntryReader) (top : Set Index) (k : MmState σ)
    (mm : VirtAddr) (fs : Set PhysAddr) : Prop where
  free : Disjoint fs (live k.vmm.machine)
  unmapped : ∀ n, InPart top n → ∀ f ∈ fs, pageIn child k.vmm.machine (k.root mm) n ≠ some f

/-- If a call that got the frames `fs` by itself failed, they are given back. -/
def LosesNothing (child : EntryReader) (top : Set Index) (mm : VirtAddr)
    (result : Option (ℤ × MmState σ)) (fs : Set PhysAddr) : Prop :=
  ∀ r k', result = some (r, k') → r ≠ 0 → GivenBack child top k' mm fs

/-- The page that `mm_expand_stack` gets from `pmm_alloc_page`. -/
def stackFrames (k : MmState σ) : Set PhysAddr :=
  {f | f = (pmmAllocPage k.vmm.machine).1 ∧ f ≠ 0}

/-- The pages that `mm_expand_heap` gets from `buddy_alloc_pages`. -/
def heapFrames [BuddyMachine σ] (k : MmState σ) (mm addr : VirtAddr) : Set PhysAddr :=
  {f | (k.descriptors mm).brk ≤ addr ∧ k.heapBlock.1 ≠ 0 ∧
    f ∈ block k.heapBlock.1 heapGrowOrder}

/-- The tables in the part `top` of the PML4 of a task form a tree, and its pages are mapped to frames
in use. -/
structure GrowthState (child : EntryReader) (top : Set Index) (k : MmState σ)
    (mm : VirtAddr) : Prop where
  reads : Reads child
  nonnull : mm ≠ 0
  part : PartRep child top k.vmm (k.descriptors mm).as (k.root mm)
  inUse : ∀ n f, InPart top n → pageIn child k.vmm.machine (k.root mm) n = some f →
    f ∈ live k.vmm.machine

/-- The walk of a page stays in the part, and finds no large page. -/
def Walks (child : EntryReader) (top : Set Index) (k : MmState σ) (mm : VirtAddr) (n : ℕ) : Prop :=
  PartWalk child top top k.vmm.machine (k.root mm) n

/-- The walks of the pages behind the break, as far as the heap grows. -/
def HeapWalks (child : EntryReader) (top : Set Index) (k : MmState σ) (mm : VirtAddr) : Prop :=
  ∀ i < rangeCount (k.descriptors mm).brk heapGrowSize,
    Walks child top k mm (page (k.descriptors mm).brk + i)

variable {child : EntryReader} {top : Set Index} {k : MmState σ}
variable {mm addr : VirtAddr}

lemma givenBack_empty : GivenBack child top k mm ∅ :=
  ⟨empty_disjoint _, fun _ _ _ hf => absurd hf (notMem_empty _)⟩

/-! ## The stack -/

/-- The tables after the page was taken. -/
lemma GrowthState.afterPage (h : GrowthState child top k mm)
    (hwalk : Walks child top k mm (page addr)) (hne : (pmmAllocPage k.vmm.machine).1 ≠ 0) :
    PartRep child top { k.vmm with machine := (pmmAllocPage k.vmm.machine).2 }
        (k.descriptors mm).as (k.root mm) ∧
      PartWalk child top top (pmmAllocPage k.vmm.machine).2 (k.root mm) (page addr) := by
  refine ⟨h.part.kept ?_ entry_alloc, PartWalk.kept hwalk h.part.tree entry_alloc⟩
  rw [live_alloc hne]
  exact subset_insert _ _

/-- The page is in use after the call, whether it is mapped or not. -/
lemma GrowthState.stack_live (h : GrowthState child top k mm)
    (hwalk : Walks child top k mm (page addr)) (hne : (pmmAllocPage k.vmm.machine).1 ≠ 0) {r : ℤ}
    {v : VmmState σ}
    (hcall : mapPage { k.vmm with machine := (pmmAllocPage k.vmm.machine).2 } (k.descriptors mm).as
      addr (pmmAllocPage k.vmm.machine).1 growFlags = (r, v)) :
    (pmmAllocPage k.vmm.machine).1 ∈ live v.machine := by
  obtain ⟨hpart, hwalk'⟩ := h.afterPage hwalk hne
  apply (mapPage_part h.reads hpart hwalk' hcall).1.grows.live_sub
  show _ ∈ live (pmmAllocPage k.vmm.machine).2
  rw [live_alloc hne]
  exact mem_insert _ _

variable [CountedPageMachine σ]

/-- When the page of the stack is mapped. -/
lemma GrowthState.stack_mapped_iff (h : GrowthState child top k mm)
    (hwalk : Walks child top k mm (page addr)) (hne : (pmmAllocPage k.vmm.machine).1 ≠ 0) :
    (mapPage { k.vmm with machine := (pmmAllocPage k.vmm.machine).2 } (k.descriptors mm).as
        addr (pmmAllocPage k.vmm.machine).1 growFlags).1 = 0 ↔
      pageIn child k.vmm.machine (k.root mm) (page addr) = none ∧
        missing child (entry k.vmm.machine) (k.root mm) (pagePaths (page addr)) <
          freePages k.vmm.machine := by
  obtain ⟨hpart, hwalk'⟩ := h.afterPage hwalk hne
  have hpos := mt alloc_eq_zero_iff.mpr hne
  rw [mapPage_eq_zero_iff h.reads hpart hwalk',
    pageIn_kept (fun f hf => entry_alloc f (h.part.tree.tables_live hf)) hwalk.inside,
    missing_congr (h.part.tree.slots_kept entry_alloc) (pagePaths_inside hwalk.inside),
    freePages_alloc, Nat.le_sub_one_iff_lt (Nat.pos_of_ne_zero hpos)]

/-- When `mm_expand_stack` loses nothing. -/
lemma GrowthState.stack_iff (h : GrowthState child top k mm)
    (hwalk : Walks child top k mm (page addr)) :
    LosesNothing child top mm (mmExpandStack k mm addr) (stackFrames k) ↔
      freePages k.vmm.machine = 0 ∨
        pageIn child k.vmm.machine (k.root mm) (page addr) = none ∧
          missing child (entry k.vmm.machine) (k.root mm) (pagePaths (page addr)) <
            freePages k.vmm.machine := by
  unfold mmExpandStack
  simp only
  by_cases hzero : (pmmAllocPage k.vmm.machine).1 = 0
  · -- there is no page to lose
    have hempty : stackFrames k = ∅ :=
      eq_empty_of_forall_notMem fun f hf => hf.2 (hf.1.trans hzero)
    rw [hempty]
    exact iff_of_true (fun _ _ _ _ => givenBack_empty) (Or.inl (alloc_eq_zero_iff.mp hzero))
  · rw [if_neg hzero, if_neg h.nonnull, or_iff_right (mt alloc_eq_zero_iff.mpr hzero),
      ← h.stack_mapped_iff hwalk hzero]
    constructor
    · intro hloses
      by_contra hr
      have hback := hloses _ _ rfl hr
      exact disjoint_left.mp hback.free ⟨rfl, hzero⟩ (h.stack_live hwalk hzero rfl)
    · intro hr r' k' hsome hr'
      rw [Option.some.injEq, Prod.mk.injEq] at hsome
      exact absurd (hsome.1.symm.trans hr) hr'

end

/-! ## The heap -/

section
variable {σ : Type*} [LawfulPageMachine σ]
variable {child : EntryReader} {top : Set Index} {k : MmState σ}
variable {mm addr : VirtAddr}

/-- A growth that reaches the end of the address space goes through no page. -/
lemma pagesFrom_grow_wraps {brk : VirtAddr}
    (hwrap : 2 ^ 64 ≤ brk.toNat + heapGrowSize.toNat + 4095) :
    pagesFrom (vmmPageAlignDown brk) (vmmPageAlignUp (brk + heapGrowSize)) = [] := by
  have hbrk := brk.isLt
  have hend := alignUp_toNat_mod (brk + heapGrowSize)
  rw [BitVec.toNat_add] at hend
  rw [heapGrowSize_toNat] at hwrap hend
  have hcount : ((vmmPageAlignUp (brk + heapGrowSize)).toNat - (vmmPageAlignDown brk).toNat +
      4095) / 4096 = 0 := by
    rw [alignDown_aligned, hend]
    unfold page
    omega
  unfold pagesFrom
  rw [hcount]
  rfl

/-- A block that could not be mapped leaves the pages as they were, apart from new tables. -/
lemma GrowthState.mapRange_fails (h : GrowthState child top k mm)
    (hwalks : HeapWalks child top k mm) {p : PhysAddr} {s : σ}
    {r : ℤ} {v : VmmState σ} (hsub : live k.vmm.machine ⊆ live s)
    (hsame : ∀ f ∈ live k.vmm.machine, ∀ i, entry s f i = entry k.vmm.machine f i)
    (hcall : vmmMapRange { k.vmm with machine := s } (k.descriptors mm).as (k.descriptors mm).brk p
      heapGrowSize growFlags = (r, v)) (hr : r ≠ 0) :
    PartEffect child top top { k.vmm with machine := s } v (k.descriptors mm).as (k.root mm) ∧
      (∀ n, InPart top n →
        pageIn child v.machine (k.root mm) n = pageIn child k.vmm.machine (k.root mm) n) ∧
      ∀ f ∈ tables child (entry v.machine) (k.root mm) top 3, f ∈ live s →
        f ∈ live k.vmm.machine := by
  have hpart := h.part.kept hsub hsame
  by_cases hwrap : (k.descriptors mm).brk.toNat + heapGrowSize.toNat + 4095 < 2 ^ 64
  · rcases vmmMapRange_part h.reads hpart hwrap
      (fun i hi => PartWalk.kept (hwalks i hi) h.part.tree hsame) hcall with
      ⟨heffect, ⟨-, hzero, -⟩ | ⟨-, hpages, -⟩⟩
    · exact absurd hzero hr
    · refine ⟨heffect, fun n hn => (hpages n hn).trans ?_, fun f hf hlive => ?_⟩
      · exact pageIn_kept (fun f hf => hsame f (h.part.tree.tables_live hf)) hn
      · have hold := heffect.grows.fresh f hf hlive
        rw [tables_congr (h.part.tree.slots_kept hsame)] at hold
        exact h.part.tree.tables_live hold
  · unfold vmmMapRange at hcall
    rw [if_neg h.part.nonnull, if_neg (by decide)] at hcall
    simp only at hcall
    rw [pagesFrom_grow_wraps (by omega)] at hcall
    exact absurd (Prod.mk.inj hcall).1.symm hr

variable [BuddyMachine σ] [LawfulBuddyMachine σ]

/-- A block that could not be mapped is given back. -/
lemma GrowthState.block_givenBack (h : GrowthState child top k mm)
    (hwalks : HeapWalks child top k mm) (hne : k.heapBlock.1 ≠ 0) {r : ℤ} {v : VmmState σ}
    (hcall : vmmMapRange { k.vmm with machine := k.heapBlock.2 } (k.descriptors mm).as
      (k.descriptors mm).brk k.heapBlock.1 heapGrowSize growFlags = (r, v)) (hr : r ≠ 0) {k' : MmState σ}
    (hvmm : k'.vmm = { v with machine := buddyFreePages v.machine k.heapBlock.1 heapGrowOrder })
    (has : (k'.descriptors mm).as = (k.descriptors mm).as) :
    GivenBack child top k' mm (block k.heapBlock.1 heapGrowOrder) := by
  have hlive := live_buddy hne
  have hfresh := buddy_fresh hne
  obtain ⟨heffect, hpages, htables⟩ := h.mapRange_fails hwalks
    (by rw [hlive]; exact subset_union_left)
    (fun f hf i => load_buddy i hf) hcall hr
  generalize k.heapBlock.1 = p at *
  generalize k.heapBlock.2 = s at *
  have hblock : block p heapGrowOrder ⊆ live s := by
    rw [hlive]
    exact subset_union_right
  have hsub : block p heapGrowOrder ⊆ live v.machine := hblock.trans heffect.grows.live_sub
  -- the tables are none of the frames of the block
  have hout : ∀ f ∈ tables child (entry v.machine) (k.root mm) top 3, f ∉ block p heapGrowOrder :=
    fun f hf hmem => disjoint_left.mp hfresh hmem (htables f hf (hblock hmem))
  have hroot : k'.root mm = k.root mm := by
    unfold MmState.root rootOf
    rw [hvmm, has, heffect.pml4]
  refine ⟨?_, fun n hn f hf hmapped => ?_⟩
  · rw [hvmm, live_buddyFree hsub]
    exact disjoint_sdiff_right
  · rw [hroot, hvmm, pageIn_kept (s := v.machine) (fun g hg i =>
      load_buddyFree i hsub (heffect.grows.inv.tables_live hg) (hout g hg)) hn,
      hpages n hn] at hmapped
    exact disjoint_left.mp hfresh hf (h.inUse n f hn hmapped)

/-- `mm_expand_heap` loses nothing. -/
lemma GrowthState.heap_losesNothing (h : GrowthState child top k mm)
    (hwalks : HeapWalks child top k mm) :
    LosesNothing child top mm (mmExpandHeap k mm addr) (heapFrames k mm addr) := by
  intro r k' hcall hr
  unfold mmExpandHeap at hcall
  rw [if_neg h.nonnull] at hcall
  by_cases hbelow : addr < (k.descriptors mm).brk
  · rw [if_pos hbelow, Option.some.injEq, Prod.mk.injEq] at hcall
    exact absurd hcall.1.symm hr
  rw [if_neg hbelow] at hcall
  simp only at hcall
  by_cases hzero : k.heapBlock.1 = 0
  · have hempty : heapFrames k mm addr = ∅ :=
      eq_empty_of_forall_notMem fun f hf => hf.2.1 hzero
    rw [hempty]
    exact givenBack_empty
  rw [if_neg hzero, Option.some.injEq, Prod.mk.injEq] at hcall
  have hframes : heapFrames k mm addr = block k.heapBlock.1 heapGrowOrder :=
    Set.ext fun f => ⟨fun hf => hf.2.2, fun hf => ⟨BitVec.not_lt.mp hbelow, hzero, hf⟩⟩
  have hret : (vmmMapRange (k.setMachine k.heapBlock.2).vmm (k.descriptors mm).as
      (k.descriptors mm).brk k.heapBlock.1 heapGrowSize growFlags).1 ≠ 0 := fun heq => hr (hcall.1.symm.trans heq)
  rw [hframes]
  refine h.block_givenBack hwalks hzero rfl hret ?_ ?_
  · rw [← hcall.2, MmState.setDescriptor_vmm]
    exact congrArg (VmmState.mk · _ _) (if_pos hret)
  · rw [← hcall.2, MmState.setDescriptor_self]
    rfl

/-- A failed `mm_expand_stack` loses nothing exactly when there was no free page, or when the page of
the fault was not mapped and the free pages sufficed, so that the call did not fail. A failed
`mm_expand_heap` never loses anything. -/
theorem growth_loses_nothing_iff [CountedPageMachine σ] (h : GrowthState child top k mm) :
    (∀ addr, Walks child top k mm (page addr) →
      (LosesNothing child top mm (mmExpandStack k mm addr) (stackFrames k) ↔
        freePages k.vmm.machine = 0 ∨
          pageIn child k.vmm.machine (k.root mm) (page addr) = none ∧
            missing child (entry k.vmm.machine) (k.root mm) (pagePaths (page addr)) <
              freePages k.vmm.machine)) ∧
    ∀ addr, HeapWalks child top k mm →
      LosesNothing child top mm (mmExpandHeap k mm addr) (heapFrames k mm addr) :=
  ⟨fun _ hwalk => h.stack_iff hwalk, fun _ hwalks => h.heap_losesNothing hwalks⟩

end

/-! ## The pages of a task -/

/-- Blocks of pages start at a frame. -/
class FramedBuddyMachine (σ : Type*) [BuddyMachine σ] : Prop where
  buddy_frame : ∀ {s : σ} {n}, (buddyAllocPages s n).1 ≠ 0 →
    pteAddr (buddyAllocPages s n).1 = (buddyAllocPages s n).1

instance : FramedBuddyMachine Ram where
  buddy_frame {s n} hne := by
    rcases ram_buddyAllocPages s n with heq | ⟨p, hp, -, -, heq⟩
    · rw [heq] at hne
      exact absurd rfl hne
    · rw [heq]
      exact hp.1

section
variable {σ : Type*} [LawfulPageMachine σ]

/-- The pages of a task are mapped to frames that its stack and heap got. -/
structure TaskInv (k : MmState σ) (mm dataEnd : VirtAddr) (root : PhysAddr) (L D : Set PhysAddr) :
    Prop where
  inv : MmInv k mm root L D
  brk : BrkSteps k mm dataEnd
  mapped : ∀ n f, pageMap k.vmm.machine root n = some f → f ∈ D

variable {k k' : MmState σ} {mm addr dataEnd : VirtAddr} {root : PhysAddr} {L D D' : Set PhysAddr}

/-- The pages of a task stay as they are. -/
lemma TaskInv.same (h : TaskInv k mm dataEnd root L D) (hinv : MmInv k' mm root L D')
    (hbrk : BrkSteps k' mm dataEnd) (hD : D ⊆ D')
    (hmap : pageMap k'.vmm.machine root = pageMap k.vmm.machine root) :
    TaskInv k' mm dataEnd root L D' := by
  refine ⟨hinv, hbrk, fun n f hf => ?_⟩
  rw [hmap] at hf
  exact hD (h.mapped n f hf)

/-- The stack grows. -/
lemma TaskInv.expandStack (h : TaskInv k mm dataEnd root L D) (haddr : addr.toNat < 2 ^ 47) {r : ℤ}
    (hcall : mmExpandStack k mm addr = some (r, k')) : ∃ D', TaskInv k' mm dataEnd root L D' := by
  have hbrk : BrkSteps k' mm dataEnd :=
    h.brk.of_brk_eq (by rw [mmExpandStack_descriptors hcall])
  rcases h.inv.expandStack haddr hcall with ⟨-, h', hmap⟩ | ⟨-, h', hmap | hmap⟩
  · exact ⟨D, h.same h' hbrk subset_rfl hmap⟩
  · exact ⟨_, h.same h' hbrk subset_union_left hmap⟩
  · refine ⟨_, h', hbrk, fun n f hf => ?_⟩
    rw [hmap] at hf
    by_cases hn : n = page addr
    · rw [hn, Function.update_self, Option.some.injEq] at hf
      exact Or.inr hf.symm
    · rw [Function.update_of_ne hn] at hf
      exact Or.inl (h.mapped n f hf)

variable [BuddyMachine σ] [LawfulBuddyMachine σ] [FramedBuddyMachine σ]

/-- The heap grows. -/
lemma TaskInv.expandHeap (h : TaskInv k mm dataEnd root L D)
    (hheap : (heapStart dataEnd).toNat + heapSize.toNat ≤ 2 ^ 47) (haddr : addr ≤ heapEnd dataEnd)
    {r : ℤ} (hcall : mmExpandHeap k mm addr = some (r, k')) :
    ∃ D', TaskInv k' mm dataEnd root L D' := by
  rcases h.brk.expandHeap h.inv hheap haddr hcall with ⟨hbrk, D', h', hgrowth⟩
  refine ⟨D', ?_⟩
  cases hgrowth with
  | below _ hk =>
    rw [hk]
    exact h
  | noBlock _ _ hmap _ => exact h.same h' hbrk subset_rfl hmap
  | noMap _ _ hmap _ => exact h.same h' hbrk subset_rfl hmap
  | grown _ hne hmap _ =>
    refine ⟨h', hbrk, fun n f hf => ?_⟩
    rw [hmap, alignDown_frame (FramedBuddyMachine.buddy_frame hne)] at hf
    unfold PageMap.mapPages at hf
    split_ifs at hf with hin
    · refine Or.inr ⟨n - page (k.descriptors mm).brk, ?_, (Option.some.inj hf).symm⟩
      show _ < 16
      omega
    · exact Or.inl (h.mapped n f hf)

/-- One call keeps the invariant. -/
lemma TaskInv.step (h : TaskInv k mm dataEnd root L D)
    (hheap : (heapStart dataEnd).toNat + heapSize.toNat ≤ 2 ^ 47)
    (hstep : TaskStep mm dataEnd k k') : ∃ D', TaskInv k' mm dataEnd root L D' := by
  cases hstep with
  | expandStack addr r haddr hcall => exact h.expandStack haddr hcall
  | expandHeap addr r haddr hcall => exact h.expandHeap hheap haddr hcall
  | addRegion start stop flags r hcall =>
    rcases h.inv.addRegion hcall with ⟨h', hbrk, -, hmap⟩
    exact ⟨D, h.same h' (h.brk.of_brk_eq hbrk) subset_rfl hmap⟩
  | removeRegion start stop r hcall =>
    rcases h.inv.removeRegion hcall with ⟨h', hbrk, hmap⟩
    exact ⟨D, h.same h' (h.brk.of_brk_eq hbrk) subset_rfl hmap⟩
  | pageFault addr errorCode hcall =>
    rw [mmPageFaultHandler_eq] at hcall
    cases hcall
    exact ⟨D, h⟩

/-- So do calls in a row. -/
lemma taskRun_taskInv (hrun : Relation.ReflTransGen (TaskStep mm dataEnd) k k')
    (h : TaskInv k mm dataEnd root L D)
    (hheap : (heapStart dataEnd).toNat + heapSize.toNat ≤ 2 ^ 47) :
    ∃ D', TaskInv k' mm dataEnd root L D' := by
  induction hrun with
  | refl => exact ⟨D, h⟩
  | tail _ hstep ih =>
    rcases ih with ⟨D', h'⟩
    exact h'.step hheap hstep

omit [BuddyMachine σ] [LawfulBuddyMachine σ] [FramedBuddyMachine σ] in
/-- What the calls rely on holds. -/
lemma TaskInv.growthState (h : TaskInv k mm dataEnd root L D) :
    GrowthState target lowerHalf k mm := by
  have hroot : k.root mm = root := h.inv.space.rootOf_eq
  refine ⟨reads_target, h.inv.nonnull, ?_, fun n f hn hf => ?_⟩
  · rw [hroot]
    exact h.inv.space.toPartRep
  · -- the page has the indices of a page of the lower half
    have hlow := inPart_lower.mp hn
    rw [hroot, pageIn_congr (Nat.mod_mod n (2 ^ 36)).symm, ← pageMap_of_lt hlow] at hf
    rw [h.inv.live_eq]
    exact Or.inl (Or.inr (h.mapped _ f hf))

variable {k₁ k₂ k₃ : MmState σ} {codeStart codeEnd : VirtAddr} {r : ℤ}

/-- The tables of a task are as the calls need them, whatever calls there were. -/
lemma taskRun_growthState (hkernel : k.vmm.kernelAs ∈ objects k.vmm.machine)
    (halloc : mmAlloc k = some (mm, k₁)) (hmm : mm ≠ 0)
    (hsetup : mmSetupExecutable k₁ mm codeStart codeEnd dataEnd = some (r, k₂))
    (hheap : (heapStart dataEnd).toNat + heapSize.toNat ≤ 2 ^ 47)
    (hrun : Relation.ReflTransGen (TaskStep mm dataEnd) k₂ k₃) :
    GrowthState target lowerHalf k₃ mm := by
  rcases mmAlloc_inv hkernel halloc hmm with ⟨root, h₁, hempty⟩
  rcases h₁.setup hsetup with ⟨h₂, hbrk, -, hmap⟩
  have hinv : TaskInv k₂ mm dataEnd root (live k.vmm.machine) ∅ := by
    refine ⟨h₂, ⟨0, by decide, by rw [hbrk]; omega⟩, fun n f hf => ?_⟩
    rw [hmap, hempty] at hf
    exact absurd hf (by simp [PageMap.empty])
  rcases taskRun_taskInv hrun hinv hheap with ⟨D, h₃⟩
  exact h₃.growthState

end

/-! ## Two calls for one page -/

/-- The task after a growth of its stack. -/
def stacked : MmState Ram :=
  ((mmExpandStack (started richRam) 0x200 0x7FFFFFFFF000).getD (0, boot richRam)).2

lemma richRam_stack :
    mmExpandStack (started richRam) 0x200 0x7FFFFFFFF000 = some (0, stacked) :=
  eq_some_of_fst (by decide +kernel) _

/-- After one page for the stack, a call for the page below it loses nothing. -/
theorem growth_loses_nothing_stacked :
    LosesNothing target lowerHalf 0x200 (mmExpandStack stacked 0x200 0x7FFFFFFFE000)
        (stackFrames stacked) ∧
      LosesNothing target lowerHalf 0x200 (mmExpandHeap stacked 0x200 0x402000)
        (heapFrames stacked 0x200 0x402000) := by
  have hstate : GrowthState target lowerHalf stacked 0x200 :=
    taskRun_growthState richRam_kernel richRam_alloc (by decide) richRam_setup (by decide)
      (.single (.expandStack 0x7FFFFFFFF000 0 (by decide) richRam_stack))
  obtain ⟨hstack, hheap⟩ := growth_loses_nothing_iff hstate
  have hbrk : (stacked.descriptors 0x200).brk = 0x402000 := by decide +kernel
  refine ⟨(hstack _ (partWalk_lower _ _ (by decide))).mpr (Or.inr ⟨?_, ?_⟩), hheap _ fun i hi => ?_⟩
  · decide +kernel
  · decide +kernel
  · have hcount : rangeCount 0x402000 heapGrowSize = 16 := by decide
    have hpage : page 0x402000 = 0x402 := by decide
    rw [hbrk, hcount] at hi
    apply partWalk_lower
    rw [hbrk, hpage]
    omega

/-- A second call for the page of the stack fails, and the page that it got is still in use. -/
theorem stack_growth_loses_page :
    mmExpandStack (started richRam) 0x200 0x7FFFFFFFF000 = some (0, stacked) ∧
      ∃ k, mmExpandStack stacked 0x200 0x7FFFFFFFF000 = some (-1, k) ∧
        0xE000 ∈ stackFrames stacked ∧ 0xE000 ∈ live k.vmm.machine := by
  have hcall : mmExpandStack stacked 0x200 0x7FFFFFFFF000 = some (-1, _) :=
    eq_some_of_fst (by decide +kernel) (0, boot richRam)
  exact ⟨richRam_stack, _, hcall, ⟨by decide +kernel, by decide⟩, by decide, by decide +kernel⟩

end LunOS.MemMgr
