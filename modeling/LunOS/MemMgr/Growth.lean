import LunOS.MemMgr.Layout

/-!
# The faults that heap growth resolves

`mm_expand_heap` adds 64 KiB at the break, wherever the fault is: it resolves the faults on those
pages. It also returns 0 for a fault below the break, which is not mapped when the growth over it
failed, and for a fault further above.
-/

namespace LunOS.MemMgr
open LunOS.Vmm PageMachine LawfulPageMachine BuddyMachine

/-! ## The life of a task -/

section
variable {σ : Type*} [LawfulPageMachine σ]
variable {k k' : MmState σ} {mm addr : VirtAddr} {root : PhysAddr} {L D : Set PhysAddr}
variable {r : ℤ}

/-- The descriptor stays. -/
lemma mmExpandStack_descriptors (hcall : mmExpandStack k mm addr = some (r, k')) :
    k'.descriptors = k.descriptors := by
  unfold mmExpandStack at hcall
  simp only at hcall
  split at hcall
  · cases hcall
    rfl
  · split at hcall
    · cases hcall
    · cases hcall
      rfl

variable [BuddyMachine σ]

/-- The handler does not know the task that faulted, and leaves everything as it is. -/
lemma mmPageFaultHandler_eq (k : MmState σ) (faultAddr errorCode : BitVec 64) :
    mmPageFaultHandler k faultAddr errorCode = some k :=
  rfl

/-- A call for a task: the stack grows in the lower half, the heap in its region. -/
inductive TaskStep (mm dataEnd : VirtAddr) (k k' : MmState σ) : Prop
  | expandStack (addr : VirtAddr) (r : ℤ) : addr.toNat < 2 ^ 47 →
    mmExpandStack k mm addr = some (r, k') → TaskStep mm dataEnd k k'
  | expandHeap (addr : VirtAddr) (r : ℤ) : addr ≤ heapEnd dataEnd →
    mmExpandHeap k mm addr = some (r, k') → TaskStep mm dataEnd k k'
  | addRegion (start stop : VirtAddr) (flags : BitVec 64) (r : ℤ) :
    mmAddRegion k mm start stop flags = some (r, k') → TaskStep mm dataEnd k k'
  | removeRegion (start stop : VirtAddr) (r : ℤ) :
    mmRemoveRegion k mm start stop = (r, k') → TaskStep mm dataEnd k k'
  | pageFault (addr errorCode : BitVec 64) :
    mmPageFaultHandler k addr errorCode = some k' → TaskStep mm dataEnd k k'

variable [LawfulBuddyMachine σ]
variable {dataEnd : VirtAddr}

/-- A heap fault, whatever it returns. -/
lemma BrkSteps.expandHeap (hb : BrkSteps k mm dataEnd) (h : MmInv k mm root L D)
    (hheap : (heapStart dataEnd).toNat + heapSize.toNat ≤ 2 ^ 47) (haddr : addr ≤ heapEnd dataEnd)
    (hcall : mmExpandHeap k mm addr = some (r, k')) :
    BrkSteps k' mm dataEnd ∧ ∃ D', MmInv k' mm root L D' ∧ HeapGrowth k k' mm root D addr r D' := by
  have hroom := fun hbrk => (hb.room haddr hbrk hheap).choose_spec.2.2
  rcases h.expandHeap hroom hcall with ⟨D', h', -, hgrowth⟩
  refine ⟨?_, D', h', hgrowth⟩
  cases hgrowth with
  | below _ hk =>
    rw [hk]
    exact hb
  | noBlock _ _ _ hbrk => exact hb.of_brk_eq hbrk
  | noMap hbelow _ _ hbrk => exact (hb.next haddr hbelow (by omega) hbrk).1
  | grown hbelow _ _ hbrk => exact (hb.next haddr hbelow (by omega) hbrk).1

/-- One call. -/
lemma TaskStep.inv (hstep : TaskStep mm dataEnd k k') (h : MmInv k mm root L D)
    (hb : BrkSteps k mm dataEnd)
    (hheap : (heapStart dataEnd).toNat + heapSize.toNat ≤ 2 ^ 47) :
    (∃ D', MmInv k' mm root L D') ∧ BrkSteps k' mm dataEnd := by
  cases hstep with
  | expandStack addr r haddr hcall =>
    refine ⟨?_, hb.of_brk_eq (by rw [mmExpandStack_descriptors hcall])⟩
    rcases h.expandStack haddr hcall with ⟨-, h', -⟩ | ⟨-, h', -⟩
    · exact ⟨_, h'⟩
    · exact ⟨_, h'⟩
  | expandHeap addr r haddr hcall =>
    rcases hb.expandHeap h hheap haddr hcall with ⟨hb', D', h', -⟩
    exact ⟨⟨D', h'⟩, hb'⟩
  | addRegion start stop flags r hcall =>
    rcases h.addRegion hcall with ⟨h', hbrk, -, -⟩
    exact ⟨⟨D, h'⟩, hb.of_brk_eq hbrk⟩
  | removeRegion start stop r hcall =>
    rcases h.removeRegion hcall with ⟨h', hbrk, -⟩
    exact ⟨⟨D, h'⟩, hb.of_brk_eq hbrk⟩
  | pageFault addr errorCode hcall =>
    rw [mmPageFaultHandler_eq] at hcall
    cases hcall
    exact ⟨⟨D, h⟩, hb⟩

/-- Calls in a row. -/
lemma taskRun_inv (hrun : Relation.ReflTransGen (TaskStep mm dataEnd) k k')
    (h : MmInv k mm root L D) (hb : BrkSteps k mm dataEnd)
    (hheap : (heapStart dataEnd).toNat + heapSize.toNat ≤ 2 ^ 47) :
    (∃ D', MmInv k' mm root L D') ∧ BrkSteps k' mm dataEnd := by
  induction hrun with
  | refl => exact ⟨⟨D, h⟩, hb⟩
  | tail _ hstep ih =>
    rcases ih with ⟨⟨D', h'⟩, hb'⟩
    exact hstep.inv h' hb' hheap

/-! ## A fault in the heap -/

variable {k₁ k₂ k₃ k₄ : MmState σ} {codeStart codeEnd : VirtAddr}

/-- After a call of `mm_expand_heap` that returns 0 the page of the fault is mapped exactly when it
was mapped before or is one of the 16 pages from the break on. -/
theorem heap_fault_resolved_iff (hkernel : k.vmm.kernelAs ∈ objects k.vmm.machine)
    (halloc : mmAlloc k = some (mm, k₁)) (hmm : mm ≠ 0)
    (hsetup : mmSetupExecutable k₁ mm codeStart codeEnd dataEnd = some (r, k₂))
    (hheap : (heapStart dataEnd).toNat + heapSize.toNat ≤ 2 ^ 47)
    (hrun : Relation.ReflTransGen (TaskStep mm dataEnd) k₂ k₃)
    (haddr : heapStart dataEnd ≤ addr ∧ addr ≤ heapEnd dataEnd)
    (hcall : mmExpandHeap k₃ mm addr = some (0, k₄)) :
    k₄.Mapped mm (page addr) ↔
      k₃.Mapped mm (page addr) ∨ (k₃.descriptors mm).brk ≤ addr ∧
        addr.toNat < (k₃.descriptors mm).brk.toNat + heapGrowSize.toNat := by
  rcases mmAlloc_inv hkernel halloc hmm with ⟨root, h₁, -⟩
  rcases h₁.setup hsetup with ⟨h₂, hbrk, -, -⟩
  have hb₂ : BrkSteps k₂ mm dataEnd := ⟨0, by decide, by rw [hbrk]; omega⟩
  rcases taskRun_inv hrun h₂ hb₂ hheap with ⟨⟨D, h₃⟩, hb₃⟩
  rcases hb₃.expandHeap h₃ hheap haddr.2 hcall with ⟨-, D', h₄, hgrowth⟩
  have haligned := h₃.brkAligned
  unfold MmState.Mapped
  rw [h₃.space.rootOf_eq, h₄.space.rootOf_eq]
  cases hgrowth with
  | below hbelow hk =>
    rw [hk]
    exact (or_iff_left fun hrange => BitVec.not_lt.mpr hrange.1 hbelow).symm
  | grown hbelow _ hmap _ =>
    have hle := BitVec.le_def.mp hbelow
    rw [hmap, heapGrowSize_toNat, and_iff_right hbelow]
    unfold PageMap.mapPages
    have hpages : page (k₃.descriptors mm).brk ≤ page addr ∧
        page addr < page (k₃.descriptors mm).brk + 16 ↔
          addr.toNat < (k₃.descriptors mm).brk.toNat + 2 ^ 16 := by
      unfold page
      omega
    by_cases hin : page (k₃.descriptors mm).brk ≤ page addr ∧
        page addr < page (k₃.descriptors mm).brk + 16
    · rw [if_pos hin]
      exact iff_of_true (by simp) (Or.inr (hpages.mp hin))
    · rw [if_neg hin]
      exact (or_iff_left fun hlt => hin (hpages.mpr hlt)).symm

end

/-! ## Two faults -/

/-- The first page of the heap is mapped after a fault on it. -/
theorem heap_fault_resolved_first : (grown richRam).Mapped 0x200 (page 0x402000) :=
  (heap_fault_resolved_iff richRam_kernel richRam_alloc (by decide) richRam_setup (by decide)
    .refl ⟨by decide, by decide⟩ richRam_heap).mpr (Or.inr ⟨by decide +kernel, by decide +kernel⟩)

/-- The task after a fault 1 MiB above its break. -/
def farFault : MmState Ram :=
  ((mmExpandHeap (started richRam) 0x200 0x502000).getD (0, boot richRam)).2

lemma farFault_call :
    (mmExpandHeap (started richRam) 0x200 0x502000).map Prod.fst = some 0 ∧
    pageMap farFault.vmm.machine (rootOf farFault.vmm (farFault.descriptors 0x200).as)
      (page 0x502000) = none := by
  decide +kernel

/-- A second call for the first page of the heap, after one that failed, returns 0 and maps nothing;
a call for an address 1 MiB above the break returns 0 and does not map it. -/
theorem heap_fault_unresolved :
    (mmAlloc (boot poorRam) = some (0x200, created poorRam) ∧
      mmSetupExecutable (created poorRam) 0x200 0x400000 0x401000 0x402000 =
        some (0, started poorRam) ∧
      mmExpandHeap (started poorRam) 0x200 0x402000 = some (-1, grown poorRam) ∧
      mmExpandHeap (grown poorRam) 0x200 0x402000 = some (0, grown poorRam) ∧
      ¬(grown poorRam).Mapped 0x200 (page 0x402000)) ∧
    (mmAlloc (boot richRam) = some (0x200, created richRam) ∧
      mmSetupExecutable (created richRam) 0x200 0x400000 0x401000 0x402000 =
        some (0, started richRam) ∧
      mmExpandHeap (started richRam) 0x200 0x502000 = some (0, farFault) ∧
      ¬farFault.Mapped 0x200 (page 0x502000)) := by
  have hbelow : (0x402000 : VirtAddr) < ((grown poorRam).descriptors 0x200).brk := by
    rw [poorRam_calls.2.2.2.2.1]
    decide
  refine ⟨⟨poorRam_alloc, poorRam_setup, poorRam_heap, ?_, poorRam_unmapped⟩,
    richRam_alloc, richRam_setup, eq_some_of_fst farFault_call.1 _, fun h => h farFault_call.2⟩
  unfold mmExpandHeap
  rw [if_neg (by decide), if_pos hbelow]

end LunOS.MemMgr
