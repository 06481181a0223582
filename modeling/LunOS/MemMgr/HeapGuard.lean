import LunOS.MemMgr.Growth

/-!
# The heap and its guard

`mm_expand_heap` does not look where the heap ends. The break stays below the guard nevertheless: it
moves in steps of 64 KiB from the start of the heap, these steps fill the heap exactly, and a fault
in the heap leaves at least one of them. This needs nothing of the machine but that addresses do not
wrap around.

- `mmExpandHeapTrace`: the call with the addresses that it passes to `vmm_map_page_no_flush`.
- `heap_stays_below_guard`: the break and these addresses after any calls.
-/

namespace LunOS.MemMgr
open LunOS.Vmm PageMachine LawfulPageMachine BuddyMachine List

/-! ## The pages that a call maps -/

section
variable {σ : Type*} [PageMachine σ]

/-- `mapLoop` with the addresses that it passes on. -/
def mapLoopTrace (as vstart : VirtAddr) (flags : BitVec 64) :
    List VirtAddr → PhysAddr → VmmState σ → List VirtAddr × ℤ × VmmState σ
  | [], _, k => ([], 0, k)
  | v :: vs, p, k =>
    let (r, k) := vmmMapPageNoFlush k as v p flags
    if r ≠ 0 then ([v], -1, (vmmUnmapRange k as vstart (v - vstart)).2)
    else
      let (pages, res) := mapLoopTrace as vstart flags vs (p + pageSize) k
      (v :: pages, res)

/-- `vmm_map_range` with the addresses that it passes on. -/
def vmmMapRangeTrace (k : VmmState σ) (as vaddr : VirtAddr) (paddr : PhysAddr)
    (size flags : BitVec 64) : List VirtAddr × ℤ × VmmState σ :=
  if as = 0 then ([], -1, k)
  else if size = 0 then ([], -1, k)
  else
    let vstart := vmmPageAlignDown vaddr
    let vend := vmmPageAlignUp (vaddr + size)
    mapLoopTrace as vstart flags (pagesFrom vstart vend) (vmmPageAlignDown paddr) k

/-- `mm_expand_heap` with the addresses that it has mapped. -/
def mmExpandHeapTrace [BuddyMachine σ] (k : MmState σ) (mm faultAddr : VirtAddr) :
    Option (List VirtAddr × ℤ × MmState σ) :=
  if mm = 0 then none
  else if faultAddr < (k.descriptors mm).brk then some ([], 0, k)
  else
    let growStart := (k.descriptors mm).brk
    let (physStart, s) := BuddyMachine.buddyAllocPages k.vmm.machine heapGrowOrder
    let k := k.setMachine s
    if physStart = 0 then some ([], -1, k)
    else
      let (pages, ret, v) := vmmMapRangeTrace k.vmm (k.descriptors mm).as growStart physStart
        heapGrowSize growFlags
      let s := if ret ≠ 0 then BuddyMachine.buddyFreePages v.machine physStart heapGrowOrder
        else v.machine
      let k := { k with vmm := { v with machine := s } }
      some (pages, ret, k.setDescriptor mm { k.descriptors mm with brk := growStart + heapGrowSize })

variable {k k' : MmState σ} {v : VmmState σ} {mm addr as vstart w : VirtAddr} {p : PhysAddr}
variable {flags size : BitVec 64} {vs pages : List VirtAddr} {r : ℤ}

lemma mapLoopTrace_snd : (mapLoopTrace as vstart flags vs p v).2 = mapLoop as vstart flags vs p v := by
  induction vs generalizing p v with
  | nil => rfl
  | cons w vs ih =>
    unfold mapLoopTrace mapLoop
    simp only
    split_ifs
    · rfl
    · exact ih

/-- Only the given pages are passed on. -/
lemma mapLoopTrace_subset : (mapLoopTrace as vstart flags vs p v).1 ⊆ vs := by
  induction vs generalizing p v with
  | nil => exact List.Subset.refl _
  | cons w vs ih =>
    unfold mapLoopTrace
    simp only
    split_ifs
    · exact cons_subset_cons w (nil_subset vs)
    · exact cons_subset_cons w ih

lemma vmmMapRangeTrace_snd {vaddr : VirtAddr} : (vmmMapRangeTrace v as vaddr p size flags).2 =
    vmmMapRange v as vaddr p size flags := by
  unfold vmmMapRangeTrace vmmMapRange
  split_ifs
  · rfl
  · rfl
  · exact mapLoopTrace_snd

lemma vmmMapRangeTrace_subset {vaddr : VirtAddr} :
    (vmmMapRangeTrace v as vaddr p size flags).1 ⊆
      pagesFrom (vmmPageAlignDown vaddr) (vmmPageAlignUp (vaddr + size)) := by
  unfold vmmMapRangeTrace
  split_ifs
  · exact nil_subset _
  · exact nil_subset _
  · exact mapLoopTrace_subset

variable [BuddyMachine σ]

/-- The trace is of `mm_expand_heap`. -/
lemma mmExpandHeapTrace_snd (k : MmState σ) (mm addr : VirtAddr) :
    (mmExpandHeapTrace k mm addr).map Prod.snd = mmExpandHeap k mm addr := by
  unfold mmExpandHeapTrace mmExpandHeap
  by_cases hmm : mm = 0
  · rw [if_pos hmm, if_pos hmm]
    rfl
  rw [if_neg hmm, if_neg hmm]
  by_cases hbelow : addr < (k.descriptors mm).brk
  · rw [if_pos hbelow, if_pos hbelow]
    rfl
  rw [if_neg hbelow, if_neg hbelow]
  simp only
  by_cases hzero : k.heapBlock.1 = 0
  · rw [if_pos hzero, if_pos hzero]
    rfl
  · rw [if_neg hzero, if_neg hzero, ← vmmMapRangeTrace_snd]
    rfl

/-- The addresses are pages of the range from the break on. -/
lemma mmExpandHeapTrace_pages (h : mmExpandHeapTrace k mm addr = some (pages, r, k'))
    (hw : w ∈ pages) : (k.descriptors mm).brk ≤ addr ∧
      w ∈ pagesFrom (vmmPageAlignDown (k.descriptors mm).brk)
        (vmmPageAlignUp ((k.descriptors mm).brk + heapGrowSize)) := by
  have hnil : w ∉ ([] : List VirtAddr) := not_mem_nil
  unfold mmExpandHeapTrace at h
  split_ifs at h with hmm hbelow
  · rw [Option.some.injEq, Prod.mk.injEq] at h
    exact absurd (h.1 ▸ hw) hnil
  · refine ⟨BitVec.not_lt.mp hbelow, ?_⟩
    simp only at h
    by_cases hzero : k.heapBlock.1 = 0
    · rw [if_pos hzero, Option.some.injEq, Prod.mk.injEq] at h
      exact absurd (h.1 ▸ hw) hnil
    · rw [if_neg hzero, Option.some.injEq, Prod.mk.injEq] at h
      rw [← h.1] at hw
      exact vmmMapRangeTrace_subset hw

/-- A call leaves the break, or moves it by one step when the fault is not below. -/
lemma mmExpandHeap_brk (h : mmExpandHeap k mm addr = some (r, k')) :
    (k'.descriptors mm).brk = (k.descriptors mm).brk ∨
      (k.descriptors mm).brk ≤ addr ∧
        (k'.descriptors mm).brk = (k.descriptors mm).brk + heapGrowSize := by
  unfold mmExpandHeap at h
  split_ifs at h with hmm hbelow
  · rw [Option.some.injEq, Prod.mk.injEq] at h
    exact Or.inl (by rw [h.2])
  · simp only at h
    by_cases hzero : k.heapBlock.1 = 0
    · rw [if_pos hzero] at h
      cases h
      exact Or.inl rfl
    · rw [if_neg hzero] at h
      cases h
      rw [MmState.setDescriptor_self]
      exact Or.inr ⟨BitVec.not_lt.mp hbelow, rfl⟩

/-! ## Runs -/

/-- A call of `mm_expand_heap` for a fault in the heap. -/
def HeapCall (mm dataEnd : VirtAddr) (k k' : MmState σ) : Prop :=
  ∃ addr r, heapStart dataEnd ≤ addr ∧ addr ≤ heapEnd dataEnd ∧
    mmExpandHeap k mm addr = some (r, k')

variable {dataEnd : VirtAddr}

/-- The break grows in steps. -/
lemma HeapCall.brkSteps (hcall : HeapCall mm dataEnd k k') (hb : BrkSteps k mm dataEnd)
    (hheap : (heapStart dataEnd).toNat + heapSize.toNat < 2 ^ 64) : BrkSteps k' mm dataEnd := by
  obtain ⟨addr, r, -, haddr, hexpand⟩ := hcall
  rcases mmExpandHeap_brk hexpand with hsame | ⟨hbrk, hnew⟩
  · exact hb.of_brk_eq hsame
  · exact (hb.next haddr hbrk hheap hnew).1

lemma heapCalls_brkSteps (hrun : Relation.ReflTransGen (HeapCall mm dataEnd) k k')
    (hb : BrkSteps k mm dataEnd)
    (hheap : (heapStart dataEnd).toNat + heapSize.toNat < 2 ^ 64) : BrkSteps k' mm dataEnd := by
  induction hrun with
  | refl => exact hb
  | tail _ hcall ih => exact hcall.brkSteps ih hheap

omit [BuddyMachine σ] in
/-- Regions leave the break alone. -/
lemma mmAddRegion_brk {start stop : VirtAddr} (h : mmAddRegion k mm start stop flags = some (r, k')) :
    (k'.descriptors mm).brk = (k.descriptors mm).brk := by
  unfold mmAddRegion at h
  split_ifs at h
  · rw [Option.some.injEq, Prod.mk.injEq] at h
    rw [h.2]
  · simp only at h
    split_ifs at h
    cases h
    rw [MmState.setDescriptor_self]

omit [BuddyMachine σ] in
/-- The heap starts empty. -/
lemma mmSetupExecutable_brk {codeStart codeEnd : VirtAddr}
    (h : mmSetupExecutable k mm codeStart codeEnd dataEnd = some (r, k')) :
    (k'.descriptors mm).brk = heapStart dataEnd := by
  unfold mmSetupExecutable at h
  rcases Option.bind_eq_some_iff.mp h with ⟨⟨r₁, k₁⟩, -, h⟩
  rcases Option.bind_eq_some_iff.mp h with ⟨⟨r₂, k₂⟩, -, h⟩
  by_cases hmm : mm = 0
  · simp [hmm] at h
  simp only [if_neg hmm] at h
  rcases Option.bind_eq_some_iff.mp h with ⟨⟨r₃, k₃⟩, h₃, h⟩
  rcases Option.bind_eq_some_iff.mp h with ⟨⟨r₄, k₄⟩, h₄, h⟩
  rcases Option.bind_eq_some_iff.mp h with ⟨⟨r₅, k₅⟩, h₅, h⟩
  rcases Option.bind_eq_some_iff.mp h with ⟨⟨r₆, k₆⟩, h₆, h⟩
  simp only [Option.some.injEq, Prod.mk.injEq] at h
  rw [← h.2, mmAddRegion_brk h₆, mmAddRegion_brk h₅, mmAddRegion_brk h₄, mmAddRegion_brk h₃,
    MmState.setDescriptor_self]

lemma heapStart_mod (dataEnd : VirtAddr) : (heapStart dataEnd).toNat % 4096 = 0 :=
  pageUp_aligned dataEnd

/-- The pages of one growth lie in the heap. -/
lemma BrkSteps.pages_in_heap (hb : BrkSteps k mm dataEnd)
    (hheap : (heapStart dataEnd).toNat + heapSize.toNat < 2 ^ 64) (haddr : addr ≤ heapEnd dataEnd)
    (h : mmExpandHeapTrace k mm addr = some (pages, r, k')) (hw : w ∈ pages) :
    heapStart dataEnd ≤ w ∧ w.toNat + 4095 ≤ (heapEnd dataEnd).toNat := by
  obtain ⟨hbrk, hmem⟩ := mmExpandHeapTrace_pages h hw
  obtain ⟨j, hj, hsteps⟩ := hb.exists_lt haddr hbrk hheap
  have hstart := heapStart_mod dataEnd
  have hend := heapEnd_toNat_of_lt hheap
  rw [heapSize_toNat] at hheap hend
  have hgrown : ((k.descriptors mm).brk + heapGrowSize).toNat =
      (k.descriptors mm).brk.toNat + 2 ^ 16 := by
    rw [BitVec.toNat_add, heapGrowSize_toNat]
    omega
  have haligned : (k.descriptors mm).brk.toNat = 4096 * page (k.descriptors mm).brk := by
    unfold page
    omega
  have hdown : (vmmPageAlignDown (k.descriptors mm).brk).toNat = 4096 * page (k.descriptors mm).brk :=
    alignDown_aligned _
  have hup : (vmmPageAlignUp ((k.descriptors mm).brk + heapGrowSize)).toNat =
      4096 * (page (k.descriptors mm).brk + 16) := by
    rw [alignUp_toNat (by omega), hgrown]
    omega
  rw [pagesFrom_eq hdown hup] at hmem
  obtain ⟨n, hn, hwn⟩ := mem_map.mp hmem
  rw [mem_range] at hn
  have hnat : w.toNat = 4096 * (page (k.descriptors mm).brk + n) := by
    rw [← hwn]
    exact pageAddr_toNat hdown (by omega)
  rw [BitVec.le_def]
  omega

end

section
variable {σ : Type*} [LawfulPageMachine σ] [BuddyMachine σ] [LawfulBuddyMachine σ]
variable {k k₁ k₂ k₃ : MmState σ} {mm addr codeStart codeEnd dataEnd : VirtAddr} {r : ℤ}
variable {root : PhysAddr} {L D : Set PhysAddr}

/-- The pages that a call maps anew are pages of the heap. -/
lemma BrkSteps.mapped_in_heap (hb : BrkSteps k mm dataEnd) (h : MmInv k mm root L D)
    (hheap : (heapStart dataEnd).toNat + heapSize.toNat ≤ 2 ^ 47) (haddr : addr ≤ heapEnd dataEnd)
    (hcall : mmExpandHeap k mm addr = some (r, k₁)) {n : ℕ} (hn : k₁.Mapped mm n)
    (hold : ¬k.Mapped mm n) :
    page (heapStart dataEnd) ≤ n ∧ n ≤ page (heapEnd dataEnd) := by
  obtain ⟨-, D', h₁, hgrowth⟩ := hb.expandHeap h hheap haddr hcall
  unfold MmState.Mapped at hn hold
  rw [h₁.space.rootOf_eq] at hn
  rw [h.space.rootOf_eq] at hold
  cases hgrowth with
  | below _ hk =>
    rw [hk] at hn
    exact absurd hn hold
  | noBlock _ _ hmap _ =>
    rw [hmap] at hn
    exact absurd hn hold
  | noMap _ _ hmap _ =>
    rw [hmap] at hn
    exact absurd hn hold
  | grown hbrk _ hmap _ =>
    rw [hmap] at hn
    unfold PageMap.mapPages at hn
    split_ifs at hn with hin
    · obtain ⟨j, hj, hsteps⟩ := hb.exists_lt haddr hbrk (by omega)
      have hend := heapEnd_toNat hheap
      have hstart := heapStart_mod dataEnd
      rw [heapSize_toNat] at hend
      unfold page at hin ⊢
      omega
    · exact absurd hn hold

/-- After `mm_setup_executable` without wrap-around and any calls of `mm_expand_heap` for faults in the
heap, the break is at most the address behind the heap, a further such call passes only pages of the
heap to `vmm_map_page`, and for a heap in the lower half only pages of the heap are newly mapped. -/
theorem heap_stays_below_guard
    (hsetup : mmSetupExecutable k mm codeStart codeEnd dataEnd = some (r, k₁))
    (hheap : (heapStart dataEnd).toNat + heapSize.toNat < 2 ^ 64)
    (hrun : Relation.ReflTransGen (HeapCall mm dataEnd) k₁ k₂) :
    (k₂.descriptors mm).brk.toNat ≤ (heapEnd dataEnd).toNat + 1 ∧
      ∀ addr pages ret k₃, heapStart dataEnd ≤ addr → addr ≤ heapEnd dataEnd →
        mmExpandHeapTrace k₂ mm addr = some (pages, ret, k₃) →
        (∀ v ∈ pages, heapStart dataEnd ≤ v ∧ v.toNat + 4095 ≤ (heapEnd dataEnd).toNat) ∧
        ((heapStart dataEnd).toNat + heapSize.toNat ≤ 2 ^ 47 →
          (∃ root L D, MmInv k₂ mm root L D) → ∀ n, k₃.Mapped mm n → ¬k₂.Mapped mm n →
            page (heapStart dataEnd) ≤ n ∧ n ≤ page (heapEnd dataEnd)) := by
  have hbrk := mmSetupExecutable_brk hsetup
  have hb₁ : BrkSteps k₁ mm dataEnd := ⟨0, by decide, by rw [hbrk]; omega⟩
  have hb₂ := heapCalls_brkSteps hrun hb₁ hheap
  refine ⟨?_, fun addr pages ret k₃ _ haddr htrace => ⟨fun v hv => ?_, fun hlow hinv n hn hold => ?_⟩⟩
  · obtain ⟨j, hj, hsteps⟩ := hb₂
    have hend := heapEnd_toNat_of_lt hheap
    rw [heapSize_toNat] at hend
    omega
  · exact hb₂.pages_in_heap hheap haddr htrace hv
  · obtain ⟨root, L, D, h₂⟩ := hinv
    have hcall : mmExpandHeap k₂ mm addr = some (ret, k₃) := by
      rw [← mmExpandHeapTrace_snd, htrace]
      rfl
    exact hb₂.mapped_in_heap h₂ hlow haddr hcall hn hold

end

/-- One growth from the start of the heap, and the pages of the next one. -/
theorem heap_stays_below_guard_grown :
    ((grown richRam).descriptors 0x200).brk.toNat ≤ (heapEnd 0x402000).toNat + 1 ∧
      ∀ pages ret k, mmExpandHeapTrace (grown richRam) 0x200 0x412000 = some (pages, ret, k) →
        ∀ v ∈ pages, heapStart 0x402000 ≤ v ∧ v.toNat + 4095 ≤ (heapEnd 0x402000).toNat := by
  have hcall : HeapCall 0x200 0x402000 (started richRam) (grown richRam) :=
    ⟨0x402000, 0, by decide, by decide, richRam_heap⟩
  obtain ⟨hbrk, hnext⟩ := heap_stays_below_guard richRam_setup (by decide) (.single hcall)
  exact ⟨hbrk, fun pages ret k htrace => (hnext _ pages ret k (by decide) (by decide) htrace).1⟩

end LunOS.MemMgr
