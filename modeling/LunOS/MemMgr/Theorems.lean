import LunOS.MemMgr.Ram

/-!
# What a task leaves behind, and the break of its heap

`mm_free` gives back the page tables of a task, but no frame that its stack and heap got. The pages
of the heap below the break are mapped as long as there are pages for the tables of every block that
`mm_expand_heap` gets.
-/

namespace LunOS.MemMgr
open LunOS.Vmm LunOS.Radix PageMachine LawfulPageMachine BuddyMachine CountedPageMachine List

/-! ## The break of the heap -/

/-- The last address of the heap region. -/
def heapEnd (dataEnd : VirtAddr) : VirtAddr := heapStart dataEnd + heapSize - 1

lemma heapSize_toNat : heapSize.toNat = 2 ^ 30 := by decide

lemma heapGrowSize_toNat : heapGrowSize.toNat = 2 ^ 16 := by decide

section
variable {σ : Type*} {k k₁ : MmState σ} {mm dataEnd addr : VirtAddr}

lemma heapEnd_toNat_of_lt (hheap : (heapStart dataEnd).toNat + heapSize.toNat < 2 ^ 64) :
    (heapEnd dataEnd).toNat = (heapStart dataEnd).toNat + heapSize.toNat - 1 := by
  have hsize := heapSize_toNat
  unfold heapEnd
  bv_omega

lemma heapEnd_toNat (hheap : (heapStart dataEnd).toNat + heapSize.toNat ≤ 2 ^ 47) :
    (heapEnd dataEnd).toNat = (heapStart dataEnd).toNat + heapSize.toNat - 1 :=
  heapEnd_toNat_of_lt (by omega)

/-- The break is a multiple of the growth above the start of the heap, at most its end. -/
def BrkSteps (k : MmState σ) (mm dataEnd : VirtAddr) : Prop :=
  ∃ j ≤ 2 ^ 14, (k.descriptors mm).brk.toNat = (heapStart dataEnd).toNat + 2 ^ 16 * j

section
variable (hb : BrkSteps k mm dataEnd)
include hb

lemma BrkSteps.of_brk_eq (heq : (k₁.descriptors mm).brk = (k.descriptors mm).brk) :
    BrkSteps k₁ mm dataEnd := by
  unfold BrkSteps
  rw [heq]
  exact hb

variable (haddr : addr ≤ heapEnd dataEnd) (hbrk : (k.descriptors mm).brk ≤ addr)
include haddr hbrk

/-- A fault in the heap region leaves at least one block. -/
lemma BrkSteps.exists_lt (hheap : (heapStart dataEnd).toNat + heapSize.toNat < 2 ^ 64) :
    ∃ j < 2 ^ 14, (k.descriptors mm).brk.toNat = (heapStart dataEnd).toNat + 2 ^ 16 * j := by
  rcases hb with ⟨j, -, hj⟩
  have hend := heapEnd_toNat_of_lt hheap
  rw [heapSize_toNat] at hheap hend
  have hle := BitVec.le_def.mp haddr
  have hle' := BitVec.le_def.mp hbrk
  exact ⟨j, by omega, hj⟩

/-- A fault in the heap region leaves room for one more block. -/
lemma BrkSteps.room (hheap : (heapStart dataEnd).toNat + heapSize.toNat ≤ 2 ^ 47) :
    ∃ j < 2 ^ 14, (k.descriptors mm).brk.toNat = (heapStart dataEnd).toNat + 2 ^ 16 * j ∧
      (k.descriptors mm).brk.toNat + heapGrowSize.toNat ≤ 2 ^ 47 := by
  rcases hb.exists_lt haddr hbrk (by omega) with ⟨j, hj, hsteps⟩
  rw [heapSize_toNat] at hheap
  rw [heapGrowSize_toNat]
  exact ⟨j, hj, hsteps, by omega⟩

/-- The break after one more block. -/
lemma BrkSteps.next (hheap : (heapStart dataEnd).toNat + heapSize.toNat < 2 ^ 64)
    (hnew : (k₁.descriptors mm).brk = (k.descriptors mm).brk + heapGrowSize) :
    BrkSteps k₁ mm dataEnd ∧ page (k₁.descriptors mm).brk = page (k.descriptors mm).brk + 16 := by
  rcases hb.exists_lt haddr hbrk hheap with ⟨j, hj, hsteps⟩
  rw [heapSize_toNat] at hheap
  have hnat : (k₁.descriptors mm).brk.toNat = (heapStart dataEnd).toNat + 2 ^ 16 * (j + 1) := by
    rw [hnew, BitVec.toNat_add, heapGrowSize_toNat]
    omega
  refine ⟨⟨j + 1, hj, hnat⟩, ?_⟩
  unfold page
  omega

end

end

section
variable {σ : Type*} [LawfulPageMachine σ] {k : MmState σ} {mm dataEnd : VirtAddr}
variable {root : PhysAddr} {L D : Set PhysAddr}

/-- The pages of the heap region that are mapped are those below the break. -/
def HeapFilled (k : MmState σ) (mm dataEnd : VirtAddr) : Prop :=
  ∀ n, page (heapStart dataEnd) ≤ n → n ≤ page (heapEnd dataEnd) →
    (k.Mapped mm n ↔ n < page (k.descriptors mm).brk)

/-- The break is a multiple of the growth above the start of the heap, and the mapped pages are
those between the two. -/
structure BrkInv (k : MmState σ) (mm dataEnd : VirtAddr) (root : PhysAddr) : Prop where
  steps : BrkSteps k mm dataEnd
  mapped : ∀ n, pageMap k.vmm.machine root n ≠ none ↔
    page (heapStart dataEnd) ≤ n ∧ n < page (k.descriptors mm).brk

/-- The pages below the break. -/
lemma BrkInv.filled (hb : BrkInv k mm dataEnd root) (h : MmInv k mm root L D) :
    HeapFilled k mm dataEnd := by
  intro n hn _
  unfold MmState.Mapped
  rw [h.space.rootOf_eq, hb.mapped n]
  exact and_iff_right hn

/-- No page behind the break. -/
lemma BrkInv.unmapped (hb : BrkInv k mm dataEnd root) (h : MmInv k mm root L D) {n : ℕ}
    (hn : page (k.descriptors mm).brk ≤ n) : ¬k.Mapped mm n := by
  unfold MmState.Mapped
  rw [h.space.rootOf_eq, hb.mapped n]
  exact fun hmapped => absurd hmapped.2 (Nat.not_lt.mpr hn)

end

/-! ## Runs -/

section
variable {σ : Type*} [LawfulPageMachine σ] [BuddyMachine σ] [LawfulBuddyMachine σ]
variable [CountedPageMachine σ] {k k₁ k₂ k₃ : MmState σ} {mm codeStart codeEnd dataEnd : VirtAddr} {r : ℤ}
variable {root : PhysAddr} {L D : Set PhysAddr} {addr : VirtAddr}
variable {calls : List (MmState σ × Fault)}

/-- The frames in use after the life of a task are those in use before it exactly when no call for
its stack got a page and no call for its heap got a block that fits. -/
theorem live_restored_iff (hkernel : k.vmm.kernelAs ∈ objects k.vmm.machine)
    (halloc : mmAlloc k = some (mm, k₁)) (hmm : mm ≠ 0)
    (hsetup : mmSetupExecutable k₁ mm codeStart codeEnd dataEnd = some (r, k₂))
    (hrun : FaultRun mm k₂ calls k₃) (hvalid : ∀ c ∈ calls, c.2.Valid) :
    live (mmFree k₃ mm).vmm.machine = live k.vmm.machine ↔
      ∀ c ∈ calls, ¬c.2.Keeps c.1 mm := by
  rcases mmAlloc_inv hkernel halloc hmm with ⟨root, h₁, -⟩
  rcases (h₁.setup hsetup).1.run hrun hvalid with ⟨D, h₃, -, hkeeps, hnone⟩
  rw [h₃.free]
  constructor
  · intro hlive c hc hkeep
    rcases hkeeps ⟨c, hc, hkeep⟩ with ⟨f, hf⟩
    have hmem : f ∈ live k.vmm.machine := by
      rw [← hlive]
      exact Or.inr hf
    exact Set.disjoint_left.mp h₃.fresh hmem hf
  · intro hcalls
    rw [hnone hcalls, Set.union_empty]

/-- If a fault at `addr` gets a block for the heap, there are pages for the tables that it needs. -/
def TablesFit (k : MmState σ) (mm addr : VirtAddr) : Prop :=
  (k.descriptors mm).brk ≤ addr → k.heapBlock.1 ≠ 0 →
    missing target (entry k.vmm.machine) (rootOf k.vmm (k.descriptors mm).as)
        (rangePaths (page (k.descriptors mm).brk) 16) ≤ freePages k.heapBlock.2

/-- One call for the heap. -/
lemma BrkInv.expandHeap (hb : BrkInv k mm dataEnd root) (h : MmInv k mm root L D)
    (hheap : (heapStart dataEnd).toNat + heapSize.toNat ≤ 2 ^ 47) (haddr : addr ≤ heapEnd dataEnd)
    (hcall : mmExpandHeap k mm addr = some (r, k₁)) (hfit : TablesFit k mm addr) :
    (∃ D', MmInv k₁ mm root L D') ∧ BrkInv k₁ mm dataEnd root ∧
      (k₁.descriptors mm).as = (k.descriptors mm).as ∧
      (r ≠ 0 → (k₁.descriptors mm).brk = (k.descriptors mm).brk ∧
        pageMap k₁.vmm.machine root = pageMap k.vmm.machine root) := by
  have hroom := fun hbrk => (hb.steps.room haddr hbrk hheap).choose_spec.2.2
  -- a block that is found is mapped
  have hfound : (k.descriptors mm).brk ≤ addr → k.heapBlock.1 ≠ 0 → r = 0 := fun hbrk hne =>
    (h.expandHeap_eq_zero_iff hbrk (hroom hbrk) hcall).mpr
      ⟨hne, fun i _ => hb.unmapped h (Nat.le_add_right _ i), hfit hbrk hne⟩
  rcases h.expandHeap hroom hcall with ⟨D', h', has, hgrowth⟩
  refine ⟨⟨D', h'⟩, ?_, has, ?_⟩
  · cases hgrowth with
    | below _ hk =>
      rw [hk]
      exact hb
    | noBlock _ _ hmap hbrk =>
      refine ⟨hb.steps.of_brk_eq hbrk, ?_⟩
      rw [hbrk, hmap]
      exact hb.mapped
    | noMap hbelow hne => exact absurd (hfound hbelow hne) (by decide)
    | grown hbelow _ hmap hbrk =>
      rcases hb.steps.next haddr hbelow (by omega) hbrk with ⟨hsteps', hpage⟩
      refine ⟨hsteps', fun n => ?_⟩
      -- the 16 pages from the old break on are mapped now
      have hstart : page (heapStart dataEnd) ≤ page (k.descriptors mm).brk := by
        rcases hb.steps with ⟨j, -, hj⟩
        unfold page
        omega
      have hold := hb.mapped n
      rw [hmap, hpage]
      unfold PageMap.mapPages
      split
      · simp only [ne_eq, reduceCtorEq, not_false_eq_true, true_iff]
        omega
      · rw [hold]
        omega
  · intro hr
    cases hgrowth with
    | below => exact absurd rfl hr
    | noBlock _ _ hmap hbrk => exact ⟨hbrk, hmap⟩
    | noMap hbelow hne => exact absurd (hfound hbelow hne) hr
    | grown => exact absurd rfl hr

/-- Calls of `mm_expand_heap` in the heap region, with pages for the tables of every block. -/
def HeapCalls (mm dataEnd : VirtAddr) (calls : List (MmState σ × Fault)) : Prop :=
  ∀ c ∈ calls, ∃ addr, c.2 = .heap addr ∧ heapStart dataEnd ≤ addr ∧ addr ≤ heapEnd dataEnd ∧
    TablesFit c.1 mm addr

/-- Calls for the heap in a row. -/
lemma BrkInv.run (hb : BrkInv k mm dataEnd root) (h : MmInv k mm root L D)
    (hheap : (heapStart dataEnd).toNat + heapSize.toNat ≤ 2 ^ 47)
    (hrun : FaultRun mm k calls k₁) (hcalls : HeapCalls mm dataEnd calls) :
    (∃ D', MmInv k₁ mm root L D') ∧ BrkInv k₁ mm dataEnd root := by
  induction hrun generalizing D with
  | nil k => exact ⟨⟨D, h⟩, hb⟩
  | @cons k k' k'' f r calls hcall _ ih =>
    rcases forall_mem_cons.mp hcalls with ⟨⟨addr, hf, -, haddr, hfit⟩, hrest⟩
    have hf' : f = .heap addr := hf
    rw [hf'] at hcall
    rcases hb.expandHeap h hheap haddr hcall hfit with ⟨⟨D', h'⟩, hb', -, -⟩
    exact ih hb' h' hrest

/-- After any calls for the heap with pages for the tables of every block, the pages of the heap
below the break and no others are mapped, and a further such call that fails changes neither the
break nor a translation. -/
theorem heap_filled_to_break (hkernel : k.vmm.kernelAs ∈ objects k.vmm.machine)
    (halloc : mmAlloc k = some (mm, k₁)) (hmm : mm ≠ 0)
    (hsetup : mmSetupExecutable k₁ mm codeStart codeEnd dataEnd = some (r, k₂))
    (hheap : (heapStart dataEnd).toNat + heapSize.toNat ≤ 2 ^ 47)
    (hrun : FaultRun mm k₂ calls k₃) (hcalls : HeapCalls mm dataEnd calls) :
    HeapFilled k₃ mm dataEnd ∧
      ∀ addr ret k₄, heapStart dataEnd ≤ addr → addr ≤ heapEnd dataEnd →
        TablesFit k₃ mm addr → mmExpandHeap k₃ mm addr = some (ret, k₄) → ret ≠ 0 →
        (k₄.descriptors mm).brk = (k₃.descriptors mm).brk ∧
          ∀ v : VirtAddr, v.toNat < 2 ^ 47 →
            vmmVirtToPhys k₄.vmm (k₄.descriptors mm).as v =
              vmmVirtToPhys k₃.vmm (k₃.descriptors mm).as v := by
  rcases mmAlloc_inv hkernel halloc hmm with ⟨root, h₁, hempty⟩
  rcases h₁.setup hsetup with ⟨h₂, hbrk, -, hmap⟩
  have hb : BrkInv k₂ mm dataEnd root := by
    refine ⟨⟨0, by decide, by rw [hbrk]; omega⟩, fun n => ?_⟩
    rw [hmap, hempty, hbrk]
    constructor
    · exact fun hne => absurd rfl hne
    · exact fun hn => absurd hn.2 (Nat.not_lt.mpr hn.1)
  rcases hb.run h₂ hheap hrun hcalls with ⟨⟨D, h₃⟩, hb₃⟩
  refine ⟨hb₃.filled h₃, fun addr ret k₄ _ haddr hfit hcall hret => ?_⟩
  rcases hb₃.expandHeap h₃ hheap haddr hcall hfit with ⟨⟨D', h₄⟩, -, has, hfails⟩
  rcases hfails hret with ⟨hbrk₄, hmap₄⟩
  refine ⟨hbrk₄, fun v hv => ?_⟩
  rw [h₄.space.virtToPhys hv, h₃.space.virtToPhys hv, hmap₄]

end

/-! ## Two machines -/

lemma eq_some_of_fst {α β : Type*} {o : Option (α × β)} {a : α} (h : o.map Prod.fst = some a)
    (d : α × β) : o = some (a, (o.getD d).2) := by
  rcases Option.map_eq_some_iff.mp h with ⟨x, hx, hfst⟩
  rw [hx, ← hfst]
  rfl

def taskObjects : List VirtAddr := [0x100, 0x200, 0x300, 0x400, 0x500, 0x600, 0x700, 0x800, 0x900]

def richFrames : List PhysAddr :=
  [0x9000, 0xA000, 0xB000, 0xC000, 0xD000, 0xE000] ++ blockFrames 0x10000 4

lemma richFrames_isFrame : ∀ f ∈ richFrames, IsFrame f := by
  simp [richFrames, blockFrames, IsFrame, pteAddr, ramOffset, List.range, List.range.loop]

/-- Six frames and a block for the heap. -/
def richRam : Ram where
  frames _ _ := 0
  pool := ⟨richFrames, by decide +kernel, richFrames_isFrame⟩
  heap := ⟨taskObjects, by decide, by simp [taskObjects]⟩

/-- One frame, for a PML4, and a block for the heap. -/
def poorRam : Ram :=
  { richRam with
    pool := ⟨0x9000 :: blockFrames 0x10000 4, by decide +kernel,
      fun f hf => richFrames_isFrame f (by
        rcases mem_cons.mp hf with hf | hf
        · rw [hf]
          decide
        · exact mem_append_right _ hf)⟩ }

/-- A task with code at `0x400000` and its heap at `0x402000`. -/
def boot (s : Ram) : MmState Ram :=
  ⟨(vmmInit s 0x1000).elim ⟨s, fun _ => ⟨0, 0⟩, 0⟩ Prod.snd, fun _ => ⟨0, [], 0⟩⟩

/-- A machine after `mm_alloc`. -/
def created (s : Ram) : MmState Ram := ((mmAlloc (boot s)).getD (0, boot s)).2

/-- The task after `mm_setup_executable`. -/
def started (s : Ram) : MmState Ram :=
  ((mmSetupExecutable (created s) 0x200 0x400000 0x401000 0x402000).getD (0, boot s)).2

/-- The task after a fault on the first page of its heap. -/
def grown (s : Ram) : MmState Ram :=
  ((mmExpandHeap (started s) 0x200 0x402000).getD (0, boot s)).2

/-- What the three calls return with memory for all of them, and where the break is then. -/
lemma richRam_calls :
    (mmAlloc (boot richRam)).map Prod.fst = some 0x200 ∧
    (mmSetupExecutable (created richRam) 0x200 0x400000 0x401000 0x402000).map Prod.fst = some 0 ∧
    (mmExpandHeap (started richRam) 0x200 0x402000).map Prod.fst = some 0 ∧
    ((grown richRam).descriptors 0x200).brk = 0x412000 := by
  decide +kernel

lemma richRam_alloc : mmAlloc (boot richRam) = some (0x200, created richRam) :=
  eq_some_of_fst richRam_calls.1 _

lemma richRam_setup : mmSetupExecutable (created richRam) 0x200 0x400000 0x401000 0x402000 =
    some (0, started richRam) :=
  eq_some_of_fst richRam_calls.2.1 _

lemma richRam_heap : mmExpandHeap (started richRam) 0x200 0x402000 = some (0, grown richRam) :=
  eq_some_of_fst richRam_calls.2.2.1 _

/-- Without a frame for the page tables the last call fails, behind the change of the break. -/
lemma poorRam_calls :
    (mmAlloc (boot poorRam)).map Prod.fst = some 0x200 ∧
    (mmSetupExecutable (created poorRam) 0x200 0x400000 0x401000 0x402000).map Prod.fst = some 0 ∧
    (mmExpandHeap (started poorRam) 0x200 0x402000).map Prod.fst = some (-1) ∧
    ((started poorRam).descriptors 0x200).brk = 0x402000 ∧
    ((grown poorRam).descriptors 0x200).brk = 0x412000 ∧
    pageMap (grown poorRam).vmm.machine
      (rootOf (grown poorRam).vmm ((grown poorRam).descriptors 0x200).as) 0x402 = none := by
  decide +kernel

lemma poorRam_alloc : mmAlloc (boot poorRam) = some (0x200, created poorRam) :=
  eq_some_of_fst poorRam_calls.1 _

lemma poorRam_setup : mmSetupExecutable (created poorRam) 0x200 0x400000 0x401000 0x402000 =
    some (0, started poorRam) :=
  eq_some_of_fst poorRam_calls.2.1 _

lemma poorRam_heap : mmExpandHeap (started poorRam) 0x200 0x402000 = some (-1, grown poorRam) :=
  eq_some_of_fst poorRam_calls.2.2.1 _

lemma richRam_kernel : (boot richRam).vmm.kernelAs ∈ objects (boot richRam).vmm.machine := by
  show (0x100 : VirtAddr) ≠ 0 ∧ (0x100 : VirtAddr) ∉ taskObjects.tail
  decide

lemma poorRam_kernel : (boot poorRam).vmm.kernelAs ∈ objects (boot poorRam).vmm.machine :=
  richRam_kernel

lemma poorRam_unmapped : ¬(grown poorRam).Mapped 0x200 0x402 := by
  obtain ⟨-, -, -, -, -, hnone⟩ := poorRam_calls
  exact fun hmapped => hmapped hnone

/-- The heap did not grow, and everything is given back. -/
theorem live_restored_poorRam :
    live (mmFree (grown poorRam) 0x200).vmm.machine = live (boot poorRam).vmm.machine := by
  have hrun : FaultRun 0x200 (started poorRam) [(started poorRam, .heap 0x402000)]
      (grown poorRam) := .cons poorRam_heap (.nil _)
  have hvalid : ∀ c ∈ [(started poorRam, Fault.heap 0x402000)], c.2.Valid := by
    rw [forall_mem_singleton]
    show (0x402000 : VirtAddr).toNat + heapGrowSize.toNat ≤ 2 ^ 47
    decide
  apply (live_restored_iff poorRam_kernel poorRam_alloc (by decide) poorRam_setup hrun hvalid).mpr
  have hnot : ¬(Fault.heap 0x402000).Keeps (started poorRam) 0x200 :=
    fun hkeeps => absurd hkeeps.2.2.tables (by decide +kernel)
  simpa only [forall_mem_singleton] using hnot

/-- A page of the stack is still in use after `mm_free`. -/
theorem stack_page_leaked :
    mmAlloc (boot richRam) = some (0x200, created richRam) ∧
    mmSetupExecutable (created richRam) 0x200 0x400000 0x401000 0x402000 =
      some (0, started richRam) ∧
    ∃ k, mmExpandStack (started richRam) 0x200 0x7FFFFFFFF000 = some (0, k) ∧
      0xA000 ∉ live (boot richRam).vmm.machine ∧
      0xA000 ∈ live (mmFree k 0x200).vmm.machine := by
  have hcall : mmExpandStack (started richRam) 0x200 0x7FFFFFFFF000 = some (0, _) :=
    eq_some_of_fst (by decide +kernel) (0, boot richRam)
  have hpage : (pmmAllocPage (started richRam).vmm.machine).1 = 0xA000 := by decide +kernel
  rcases mmAlloc_inv richRam_kernel richRam_alloc (by decide) with ⟨root, h, -⟩
  rcases (h.setup richRam_setup).1.expandStack (by decide) hcall with ⟨hzero, -⟩ | ⟨-, h', -⟩
  · rw [hpage] at hzero
    exact absurd hzero (by decide)
  · rw [hpage] at h'
    have hmem : (0xA000 : PhysAddr) ∈ (∅ ∪ {0xA000} : Set PhysAddr) := Or.inr rfl
    refine ⟨richRam_alloc, richRam_setup, _, hcall,
      fun hlive => Set.disjoint_left.mp h'.fresh hlive hmem, ?_⟩
    rw [h'.free]
    exact Or.inr hmem

/-- After one block the first 16 pages of the heap are mapped. -/
theorem heap_filled_richRam :
    HeapFilled (grown richRam) 0x200 0x402000 ∧
      ((grown richRam).descriptors 0x200).brk = 0x412000 := by
  have hrun : FaultRun 0x200 (started richRam) [(started richRam, .heap 0x402000)]
      (grown richRam) := .cons richRam_heap (.nil _)
  have hcalls : HeapCalls 0x200 0x402000 [(started richRam, Fault.heap 0x402000)] := by
    have hfit : TablesFit (started richRam) 0x200 0x402000 := by
      unfold TablesFit
      decide +kernel
    unfold HeapCalls
    simp only [forall_mem_singleton]
    exact ⟨0x402000, rfl, by decide, by decide, hfit⟩
  refine ⟨(heap_filled_to_break richRam_kernel richRam_alloc (by decide) richRam_setup (by decide)
    hrun hcalls).1, ?_⟩
  exact richRam_calls.2.2.2

/-- A call that fails moves the break over pages that are not mapped. -/
theorem failed_growth_moves_break :
    mmAlloc (boot poorRam) = some (0x200, created poorRam) ∧
      mmSetupExecutable (created poorRam) 0x200 0x400000 0x401000 0x402000 =
        some (0, started poorRam) ∧
      mmExpandHeap (started poorRam) 0x200 0x402000 = some (-1, grown poorRam) ∧
      ((started poorRam).descriptors 0x200).brk = 0x402000 ∧
      ((grown poorRam).descriptors 0x200).brk = 0x412000 ∧
      ¬(grown poorRam).Mapped 0x200 0x402 := by
  obtain ⟨-, -, -, hbefore, hafter, -⟩ := poorRam_calls
  exact ⟨poorRam_alloc, poorRam_setup, poorRam_heap, hbefore, hafter, poorRam_unmapped⟩

end LunOS.MemMgr
