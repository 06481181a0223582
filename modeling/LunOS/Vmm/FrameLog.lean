import LunOS.Vmm.Isolation

/-!
# Page tables are given back

A machine that logs the memory it hands out and takes back. Destroying an address space gives back
the frames that were taken for it, each once.

- `Logged`: the machine with its log.
- `Takes.logged`, `FreesAll.logged`: what the log says.
-/

namespace LunOS.Vmm
open LunOS.Radix PageMachine LawfulPageMachine List

/-- A machine with the frames that `pmm_alloc_page` returned and those that `pmm_free_page` got, and
the blocks that `kmalloc` returned and those that `kfree` got, the last one first. -/
structure Logged (σ : Type*) where
  machine : σ
  allocated : List PhysAddr
  freed : List PhysAddr
  obtained : List VirtAddr
  kfreed : List VirtAddr

section
variable {σ : Type*}

instance [PageMachine σ] : PageMachine (Logged σ) where
  hhdmOffset := hhdmOffset σ
  load s pt i := load s.machine pt i
  store s pt i e := { s with machine := store s.machine pt i e }
  memsetPage s pt := { s with machine := memsetPage s.machine pt }
  pmmAllocPage s :=
    let (phys, m) := pmmAllocPage s.machine
    (phys, { s with
      machine := m
      allocated := if phys = 0 then s.allocated else phys :: s.allocated })
  pmmFreePage s f := { s with machine := pmmFreePage s.machine f, freed := f :: s.freed }
  kmalloc s n :=
    let (p, m) := kmalloc s.machine n
    (p, { s with machine := m, obtained := if p = 0 then s.obtained else p :: s.obtained })
  kfree s p := { s with machine := kfree s.machine p, kfreed := p :: s.kfreed }

variable [LawfulPageMachine σ]

instance : LawfulPageMachine (Logged σ) where
  live s := live s.machine
  objects s := objects s.machine
  mapped hf := mapped hf
  load_store_self i e hf := load_store_self i e hf
  load_store_of_ne e hf hg hne := load_store_of_ne e hf hg hne
  live_store i e hf := live_store i e hf
  objects_store i e hf := objects_store i e hf
  load_memset_self i hf := load_memset_self i hf
  load_memset_of_ne i hf hg hne := load_memset_of_ne i hf hg hne
  live_memset hf := live_memset hf
  objects_memset hf := objects_memset hf
  alloc_fails hzero := alloc_fails hzero
  alloc_fresh hne := alloc_fresh hne
  alloc_frame hne := alloc_frame hne
  live_alloc hne := live_alloc hne
  load_alloc i hf := load_alloc i hf
  objects_alloc := objects_alloc
  live_free hf := live_free hf
  load_free i hf hg hne := load_free i hf hg hne
  objects_free hf := objects_free hf
  kmalloc_fails hn hzero := kmalloc_fails hn hzero
  kmalloc_fresh hn hne := kmalloc_fresh hn hne
  objects_kmalloc hn hne := objects_kmalloc hn hne
  live_kmalloc hn := live_kmalloc hn
  load_kmalloc i hn hf := load_kmalloc i hn hf
  objects_kfree hp := objects_kfree hp
  live_kfree hp := live_kfree hp
  load_kfree i hp hf := load_kfree i hp hf

/-! ## What the log says -/

variable {s s' : Logged σ} {fs : List PhysAddr}

lemma Takes.logged (h : Takes s fs s') :
    s'.allocated = fs ++ s.allocated ∧ s'.freed = s.freed := by
  induction h with
  | refl => exact ⟨rfl, rfl⟩
  | alloc _ hne ih =>
    refine ⟨?_, ih.2⟩
    rw [cons_append, ← ih.1]
    exact if_neg hne
  | allocFails _ hzero ih =>
    refine ⟨?_, ih.2⟩
    rw [← ih.1]
    exact if_pos hzero
  | memset _ _ ih => exact ih
  | store _ _ _ _ ih => exact ih

lemma freePages_logged (l : List PhysAddr) (s : Logged σ) :
    (l.foldl pmmFreePage s).freed = l.reverse ++ s.freed ∧
      (l.foldl pmmFreePage s).allocated = s.allocated := by
  induction l generalizing s with
  | nil => exact ⟨rfl, rfl⟩
  | cons f l ih =>
    rw [foldl_cons, (ih _).1, (ih _).2, reverse_cons, append_assoc]
    exact ⟨rfl, rfl⟩

lemma FreesAll.logged {X : Set PhysAddr} (h : FreesAll s X s') :
    ∃ gs : List PhysAddr, gs.Nodup ∧ (∀ f, f ∈ gs ↔ f ∈ X) ∧ s'.freed = gs ++ s.freed ∧
      s'.allocated = s.allocated := by
  rcases h with ⟨l, hnodup, hmem, hs⟩
  refine ⟨l.reverse, nodup_reverse.mpr hnodup, fun f => ?_, ?_, ?_⟩
  · rw [mem_reverse, hmem]
  · rw [hs, (freePages_logged l s).1]
  · rw [hs, (freePages_logged l s).2]

end

/-! ## The life of an address space -/

variable {σ : Type*} [LawfulPageMachine σ]

/-- The frames that were taken for a new address space by its creation and any calls on it are its
tables. -/
lemma taken_eq_tables {k k₁ k₂ : VmmState σ} {as : VirtAddr} {root : PhysAddr}
    (hcreated : Created k k₁ as root) {fs : List PhysAddr} (heffect : Effect k₁ k₂ as root)
    (htakes : Takes (kmalloc k.machine sizeofAddrSpace).2 fs k₂.machine) (f : PhysAddr) :
    f ∈ fs ↔ f ∈ spaceTables k₂.machine root := by
  rcases htakes.live_eq with ⟨hlive, hfresh⟩
  rw [live_kmalloc sizeofAddrSpace_le] at hlive hfresh
  have hgrows := heffect.grows.live_eq
  rw [hcreated.live_eq] at hgrows
  constructor
  · intro hf
    have hmem : f ∈ live k₂.machine := by
      rw [hlive]
      exact Or.inr hf
    rw [hgrows] at hmem
    rcases hmem with (hroot | hold) | hmem
    · rw [hroot]
      exact root_mem_tables
    · exact absurd hold (hfresh f hf)
    · exact hmem
  · intro hf
    have hmem : f ∈ live k₂.machine := heffect.grows.inv.tables_live hf
    rw [hlive] at hmem
    refine hmem.resolve_left fun hold => hcreated.fresh ?_
    -- a table that was in use before is the PML4
    have hold₁ : f ∈ live k₁.machine := by
      rw [hcreated.live_eq]
      exact Set.mem_insert_of_mem _ hold
    have htable : f ∈ spaceTables k₁.machine root := heffect.grows.fresh f hf hold₁
    rw [hcreated.tables_eq] at htable
    exact Set.mem_singleton_iff.mp htable ▸ hold

/-- Destroying an address space passes the frames to `pmm_free_page` that were taken for it, each
once: these are its tables of the lower half, and none of them was in use before. -/
theorem destroy_frees_allocated {k k₁ k₂ : VmmState (Logged σ)} {as : VirtAddr}
    (hkernel : k.kernelAs ∈ objects k.machine) (hcreate : vmmCreateAddressSpace k = (as, k₁))
    (has : as ≠ 0) {ops : List Op} (hops : ∀ op ∈ ops, op.Valid)
    (hrun : (execAll k₁ as ops).2 = k₂) :
    ∃ fs gs : List PhysAddr,
      k₂.machine.allocated = fs ++ k.machine.allocated ∧ k₂.machine.freed = k.machine.freed ∧
      (vmmDestroyAddressSpace k₂ as).machine.allocated = k₂.machine.allocated ∧
      (vmmDestroyAddressSpace k₂ as).machine.freed = gs ++ k₂.machine.freed ∧
      gs.Nodup ∧ (∀ f, f ∈ gs ↔ f ∈ fs) ∧ (∀ f, f ∈ gs ↔ f ∈ tablesOf k₂ as) ∧
      ∀ f ∈ gs, f ∉ live k.machine := by
  rcases vmmCreateAddressSpace_created hcreate has with ⟨root, hcreated⟩
  rcases execAll_spec hcreated.rep hops with ⟨hrep, heffect, -⟩
  rw [hrun] at hrep heffect
  rcases heffect.grows.takes with ⟨fs, hfs⟩
  have htakes := hcreated.takes.trans hfs
  have htables := taken_eq_tables hcreated heffect htakes
  have hne : as ≠ k₂.kernelAs := by
    rw [heffect.kernelAs, hcreated.kernelAs]
    exact (ne_of_mem_of_not_mem hkernel hcreated.object).symm
  have hroot := hrep.rootOf_eq
  rcases vmmDestroyAddressSpace_freed hrep.nonnull hrep.pml4 hrep.tree hne with ⟨s, hfree, hdestroy⟩
  rcases hfree.logged with ⟨gs, hnodup, hmem, hfreed, hallocated⟩
  have heq : ∀ f, f ∈ gs ↔ f ∈ fs ++ [root] := fun f => (hmem f).trans (htables f).symm
  have hfresh := htakes.live_eq.2
  rw [live_kmalloc sizeofAddrSpace_le] at hfresh
  refine ⟨fs ++ [root], gs, htakes.logged.1, htakes.logged.2, ?_, ?_, hnodup, heq, fun f => ?_,
    fun f hf => hfresh f ((heq f).mp hf)⟩
  · rw [hdestroy]
    exact hallocated
  · rw [hdestroy]
    exact hfreed
  · unfold tablesOf
    rw [hroot]
    exact hmem f

def loggedBoot : VmmState (Logged Ram) :=
  ((vmmInit ⟨bootRam, [], [], [], []⟩ 0x1000).get (by decide)).2

/-- A new address space after the calls of `onePageOps`. -/
def loggedRun : VmmState (Logged Ram) :=
  (execAll (vmmCreateAddressSpace loggedBoot).2 0x200 onePageOps).2

/-- The PML4 and three tables are given back. -/
theorem destroy_frees_allocated_onePage :
    loggedRun.machine.allocated.length = 4 ∧
    ∃ gs : List PhysAddr,
      (vmmDestroyAddressSpace loggedRun 0x200).machine.freed = gs ++ loggedRun.machine.freed ∧
      gs.Nodup ∧ ∀ f, f ∈ gs ↔ f ∈ loggedRun.machine.allocated := by
  have hkernel : loggedBoot.kernelAs ∈ objects loggedBoot.machine := by
    show (0x100 : VirtAddr) ≠ 0 ∧ (0x100 : VirtAddr) ∉ [0x200, 0x300]
    decide
  have has : (vmmCreateAddressSpace loggedBoot).1 = 0x200 := by decide
  have hvalid : ∀ op ∈ onePageOps, op.Valid := by decide
  refine ⟨by decide +kernel, ?_⟩
  have hrun : (execAll (vmmCreateAddressSpace loggedBoot).2 0x200 onePageOps).2 = loggedRun := by
    unfold loggedRun
    rfl
  have hcreate : vmmCreateAddressSpace loggedBoot = (0x200, (vmmCreateAddressSpace loggedBoot).2) :=
    Prod.ext has rfl
  rcases destroy_frees_allocated hkernel hcreate (by decide) hvalid hrun with
    ⟨fs, gs, hallocated, -, -, hfreed, hnodup, hmem, -, -⟩
  have hstart : loggedBoot.machine.allocated = [] := rfl
  rw [hstart, append_nil] at hallocated
  refine ⟨gs, by rw [hfreed], hnodup, fun f => ?_⟩
  rw [hallocated]
  exact hmem f

end LunOS.Vmm
