import Mathlib.Data.List.FinRange
import Mathlib.Data.Set.Lattice
import Mathlib.Tactic
import Mathlib.Order.CompletePartialOrder

/-!
# The virtual memory manager

The page tables of `vmm.c`: walking, mapping, unmapping, and the creation and destruction of address
spaces. The functions run on any machine with the memory of page tables and the functions of `pmm.c`
(`PageMachine`). A page table is known by the virtual address of its frame in the higher-half direct
map, an entry by its table and its index, and a `struct addr_space` by its address. The TLB is in
`LunOS.Vmm.Tlb`.
-/

namespace LunOS.Vmm
open Function

abbrev VirtAddr := BitVec 64
abbrev PhysAddr := BitVec 64
abbrev PageTableEntry := BitVec 64

/-- An index into `page_table.entries`. -/
abbrev Index := Fin 512

instance neZero_index : NeZero 512 := ⟨by decide⟩

/-- `PAGE_SIZE` -/
def pageSize : BitVec 64 := 4096

/-- `PAGE_MASK` -/
def pageMask : BitVec 64 := ~~~(pageSize - 1)

def ptePresent : PageTableEntry := 1
def pteWritable : PageTableEntry := 2
def pteUser : PageTableEntry := 4

def pml4Index (addr : VirtAddr) : Index := Fin.ofNat 512 ((addr >>> 39) &&& 0x1FF).toNat
def pdpIndex (addr : VirtAddr) : Index := Fin.ofNat 512 ((addr >>> 30) &&& 0x1FF).toNat
def pdIndex (addr : VirtAddr) : Index := Fin.ofNat 512 ((addr >>> 21) &&& 0x1FF).toNat
def ptIndex (addr : VirtAddr) : Index := Fin.ofNat 512 ((addr >>> 12) &&& 0x1FF).toNat
def pageOffset (addr : VirtAddr) : BitVec 64 := addr &&& 0xFFF

/-- `PTE_ADDR` -/
def pteAddr (pte : PageTableEntry) : PhysAddr := pte &&& 0x000FFFFFFFFFF000

/-- `vmm_page_align_up` -/
def vmmPageAlignUp (vaddr : VirtAddr) : VirtAddr := (vaddr + pageSize - 1) &&& pageMask

/-- `vmm_page_align_down` -/
def vmmPageAlignDown (vaddr : VirtAddr) : VirtAddr := vaddr &&& pageMask

/-- The machine below the virtual memory manager: the entries of the page tables, by the virtual
address of the table, and the allocators of `pmm.c`. Both allocators return 0 when they fail. -/
class PageMachine (σ : Type*) where
  hhdmOffset : BitVec 64
  load : σ → VirtAddr → Index → PageTableEntry
  store : σ → VirtAddr → Index → PageTableEntry → σ
  /-- `memset(pt, 0, PAGE_SIZE)` -/
  memsetPage : σ → VirtAddr → σ
  pmmAllocPage : σ → PhysAddr × σ
  pmmFreePage : σ → PhysAddr → σ
  kmalloc : σ → ℕ → VirtAddr × σ
  kfree : σ → VirtAddr → σ

/-- `struct addr_space`; its `flags` are never read. -/
structure AddrSpace where
  pml4 : VirtAddr
  totalPages : BitVec 64

/-- The machine, the address spaces by address, and the variable `kernel_as`. -/
structure VmmState (σ : Type*) where
  machine : σ
  spaces : VirtAddr → AddrSpace
  kernelAs : VirtAddr

variable {σ : Type*} [PageMachine σ]
open PageMachine

/-- An address space is replaced. -/
def VmmState.setSpace (k : VmmState σ) (as : VirtAddr) (x : AddrSpace) : VmmState σ :=
  { k with spaces := update k.spaces as x }

section
omit [PageMachine σ]
variable (k : VmmState σ) (as : VirtAddr) (x : AddrSpace)

@[simp] lemma VmmState.setSpace_machine : (k.setSpace as x).machine = k.machine := rfl

@[simp] lemma VmmState.setSpace_kernelAs : (k.setSpace as x).kernelAs = k.kernelAs := rfl

@[simp] lemma VmmState.setSpace_self : (k.setSpace as x).spaces as = x :=
  update_self _ _ _

lemma VmmState.setSpace_of_ne {b : VirtAddr} (h : b ≠ as) :
    (k.setSpace as x).spaces b = k.spaces b :=
  update_of_ne h _ _

end

/-! ## Page tables -/

/-- `vmm_alloc_page_table` -/
def vmmAllocPageTable (s : σ) : Option VirtAddr × σ :=
  let (phys, s) := pmmAllocPage s
  if phys = 0 then (none, s)
  else (some (phys + hhdmOffset σ), memsetPage s (phys + hhdmOffset σ))

/-- `vmm_free_page_table` -/
def vmmFreePageTable (s : σ) (pt : VirtAddr) : σ :=
  if pt = 0 then s else pmmFreePage s (pt - hhdmOffset σ)

/-- The levels of `vmm_walk_page_table` above the last one, along the given indices. -/
def walkLevels (create : Bool) : List Index → VirtAddr → σ → Option VirtAddr × σ
  | [], current, s => (some current, s)
  | idx :: rest, current, s =>
    if load s current idx &&& ptePresent = 0 then
      if create then
        match vmmAllocPageTable s with
        | (none, s) => (none, s)
        | (some newPt, s) =>
          let phys := newPt - hhdmOffset σ
          let s := store s current idx (phys ||| ptePresent ||| pteWritable ||| pteUser)
          walkLevels create rest (pteAddr (load s current idx) + hhdmOffset σ) s
      else (none, s)
    else walkLevels create rest (pteAddr (load s current idx) + hhdmOffset σ) s

/-- The indices of an address above the last level. -/
def upperIndices (vaddr : VirtAddr) : List Index := [pml4Index vaddr, pdpIndex vaddr, pdIndex vaddr]

/-- The entry of an address on the last level, `none` for `NULL`. -/
def vmmWalkPageTable (k : VmmState σ) (as vaddr : VirtAddr) (create : Bool) :
    Option (VirtAddr × Index) × VmmState σ :=
  if as = 0 ∨ (k.spaces as).pml4 = 0 then (none, k)
  else
    let (pt, s) := walkLevels create (upperIndices vaddr) (k.spaces as).pml4 k.machine
    (pt.map fun pt => (pt, ptIndex vaddr), { k with machine := s })

/-! ## Mapping -/

/-- `_vmm_map_page_no_flush` and `vmm_map_page`, which differ in the TLB. -/
def mapPage (k : VmmState σ) (as vaddr : VirtAddr) (paddr : PhysAddr) (flags : BitVec 64) :
    ℤ × VmmState σ :=
  if as = 0 then (-1, k)
  else
    let vaddr := vmmPageAlignDown vaddr
    let paddr := vmmPageAlignDown paddr
    match vmmWalkPageTable k as vaddr true with
    | (none, k) => (-1, k)
    | (some (pt, i), k) =>
      if load k.machine pt i &&& ptePresent ≠ 0 then (-1, k)
      else
        let s := store k.machine pt i (paddr ||| flags ||| ptePresent)
        let x := k.spaces as
        (0, { k with machine := s }.setSpace as { x with totalPages := x.totalPages + 1 })

/-- `vmm_map_page_no_flush` -/
def vmmMapPageNoFlush (k : VmmState σ) (as vaddr : VirtAddr) (paddr : PhysAddr)
    (flags : BitVec 64) : ℤ × VmmState σ := mapPage k as vaddr paddr flags

/-- `vmm_map_page` -/
def vmmMapPage (k : VmmState σ) (as vaddr : VirtAddr) (paddr : PhysAddr) (flags : BitVec 64) :
    ℤ × VmmState σ := mapPage k as vaddr paddr flags

/-- `_vmm_unmap_page_no_flush` and `vmm_unmap_page`, which differ in the TLB. -/
def unmapPage (k : VmmState σ) (as vaddr : VirtAddr) : ℤ × VmmState σ :=
  if as = 0 then (-1, k)
  else
    match vmmWalkPageTable k as (vmmPageAlignDown vaddr) false with
    | (none, k) => (-1, k)
    | (some (pt, i), k) =>
      if load k.machine pt i &&& ptePresent = 0 then (-1, k)
      else
        let x := k.spaces as
        (0, { k with machine := store k.machine pt i 0 }.setSpace as
          { x with totalPages := x.totalPages - 1 })

/-- `vmm_unmap_page_no_flush` -/
def vmmUnmapPageNoFlush (k : VmmState σ) (as vaddr : VirtAddr) : ℤ × VmmState σ :=
  unmapPage k as vaddr

/-- `vmm_unmap_page` -/
def vmmUnmapPage (k : VmmState σ) (as vaddr : VirtAddr) : ℤ × VmmState σ := unmapPage k as vaddr

/-- The values of `v` in `for (v = vstart; v < vend; v += PAGE_SIZE)`. -/
def pagesFrom (vstart vend : VirtAddr) : List VirtAddr :=
  (List.range ((vend.toNat - vstart.toNat + 4095) / 4096)).map fun n =>
    vstart + BitVec.ofNat 64 (4096 * n)

/-- `vmm_unmap_range` -/
def vmmUnmapRange (k : VmmState σ) (as vaddr : VirtAddr) (size : BitVec 64) : ℤ × VmmState σ :=
  if as = 0 ∨ size = 0 then (-1, k)
  else
    let vstart := vmmPageAlignDown vaddr
    let vend := vmmPageAlignUp (vaddr + size)
    (0, (pagesFrom vstart vend).foldl (fun k v => (vmmUnmapPageNoFlush k as v).2) k)

/-- The loop of `vmm_map_range`, with its rollback. -/
def mapLoop (as vstart : VirtAddr) (flags : BitVec 64) :
    List VirtAddr → PhysAddr → VmmState σ → ℤ × VmmState σ
  | [], _, k => (0, k)
  | v :: vs, p, k =>
    let (r, k) := vmmMapPageNoFlush k as v p flags
    if r ≠ 0 then (-1, (vmmUnmapRange k as vstart (v - vstart)).2)
    else mapLoop as vstart flags vs (p + pageSize) k

/-- `vmm_map_range` -/
def vmmMapRange (k : VmmState σ) (as vaddr : VirtAddr) (paddr : PhysAddr) (size flags : BitVec 64) :
    ℤ × VmmState σ :=
  if as = 0 then (-1, k)
  else if size = 0 then (-1, k)
  else
    let vstart := vmmPageAlignDown vaddr
    let vend := vmmPageAlignUp (vaddr + size)
    mapLoop as vstart flags (pagesFrom vstart vend) (vmmPageAlignDown paddr) k

/-- `vmm_virt_to_phys` -/
def vmmVirtToPhys (k : VmmState σ) (as vaddr : VirtAddr) : PhysAddr :=
  if as = 0 then 0
  else
    match vmmWalkPageTable k as vaddr false with
    | (none, _) => 0
    | (some (pt, i), k) =>
      let pte := load k.machine pt i
      if pte &&& ptePresent = 0 then 0 else pteAddr pte ||| pageOffset vaddr

/-- `vmm_is_mapped` -/
def vmmIsMapped (k : VmmState σ) (as vaddr : VirtAddr) : Bool := vmmVirtToPhys k as vaddr ≠ 0

/-! ## Address spaces -/

def sizeofAddrSpace : ℕ := 24

lemma sizeofAddrSpace_le : sizeofAddrSpace ≤ 2048 := by decide

/-- The entries of the lower half of a PML4, and those of the upper half. -/
def lowerEntries : List Index := (List.finRange 512).filter (· < 256)

/-- The indices of the kernel half. -/
def upperEntries : List Index := (List.finRange 512).filter (256 ≤ ·)

/-- `none` if the new address space is `NULL`: `memset` writes to it before the check. -/
def vmmInit (s : σ) (cr3 : PhysAddr) : Option (ℤ × VmmState σ) :=
  let currentPml4 := cr3 + hhdmOffset σ
  let (as, s) := kmalloc s sizeofAddrSpace
  let k : VmmState σ := { machine := s, spaces := fun _ => ⟨0, 0⟩, kernelAs := as }
  if as = 0 then none
  else if currentPml4 = 0 then some (-1, k)
  else some (0, k.setSpace as ⟨currentPml4, 0⟩)

/-- The entries of one table are copied to another. -/
def copyEntries (dst src : VirtAddr) (idxs : List Index) (s : σ) : σ :=
  idxs.foldl (fun s i => store s dst i (load s src i)) s

/-- The new address space, 0 for `NULL`. -/
def vmmCreateAddressSpace (k : VmmState σ) : VirtAddr × VmmState σ :=
  let (as, s) := kmalloc k.machine sizeofAddrSpace
  if as = 0 then (0, { k with machine := s })
  else
    match vmmAllocPageTable s with
    | (none, s) => (0, { k with machine := kfree s as }.setSpace as ⟨0, 0⟩)
    | (some pml4, s) =>
      let k := { k with machine := s }.setSpace as ⟨pml4, 0⟩
      if k.kernelAs = 0 then (as, k)
      else
        let src := (k.spaces k.kernelAs).pml4
        (as, { k with machine := copyEntries pml4 src upperEntries k.machine })

/-- The loop over the children of a table that is about to be freed. -/
def freeChildren (freeChild : σ → PhysAddr → σ) (pt : VirtAddr) (idxs : List Index) (s : σ) : σ :=
  idxs.foldl (fun s i =>
    if load s pt i &&& ptePresent ≠ 0 then freeChild s (pteAddr (load s pt i)) else s) s

def freePdTable (s : σ) (pdPhys : PhysAddr) : σ :=
  let pd := pdPhys + hhdmOffset σ
  let s := freeChildren (fun s ptPhys => vmmFreePageTable s (ptPhys + hhdmOffset σ)) pd
    (List.finRange 512) s
  vmmFreePageTable s pd

def freePdpTable (s : σ) (pdpPhys : PhysAddr) : σ :=
  let pdp := pdpPhys + hhdmOffset σ
  let s := freeChildren freePdTable pdp (List.finRange 512) s
  vmmFreePageTable s pdp

/-- `vmm_destroy_address_space` -/
def vmmDestroyAddressSpace (k : VmmState σ) (as : VirtAddr) : VmmState σ :=
  if as = 0 ∨ as = k.kernelAs then k
  else
    let pml4 := (k.spaces as).pml4
    let s := freeChildren freePdpTable pml4 lowerEntries k.machine
    { k with machine := kfree (vmmFreePageTable s pml4) as }

end LunOS.Vmm
