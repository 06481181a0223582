import LunOS.Vmm.Common

/-!
# The memory of user tasks

`memmgr.c`: memory descriptors with their regions, and the growth of stack and heap at page faults.
A descriptor is known by its address, and the list of its regions is a list of records that carry
their addresses. Where the source writes through a pointer that may be `NULL`, the result is `none`.
The fields `mmap_base`, `total_vm` and `rss`, which are never read, are left out.
-/

namespace LunOS.MemMgr
open LunOS.Vmm PageMachine

/-- `STACK_SIZE` -/
def stackSize : BitVec 64 := 8 * 1024 * 1024

/-- `STACK_TOP` -/
def stackTop : VirtAddr := 0x00007FFFFFFFFFFF

/-- `HEAP_GROW_SIZE` -/
def heapGrowSize : BitVec 64 := 64 * 1024

/-- `HEAP_GROW_ORDER` -/
def heapGrowOrder : ℕ := 4

/-- `HEAP_SIZE` -/
def heapSize : BitVec 64 := 1024 * 1024 * 1024

/-- `GUARD_SIZE` -/
def guardSize : BitVec 64 := pageSize

def rpRead : BitVec 64 := 1
def rpWrite : BitVec 64 := 2
def rpExec : BitVec 64 := 4
def rpHeap : BitVec 64 := 8
def rpStack : BitVec 64 := 16

def pteNx : PageTableEntry := 0x8000000000000000

/-- The functions of `buddy_allocator.c` for blocks of pages. The allocator returns 0 when it
fails. -/
class BuddyMachine (σ : Type*) where
  buddyAllocPages : σ → ℕ → PhysAddr × σ
  buddyFreePages : σ → PhysAddr → ℕ → σ

/-- `struct mem_region` at `addr`; the region is `[start, stop]`. -/
structure MemRegion where
  addr : VirtAddr
  start : VirtAddr
  stop : VirtAddr
  flags : BitVec 64

/-- `struct mem_descriptor` -/
structure MemDescriptor where
  as : VirtAddr
  regions : List MemRegion
  brk : VirtAddr

/-- The virtual memory manager and the memory descriptors by address. -/
structure MmState (σ : Type*) where
  vmm : VmmState σ
  descriptors : VirtAddr → MemDescriptor

section
variable {σ : Type*}

/-- The machine is replaced. -/
def MmState.setMachine (k : MmState σ) (s : σ) : MmState σ :=
  { k with vmm := { k.vmm with machine := s } }

/-- The descriptor at `mm` is replaced. -/
def MmState.setDescriptor (k : MmState σ) (mm : VirtAddr) (d : MemDescriptor) : MmState σ :=
  { k with descriptors := Function.update k.descriptors mm d }

variable (k : MmState σ) (mm : VirtAddr) (d : MemDescriptor)

@[simp] lemma MmState.setDescriptor_vmm : (k.setDescriptor mm d).vmm = k.vmm := rfl

@[simp] lemma MmState.setDescriptor_self : (k.setDescriptor mm d).descriptors mm = d :=
  Function.update_self _ _ _

end

variable {σ : Type*} [PageMachine σ]

/-! ## Regions -/

def sizeofMemRegion : ℕ := 32
def sizeofMemDescriptor : ℕ := 48

lemma sizeofMemRegion_le : sizeofMemRegion ≤ 2048 := by decide

lemma sizeofMemDescriptor_le : sizeofMemDescriptor ≤ 2048 := by decide

/-- `mm_add_region` -/
def mmAddRegion (k : MmState σ) (mm start stop : VirtAddr) (flags : BitVec 64) :
    Option (ℤ × MmState σ) :=
  if mm = 0 ∨ stop ≤ start then some (-1, k)
  else
    let (region, s) := kmalloc k.vmm.machine sizeofMemRegion
    -- the source does not check for `NULL`
    if region = 0 then none
    else
      let d := k.descriptors mm
      some (0, (k.setMachine s).setDescriptor mm
        { d with regions := ⟨region, start, stop, flags⟩ :: d.regions })

/-- `mm_remove_region`, for a region with exactly these ends. -/
def mmRemoveRegion (k : MmState σ) (mm start stop : VirtAddr) : ℤ × MmState σ :=
  if mm = 0 ∨ stop ≤ start then (-1, k)
  else
    let d := k.descriptors mm
    let isRegion := fun r : MemRegion => r.start = start ∧ r.stop = stop
    match d.regions.find? isRegion with
    | some rmr => (0, (k.setMachine (kfree k.vmm.machine rmr.addr)).setDescriptor mm
        { d with regions := d.regions.eraseP isRegion })
    | none => (-1, k)

/-- The region of an address, `none` for `NULL`. -/
def mmFindRegion (k : MmState σ) (mm vaddr : VirtAddr) : Option MemRegion :=
  if mm = 0 then none
  else (k.descriptors mm).regions.find? fun r => r.start ≤ vaddr ∧ vaddr ≤ r.stop

/-- `mm_check_access` -/
def mmCheckAccess (k : MmState σ) (mm addr : VirtAddr) (accessFlags : BitVec 64) : Bool :=
  match mmFindRegion k mm addr with
  | none => false
  | some region =>
    -- a guard page
    if region.flags = 0 then false
    else region.flags &&& accessFlags = accessFlags

/-! ## Descriptors -/

/-- The new descriptor, 0 for `NULL`. -/
def mmAlloc (k : MmState σ) : Option (VirtAddr × MmState σ) :=
  let (memDesc, s) := kmalloc k.vmm.machine sizeofMemDescriptor
  let (as, v) := vmmCreateAddressSpace { k.vmm with machine := s }
  let k := { k with vmm := v }
  if as = 0 then some (0, k)
  -- the source does not check for `NULL`
  else if memDesc = 0 then none
  else some (memDesc, k.setDescriptor memDesc ⟨as, [], 0⟩)

/-- `mm_free` -/
def mmFree (k : MmState σ) (mm : VirtAddr) : MmState σ :=
  if mm = 0 then k
  else
    let d := k.descriptors mm
    let v := vmmDestroyAddressSpace k.vmm d.as
    let s := d.regions.foldl (fun s r => kfree s r.addr) v.machine
    let k := { k with vmm := { v with machine := s } }.setDescriptor mm { d with regions := [] }
    k.setMachine (kfree k.vmm.machine mm)

/-- `(x + PAGE_SIZE - 1) & ~(PAGE_SIZE - 1)` -/
def pageUp (x : VirtAddr) : VirtAddr := (x + pageSize - 1) &&& ~~~(pageSize - 1)

/-- The first page behind the data. -/
def heapStart (dataEnd : VirtAddr) : VirtAddr := pageUp dataEnd

/-- `mm_setup_executable` -/
def mmSetupExecutable (k : MmState σ) (mm codeStart codeEnd dataEnd : VirtAddr) :
    Option (ℤ × MmState σ) := do
  let (_, k) ← mmAddRegion k mm codeStart codeEnd (rpRead ||| rpExec)
  let dataStart := pageUp codeEnd
  let (_, k) ← mmAddRegion k mm dataStart dataEnd (rpRead ||| rpWrite)
  let heapEnd := heapStart dataEnd + heapSize - 1
  if mm = 0 then none
  else
    let k := k.setDescriptor mm { k.descriptors mm with brk := heapStart dataEnd }
    let guardHeap := heapEnd + guardSize
    let (_, k) ← mmAddRegion k mm (heapStart dataEnd) heapEnd (rpRead ||| rpWrite ||| rpHeap)
    let (_, k) ← mmAddRegion k mm (heapEnd + 1) guardHeap 0
    let stackBottom := stackTop - stackSize + 1
    let guardStack := stackBottom - guardSize
    let (_, k) ← mmAddRegion k mm guardStack (stackBottom - 1) 0
    let (_, k) ← mmAddRegion k mm stackBottom stackTop (rpRead ||| rpWrite ||| rpStack)
    some (0, k)

/-! ## Growth -/

/-- The flags of pages that grow stack and heap. -/
def growFlags : PageTableEntry := ptePresent ||| pteWritable ||| pteUser ||| pteNx

/-- `mm_expand_stack`: one page, at the fault. -/
def mmExpandStack (k : MmState σ) (mm faultAddr : VirtAddr) : Option (ℤ × MmState σ) :=
  let (physPage, s) := pmmAllocPage k.vmm.machine
  let k := k.setMachine s
  if physPage = 0 then some (-1, k)
  else if mm = 0 then none
  else
    let (r, v) := vmmMapPage k.vmm (k.descriptors mm).as faultAddr physPage growFlags
    some (r, { k with vmm := v })

/-- `mm_expand_heap`: a block of 16 pages, at the break. -/
def mmExpandHeap [BuddyMachine σ] (k : MmState σ) (mm faultAddr : VirtAddr) :
    Option (ℤ × MmState σ) :=
  if mm = 0 then none
  else if faultAddr < (k.descriptors mm).brk then some (0, k)
  else
    let growStart := (k.descriptors mm).brk
    let (physStart, s) := BuddyMachine.buddyAllocPages k.vmm.machine heapGrowOrder
    let k := k.setMachine s
    if physStart = 0 then some (-1, k)
    else
      let (ret, v) := vmmMapRange k.vmm (k.descriptors mm).as growStart physStart heapGrowSize
        growFlags
      let s := if ret ≠ 0 then BuddyMachine.buddyFreePages v.machine physStart heapGrowOrder
        else v.machine
      let k := { k with vmm := { v with machine := s } }
      some (ret, k.setDescriptor mm { k.descriptors mm with brk := growStart + heapGrowSize })

/-! ## Page faults -/

def pfWrite : BitVec 64 := 2
def pfInstr : BitVec 64 := 16

/-- `err_code_to_access_flags` -/
def errCodeToAccessFlags (errorCode : BitVec 64) : BitVec 64 :=
  if errorCode &&& pfInstr ≠ 0 then rpExec
  else if errorCode &&& pfWrite ≠ 0 then rpWrite
  else rpRead

/-- `mm_page_fault_handler` -/
def mmPageFaultHandler [BuddyMachine σ] (k : MmState σ) (faultAddr errorCode : BitVec 64) :
    Option (MmState σ) :=
  -- the source does not look up the current task yet
  let mm : VirtAddr := 0
  if mmCheckAccess k mm faultAddr (errCodeToAccessFlags errorCode) = false then some k
  else
    match mmFindRegion k mm faultAddr with
    | none => none
    | some region =>
      if region.flags &&& rpStack ≠ 0 then (mmExpandStack k mm faultAddr).map Prod.snd
      else if region.flags &&& rpHeap ≠ 0 then (mmExpandHeap k mm faultAddr).map Prod.snd
      else some k

end LunOS.MemMgr
