import LunOS.SlabAllocator.Common

/-!
# `kmalloc`, `kfree` and single pages

The entry points of `pmm.c`, on virtual addresses of the direct map. Small requests go to the slab
caches; large ones, and small ones no slab could be made for, get a block of the buddy allocator
with a `struct alloc_header` in front (`magic` at 0, `size` at 8, `order` at 12, 16 bytes in all)
and an end marker behind. The locks are not part of this model.
-/

namespace LunOS.Pmm
open LunOS.Memory LunOS.BuddyAllocator LunOS.SlabAllocator

/-- `ALLOC_MAGIC` -/
def allocMagic : ℕ := 0xDEADBEEFCAFEBABE

/-- `FREED_PATTERN` -/
def freedPattern : ℕ := 0xDEADDEADDEADDEAD

/-- `SLAB_THRESHOLD` -/
def slabThreshold : ℕ := 2048

/-- `sizeof(struct alloc_header)`. -/
def allocHeaderSize : ℕ := 16

/-- `virt_to_phys`. -/
def virtToPhys (s : SlabState) (v : ℕ) : ℕ := u64 (v + (2 ^ 64 - s.buddy.hhdmOffset))

/-- The field of `n` bytes at a virtual address. -/
def load (s : SlabState) (v n : ℕ) : ℕ := readLE s.buddy.mem (virtToPhys s v) n

/-- What `kmalloc` does: return `NULL`, return a pointer, or never return. -/
inductive KmallocResult
  | null
  | ptr (v : ℕ)
  | hang
deriving DecidableEq

/-- `while (block_size < total_size) { order++; block_size <<= 1; }`. A total above `2 ^ 63` makes
`block_size` wrap to 0, where it stays; 64 turns decide. -/
def orderLoop (totalSize : ℕ) : ℕ → ℕ → ℕ → Option ℕ
  | 0, _, _ => none
  | fuel + 1, order, blockSize =>
    if blockSize < totalSize then
      orderLoop totalSize fuel ((order + 1) % 256) (u64 (blockSize <<< 1))
    else some order

/-- The header and the end marker `kmalloc` writes. -/
def writeAllocHeader (s : SlabState) (phys size order : ℕ) : SlabState :=
  let s := s.store phys 8 allocMagic
  let s := s.store (phys + 8) 4 size
  let s := s.store (phys + 12) 1 order
  s.store (phys + allocHeaderSize + size % 2 ^ 32) 8 allocMagic

/-- `kmalloc` from the computation of `total_size` on. -/
def kmallocBuddy (s : SlabState) (size : ℕ) : KmallocResult × SlabState :=
  match orderLoop (u64 (allocHeaderSize + size + 4)) 64 0 pageFrameSize with
  | none => (.hang, s)
  | some order =>
    if maxSupportedOrder ≤ order then (.null, s)
    else match buddyAllocPages s.buddy order with
      | (none, b) => (.null, { s with buddy := b })
      | (some 0, b) => (.null, { s with buddy := b })
      | (some phys, b) =>
        (.ptr (b.physToVirt (phys + allocHeaderSize)),
          writeAllocHeader { s with buddy := b } phys size order)

/-- `kmalloc` -/
def kmalloc (s : SlabState) (size : ℕ) : KmallocResult × SlabState :=
  if size = 0 then (.null, s)
  else if size ≤ slabThreshold then
    match slabAllocSize false s size with
    | (.object p, s) => (.ptr (s.buddy.physToVirt p), s)
    | (_, s) => kmallocBuddy s size
  else kmallocBuddy s size

/-- Whether `kmalloc` gets the memory from the slab caches. -/
def slabServes (s : SlabState) (size : ℕ) : Bool :=
  size ≠ 0 && size ≤ slabThreshold &&
    match (slabAllocSize false s size).1 with
    | .object _ => true
    | _ => false

/-- The ways out of `kfree`. -/
inductive KfreeResult
  | null
  | slabDoubleFree
  | slabFreed
  | buddyDoubleFree
  | corrupted
  | buddyFreed
deriving DecidableEq

/-- `kfree` for a pointer that is in no slab. -/
def kfreeBuddy (s : SlabState) (ptr : ℕ) : KfreeResult × SlabState :=
  let header := u64 (ptr + (2 ^ 64 - allocHeaderSize))
  let size := load s (u64 (header + 8)) 4
  if load s header 8 = freedPattern then (.buddyDoubleFree, s)
  else if load s header 8 ≠ allocMagic ∨ load s (u64 (ptr + size)) 8 ≠ allocMagic then
    (.corrupted, s)
  else
    let phys := virtToPhys s header
    let s := s.store phys 8 freedPattern
    (.buddyFreed,
      { s with buddy := buddyFreePages s.buddy phys (load s (u64 (header + 12)) 1) })

/-- `kfree`, with what it found. -/
def kfree (s : SlabState) (ptr : ℕ) : KfreeResult × SlabState :=
  if ptr = 0 then (.null, s)
  else match slabFindContaining s ptr with
    | some a =>
      if load s ptr 8 = freedPattern then (.slabDoubleFree, s)
      else (.slabFreed, slabFree s a (virtToPhys s ptr))
    | none => kfreeBuddy s ptr

/-- `pmm_alloc_page` -/
def pmmAllocPage (s : SlabState) : Option ℕ × SlabState :=
  let (phys, b) := buddyAllocPage s.buddy
  (phys, { s with buddy := b })

/-- `pmm_free_page` -/
def pmmFreePage (s : SlabState) (phys : ℕ) : SlabState :=
  { s with buddy := buddyFreePage s.buddy phys }

/-- A client stores a byte at a virtual address. -/
def storeByte (s : SlabState) (v : ℕ) (b : UInt8) : SlabState :=
  { s with buddy := { s.buddy with mem := Function.update s.buddy.mem (virtToPhys s v) b } }

/-- A pointer a client got from `kmalloc`, with the size it asked for. -/
structure Alloc where
  ptr : ℕ
  size : ℕ
deriving DecidableEq

/-- The allocators and the pointers the clients hold. -/
structure PmmRun where
  slabs : SlabState
  live : List Alloc

/-- Freshly filled arenas and initialised caches. -/
def PmmRun.init (specs : List ArenaSpec) (hhdm : ℕ) (mem : Mem) (counter addr : ℕ) : PmmRun :=
  ⟨slabAllocatorInit (fillArenas (Buddy.boot hhdm mem counter) specs) addr, []⟩

/-- A run with the pages that `pmm_alloc_page` handed out, and the pointers that the slab caches
handed out. -/
structure RouteRun where
  run : PmmRun
  pages : List ℕ
  slabPtrs : List ℕ

/-- The allocators with other contents of memory. -/
def withMem (s : SlabState) (m : Mem) : SlabState := { s with buddy := { s.buddy with mem := m } }

/-- One step. Requests are in `P`; what the owner of a page may leave in memory is in `Q`. -/
inductive RouteStep (P : ℕ → Prop) (Q : Mem → ℕ → Prop) : RouteRun → RouteRun → Prop
  | kmallocPtr {r : RouteRun} {size v : ℕ} {s : SlabState} (hsize : P size)
      (h : kmalloc r.run.slabs size = (.ptr v, s)) :
      RouteStep P Q r ⟨⟨s, ⟨v, size⟩ :: r.run.live⟩, r.pages,
        if slabServes r.run.slabs size then v :: r.slabPtrs else r.slabPtrs⟩
  | kmallocNull {r : RouteRun} {size : ℕ} {s : SlabState} (hsize : P size)
      (h : kmalloc r.run.slabs size = (.null, s)) :
      RouteStep P Q r ⟨⟨s, r.run.live⟩, r.pages, r.slabPtrs⟩
  | kfree {r : RouteRun} {al : Alloc} (h : al ∈ r.run.live) :
      RouteStep P Q r ⟨⟨(kfree r.run.slabs al.ptr).2, r.run.live.erase al⟩, r.pages,
        r.slabPtrs.filter (· ≠ al.ptr)⟩
  | write {r : RouteRun} {al : Alloc} {v : ℕ} (b : UInt8) (h : al ∈ r.run.live)
      (hv : al.ptr ≤ v ∧ v < al.ptr + al.size) :
      RouteStep P Q r ⟨⟨storeByte r.run.slabs v b, r.run.live⟩, r.pages, r.slabPtrs⟩
  | allocPage {r : RouteRun} {a : ℕ} {s : SlabState} (h : pmmAllocPage r.run.slabs = (some a, s)) :
      RouteStep P Q r ⟨⟨s, r.run.live⟩, a :: r.pages, r.slabPtrs⟩
  | allocPageNone {r : RouteRun} {s : SlabState} (h : pmmAllocPage r.run.slabs = (none, s)) :
      RouteStep P Q r ⟨⟨s, r.run.live⟩, r.pages, r.slabPtrs⟩
  | freePage {r : RouteRun} {a : ℕ} (h : a ∈ r.pages) :
      RouteStep P Q r ⟨⟨pmmFreePage r.run.slabs a, r.run.live⟩, r.pages.erase a, r.slabPtrs⟩
  | writePage {r : RouteRun} {a : ℕ} {m : Mem} (h : a ∈ r.pages)
      (hm : ∀ z, ¬(a ≤ z ∧ z < a + pageFrameSize) → m z = r.run.slabs.buddy.mem z) (hQ : Q m a) :
      RouteStep P Q r ⟨⟨withMem r.run.slabs m, r.run.live⟩, r.pages, r.slabPtrs⟩

/-- The states of runs from `r₀`. -/
def RouteReachable (P : ℕ → Prop) (Q : Mem → ℕ → Prop) (r₀ : RouteRun) : RouteRun → Prop :=
  Runs.Reachable (· = r₀) (RouteStep P Q)

/-- Nothing is handed out. -/
def RouteRun.init (specs : List ArenaSpec) (hhdm : ℕ) (mem : Mem) (counter addr : ℕ) : RouteRun :=
  ⟨PmmRun.init specs hhdm mem counter addr, [], []⟩

/-- A page at an 8 KiB boundary does not begin with the magic number of a slab. -/
def NoSlabMagic (m : Mem) (a : ℕ) : Prop := 8192 ∣ a → readLE m a 8 ≠ slabMagic

end LunOS.Pmm
