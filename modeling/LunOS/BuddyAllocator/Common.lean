import LunOS.Utils.Dyadic
import LunOS.Utils.Chain
import LunOS.Utils.Runs

/-!
# The buddy allocator

The globals of `buddy_allocator.c` and its operations. A free list is the list of the physical
addresses of its `struct free_block` nodes, head first; every node is also written to memory, in
the first 24 bytes of the block it stands for (`current_order` at 0, `phys_addr` at 8, `next` at
16), exactly where the source writes it. Pointers are direct-map addresses, `NULL` is 0.
-/

namespace LunOS.BuddyAllocator
open LunOS.Dyadic LunOS.Memory Function

/-- `MAX_SUPPORTED_ORDER` -/
def maxSupportedOrder : ℕ := 20

/-- `MAX_BUDDY_ARENAS` -/
def maxBuddyArenas : ℕ := 32

/-- `PAGE_FRAME_SIZE` -/
def pageFrameSize : ℕ := 4096

/-- Unsigned 64-bit arithmetic wraps. -/
def u64 (x : ℕ) : ℕ := x % 2 ^ 64

/-- `~(PAGE_FRAME_SIZE - 1)` as a 64-bit mask. -/
def pageFrameMask : ℕ := 2 ^ 64 - 2 ^ 12

/-- `(1ULL << order) * PAGE_FRAME_SIZE`. -/
def blockSize (order : ℕ) : ℕ := (1 <<< order) * pageFrameSize

/-- `struct buddy_arena`; a free list is the list of its addresses. -/
structure BuddyArena where
  base : ℕ
  length : ℕ
  maxArenaOrder : ℕ
  freeList : ℕ → List ℕ

/-- A zero-initialised entry of `buddy_arenas`. -/
def BuddyArena.zero : BuddyArena := ⟨0, 0, 0, fun _ => []⟩

/-- One free list of the arena is replaced. -/
def BuddyArena.setFreeList (ar : BuddyArena) (order : ℕ) (l : List ℕ) : BuddyArena :=
  { ar with freeList := update ar.freeList order l }

/-- The state the allocator works on: the arenas, their counter, the bytes of physical memory
and the offset of the direct map. -/
structure Buddy where
  hhdmOffset : ℕ
  mem : Mem
  buddyArenas : ℕ → BuddyArena
  buddyArenaCounter : ℕ

namespace Buddy

/-- The address of `a` in the direct map. -/
def physToVirt (b : Buddy) (a : ℕ) : ℕ := u64 (a + b.hhdmOffset)

/-- The pointer to the first node of a list. -/
def listPtr (b : Buddy) (l : List ℕ) : ℕ := Chain.headPtr b.physToVirt l

/-- One arena is replaced. -/
def setArena (b : Buddy) (i : ℕ) (ar : BuddyArena) : Buddy :=
  { b with buddyArenas := update b.buddyArenas i ar }

/-- Fill in the three fields of the node at `addr`. -/
def writeFreeBlock (b : Buddy) (addr order next : ℕ) : Buddy :=
  { b with
    mem := writeLE (writeLE (writeLE b.mem addr 1 order) (addr + 8) 8 addr) (addr + 16) 8 next }

/-- Write the node of a block and link it at the head of its list. -/
def linkBlock (b : Buddy) (i order addr : ℕ) : Buddy :=
  let ar := b.buddyArenas i
  (b.writeFreeBlock addr order (b.listPtr (ar.freeList order))).setArena i
    (ar.setFreeList order (addr :: ar.freeList order))

/-- `arena->free_list[order] = block->next` for the head block. -/
def unlinkHead (b : Buddy) (i order : ℕ) : Buddy :=
  let ar := b.buddyArenas i
  b.setArena i (ar.setFreeList order (ar.freeList order).tail)

/-- Take the first node with address `addr` out of its list. -/
def unlinkBlock (b : Buddy) (i order addr : ℕ) : Buddy :=
  let ar := b.buddyArenas i
  { b with mem := Chain.unlinkNext b.physToVirt 16 addr (ar.freeList order) b.mem }.setArena i
    (ar.setFreeList order ((ar.freeList order).erase addr))

end Buddy

/-! ## Filling an arena -/

/-- `while (((1ULL << (max_order + 1)) * PAGE_FRAME_SIZE) <= aligned_len) max_order++`. Lengths
below `2 ^ 63` leave the loop before the shift reaches the word size. -/
def maxOrderLoop (len : ℕ) : ℕ → ℕ → ℕ
  | 0, k => k
  | fuel + 1, k => if u64 (blockSize (k + 1)) ≤ len then maxOrderLoop len fuel (k + 1) else k

/-- The scan for the largest order that fits in the remaining space and is aligned. -/
def bestOrder (addr remaining : ℕ) (order : ℕ) : Option ℕ :=
  if blockSize order ≤ remaining ∧ addr &&& (blockSize order - 1) = 0 then some order
  else match order with
    | 0 => none
    | k + 1 => bestOrder addr remaining k

/-- The loop of `populate_buddy_blocks`. Every turn that links a block consumes a page. -/
def populateLoop (i endAddr : ℕ) : ℕ → ℕ → Buddy → Buddy
  | 0, _, b => b
  | fuel + 1, cur, b =>
    if cur < endAddr then
      if endAddr - cur < pageFrameSize then b
      else match bestOrder cur (endAddr - cur) (b.buddyArenas i).maxArenaOrder with
        | none => populateLoop i endAddr fuel (u64 (cur + pageFrameSize - 1) &&& pageFrameMask) b
        | some o => populateLoop i endAddr fuel (cur + blockSize o) (b.linkBlock i o cur)
    else b

/-- `populate_buddy_blocks` on arena `i`. -/
def populateBuddyBlocks (b : Buddy) (i : ℕ) : Buddy :=
  let ar := b.buddyArenas i
  populateLoop i (u64 (ar.base + ar.length)) (ar.length / pageFrameSize + 1) ar.base b

/-- Returns the status of the call (0 or -1) and the new state. -/
def addBuddyArena (b : Buddy) (i base len : ℕ) : ℤ × Buddy :=
  if maxBuddyArenas ≤ i then (-1, b)
  else if i = 0 then (0, { b with buddyArenaCounter := b.buddyArenaCounter + 1 })
  else
    let alignedBase := u64 (base + pageFrameSize - 1) &&& pageFrameMask
    let endAddr := u64 (base + len)
    if endAddr ≤ alignedBase then (-1, b)
    else
      let alignedLen := endAddr - alignedBase
      if alignedLen < pageFrameSize then (-1, b)
      else
        let maxOrder := min (maxOrderLoop alignedLen 64 0) maxSupportedOrder
        (0, populateBuddyBlocks
          (b.setArena i ⟨alignedBase, alignedLen, maxOrder, fun _ => []⟩) i)

/-! ## Allocation -/

/-- The splitting loop `for (k = j - 1; k >= order; --k)`, with `n = j - order` turns left: the
right half of the block at `addr` goes on the list of its order, the left half is split on. -/
def splitLoop (i order addr : ℕ) : ℕ → Buddy → Buddy
  | 0, b => b
  | n + 1, b => splitLoop i order addr n
      (b.linkBlock i (order + n) (addr + blockSize (order + n)))

/-- The loop over `j`: the first order above `order` whose list is not empty. -/
def findSplitOrder (ar : BuddyArena) (order : ℕ) : Option ℕ :=
  (List.range' (order + 1) (ar.maxArenaOrder - order)).find? fun j => !(ar.freeList j).isEmpty

/-- One turn of the arena loop of `buddy_alloc_pages`. -/
def allocFromArena (b : Buddy) (i order : ℕ) : Option (ℕ × Buddy) :=
  let ar := b.buddyArenas i
  match ar.freeList order with
  | a :: _ => some (a, b.unlinkHead i order)
  | [] =>
    match findSplitOrder ar order with
    | none => none
    | some j =>
      match ar.freeList j with
      | [] => none
      | a :: _ => some (a, splitLoop i order a (j - order) (b.unlinkHead i j))

/-- The arena loop, over the arena indices still to try. -/
def allocLoop (b : Buddy) (order : ℕ) : List ℕ → Option ℕ × Buddy
  | [] => (none, b)
  | i :: is =>
    match allocFromArena b i order with
    | some (a, b') => (some a, b')
    | none => allocLoop b order is

/-- `buddy_alloc_pages`. `none` is the final `return 0`; an allocated block is returned by its
physical address, so the C value is `0` exactly for `none` as long as no arena starts at page 0
(`buddy_allocator_init` moves such a base up by one page). -/
def buddyAllocPages (b : Buddy) (order : ℕ) : Option ℕ × Buddy :=
  if maxSupportedOrder < order then (none, b)
  else allocLoop b order (List.range b.buddyArenaCounter)

/-! ## Freeing -/

/-- The arena `phys_addr` lies in. -/
def findArena (b : Buddy) (addr : ℕ) : Option ℕ :=
  (List.range b.buddyArenaCounter).find? fun i =>
    (b.buddyArenas i).base ≤ addr && addr < (b.buddyArenas i).base + (b.buddyArenas i).length

/-- The coalescing loop `while (order < arena->max_arena_order)`, with the number of orders left
below the maximum as the loop counter. -/
def coalesceLoop (i : ℕ) : ℕ → Buddy → ℕ → ℕ → Buddy × ℕ × ℕ
  | 0, b, addr, order => (b, addr, order)
  | n + 1, b, addr, order =>
    let buddyAddr := addr ^^^ blockSize order
    if buddyAddr ∈ (b.buddyArenas i).freeList order then
      coalesceLoop i n (b.unlinkBlock i order buddyAddr)
        (if buddyAddr < addr then buddyAddr else addr) (order + 1)
    else (b, addr, order)

/-- `buddy_free_pages` -/
def buddyFreePages (b : Buddy) (addr order : ℕ) : Buddy :=
  if maxSupportedOrder < order then b
  else match findArena b addr with
    | none => b
    | some i =>
      let r := coalesceLoop i ((b.buddyArenas i).maxArenaOrder - order) b addr order
      r.1.linkBlock i r.2.2 r.2.1

/-- `buddy_alloc_page` -/
def buddyAllocPage (b : Buddy) : Option ℕ × Buddy := buddyAllocPages b 0

/-- `buddy_free_page` -/
def buddyFreePage (b : Buddy) (addr : ℕ) : Buddy := buddyFreePages b addr 0

/-! ## Runs

The caller's side of the interface: which blocks are live, and what their owners may do. -/

/-- The allocator together with the blocks that are handed out. -/
structure Tracked where
  buddy : Buddy
  live : List Block

/-- One step of a client: ask for a block, hand a live block back, or write a byte of a block
it holds. -/
inductive Step : Tracked → Tracked → Prop
  | allocSome {s : Tracked} {order a : ℕ} {b : Buddy}
      (h : buddyAllocPages s.buddy order = (some a, b)) : Step s ⟨b, ⟨a, order⟩ :: s.live⟩
  | allocNone {s : Tracked} {order : ℕ} {b : Buddy}
      (h : buddyAllocPages s.buddy order = (none, b)) : Step s ⟨b, s.live⟩
  | free {s : Tracked} {x : Block} (h : x ∈ s.live) :
      Step s ⟨buddyFreePages s.buddy x.addr x.order, s.live.erase x⟩
  | write {s : Tracked} {x : Block} {p : ℕ} {v : UInt8} (h : x ∈ s.live)
      (hp : x.addr ≤ p ∧ p < x.addr + blockSize x.order) :
      Step s ⟨{ s.buddy with mem := update s.buddy.mem p v }, s.live⟩

/-- An arena as it is passed to `add_buddy_arena`. -/
structure ArenaSpec where
  idx : ℕ
  base : ℕ
  len : ℕ

/-- The globals before any arena is added: all arenas zero. -/
def Buddy.boot (hhdm : ℕ) (mem : Mem) (counter : ℕ) : Buddy :=
  ⟨hhdm, mem, fun _ => BuddyArena.zero, counter⟩

/-- `add_buddy_arena` for each of the ranges. -/
def fillArenas (b : Buddy) (specs : List ArenaSpec) : Buddy :=
  specs.foldl (fun b s => (addBuddyArena b s.idx s.base s.len).2) b

/-- Arenas of index at least 1, below `2 ^ 52`, that do not overlap. -/
structure ValidSpecs (specs : List ArenaSpec) : Prop where
  idx_pos : ∀ s ∈ specs, 1 ≤ s.idx
  below : ∀ s ∈ specs, s.base + s.len ≤ 2 ^ 52
  disjoint : specs.Pairwise fun s t => s.base + s.len ≤ t.base ∨ t.base + t.len ≤ s.base

/-- States reachable from freshly filled arenas. -/
def Reachable (specs : List ArenaSpec) (b₀ : Buddy) : Tracked → Prop :=
  Runs.Reachable (· = ⟨fillArenas b₀ specs, []⟩) Step

end LunOS.BuddyAllocator
