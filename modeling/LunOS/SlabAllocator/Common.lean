import LunOS.BuddyAllocator.Common

/-!
# The slab allocator

The caches of `slab_allocator.c` and its operations, on top of the buddy allocator. A slab is
named by the physical address of its two pages, an object by its own physical address. The lists
of a cache and the free list of a slab are Lean lists, head first; every store of the source to a
`struct slab` (`magic` at 0, `cache` at 8, `phys_addr` at 16, `free_count` at 24, `free_list` at
32, `next` at 40) or to a `struct free_object` (`magic` at 0, `next` at 8) is also made in memory.
-/

namespace LunOS.SlabAllocator
open LunOS.Dyadic LunOS.Memory LunOS.BuddyAllocator Function

/-- `SLAB_MAGIC` -/
def slabMagic : ℕ := 0xCAFEBABEDEADBABE

/-- `OBJECT_POISON` -/
def objectPoison : ℕ := 0xDEADDEADDEADDEAD

/-- The sizes of the caches. -/
def slabSizes : List ℕ := [16, 32, 64, 128, 256, 512, 1024, 2048]

/-- `NUM_SLAB_SIZES`. -/
abbrev numSlabSizes : ℕ := slabSizes.length

/-- An index into `slab_sizes` and `slab_caches`. -/
abbrev CacheIdx := Fin numSlabSizes

/-- `sizeof(struct slab)`. -/
def slabHeaderSize : ℕ := 48

/-- `sizeof(struct slab_cache)`. -/
def slabCacheSize : ℕ := 72

/-- The three lists of a cache. -/
inductive SlabList
  | fullSlabs
  | partialSlabs
  | emptySlabs
deriving DecidableEq

/-- `struct slab_cache` -/
structure SlabCache where
  objectSize : ℕ
  objectsPerSlab : ℕ
  slabSize : ℕ
  lists : SlabList → List ℕ
  totalObjects : ℕ
  allocatedObjects : ℕ
  totalSlabs : ℕ

def SlabCache.setList (k : SlabCache) (w : SlabList) (l : List ℕ) : SlabCache :=
  { k with lists := update k.lists w l }

/-- The fields of `struct slab` that the operations read. `cache` is the index of the cache in
`slab_caches`. -/
structure Slab where
  cache : CacheIdx
  physAddr : ℕ
  freeCount : ℕ
  freeList : List ℕ

/-- The buddy allocator below, the array `slab_caches` and its address, and the slab headers.
`held` records the blocks the slab code has taken from `buddy_alloc_pages` and not returned. -/
structure SlabState where
  buddy : Buddy
  slabCachesAddr : ℕ
  slabCaches : CacheIdx → SlabCache
  slabs : ℕ → Slab
  held : List Block

namespace SlabState

/-- `n` bytes are stored. -/
def store (s : SlabState) (a n v : ℕ) : SlabState :=
  { s with buddy := { s.buddy with mem := writeLE s.buddy.mem a n v } }

def setSlab (s : SlabState) (a : ℕ) (r : Slab) : SlabState :=
  { s with slabs := update s.slabs a r }

def setCache (s : SlabState) (c : CacheIdx) (k : SlabCache) : SlabState :=
  { s with slabCaches := update s.slabCaches c k }

/-- The pointer `&slab_caches[c]`. -/
def cachePtr (s : SlabState) (c : CacheIdx) : ℕ := u64 (s.slabCachesAddr + slabCacheSize * c)

/-- `slab->free_count = n`. -/
def setFreeCount (s : SlabState) (a n : ℕ) : SlabState :=
  (s.setSlab a { s.slabs a with freeCount := n }).store (a + 24) 8 n

/-- `slab->free_list = l`. -/
def setFreeList (s : SlabState) (a : ℕ) (l : List ℕ) : SlabState :=
  (s.setSlab a { s.slabs a with freeList := l }).store (a + 32) 8 (s.buddy.listPtr l)

/-- `obj->next = slab->free_list; slab->free_list = obj`. -/
def linkObject (s : SlabState) (a obj : ℕ) : SlabState :=
  (s.store (obj + 8) 8 (s.buddy.listPtr (s.slabs a).freeList)).setFreeList a
    (obj :: (s.slabs a).freeList)

/-- `slab->next = cache->list; cache->list = slab`. -/
def linkSlab (s : SlabState) (c : CacheIdx) (w : SlabList) (a : ℕ) : SlabState :=
  let k := s.slabCaches c
  (s.store (a + 40) 8 (s.buddy.listPtr (k.lists w))).setCache c (k.setList w (a :: k.lists w))

/-- `*current = slab->next`, `current` being the link to the slab on one list. -/
def bypassSlab (s : SlabState) (c : CacheIdx) (w : SlabList) (a : ℕ) : SlabState :=
  let k := s.slabCaches c
  { s with
    buddy := { s.buddy with
      mem := Chain.unlinkNext s.buddy.physToVirt 40 a (k.lists w) s.buddy.mem } }.setCache c
    (k.setList w ((k.lists w).erase a))

/-- `*current = slab->next; slab->next = NULL`. -/
def unlinkSlab (s : SlabState) (c : CacheIdx) (w : SlabList) (a : ℕ) : SlabState :=
  (s.bypassSlab c w a).store (a + 40) 8 0

end SlabState

/-! ## Creating caches and slabs -/

/-- `(2 * PAGE_FRAME_SIZE - sizeof(struct slab)) / object_size`. -/
def calculateObjectsPerSlab (objectSize : ℕ) : ℕ :=
  (2 * pageFrameSize - slabHeaderSize) / objectSize

/-- `slab_cache_init` -/
def slabCacheInit (objectSize : ℕ) : SlabCache :=
  ⟨objectSize, calculateObjectsPerSlab objectSize, 2 * pageFrameSize, fun _ => [], 0, 0, 0⟩

/-- Every entry of `slab_caches` is initialised with its size. -/
def slabAllocatorInit (buddy : Buddy) (slabCachesAddr : ℕ) : SlabState :=
  ⟨buddy, slabCachesAddr, fun c => slabCacheInit (slabSizes.get c),
    fun _ => ⟨⟨0, by decide⟩, 0, 0, []⟩, []⟩

/-- The address of object `i` of a slab. -/
def objectAddr (a objectSize i : ℕ) : ℕ := a + slabHeaderSize + i * objectSize

/-- The loop of `slab_create` that links the objects, from the first on; `n` objects are done. -/
def createLoop (a objectSize : ℕ) : ℕ → SlabState → SlabState
  | 0, s => s
  | n + 1, s => (createLoop a objectSize n s).linkObject a (objectAddr a objectSize n)

/-- The header `slab_create` writes, field by field. -/
def initHeader (s : SlabState) (c : CacheIdx) (a : ℕ) : SlabState :=
  let n := (s.slabCaches c).objectsPerSlab
  let s := s.setSlab a ⟨c, a, n, []⟩
  let s := s.store (a + 8) 8 (s.cachePtr c)
  let s := s.store (a + 16) 8 a
  let s := s.store (a + 24) 8 n
  let s := s.store (a + 40) 8 0
  let s := s.store a 8 slabMagic
  s.store (a + 32) 8 0

/-- `slab_create`. The page allocation is made to fail when `fails` is set. A block at address 0
is taken for a failure. -/
def slabCreate (fails : Bool) (s : SlabState) (c : CacheIdx) : Option ℕ × SlabState :=
  match if fails then (none, s.buddy) else buddyAllocPages s.buddy 1 with
  | (none, b) => (none, { s with buddy := b })
  | (some 0, b) => (none, { s with buddy := b })
  | (some a, b) =>
    let s := initHeader { s with buddy := b, held := ⟨a, 1⟩ :: s.held } c a
    let s := createLoop a (s.slabCaches c).objectSize (s.slabCaches c).objectsPerSlab s
    let s := s.linkSlab c .emptySlabs a
    let k := s.slabCaches c
    (some a, s.setCache c
      { k with totalSlabs := k.totalSlabs + 1, totalObjects := k.totalObjects + k.objectsPerSlab })

/-! ## Allocating and freeing objects -/

/-- `a - b` in `size_t`. -/
def sizeSub (a b : ℕ) : ℕ := if b ≤ a then a - b else a + 2 ^ 64 - b

lemma sizeSub_of_le {a b : ℕ} (h : b ≤ a) : sizeSub a b = a - b := if_pos h

/-- Take the slab off the first of the partial, full and empty lists that has it; nothing happens
if none does. -/
def slabRemoveFromList (s : SlabState) (a : ℕ) (c : CacheIdx) : SlabState :=
  if a ∈ (s.slabCaches c).lists .partialSlabs then s.unlinkSlab c .partialSlabs a
  else if a ∈ (s.slabCaches c).lists .fullSlabs then s.unlinkSlab c .fullSlabs a
  else if a ∈ (s.slabCaches c).lists .emptySlabs then s.unlinkSlab c .emptySlabs a
  else s

/-- What `slab_alloc` returns: an object, or `NULL` because no slab could be made or because the
chosen slab had no free object. -/
inductive AllocResult
  | object (p : ℕ)
  | noSlab
  | freeListNull
deriving DecidableEq

/-- `slab_alloc` after the slab is chosen. -/
def slabAllocFrom (s : SlabState) (c : CacheIdx) (a : ℕ) : AllocResult × SlabState :=
  match (s.slabs a).freeList with
  | [] => (.freeListNull, s)
  | obj :: rest =>
    let s := s.setFreeList a rest
    let s := s.setFreeCount a (sizeSub (s.slabs a).freeCount 1)
    let k := s.slabCaches c
    let s := s.setCache c { k with allocatedObjects := k.allocatedObjects + 1 }
    (.object obj,
      if (s.slabs a).freeCount = 0 then (slabRemoveFromList s a c).linkSlab c .fullSlabs a
      else if (s.slabs a).freeCount = sizeSub k.objectsPerSlab 1 then
        (slabRemoveFromList s a c).linkSlab c .partialSlabs a
      else s)

/-- `slab_alloc`; `fails` is whether `slab_create` gets no block. -/
def slabAlloc (fails : Bool) (s : SlabState) (c : CacheIdx) : AllocResult × SlabState :=
  match (s.slabCaches c).lists .partialSlabs with
  | a :: _ => slabAllocFrom s c a
  | [] => match (s.slabCaches c).lists .emptySlabs with
    | a :: _ => slabAllocFrom s c a
    | [] => match slabCreate fails s c with
      | (none, s) => (.noSlab, s)
      | (some a, s) => slabAllocFrom s c a

/-- `slab_free(slab, ptr)` for pointers that are not `NULL`. -/
def slabFree (s : SlabState) (a obj : ℕ) : SlabState :=
  let c := (s.slabs a).cache
  let s := s.store obj 8 objectPoison
  let s := s.linkObject a obj
  let s := s.setFreeCount a ((s.slabs a).freeCount + 1)
  let k := s.slabCaches c
  let s := s.setCache c { k with allocatedObjects := sizeSub k.allocatedObjects 1 }
  if (s.slabs a).freeCount = 1 then (slabRemoveFromList s a c).linkSlab c .partialSlabs a
  else if (s.slabs a).freeCount = k.objectsPerSlab then
    (slabRemoveFromList s a c).linkSlab c .emptySlabs a
  else s

/-- The cache for a request: the first size that fits. -/
def slabAllocSize (fails : Bool) (s : SlabState) (size : ℕ) : AllocResult × SlabState :=
  match (List.finRange numSlabSizes).find? fun c => size ≤ slabSizes.get c with
  | none => (.noSlab, s)
  | some c => slabAlloc fails s c

/-! ## Finding the slab of a pointer -/

/-- The cache a pointer to an entry of `slab_caches` stands for. -/
def cacheOfPtr (s : SlabState) (p : ℕ) : Option CacheIdx :=
  (List.finRange numSlabSizes).find? fun c => s.cachePtr c == p

/-- `slab_find_containing`, on virtual addresses; the result is the physical address of the slab.
The header is read from memory. A `cache` field that points to no entry of `slab_caches` counts
as not found. -/
def slabFindContaining (s : SlabState) (ptr : ℕ) : Option ℕ :=
  let slabStart := ptr &&& (2 ^ 64 - 2 ^ 13)
  let a := u64 (slabStart + (2 ^ 64 - s.buddy.hhdmOffset))
  if readLE s.buddy.mem a 8 ≠ slabMagic then none
  else if readLE s.buddy.mem (a + 8) 8 = 0 then none
  else match cacheOfPtr s (readLE s.buddy.mem (a + 8) 8) with
    | none => none
    | some c =>
      let k := s.slabCaches c
      if slabStart + slabHeaderSize ≤ ptr ∧
          ptr < slabStart + slabHeaderSize + k.objectsPerSlab * k.objectSize then some a
      else none

/-! ## Giving slabs back -/

/-- `slab_destroy` -/
def slabDestroy (s : SlabState) (a : ℕ) : SlabState :=
  let c := (s.slabs a).cache
  let s := slabRemoveFromList s a c
  let k := s.slabCaches c
  let s := s.setCache c
    { k with
      totalSlabs := sizeSub k.totalSlabs 1
      totalObjects := sizeSub k.totalObjects k.objectsPerSlab }
  { s with
    buddy := buddyFreePages s.buddy (s.slabs a).physAddr 1
    held := s.held.erase ⟨(s.slabs a).physAddr, 1⟩ }

/-- The second loop of `slab_cache_shrink`, over the slabs behind the ones kept. -/
def shrinkLoop (c : CacheIdx) : List ℕ → SlabState → SlabState
  | [], s => s
  | rms :: rest, s => shrinkLoop c rest (slabDestroy (s.bypassSlab c .emptySlabs rms) rms)

/-- Two empty slabs are kept. -/
def slabCacheShrink (s : SlabState) (c : CacheIdx) : SlabState :=
  shrinkLoop c (((s.slabCaches c).lists .emptySlabs).drop 2) s

end LunOS.SlabAllocator
