import LunOS.Pmm.Theorems

/-!
# Request sizes at the edges

`kmalloc` computes header, request and four bytes for the end marker in 64 bits, doubles a block
size until the total fits, and records the size in 32 bits. This file says for which sizes that
works, over all 64-bit sizes and all states of the allocators:

* the order search ends exactly for totals up to `2 ^ 63`, and refuses what no block holds;
* everything `kmalloc` writes lies inside the block unless a block boundary falls on the last
  four of the marker's eight bytes;
* the memory behind the pointer is as large as the request unless the total wraps.
-/

namespace LunOS.Pmm
open LunOS.Dyadic LunOS.Memory LunOS.BuddyAllocator LunOS.SlabAllocator

variable {s s' : SlabState} {size v : ℕ}

/-! ## The block behind a pointer -/

/-- The order a request needs is `MAX_SUPPORTED_ORDER` or more. -/
def TooLarge (size : ℕ) : Prop := ∀ k < maxSupportedOrder, blockSize k < allocHeaderSize + size + 4

instance decidableTooLarge (size : ℕ) : Decidable (TooLarge size) :=
  inferInstanceAs (Decidable (∀ k < maxSupportedOrder, blockSize k < allocHeaderSize + size + 4))

/-- The state in which `kmalloc` turns to the buddy allocator. -/
def afterSlab (s : SlabState) (size : ℕ) : SlabState :=
  if size ≤ slabThreshold then (slabAllocSize false s size).2 else s

/-- A call that got the block of `order` at `b` from the buddy allocator. -/
structure BuddyServed (s s' : SlabState) (size v b order : ℕ) : Prop where
  search : orderLoop (totalSize size) 64 0 pageFrameSize = some order
  supported : order < maxSupportedOrder
  block : (buddyAllocPages s.buddy order).1 = some b
  ptr : v = (buddyAllocPages s.buddy order).2.physToVirt (b + allocHeaderSize)
  state : s' = writeAllocHeader { s with buddy := (buddyAllocPages s.buddy order).2 } b size order

/-- A call that got the object `p` of cache `c`. -/
structure SlabServed (s s' : SlabState) (size v p : ℕ) (c : CacheIdx) : Prop where
  fits : size ≤ slabSizes.get c
  object : slabAlloc false s c = (.object p, s')
  ptr : v = s'.buddy.physToVirt p

/-- A request the buddy allocator serves. -/
lemma exists_buddyServed (h : kmallocBuddy s size = (.ptr v, s')) :
    ∃ b order, BuddyServed s s' size v b order := by
  unfold kmallocBuddy at h
  cases hloop : orderLoop (u64 (allocHeaderSize + size + 4)) 64 0 pageFrameSize with
  | none =>
    rw [hloop] at h
    cases h
  | some order =>
    rw [hloop] at h
    simp only at h
    by_cases hmax : maxSupportedOrder ≤ order
    · rw [if_pos hmax] at h
      cases h
    rw [if_neg hmax] at h
    cases hal : buddyAllocPages s.buddy order with
    | mk r b =>
      rw [hal] at h
      match r with
      | none => cases h
      -- `phys_addr == 0`: a block at address 0 is taken for a failure
      | some 0 => cases h
      | some (n + 1) =>
        cases h
        exact ⟨n + 1, order, hloop, Nat.lt_of_not_le hmax, by rw [hal], by rw [hal], by rw [hal]⟩

/-- A pointer from `kmalloc` has an object or a block behind it. -/
lemma kmalloc_served (h : kmalloc s size = (.ptr v, s')) :
    slabServes s size = true ∧ (∃ p c, SlabServed s s' size v p c) ∨
      slabServes s size = false ∧ ∃ b order, BuddyServed (afterSlab s size) s' size v b order := by
  unfold kmalloc at h
  by_cases hzero : size = 0
  · rw [if_pos hzero] at h
    cases h
  rw [if_neg hzero] at h
  by_cases hsmall : size ≤ slabThreshold
  · rw [if_pos hsmall] at h
    unfold slabServes afterSlab
    rw [if_pos hsmall]
    cases hal : slabAllocSize false s size with
    | mk r t =>
      rw [hal] at h
      cases r with
      | object p =>
        -- the object is of the first cache whose size is not below the request
        cases h
        unfold slabAllocSize at hal
        cases hfind : (List.finRange numSlabSizes).find? fun c => size ≤ slabSizes.get c with
        | none =>
          rw [hfind] at hal
          cases hal
        | some c =>
          rw [hfind] at hal
          have hfound := List.find?_some hfind
          exact Or.inl ⟨by simp [hzero, hsmall], p, c, of_decide_eq_true hfound, hal, rfl⟩
      | noSlab => exact Or.inr ⟨by simp, exists_buddyServed h⟩
      | freeListNull => exact Or.inr ⟨by simp, exists_buddyServed h⟩
  · rw [if_neg hsmall] at h
    unfold slabServes afterSlab
    rw [if_neg hsmall]
    exact Or.inr ⟨by simp [hsmall], exists_buddyServed h⟩

namespace BuddyServed

variable {b order : ℕ}

/-- The block holds the total, and no smaller block does. -/
lemma total_le (h : BuddyServed s s' size v b order) :
    totalSize size ≤ blockSize order ∧ ∀ k < order, blockSize k < totalSize size :=
  orderLoop_spec h.search

/-- A served total is at most `2 ^ 31`. -/
lemma total_le_max (h : BuddyServed s s' size v b order) : totalSize size ≤ 2 ^ 31 := by
  have hsup := h.supported
  unfold maxSupportedOrder at hsup
  have hle : blockSize order ≤ blockSize 19 := blockSize_le (by omega)
  have hmax : blockSize 19 = 2 ^ 31 := by decide
  have hfit := h.total_le.1
  omega

/-- The header records the low 32 bits of the size. -/
lemma header_size (h : BuddyServed s s' size v b order) :
    readLE s'.buddy.mem (b + 8) 4 = size % 2 ^ 32 := by
  rw [h.state]
  show readLE (writeLE (writeLE (writeLE _ (b + 8) 4 size) (b + 12) 1 order)
    (b + 16 + size % 2 ^ 32) 8 allocMagic) (b + 8) 4 = _
  -- the order and the marker are stored after the size, and elsewhere
  rw [readLE_writeLE_of_disjoint (by omega), readLE_writeLE_of_disjoint (by omega),
    readLE_writeLE_mod, show 256 ^ 4 = 2 ^ 32 by norm_num]

end BuddyServed

/-! ## Inside the block -/

/-- The stores `kmalloc` makes in a fresh block: address, width and value. -/
def headerStores (b size order : ℕ) : List (ℕ × ℕ × ℕ) :=
  [(b, 8, allocMagic), (b + 8, 4, size), (b + 12, 1, order),
    (b + allocHeaderSize + size % 2 ^ 32, 8, allocMagic)]

lemma writeAllocHeader_eq_foldl (s : SlabState) (b size order : ℕ) :
    writeAllocHeader s b size order =
      (headerStores b size order).foldl (fun t w => t.store w.1 w.2.1 w.2.2) s := rfl

/-- The header, the bytes of the client and every byte `kmalloc` stores lie in the block. -/
structure BookkeepingInside (b size order : ℕ) : Prop where
  header : b + allocHeaderSize ≤ b + blockSize order
  client : b + allocHeaderSize + size ≤ b + blockSize order
  stores : ∀ w ∈ headerStores b size order, b ≤ w.1 ∧ w.1 + w.2.1 ≤ b + blockSize order

/-- What decides is the end of the marker. -/
lemma bookkeepingInside_iff_marker {b order : ℕ} (hsize : size < 2 ^ 32) :
    BookkeepingInside b size order ↔ size + 24 ≤ blockSize order := by
  have hmod : size % 2 ^ 32 = size := Nat.mod_eq_of_lt hsize
  constructor
  · intro h
    have hlast := h.stores (b + allocHeaderSize + size % 2 ^ 32, 8, allocMagic)
      (by simp [headerStores])
    unfold allocHeaderSize at hlast
    simp only [hmod] at hlast
    omega
  · intro h
    refine ⟨?_, ?_, fun w hw => ?_⟩
    · unfold allocHeaderSize
      omega
    · unfold allocHeaderSize
      omega
    · unfold headerStores allocHeaderSize at hw
      rw [hmod] at hw
      simp only [List.mem_cons, List.not_mem_nil, or_false] at hw
      rcases hw with rfl | rfl | rfl | rfl <;> simp only <;> omega

/-- Of the least block that holds the total, the marker needs four bytes more. -/
lemma markerFits_iff {order : ℕ} (hsize : size + 20 < 2 ^ 64) (hfit : size + 20 ≤ blockSize order)
    (hleast : ∀ k < order, blockSize k < size + 20) :
    MarkerFits size ↔ size + 24 ≤ blockSize order := by
  have hblock : ∀ k, 4096 * 2 ^ k = blockSize k := fun k => by
    rw [blockSize_eq_pow, pow_add, show 2 ^ 12 = 4096 by norm_num]
  unfold MarkerFits
  simp only [hblock]
  constructor
  · intro h
    exact h.2 order hfit
  · intro h
    refine ⟨hsize, fun k hk => ?_⟩
    -- smaller blocks do not hold the total, larger ones hold the marker too
    by_cases hlt : k < order
    · have hsmall := hleast k hlt
      omega
    · have hle : blockSize order ≤ blockSize k := blockSize_le (by omega)
      omega

/-- For sizes up to `2 ^ 31` and every call that is served with a buddy block, header, client bytes
and end marker lie inside the block exactly when no block size falls between the four bytes reserved
for the marker and the eight bytes written. -/
theorem kmalloc_bookkeeping_inside_iff (hsize : size ≤ 2 ^ 31)
    (h : kmalloc s size = (.ptr v, s')) (hbuddy : slabServes s size = false) :
    ∃ b order, BuddyServed (afterSlab s size) s' size v b order ∧
      (BookkeepingInside b size order ↔ MarkerFits size) := by
  rcases kmalloc_served h with ⟨hslab, _⟩ | ⟨_, b, order, hserved⟩
  · rw [hslab] at hbuddy
    cases hbuddy
  · refine ⟨b, order, hserved, ?_⟩
    have htotal : totalSize size = size + 20 := totalSize_of_lt (by omega)
    have hfit := hserved.total_le
    rw [htotal] at hfit
    rw [bookkeepingInside_iff_marker (by omega), markerFits_iff (by omega) hfit.1 hfit.2]

lemma twoPages_firstPage : (buddyAllocPages twoPages.slabs.buddy 0).1 = some 0x100000 := by
  decide +kernel

lemma twoPages_kmalloc :
    kmalloc twoPages.slabs 3000 = (.ptr 0xFFFF800000100010, (kmalloc twoPages.slabs 3000).2) :=
  Prod.ext (by decide +kernel) rfl

theorem kmalloc_bookkeeping_inside_3000 : ∃ b order,
    BuddyServed (afterSlab twoPages.slabs 3000) (kmalloc twoPages.slabs 3000).2 3000
      0xFFFF800000100010 b order ∧ (BookkeepingInside b 3000 order ↔ MarkerFits 3000) :=
  kmalloc_bookkeeping_inside_iff (by norm_num) twoPages_kmalloc (by decide +kernel)

/-- 4076 bytes get the page at `0x100000`, and the marker ends four bytes behind it. -/
theorem kmalloc_marker_leaves_page :
    BuddyServed twoPages.slabs (kmalloc twoPages.slabs 4076).2 4076 0xFFFF800000100010 0x100000 0 ∧
      (0x100FFC, 8, allocMagic) ∈ headerStores 0x100000 4076 0 ∧
      0x100000 + blockSize 0 < 0x100FFC + 8 ∧ ¬ BookkeepingInside 0x100000 4076 0 := by
  have hptr : (kmalloc twoPages.slabs 4076).1 = .ptr 0xFFFF800000100010 := by decide +kernel
  have hserved : ∃ b order, BuddyServed twoPages.slabs (kmalloc twoPages.slabs 4076).2 4076
      0xFFFF800000100010 b order := exists_buddyServed (Prod.ext hptr rfl)
  rcases hserved with ⟨b, order, hserved⟩
  have horder : order = 0 := by
    have hsearch : orderLoop (totalSize 4076) 64 0 pageFrameSize = some 0 := by decide +kernel
    rw [hserved.search, Option.some.injEq] at hsearch
    exact hsearch
  subst horder
  have hb : b = 0x100000 := by
    have hblock := twoPages_firstPage
    rw [hserved.block, Option.some.injEq] at hblock
    exact hblock
  subst hb
  refine ⟨hserved, by decide, by decide, ?_⟩
  rw [bookkeepingInside_iff_marker (by norm_num)]
  decide

/-! ## As large as the request -/

/-- The memory behind a pointer is as large as the request: an object of a large enough cache,
which in a well-formed state is a slot of a slab of that cache, or a block with the request behind
its header and the size in the header. -/
def HasRoom (s s' : SlabState) (size v : ℕ) : Prop :=
  (∃ p c, SlabServed s s' size v p c ∧ ∀ env live, SlabInv s env live →
    ∃ a, Listed s' a ∧ IsSlot (s'.slabCaches c) a p ∧ p + size ≤ a + 8192) ∨
  ∃ b order, BuddyServed (afterSlab s size) s' size v b order ∧
    b + allocHeaderSize + size ≤ b + blockSize order ∧ readLE s'.buddy.mem (b + 8) 4 = size

/-- The object `slab_alloc` hands out is a slot of a listed slab. -/
lemma SlabServed.slot {p : ℕ} {c : CacheIdx} (h : SlabServed s s' size v p c) {env : List Block}
    {live : CacheIdx → List ℕ} (hinv : SlabInv s env live) :
    ∃ a, Listed s' a ∧ IsSlot (s'.slabCaches c) a p ∧ p + size ≤ a + 8192 := by
  have hfits := h.fits
  rcases hinv.alloc false c with ⟨q, t, hal, hinv', _, _⟩ | hnone
  · rw [h.object] at hal
    cases hal
    have hlive : p ∈ Function.update live c (p :: live c) c := by
      rw [Function.update_self]
      exact List.mem_cons_self
    rcases ((hinv'.caches c).live p).mp hlive with ⟨w, a, ha, hslot, _⟩
    have hbounds := hinv'.slot_bounds hslot
    exact ⟨a, ⟨c, w, ha⟩, hslot, by omega⟩
  · rw [h.object] at hnone
    cases hnone

/-- A size that wraps gets one page. -/
lemma orderLoop_wrapped (hsize : size < 2 ^ 64) (h : 2 ^ 64 ≤ size + 20) :
    orderLoop (totalSize size) 64 0 pageFrameSize = some 0 := by
  have htotal := totalSize_of_wrap hsize h
  unfold orderLoop pageFrameSize
  rw [if_neg (by omega)]

/-- A total that wraps is served with one page. -/
lemma kmalloc_wrapped (hsize : size < 2 ^ 64) (h : 2 ^ 64 ≤ size + 20) :
    (kmalloc twoPages.slabs size).1 = .ptr 0xFFFF800000100010 := by
  have hloop : orderLoop (u64 (allocHeaderSize + size + 4)) 64 0 pageFrameSize = some 0 :=
    orderLoop_wrapped hsize h
  have hal := twoPages_firstPage
  have hptr : (buddyAllocPages twoPages.slabs.buddy 0).2.physToVirt (0x100000 + allocHeaderSize)
      = 0xFFFF800000100010 := by decide +kernel
  unfold kmalloc slabThreshold
  rw [if_neg (by omega), if_neg (by omega)]
  unfold kmallocBuddy
  rw [hloop]
  cases hb : buddyAllocPages twoPages.slabs.buddy 0 with
  | mk r b =>
    rw [hb] at hal hptr
    simp only at hal hptr
    subst hal
    simp only [if_neg (show ¬ maxSupportedOrder ≤ 0 by decide), hb, hptr]

/-- For every 64-bit size: in all states a pointer from `kmalloc` has the requested bytes behind it,
and a block records the requested size, exactly when the total does not wrap. -/
theorem kmalloc_room_iff (hsize : size < 2 ^ 64) :
    (∀ s s' v, kmalloc s size = (.ptr v, s') → HasRoom s s' size v) ↔ size + 20 < 2 ^ 64 := by
  constructor
  · intro hroom
    by_contra hwrap
    have hbig : 2 ^ 64 ≤ size + 20 := by omega
    have hptr := kmalloc_wrapped hsize hbig
    -- no object and no block is that large
    rcases hroom _ _ _ (Prod.ext hptr rfl) with ⟨p, c, hslab, _⟩ | ⟨b, order, hserved, hfit, _⟩
    · have hall : ∀ c : CacheIdx, slabSizes.get c ≤ 2048 := by decide
      have hc := hall c
      have hfits := hslab.fits
      omega
    · have hmax : blockSize order ≤ blockSize 19 :=
        blockSize_le (Nat.le_of_lt_succ hserved.supported)
      have hval : blockSize 19 = 2 ^ 31 := by decide
      omega
  · intro hlt s s' v h
    rcases kmalloc_served h with ⟨_, p, c, hslab⟩ | ⟨_, b, order, hserved⟩
    · exact Or.inl ⟨p, c, hslab, fun env live hinv => hslab.slot hinv⟩
    · have htotal := totalSize_of_lt hlt
      have hfit := hserved.total_le.1
      have hmax := hserved.total_le_max
      refine Or.inr ⟨b, order, hserved, ?_, ?_⟩
      · unfold allocHeaderSize
        omega
      · rw [hserved.header_size]
        exact Nat.mod_eq_of_lt (by omega)

theorem kmalloc_room_3000 :
    HasRoom twoPages.slabs (kmalloc twoPages.slabs 3000).2 3000 0xFFFF800000100010 :=
  (kmalloc_room_iff (by norm_num)).mpr (by norm_num) _ _ _ twoPages_kmalloc

/-- `kmalloc(SIZE_MAX)` returns a pointer into a page of 4096 bytes. -/
theorem kmalloc_serves_max_with_page :
    (kmalloc twoPages.slabs (2 ^ 64 - 1)).1 = .ptr 0xFFFF800000100010 ∧
      (buddyAllocPages twoPages.slabs.buddy 0).1 = some 0x100000 ∧
      orderLoop (totalSize (2 ^ 64 - 1)) 64 0 pageFrameSize = some 0 ∧
      readLE (kmalloc twoPages.slabs (2 ^ 64 - 1)).2.buddy.mem 0x100008 4 = 2 ^ 32 - 1 := by
  refine ⟨kmalloc_wrapped (by norm_num) (by norm_num), twoPages_firstPage,
    orderLoop_wrapped (by norm_num) (by norm_num), ?_⟩
  decide +kernel

/-! ## The order search as a whole -/

/-- A size whose order would be too large is refused when its total does not pass `2 ^ 63`. -/
lemma kmalloc_refused (hlarge : TooLarge size) (h : size + 20 ≤ 2 ^ 63) (s : SlabState) :
    kmalloc s size = (.null, s) := by
  have htotal : totalSize size = size + 20 := totalSize_of_lt (by omega)
  rcases orderLoop_found h with ⟨order, _, hloop, hfit, _⟩
  have hlast := hlarge 19 (by decide)
  have hval : blockSize 19 = 2 ^ 31 := by decide
  unfold allocHeaderSize at hlast
  have horder : maxSupportedOrder ≤ order := by
    by_contra hlt
    have hsmall := hlarge order (by omega)
    unfold allocHeaderSize at hsmall
    omega
  unfold kmalloc slabThreshold
  rw [if_neg (by omega), if_neg (by omega)]
  unfold kmallocBuddy
  rw [show u64 (allocHeaderSize + size + 4) = size + 20 from htotal, hloop]
  exact if_pos horder

/-- For every 64-bit size: the order search ends, and a size whose order would be
`MAX_SUPPORTED_ORDER` or more is refused in every state, exactly when the total is at most
`2 ^ 63`. -/
theorem order_search_ends_iff (hsize : size < 2 ^ 64) :
    ((∃ turns order, orderLoop (totalSize size) turns 0 pageFrameSize = some order) ∧
      (TooLarge size → ∀ s, (kmalloc s size).1 = .null)) ↔ size + 20 ≤ 2 ^ 63 := by
  rw [orderLoop_ends_iff]
  constructor
  · rintro ⟨hends, hrefused⟩
    by_cases hwrap : size + 20 < 2 ^ 64
    · rw [totalSize_of_lt hwrap] at hends
      exact hends
    · -- a wrapped total is found at once, and the request is not refused
      exfalso
      have hlarge : TooLarge size := by
        intro k hk
        have hle : blockSize k ≤ blockSize 19 := blockSize_le (Nat.le_of_lt_succ hk)
        have hval : blockSize 19 = 2 ^ 31 := by decide
        omega
      have hptr := kmalloc_wrapped hsize (by omega)
      rw [hrefused hlarge twoPages.slabs] at hptr
      cases hptr
  · intro h
    refine ⟨?_, fun hlarge s => ?_⟩
    · rw [totalSize_of_lt (by omega)]
      exact h
    · rw [kmalloc_refused hlarge h s]

theorem order_search_ends_tebibyte :
    (∃ turns order, orderLoop (totalSize (2 ^ 40)) turns 0 pageFrameSize = some order) ∧
      (TooLarge (2 ^ 40) → ∀ s, (kmalloc s (2 ^ 40)).1 = .null) :=
  (order_search_ends_iff (by norm_num)).mpr (by norm_num)

/-- For `2 ^ 63` bytes the loop ends after no number of turns, and `SIZE_MAX` bytes are not
refused. -/
theorem order_search_runs_forever :
    (∀ turns order, orderLoop (totalSize (2 ^ 63)) turns 0 pageFrameSize ≠ some order) ∧
      (kmalloc twoPages.slabs (2 ^ 63)).1 = .hang ∧
      TooLarge (2 ^ 64 - 1) ∧
      (kmalloc twoPages.slabs (2 ^ 64 - 1)).1 = .ptr 0xFFFF800000100010 := by
  refine ⟨fun turns order hloop => ?_, by decide +kernel, by decide, ?_⟩
  · have hends := orderLoop_ends_iff.mp ⟨turns, order, hloop⟩
    rw [totalSize_of_lt (by norm_num)] at hends
    omega
  · exact kmalloc_wrapped (by norm_num) (by norm_num)

end LunOS.Pmm
