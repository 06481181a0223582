import LunOS.SlabAllocator.Theorems
import LunOS.Pmm.Common

/-!
# Where `kfree` finds a pointer

`PagesInv` adds to the slab invariant the blocks `kmalloc` took from the buddy allocator, with header
and end marker intact in memory, and the pages of `pmm_alloc_page`, none of which looks like a slab.
Under it `slab_find_containing` finds the slab of an object and finds nothing for a block, so `kfree`
takes the right branch for both.
-/

namespace LunOS.Pmm
open LunOS.Dyadic LunOS.Memory LunOS.BuddyAllocator LunOS.SlabAllocator
open List hiding Disjoint

/-- A block `kmalloc` handed out, with the size that was asked for. -/
structure Big where
  block : Block
  size : ℕ
deriving DecidableEq

/-- Header and end marker of a block are intact, and both lie inside it. -/
structure BigOk (s : SlabState) (g : Big) : Prop where
  magic : readLE s.buddy.mem g.block.addr 8 = allocMagic
  size : readLE s.buddy.mem (g.block.addr + 8) 4 = g.size
  order : readLE s.buddy.mem (g.block.addr + 12) 1 = g.block.order
  marker : readLE s.buddy.mem (g.block.addr + 16 + g.size) 8 = allocMagic
  fits : g.size + 24 ≤ Dyadic.size 12 g.block.order

/-- The direct map covers the arenas without wrapping and is aligned to the 8 KiB of a slab;
`slab_caches` is a proper array. -/
structure Mapped (s : SlabState) : Prop where
  covers : ∀ i, ∀ z ∈ (s.buddy.buddyArenas i).pages, z + s.buddy.hhdmOffset < 2 ^ 64
  hhdm_dvd : 8192 ∣ s.buddy.hhdmOffset
  addr_pos : 0 < s.slabCachesAddr
  addr_le : s.slabCachesAddr + slabCacheSize * numSlabSizes ≤ 2 ^ 64

/-- In front of an arena there is no word that looks like a slab header. -/
def NoStrayMagic (s : SlabState) : Prop :=
  ∀ a, 8192 ∣ a → (∀ i, a ∉ (s.buddy.buddyArenas i).pages) →
    (∃ i, a + 4096 ∈ (s.buddy.buddyArenas i).pages) → readLE s.buddy.mem a 8 ≠ slabMagic

/-- The block of a page from `pmm_alloc_page`. -/
def pageBlock (a : ℕ) : Block := ⟨a, 0⟩

/-- The invariant of the allocators with live objects `objs`, blocks `bigs` and the pages that others
hold. No page at an 8 KiB boundary starts with the magic number of a slab. -/
structure PagesInv (s : SlabState) (objs : CacheIdx → List ℕ) (bigs : List Big)
    (pages : List ℕ) : Prop where
  slabs : SlabInv s (bigs.map Big.block ++ pages.map pageBlock) objs
  bigs : ∀ g ∈ bigs, BigOk s g
  mapped : Mapped s
  stray : NoStrayMagic s
  clean : ∀ a ∈ pages, 8192 ∣ a → readLE s.buddy.mem a 8 ≠ slabMagic

/-! ## Virtual addresses -/

variable {p : ℕ} {s : SlabState} {c : CacheIdx} {g : Big}

section
variable (hp : p + s.buddy.hhdmOffset < 2 ^ 64)
include hp

lemma physToVirt_eq : s.buddy.physToVirt p = p + s.buddy.hhdmOffset :=
  Nat.mod_eq_of_lt hp

lemma virtToPhys_eq : virtToPhys s (p + s.buddy.hhdmOffset) = p := by
  unfold virtToPhys u64
  rw [show p + s.buddy.hhdmOffset + (2 ^ 64 - s.buddy.hhdmOffset) = p + 2 ^ 64 by omega,
    Nat.add_mod_right, Nat.mod_eq_of_lt (by omega)]

lemma load_eq (n : ℕ) : load s (p + s.buddy.hhdmOffset) n = readLE s.buddy.mem p n := by
  unfold load
  rw [virtToPhys_eq hp]

end

/-- The header is in front of the memory of the client. -/
lemma header_eq (hp : p + 16 + s.buddy.hhdmOffset < 2 ^ 64) :
    u64 (p + 16 + s.buddy.hhdmOffset + (2 ^ 64 - allocHeaderSize)) = p + s.buddy.hhdmOffset := by
  unfold u64 allocHeaderSize
  rw [show p + 16 + s.buddy.hhdmOffset + (2 ^ 64 - 16) = p + s.buddy.hhdmOffset + 2 ^ 64 by omega,
    Nat.add_mod_right, Nat.mod_eq_of_lt (by omega)]

lemma Mapped.of_same {s' : SlabState} (h : Mapped s) (hp : SamePtrs s s')
    (hs : SameShape s.buddy s'.buddy) : Mapped s' := by
  refine ⟨?_, ?_, ?_, ?_⟩
  · intro i z hz
    rw [hs.pages] at hz
    rw [hp.hhdm]
    exact h.covers i z hz
  · rw [hp.hhdm]
    exact h.hhdm_dvd
  · rw [hp.addr]
    exact h.addr_pos
  · rw [hp.addr]
    exact h.addr_le

/-- The address `slab_find_containing` looks at: the start of the 8 KiB around the pointer. -/
lemma Mapped.slabStart (h : Mapped s) (hp : p + s.buddy.hhdmOffset < 2 ^ 64) :
    (p + s.buddy.hhdmOffset) &&& (2 ^ 64 - 2 ^ 13) = slabOf p + s.buddy.hhdmOffset := by
  have hdvd := h.hhdm_dvd
  rw [land_highMask (by norm_num) (by omega)]
  unfold slabOf
  norm_num
  omega

/-- The pointers to the caches are different. -/
lemma Mapped.cachePtr_inj (h : Mapped s) {c' : CacheIdx} (heq : s.cachePtr c = s.cachePtr c') :
    c = c' := by
  have hle := h.addr_le
  have hval : ∀ d : CacheIdx, s.cachePtr d = s.slabCachesAddr + slabCacheSize * d := by
    intro d
    have hd := d.isLt
    apply Nat.mod_eq_of_lt
    have : slabCacheSize * (d + 1) ≤ slabCacheSize * numSlabSizes := Nat.mul_le_mul_left _ hd
    unfold slabCacheSize at this hle ⊢
    omega
  rw [hval, hval] at heq
  apply Fin.ext
  unfold slabCacheSize at heq
  omega

lemma Mapped.cachePtr_ne_zero (h : Mapped s) (c : CacheIdx) :
    s.cachePtr c ≠ 0 := by
  have hle := h.addr_le
  have hpos := h.addr_pos
  have hd := c.isLt
  have : slabCacheSize * (c + 1) ≤ slabCacheSize * numSlabSizes := Nat.mul_le_mul_left _ hd
  unfold SlabState.cachePtr u64
  rw [Nat.mod_eq_of_lt (by unfold slabCacheSize at this hle ⊢; omega)]
  omega

/-- The cache of a slab is found. -/
lemma Mapped.cacheOfPtr (h : Mapped s) (c : CacheIdx) :
    cacheOfPtr s (s.cachePtr c) = some c := by
  unfold SlabAllocator.cacheOfPtr
  cases hf : (List.finRange numSlabSizes).find? fun d => s.cachePtr d == s.cachePtr c with
  | none =>
    have := List.find?_eq_none.mp hf c (mem_finRange c)
    simp at this
  | some d =>
    have hd := List.find?_some hf
    rw [beq_iff_eq] at hd
    rw [h.cachePtr_inj hd]

/-! ## Objects -/

variable {s : SlabState} {objs : CacheIdx → List ℕ} {bigs : List Big} {pages : List ℕ}

section
variable (h : PagesInv s objs bigs pages)
include h

/-- The direct map covers the live blocks. -/
lemma PagesInv.live_lt {x : Block} (hx : x ∈ s.held ++ (bigs.map Big.block ++ pages.map pageBlock))
    {z : ℕ} (hz : z ∈ x.span 12) : z + s.buddy.hhdmOffset < 2 ^ 64 := by
  rcases h.slabs.buddy.pagePartition.live_inside x hx with ⟨i, _, hi⟩
  exact h.mapped.covers i z (hi hz)

/-- The direct map covers a slot of a slab with all its bytes. -/
lemma PagesInv.slot_lt {a : ℕ} (ha : Listed s a) (hslot : IsSlot (s.slabCaches c) a p) :
    p + slabSizes.get c + s.buddy.hhdmOffset ≤ 2 ^ 64 := by
  have hb := h.slabs.slot_bounds hslot
  have hlast := h.live_lt
    (mem_append_left _ (h.slabs.held_of_listed ha))
    (mem_span_one.mpr (show a ≤ a + 8191 ∧ _ from ⟨by omega, by omega⟩))
  omega

lemma PagesInv.object_lt (hp : p ∈ objs c) : p + slabSizes.get c + s.buddy.hhdmOffset ≤ 2 ^ 64 :=
  h.slot_lt (h.slabs.live_slot hp).1 (h.slabs.live_slot hp).2.1

/-- `slab_find_containing` finds the slab of a slot, live or free. -/
lemma PagesInv.find_slot {w : SlabList} (ha : slabOf p ∈ (s.slabCaches c).lists w)
    (hslot : IsSlot (s.slabCaches c) (slabOf p) p) :
    slabFindContaining s (p + s.buddy.hhdmOffset) = some (slabOf p) := by
  have himage := h.slabs.images _ ⟨c, w, ha⟩
  have hlt := h.slot_lt ⟨c, w, ha⟩ hslot
  have hb := h.slabs.slot_bounds hslot
  have hsize := (h.slabs.caches c).shaped.size_ge
  rw [(h.slabs.caches c).shaped.1] at hsize
  have hcache := ((h.slabs.caches c).slab w _ ha).cache
  have hstart := h.mapped.slabStart (p := p) (by omega)
  have hphys := virtToPhys_eq (s := s) (p := slabOf p) (by unfold slabOf; omega)
  unfold virtToPhys at hphys
  -- the object is one of the slots, so it lies in the objects' area
  have harea : p + (s.slabCaches c).objectSize ≤ slabOf p + slabHeaderSize +
      (s.slabCaches c).objectsPerSlab * (s.slabCaches c).objectSize := by
    rcases hslot with ⟨i, hi, hpi⟩
    have hnext : (i + 1) * (s.slabCaches c).objectSize
        ≤ (s.slabCaches c).objectsPerSlab * (s.slabCaches c).objectSize :=
      Nat.mul_le_mul_right _ hi
    rw [Nat.add_mul] at hnext
    unfold objectAddr at hpi
    omega
  have hpos := (h.slabs.caches c).shaped.size_ge
  unfold slabFindContaining
  simp only [hstart, hphys]
  rw [if_neg (not_not.mpr himage.magic), himage.cache, hcache,
    if_neg (h.mapped.cachePtr_ne_zero c), h.mapped.cacheOfPtr c]
  simp only
  rw [if_pos]
  unfold slabHeaderSize at harea ⊢
  omega

/-- `slab_find_containing` finds the slab of a live object. -/
lemma PagesInv.find_object (hp : p ∈ objs c) :
    slabFindContaining s (p + s.buddy.hhdmOffset) = some (slabOf p) := by
  obtain ⟨w, ha, hslot, _⟩ := (h.slabs.caches c).slab_of_live hp
  exact h.find_slot ha hslot

end

/-! ## Blocks -/

lemma big_live (s : SlabState) (pages : List ℕ) (hg : g ∈ bigs) :
    g.block ∈ s.held ++ (bigs.map Big.block ++ pages.map pageBlock) :=
  mem_append_right _ (mem_append_left _ (mem_map.mpr ⟨g, hg, rfl⟩))

section
variable (h : PagesInv s objs bigs pages)
include h

/-- The direct map covers a block with its header, request and marker. -/
lemma PagesInv.big_lt (hg : g ∈ bigs) :
    g.block.addr + Dyadic.size 12 g.block.order + s.buddy.hhdmOffset ≤ 2 ^ 64 := by
  have hpos := size_pos 12 g.block.order
  have hlast := h.live_lt (big_live s pages hg)
    (show g.block.addr + (Dyadic.size 12 g.block.order - 1) ∈ g.block.span 12 by
      rw [mem_span]; omega)
  omega

/-- The page in front of a block of one page that is not aligned to 8 KiB holds no slab: it is a
free page, another block of `kmalloc`, a page that others hold, or in no arena. -/
lemma PagesInv.page_before (hg : g ∈ bigs) {a : ℕ} (ha : a + 4096 = g.block.addr) (hdvd : 8192 ∣ a) :
    readLE s.buddy.mem a 8 ≠ slabMagic := by
  have hpart := h.slabs.buddy.pagePartition
  have hlive := big_live s pages hg
  rcases hpart.live_inside _ hlive with ⟨i, _, hi⟩
  have hmem : a + 4096 ∈ g.block.span 12 := by
    rw [ha]
    exact addr_mem_span g.block
  by_cases hin : ∃ j, a ∈ (s.buddy.buddyArenas j).pages
  · rcases hin with ⟨j, hj⟩
    -- a tile of more than one page around `a` would also contain the block
    have hpage : ∀ y : Block, blockSize y.order ∣ y.addr → a ∈ y.span 12 →
        Disjoint (y.span 12) (g.block.span 12) → y.addr = a ∧ y.order = 0 := by
      intro y hyal hay hdis
      rw [blockSize_eq] at hyal
      rw [mem_span] at hay
      have hnot : a + 4096 ∉ y.span 12 := fun hy => Set.disjoint_left.mp hdis hy hmem
      rw [mem_span] at hnot
      have hzero : y.order = 0 := by
        by_contra hne
        have hbig : 8192 ∣ Dyadic.size 12 y.order :=
          size_dvd_size (w := 12) (show 1 ≤ y.order by omega)
        have hyd := hbig.trans hyal
        omega
      rw [hzero] at hay hyal
      have h4096 : Dyadic.size 12 0 = 4096 := rfl
      rw [h4096] at hay hyal
      exact ⟨by omega, hzero⟩
    rcases hpart.cover j a hj with ⟨o, x, hx, hax⟩ | ⟨y, hy, hay⟩
    · -- free: its node carries the order in the low byte
      have hy := hpage ⟨x, o⟩ (hpart.free_aligned j o x hx) hax
        (hpart.free_live j o x hx _ hlive)
      have hnode := ((hpart.nodes j o).fields x hx).1
      simp only at hy
      rw [hy.1, hy.2, readLE, readLE] at hnode
      intro hmagic
      have hlow := readLE_mod s.buddy.mem a 7
      rw [hmagic] at hlow
      have : slabMagic % 256 = 190 := rfl
      omega
    · -- live: the slabs hold two pages each, so it is a block with an intact header
      have hne : y ≠ g.block := by
        intro heq
        rw [heq, mem_span] at hay
        omega
      have hy' := hpage y (hpart.live_aligned y hy) hay (hpart.live_live y hy _ hlive hne)
      rcases mem_append.mp hy with hheld | henv
      · rcases (h.slabs.held y).mp hheld with ⟨x, _, hxy⟩
        rw [hxy] at hy'
        exact absurd hy'.2 Nat.one_ne_zero
      · obtain henv | henv := mem_append.mp henv
        · obtain ⟨g', hg', hgy⟩ := mem_map.mp henv
          have hmagic := (h.bigs g' hg').magic
          rw [hgy, hy'.1] at hmagic
          rw [hmagic]
          decide
        · obtain ⟨a', ha', hay'⟩ := mem_map.mp henv
          have heq : a' = a := by
            rw [← hy'.1, ← hay']
            rfl
          exact h.clean a (heq ▸ ha') hdvd
  · exact h.stray a hdvd (fun j hj => hin ⟨j, hj⟩) ⟨i, hi hmem⟩

/-- A block starts at a page. -/
lemma PagesInv.big_dvd (hg : g ∈ bigs) : 4096 ∣ g.block.addr := by
  have hal := h.slabs.buddy.pagePartition.live_aligned _ (big_live s pages hg)
  rw [blockSize_eq] at hal
  exact (size_dvd_size (w := 12) (Nat.zero_le g.block.order)).trans hal

/-- The word in which `slab_find_containing` looks for the slab of a block. -/
lemma PagesInv.big_word (hg : g ∈ bigs) :
    readLE s.buddy.mem (slabOf (g.block.addr + 16)) 8 ≠ slabMagic := by
  have hpage := h.big_dvd hg
  by_cases heven : 8192 ∣ g.block.addr
  · have heq : slabOf (g.block.addr + 16) = g.block.addr := by
      unfold slabOf
      omega
    rw [heq, (h.bigs g hg).magic]
    decide
  · apply h.page_before hg
    · unfold slabOf
      omega
    · unfold slabOf
      exact Dvd.intro_left _ rfl

end

/-- No slab without the magic number. -/
lemma Mapped.find_none (h : Mapped s) (hp : p + s.buddy.hhdmOffset < 2 ^ 64)
    (hword : readLE s.buddy.mem (slabOf p) 8 ≠ slabMagic) :
    slabFindContaining s (p + s.buddy.hhdmOffset) = none := by
  have hstart := h.slabStart hp
  have hphys := virtToPhys_eq (s := s) (p := slabOf p) (by unfold slabOf; omega)
  unfold virtToPhys at hphys
  unfold slabFindContaining
  simp only [hstart, hphys]
  rw [if_pos hword]

/-- `slab_find_containing` finds nothing for a block. -/
lemma PagesInv.find_big (h : PagesInv s objs bigs pages) (hg : g ∈ bigs) :
    slabFindContaining s (g.block.addr + 16 + s.buddy.hhdmOffset) = none := by
  have hlt := h.big_lt hg
  have hfits := (h.bigs g hg).fits
  exact h.mapped.find_none (by omega) (h.big_word hg)

end LunOS.Pmm
