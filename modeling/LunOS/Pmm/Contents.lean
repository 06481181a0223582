import LunOS.Utils.Simulation
import LunOS.Pmm.Routing

/-!
# The memory of the clients

A client takes the memory it gets from `kmalloc` or `pmm_alloc_page` for an array of its own. The
allocators keep their lists in the same memory, in free blocks, in slab headers and in free objects.

- `Region`: memory that a client holds.
- `ArrayStep`: what clients rely on. Every region is an array whose bytes are unknown at first; a
  byte that was written or read has this value at the next read.
- `KernelStep`: the calls with the loads and stores of the clients, on the memory of the kernel.
- `regions_apart`: no byte belongs to two regions.
- `kernel_refines_arrays`: whatever happens in the kernel's memory can happen with arrays.
-/

namespace LunOS.Pmm
open LunOS.Dyadic LunOS.Memory LunOS.BuddyAllocator LunOS.SlabAllocator LunOS.Simulation Function
open List

/-! ## What clients rely on -/

/-- What a client can hold. -/
inductive Region
  | alloc (al : Alloc)
  | page (a : ℕ)
deriving DecidableEq

/-- The bytes of a region. -/
def Region.size : Region → ℕ
  | .alloc al => al.size
  | .page _ => pageFrameSize

/-- What a client sees: a call that returns memory, one that returns none, one that takes memory
back, and its own stores and loads of single bytes. -/
inductive Event
  | handOut (o : Region)
  | refuse
  | giveBack (o : Region)
  | store (o : Region) (i : ℕ) (b : UInt8)
  | load (o : Region) (i : ℕ) (b : UInt8)

/-- The regions that clients hold, with the bytes that are known. -/
abbrev Arrays := Region → Option (ℕ → Option UInt8)

/-- What the events mean for the arrays. -/
inductive ArrayStep : Arrays → Event → Arrays → Prop
  | handOut {M : Arrays} {o : Region} (h : M o = none) :
      ArrayStep M (.handOut o) (update M o (some fun _ => none))
  | refuse {M : Arrays} : ArrayStep M .refuse M
  | giveBack {M : Arrays} {o : Region} {c : ℕ → Option UInt8} (h : M o = some c) :
      ArrayStep M (.giveBack o) (update M o none)
  | store {M : Arrays} {o : Region} {c : ℕ → Option UInt8} {i : ℕ} {b : UInt8} (h : M o = some c)
      (hi : i < o.size) :
      ArrayStep M (.store o i b) (update M o (some (update c i (some b))))
  | load {M : Arrays} {o : Region} {c : ℕ → Option UInt8} {i : ℕ} {b : UInt8} (h : M o = some c)
      (hi : i < o.size) (hb : c i = none ∨ c i = some b) :
      ArrayStep M (.load o i b) (update M o (some (update c i (some b))))

/-! ## The memory of the kernel -/

/-- The physical address of a byte. -/
def Region.phys (s : SlabState) : Region → ℕ → ℕ
  | .alloc al, i => virtToPhys s (al.ptr + i)
  | .page a, i => a + i

/-- A client holds the region. -/
def RouteRun.Holds (r : RouteRun) : Region → Prop
  | .alloc al => al ∈ r.run.live
  | .page a => a ∈ r.pages

/-- The calls of the clients. Requests leave room for the end marker, and nobody makes the magic
number of a slab the first word of a page. -/
inductive KernelStep : RouteRun → Event → RouteRun → Prop
  | kmallocPtr {r : RouteRun} {size v : ℕ} {s : SlabState} (hsize : MarkerFits size)
      (h : kmalloc r.run.slabs size = (.ptr v, s)) :
      KernelStep r (.handOut (.alloc ⟨v, size⟩)) ⟨⟨s, ⟨v, size⟩ :: r.run.live⟩, r.pages,
        if slabServes r.run.slabs size then v :: r.slabPtrs else r.slabPtrs⟩
  | kmallocNull {r : RouteRun} {size : ℕ} {s : SlabState} (hsize : MarkerFits size)
      (h : kmalloc r.run.slabs size = (.null, s)) :
      KernelStep r .refuse ⟨⟨s, r.run.live⟩, r.pages, r.slabPtrs⟩
  | kfree {r : RouteRun} {al : Alloc} (h : al ∈ r.run.live) :
      KernelStep r (.giveBack (.alloc al)) ⟨⟨(kfree r.run.slabs al.ptr).2, r.run.live.erase al⟩,
        r.pages, r.slabPtrs.filter (· ≠ al.ptr)⟩
  | allocPage {r : RouteRun} {a : ℕ} {s : SlabState} (h : pmmAllocPage r.run.slabs = (some a, s)) :
      KernelStep r (.handOut (.page a)) ⟨⟨s, r.run.live⟩, a :: r.pages, r.slabPtrs⟩
  | allocPageNone {r : RouteRun} {s : SlabState} (h : pmmAllocPage r.run.slabs = (none, s)) :
      KernelStep r .refuse ⟨⟨s, r.run.live⟩, r.pages, r.slabPtrs⟩
  | freePage {r : RouteRun} {a : ℕ} (h : a ∈ r.pages) :
      KernelStep r (.giveBack (.page a))
        ⟨⟨pmmFreePage r.run.slabs a, r.run.live⟩, r.pages.erase a, r.slabPtrs⟩
  | store {r : RouteRun} {al : Alloc} {i : ℕ} (b : UInt8) (h : al ∈ r.run.live)
      (hi : i < al.size) :
      KernelStep r (.store (.alloc al) i b)
        ⟨⟨storeByte r.run.slabs (al.ptr + i) b, r.run.live⟩, r.pages, r.slabPtrs⟩
  | storePage {r : RouteRun} {a i : ℕ} (b : UInt8) (h : a ∈ r.pages) (hi : i < pageFrameSize)
      (hclean : NoSlabMagic (update r.run.slabs.buddy.mem (a + i) b) a) :
      KernelStep r (.store (.page a) i b)
        ⟨⟨withMem r.run.slabs (update r.run.slabs.buddy.mem (a + i) b), r.run.live⟩,
          r.pages, r.slabPtrs⟩
  | load {r : RouteRun} {o : Region} {i : ℕ} (h : r.Holds o) (hi : i < o.size) :
      KernelStep r (.load o i (r.run.slabs.buddy.mem (o.phys r.run.slabs i))) r

variable {r r' : RouteRun} {s s' : SlabState} {objs objs' : CacheIdx → List ℕ}
  {bigs bigs' : List Big} {pages : List ℕ} {o : Region} {i j z : ℕ} {al al' : Alloc}

/-- A load leaves everything as it is, and the rest are steps of the allocators. -/
lemma KernelStep.route {e : Event} (h : KernelStep r e r') :
    r' = r ∨ RouteStep MarkerFits NoSlabMagic r r' := by
  cases h with
  | kmallocPtr hsize h => exact Or.inr (.kmallocPtr hsize h)
  | kmallocNull hsize h => exact Or.inr (.kmallocNull hsize h)
  | kfree h => exact Or.inr (.kfree h)
  | allocPage h => exact Or.inr (.allocPage h)
  | allocPageNone h => exact Or.inr (.allocPageNone h)
  | freePage h => exact Or.inr (.freePage h)
  | store b h hi => exact Or.inr (.write b h ⟨by omega, by omega⟩)
  | storePage b h hi hclean =>
    refine Or.inr (.writePage h (fun z hz => ?_) hclean)
    exact update_of_ne (by omega) _ _
  | load h hi => exact Or.inl rfl

/-! ## No byte belongs to two regions -/

section
variable (h : PagesInv s objs bigs pages)
include h

/-- Where the bytes of a live pointer are. -/
lemma PagesInv.owned_phys (hal : Owned s objs bigs al) (hi : i < al.size) :
    (∃ c, ∃ p ∈ objs c, al.ptr = p + s.buddy.hhdmOffset ∧ virtToPhys s (al.ptr + i) = p + i ∧
      i < slabSizes.get c) ∨
    ∃ g ∈ bigs, al.ptr = g.block.addr + 16 + s.buddy.hhdmOffset ∧
      virtToPhys s (al.ptr + i) = g.block.addr + 16 + i ∧
      g.block.addr + 16 + i ∈ g.block.span 12 := by
  obtain ⟨c, p, hp, hptr, hsize⟩ | ⟨g, hg, hptr, hsize⟩ := hal
  · have hlt := h.object_lt hp
    have hphys := virtToPhys_eq (s := s) (p := p + i) (by omega)
    rw [show p + i + s.buddy.hhdmOffset = al.ptr + i by omega] at hphys
    exact Or.inl ⟨c, p, hp, hptr, hphys, by omega⟩
  · have hlt := h.big_lt hg
    have hfits := (h.bigs g hg).fits
    have hphys := virtToPhys_eq (s := s) (p := g.block.addr + 16 + i) (by omega)
    rw [show g.block.addr + 16 + i + s.buddy.hhdmOffset = al.ptr + i by omega] at hphys
    refine Or.inr ⟨g, hg, hptr, hphys, ?_⟩
    rw [mem_span]
    omega

/-- Two objects with a byte in common are the same. -/
lemma PagesInv.object_unique {c d : CacheIdx} {p q : ℕ} (hp : p ∈ objs c) (hq : q ∈ objs d)
    (hi : i < slabSizes.get c) (hj : j < slabSizes.get d) (heq : p + i = q + j) : p = q := by
  obtain ⟨w, ha, hslot, _⟩ := (h.slabs.caches c).slab_of_live hp
  obtain ⟨w', ha', hslot', _⟩ := (h.slabs.caches d).slab_of_live hq
  have hb := h.slabs.slot_bounds hslot
  have hb' := h.slabs.slot_bounds hslot'
  have hslab : slabOf p = slabOf q := by
    unfold slabOf at hb hb' ⊢
    omega
  rw [hslab] at ha hslot
  have hcd := (h.slabs.listsApart.unique c w d w' _ ha ha').1
  subst hcd
  by_contra hne
  have hsep := hslot.sep hslot' hne
  rw [(h.slabs.caches c).shaped.1] at hsep
  omega

/-- The blocks of the clients have no byte in common with an object. -/
lemma PagesInv.object_not_block {c : CacheIdx} {p : ℕ} (hp : p ∈ objs c) (hi : i < slabSizes.get c)
    {x : Block} (hx : x ∈ bigs.map Big.block ++ pages.map pageBlock) : p + i ∉ x.span 12 := by
  have hslot := h.slabs.live_slot hp
  have hb := h.slabs.slot_bounds hslot.2.1
  exact (h.slabs.not_env hslot.1 (z := p + i) (by omega) (by omega)).1 x hx

/-- Blocks do not overlap. -/
lemma PagesInv.block_unique {x y : Block} (hx : x ∈ bigs.map Big.block ++ pages.map pageBlock)
    (hy : y ∈ bigs.map Big.block ++ pages.map pageBlock) (hz : z ∈ x.span 12) (hz' : z ∈ y.span 12) :
    x = y := by
  by_contra hne
  have hdis := h.slabs.buddy.pagePartition.live_live x (mem_append_right _ hx) y
    (mem_append_right _ hy) hne
  exact Set.disjoint_left.mp hdis hz hz'

end

lemma mem_blocks_big (pages : List ℕ) {g : Big} (hg : g ∈ bigs) :
    g.block ∈ bigs.map Big.block ++ pages.map pageBlock :=
  mem_append_left _ (mem_map_of_mem hg)

lemma mem_blocks_page (bigs : List Big) {a : ℕ} (ha : a ∈ pages) :
    pageBlock a ∈ bigs.map Big.block ++ pages.map pageBlock :=
  mem_append_right _ (mem_map_of_mem ha)

lemma mem_pageBlock {a : ℕ} : z ∈ (pageBlock a).span 12 ↔ a ≤ z ∧ z < a + pageFrameSize := by
  rw [mem_span]
  rfl

/-- Two live pointers with a byte in common are the same. -/
lemma PagesInv.owned_apart (h : PagesInv s objs bigs pages) (hal : Owned s objs bigs al)
    (hal' : Owned s objs bigs al') (hi : i < al.size) (hj : j < al'.size)
    (heq : virtToPhys s (al.ptr + i) = virtToPhys s (al'.ptr + j)) : al.ptr = al'.ptr := by
  obtain ⟨c, p, hp, hptr, hphys, hc⟩ | ⟨g, hg, hptr, hphys, hspan⟩ := h.owned_phys hal hi
  · obtain ⟨d, q, hq, hptr', hphys', hd⟩ | ⟨g, hg, -, hphys', hspan⟩ := h.owned_phys hal' hj
    · have hpq := h.object_unique hp hq hc hd (by omega)
      omega
    · rw [← hphys', ← heq, hphys] at hspan
      exact absurd hspan (h.object_not_block hp hc (mem_blocks_big pages hg))
  · obtain ⟨d, q, hq, -, hphys', hd⟩ | ⟨g', hg', hptr', hphys', hspan'⟩ := h.owned_phys hal' hj
    · rw [← hphys, heq, hphys'] at hspan
      exact absurd hspan (h.object_not_block hq hd (mem_blocks_big pages hg))
    · rw [← hphys', ← heq, hphys] at hspan'
      have hblock := h.block_unique (mem_blocks_big pages hg) (mem_blocks_big pages hg') hspan hspan'
      rw [hptr, hptr', hblock]

/-- A page has no byte in common with a live pointer. -/
lemma PagesInv.owned_not_page (h : PagesInv s objs bigs pages) (hal : Owned s objs bigs al)
    (hi : i < al.size) {a : ℕ} (ha : a ∈ pages) :
    virtToPhys s (al.ptr + i) ∉ (pageBlock a).span 12 := by
  intro hz
  obtain ⟨c, p, hp, -, hphys, hc⟩ | ⟨g, hg, -, hphys, hspan⟩ := h.owned_phys hal hi
  · rw [hphys] at hz
    exact h.object_not_block hp hc (mem_blocks_page bigs ha) hz
  · rw [hphys] at hz
    have hblock := h.block_unique (mem_blocks_big pages hg) (mem_blocks_page bigs ha) hspan hz
    have hnd := (nodup_append.mp h.slabs.buddy.live_nodup).2.1
    exact disjoint_of_nodup_append hnd (mem_map_of_mem hg)
      (hblock ▸ mem_map_of_mem ha)

/-- Bytes have addresses of their own. -/
lemma PagesInv.phys_inj (h : PagesInv s objs bigs pages) (hal : Owned s objs bigs al)
    (hi : i < al.size) (hj : j < al.size)
    (heq : virtToPhys s (al.ptr + i) = virtToPhys s (al.ptr + j)) : i = j := by
  obtain ⟨c, p, hp, hptr, hphys, _⟩ | ⟨g, hg, hptr, hphys, _⟩ := h.owned_phys hal hi
  · obtain ⟨d, q, hq, hptr', hphys', _⟩ | ⟨g, hg, hptr', hphys', _⟩ := h.owned_phys hal hj
    · omega
    · omega
  · obtain ⟨d, q, hq, hptr', hphys', _⟩ | ⟨g, hg, hptr', hphys', _⟩ := h.owned_phys hal hj
    · omega
    · omega

/-- Regions do not share a byte. -/
lemma RouteInv.apart (h : RouteInv r objs bigs) {o o' : Region} (ho : r.Holds o)
    (ho' : r.Holds o') (hi : i < o.size) (hj : j < o'.size)
    (heq : o.phys r.run.slabs i = o'.phys r.run.slabs j) : o = o' ∧ i = j := by
  have hpage : ∀ {a k}, k < Region.size (.page a) → a + k ∈ (pageBlock a).span 12 := by
    intro a k hk
    rw [mem_pageBlock]
    exact ⟨by omega, Nat.add_lt_add_left hk a⟩
  cases o with
  | alloc al =>
    cases o' with
    | alloc al' =>
      have hptr := h.pmm.owned_apart (h.owned _ ho) (h.owned _ ho') hi hj heq
      obtain rfl := inj_on_of_nodup_map h.ptrs ho ho' hptr
      exact ⟨rfl, h.pmm.phys_inj (h.owned _ ho) hi hj heq⟩
    | page a =>
      refine absurd (hpage hj) ?_
      rw [show a + j = virtToPhys r.run.slabs (al.ptr + i) from heq.symm]
      exact h.pmm.owned_not_page (h.owned _ ho) hi ho'
  | page a =>
    cases o' with
    | alloc al' =>
      refine absurd (hpage hi) ?_
      rw [show a + i = virtToPhys r.run.slabs (al'.ptr + j) from heq]
      exact h.pmm.owned_not_page (h.owned _ ho') hj ho
    | page a' =>
      have hj' := hpage hj
      rw [show a' + j = a + i from heq.symm] at hj'
      have hblock := h.pmm.block_unique (mem_blocks_page bigs ho) (mem_blocks_page bigs ho')
        (hpage hi) hj'
      have haa : a = a' := congrArg Block.addr hblock
      subst haa
      exact ⟨rfl, Nat.add_left_cancel heq⟩

/-- The bytes of a region are in a block of the clients or in a live object. -/
lemma PagesRunInv.phys_place {r : PmmRun} (h : PagesRunInv r pages objs bigs) {sp : List ℕ}
    (ho : RouteRun.Holds ⟨r, pages, sp⟩ o) (hi : i < o.size) :
    (∃ x ∈ bigs.map Big.block ++ pages.map pageBlock, o.phys r.slabs i ∈ x.span 12) ∨
      ∃ c, ∃ p ∈ objs c, p ≤ o.phys r.slabs i ∧ o.phys r.slabs i < p + slabSizes.get c := by
  cases o with
  | alloc al =>
    show (∃ x ∈ _, virtToPhys r.slabs (al.ptr + i) ∈ _) ∨ ∃ c, ∃ p ∈ objs c,
      p ≤ virtToPhys r.slabs (al.ptr + i) ∧ virtToPhys r.slabs (al.ptr + i) < p + slabSizes.get c
    obtain ⟨c, p, hp, -, hphys, hc⟩ | ⟨g, hg, -, hphys, hspan⟩ := h.pmm.owned_phys (h.owned _ ho) hi
    · exact Or.inr ⟨c, p, hp, by omega, by omega⟩
    · exact Or.inl ⟨g.block, mem_blocks_big pages hg, hphys ▸ hspan⟩
  | page a =>
    refine Or.inl ⟨pageBlock a, mem_blocks_page bigs ho, mem_pageBlock.mpr ⟨Nat.le_add_right a i, ?_⟩⟩
    exact Nat.add_lt_add_left hi a

/-- In every run of the kernel, every byte of a region is in an arena, and no byte belongs to two
regions or to two places of one region. -/
theorem regions_apart {specs : List ArenaSpec} (hv : ValidSpecs specs)
    (hpos : ∀ s ∈ specs, 0 < s.base) {hhdm : ℕ} {mem : Mem} {counter addr : ℕ}
    (hmap : Mapped (PmmRun.init specs hhdm mem counter addr).slabs)
    (hstray : NoStrayMagic (PmmRun.init specs hhdm mem counter addr).slabs)
    (hr : RouteReachable MarkerFits NoSlabMagic (RouteRun.init specs hhdm mem counter addr) r)
    {o : Region} (ho : r.Holds o) (hi : i < o.size) :
    (∃ k, o.phys r.run.slabs i ∈ (r.run.slabs.buddy.buddyArenas k).pages) ∧
      ∀ o' j, r.Holds o' → j < o'.size → o.phys r.run.slabs i = o'.phys r.run.slabs j →
        o = o' ∧ i = j := by
  obtain ⟨objs, bigs, hinv⟩ := RouteReachable.inv hv hpos hmap hstray hr
  refine ⟨?_, fun o' j ho' hj heq => hinv.apart ho ho' hi hj heq⟩
  obtain ⟨x, hx, hz⟩ | ⟨c, p, hp, hle, hlt⟩ := hinv.toPagesRunInv.phys_place ho hi
  · obtain ⟨k, -, hk⟩ := hinv.pmm.slabs.buddy.pagePartition.live_inside x
      (mem_append_right _ hx)
    exact ⟨k, hk hz⟩
  · have hslot := hinv.pmm.slabs.live_slot hp
    have hb := hinv.pmm.slabs.slot_bounds hslot.2.1
    exact (hinv.pmm.slabs.not_env hslot.1 (by omega) (by omega)).2

theorem regions_apart_twoPages : Region.phys twoPagesBoth.run.slabs (.page 0x100000) 4095 ≠
    Region.phys twoPagesBoth.run.slabs (.alloc twoPagesBlock) 0 := by
  intro heq
  have hapart := regions_apart twoPages_validSpecs (by decide) twoPages_mapped
    twoPages_noStrayMagic twoPagesBoth_reachable
    (o := .page 0x100000) (i := 4095) mem_cons_self (by decide)
  have hsame := hapart.2 (.alloc twoPagesBlock) 0 mem_cons_self (by decide) heq
  exact absurd hsame.1 (by simp)

/-! ## What the calls leave alone -/

/-- The bytes of the regions that clients hold before and after are the same. -/
structure Untouched (r r' : RouteRun) : Prop where
  ptrs : SamePtrs r.run.slabs r'.run.slabs
  bytes : ∀ o, r.Holds o → r'.Holds o → ∀ i < o.size,
    r'.run.slabs.buddy.mem (o.phys r.run.slabs i) = r.run.slabs.buddy.mem (o.phys r.run.slabs i)

lemma phys_congr (h : SamePtrs s s') (o : Region) (i : ℕ) : o.phys s' i = o.phys s i := by
  cases o with
  | alloc al =>
    show virtToPhys s' _ = virtToPhys s _
    unfold virtToPhys
    rw [h.hhdm]
  | page a => rfl

/-- What keeps the clients' bytes leaves a region alone that is there before. -/
lemma Untouched.of_before (h : RouteInv r objs bigs)
    (hk : Keeps r.run.slabs r'.run.slabs (bigs.map Big.block ++ r.pages.map pageBlock) objs) :
    Untouched r r' := by
  refine ⟨hk.ptrs, fun o ho _ i hi => hk.frame _ ?_⟩
  exact or_assoc.mp (Or.inl (h.toPagesRunInv.phys_place ho hi))

/-- What keeps the bytes of those that remain leaves a region alone that is there afterwards. -/
lemma Untouched.of_after (h : PagesRunInv r'.run r'.pages objs bigs)
    (hk : Keeps r.run.slabs r'.run.slabs (bigs.map Big.block ++ r'.pages.map pageBlock) objs) :
    Untouched r r' := by
  refine ⟨hk.ptrs, fun o _ ho i hi => hk.frame _ ?_⟩
  rw [← phys_congr hk.ptrs, ← SameShape.clientBytes hk.shape]
  exact or_assoc.mp (Or.inl (h.phys_place ho hi))

/-- `kmalloc` keeps clients' bytes. -/
lemma PagesInv.kmalloc_keeps (h : PagesInv s objs bigs pages) {size : ℕ}
    (hfit : MarkerFits size) :
    Keeps s (Pmm.kmalloc s size).2 (bigs.map Big.block ++ pages.map pageBlock) objs := by
  obtain heq | heq | ⟨c, p, t, heq, -, -, -, -, hkeeps⟩ | ⟨g, t, heq, -, -, -, hkeeps⟩ :=
    h.kmalloc hfit
  · rw [heq]
    exact Keeps.refl s _ _
  · rw [heq]
    exact Keeps.refl s _ _
  · rw [heq]
    exact hkeeps
  · rw [heq]
    exact hkeeps

/-- So does `kfree`. -/
lemma RouteInv.kfree_untouched (h : RouteInv r objs bigs) (hal : al ∈ r.run.live) (sp : List ℕ) :
    Untouched r ⟨⟨(Pmm.kfree r.run.slabs al.ptr).2, r.run.live.erase al⟩, r.pages, sp⟩ := by
  have hnd : ((r.run.live.erase al).map Alloc.ptr).Nodup :=
    h.ptrs.sublist ((erase_sublist).map _)
  obtain ⟨c, p, hp, hptr, _⟩ | ⟨g, hg, hptr, _⟩ := h.owned al hal
  · rw [hptr, h.pmm.kfree_object hp]
    by_cases hpattern : readLE r.run.slabs.buddy.mem p 8 = freedPattern
    · rw [if_pos hpattern]
      exact ⟨SamePtrs.refl _, fun _ _ _ _ _ => rfl⟩
    · rw [if_neg hpattern]
      have hkeeps := (h.pmm.slabs.free hp).2.1
      have hrest : PagesRunInv ⟨slabFree r.run.slabs (slabOf p) p, r.run.live.erase al⟩ r.pages
          (update objs c ((objs c).erase p)) bigs :=
        ⟨h.pmm.free_object hp, fun x hx => (h.stays_object hal hx hptr).owned hkeeps.ptrs, hnd⟩
      exact Untouched.of_after hrest hkeeps
  · rw [hptr, h.pmm.kfree_big hg]
    have hperm := h.pmm.perm (perm_cons_erase hg) (List.Perm.refl r.pages)
    have hfree := hperm.free_big rfl
    refine Untouched.of_after ⟨hfree.1, fun x hx => ?_, hnd⟩ hfree.2
    exact (h.stays_big hal hx hptr).owned hfree.2.ptrs

/-! ## Arrays -/

/-- The regions are those that clients hold, and the bytes that are known are in memory. -/
structure Agrees (r : RouteRun) (M : Arrays) : Prop where
  held : ∀ o, (M o).isSome ↔ r.Holds o
  known : ∀ o c i b, M o = some c → c i = some b →
    i < o.size ∧ r.run.slabs.buddy.mem (o.phys r.run.slabs i) = b

variable {M : Arrays}

/-- A known byte of a region that stays. -/
lemma Agrees.stays (h : Agrees r M) (hu : Untouched r r') {c : ℕ → Option UInt8} {b : UInt8}
    (hc : M o = some c) (hb : c i = some b) (ho : r'.Holds o) :
    i < o.size ∧ r'.run.slabs.buddy.mem (o.phys r'.run.slabs i) = b := by
  obtain ⟨hi, hmem⟩ := h.known o c i b hc hb
  have hheld := (h.held o).mp (by rw [hc]; rfl)
  rw [phys_congr hu.ptrs, hu.bytes o hheld ho i hi]
  exact ⟨hi, hmem⟩

/-- A region comes or goes, and nothing is known of its bytes. -/
lemma Agrees.replace (h : Agrees r M) (hu : Untouched r r') {m : Option (ℕ → Option UInt8)}
    (hm : ∀ c, m = some c → ∀ i, c i = none)
    (hholds : ∀ o', r'.Holds o' ↔ if o' = o then m.isSome = true else r.Holds o') :
    Agrees r' (update M o m) := by
  refine ⟨fun o' => ?_, fun o' c i b hc hb => ?_⟩
  · rw [hholds]
    by_cases heq : o' = o
    · rw [if_pos heq, heq, update_self]
    · rw [if_neg heq, update_of_ne heq, h.held]
  · by_cases heq : o' = o
    · rw [heq, update_self] at hc
      exact absurd (hb.symm.trans (hm c hc i)) (by simp)
    · rw [update_of_ne heq] at hc
      refine h.stays hu hc hb ((hholds o').mpr ?_)
      rw [if_neg heq, ← h.held, hc]
      rfl

/-- One more array. -/
lemma Agrees.handOut (h : Agrees r M) (hu : Untouched r r') (hnew : ¬r.Holds o)
    (hholds : ∀ o', r'.Holds o' ↔ o' = o ∨ r.Holds o') :
    M o = none ∧ Agrees r' (update M o (some fun _ => none)) := by
  rw [← h.held, Option.not_isSome_iff_eq_none] at hnew
  refine ⟨hnew, h.replace hu (fun c hc i => by rw [← Option.some.inj hc]) fun o' => ?_⟩
  rw [hholds]
  by_cases heq : o' = o <;> simp [heq]

/-- One array less. -/
lemma Agrees.giveBack (h : Agrees r M) (hu : Untouched r r')
    (hholds : ∀ o', r'.Holds o' ↔ o' ≠ o ∧ r.Holds o') :
    Agrees r' (update M o none) := by
  refine h.replace hu (fun c hc => absurd hc (by simp)) fun o' => ?_
  rw [hholds]
  by_cases heq : o' = o <;> simp [heq]

/-- A byte is known once it is written or read. -/
lemma Agrees.learn (h : Agrees r M) (hinv : RouteInv r objs bigs) {t : RouteRun}
    {c : ℕ → Option UInt8} {b : UInt8} (hc : M o = some c) (hi : i < o.size)
    (hptrs : SamePtrs r.run.slabs t.run.slabs) (hholds : ∀ o', t.Holds o' ↔ r.Holds o')
    (hmem : t.run.slabs.buddy.mem =
      update r.run.slabs.buddy.mem (o.phys r.run.slabs i) b) :
    Agrees t (update M o (some (update c i (some b)))) := by
  have ho := (h.held o).mp (by rw [hc]; rfl)
  refine ⟨fun o' => ?_, fun o' c' j b' hc' hb' => ?_⟩
  · rw [hholds, ← h.held]
    by_cases heq : o' = o
    · simp [heq, hc]
    · rw [update_of_ne heq]
  · rw [phys_congr hptrs, hmem]
    by_cases hsame : o' = o ∧ j = i
    · obtain ⟨rfl, rfl⟩ := hsame
      rw [update_self] at hc' ⊢
      rw [← Option.some.inj hc', update_self] at hb'
      exact ⟨hi, Option.some.inj hb'⟩
    · -- any other byte was known before, and it is elsewhere
      have hold : ∃ c₀, M o' = some c₀ ∧ c₀ j = some b' := by
        by_cases heq : o' = o
        · subst heq
          have hji : j ≠ i := fun hji => hsame ⟨rfl, hji⟩
          rw [update_self] at hc'
          rw [← Option.some.inj hc', update_of_ne hji] at hb'
          exact ⟨c, hc, hb'⟩
        · rw [update_of_ne heq] at hc'
          exact ⟨c', hc', hb'⟩
      obtain ⟨c₀, hc₀, hb₀⟩ := hold
      obtain ⟨hj, hvalue⟩ := h.known o' c₀ j b' hc₀ hb₀
      have ho' := (h.held o').mp (by rw [hc₀]; rfl)
      rw [update_of_ne fun heq => hsame (hinv.apart ho' ho hj hi heq)]
      exact ⟨hj, hvalue⟩

/-- `kmalloc` hands out an array. -/
lemma RouteInv.kmallocPtr_agrees (h : RouteInv r objs bigs) (hM : Agrees r M) {size v : ℕ}
    (hsize : MarkerFits size) (hk : Pmm.kmalloc r.run.slabs size = (.ptr v, s')) (sp : List ℕ) :
    M (.alloc ⟨v, size⟩) = none ∧ Agrees ⟨⟨s', ⟨v, size⟩ :: r.run.live⟩, r.pages, sp⟩
      (update M (.alloc ⟨v, size⟩) (some fun _ => none)) := by
  obtain ⟨-, -, -, -, hfresh, -⟩ := h.kmalloc hsize hk
  have hkeeps := h.pmm.kmalloc_keeps hsize
  rw [hk] at hkeeps
  refine hM.handOut (Untouched.of_before h hkeeps) (fun hheld => ?_) fun o => ?_
  · exact hfresh (mem_map_of_mem (f := Alloc.ptr) hheld)
  · cases o with
    | alloc al =>
      show al ∈ _ :: _ ↔ _
      rw [mem_cons, Region.alloc.injEq]
      rfl
    | page a => simp [RouteRun.Holds]

/-- `kfree` takes it back. -/
lemma RouteInv.kfree_agrees (h : RouteInv r objs bigs) (hM : Agrees r M) (hal : al ∈ r.run.live)
    (sp : List ℕ) :
    Agrees ⟨⟨(Pmm.kfree r.run.slabs al.ptr).2, r.run.live.erase al⟩, r.pages, sp⟩
      (update M (.alloc al) none) := by
  refine hM.giveBack (h.kfree_untouched hal sp) fun o => ?_
  cases o with
  | alloc al' =>
    show al' ∈ r.run.live.erase al ↔ _
    rw [(List.Nodup.of_map _ h.ptrs).mem_erase_iff, Ne, Ne, Region.alloc.injEq]
    rfl
  | page a => simp [RouteRun.Holds]

/-- No page is handed out twice. -/
lemma PagesInv.pages_nodup (h : PagesInv s objs bigs pages) : pages.Nodup :=
  .of_map _ (nodup_append.mp (nodup_append.mp h.slabs.buddy.live_nodup).2.1).2.1

/-- A page is an array too. -/
lemma RouteInv.allocPage_agrees (h : RouteInv r objs bigs) (hM : Agrees r M) {a : ℕ}
    (hal : pmmAllocPage r.run.slabs = (some a, s')) (sp : List ℕ) :
    M (.page a) = none ∧ Agrees ⟨⟨s', r.run.live⟩, a :: r.pages, sp⟩
      (update M (.page a) (some fun _ => none)) := by
  obtain ⟨hinv, hkeeps⟩ := h.pmm.allocPage hal
  refine hM.handOut (Untouched.of_before h hkeeps) (nodup_cons.mp hinv.pages_nodup).1
    fun o => ?_
  cases o with
  | alloc al => simp [RouteRun.Holds]
  | page x =>
    show x ∈ a :: r.pages ↔ _
    rw [mem_cons, Region.page.injEq]
    rfl

/-- A page is taken back. -/
lemma RouteInv.freePage_agrees (h : RouteInv r objs bigs) (hM : Agrees r M) {a : ℕ}
    (ha : a ∈ r.pages) (sp : List ℕ) :
    Agrees ⟨⟨pmmFreePage r.run.slabs a, r.run.live⟩, r.pages.erase a, sp⟩
      (update M (.page a) none) := by
  obtain ⟨hinv, hkeeps⟩ := h.pmm.freePage ha
  have hafter := (h.of_pages hkeeps.ptrs hinv).toPagesRunInv
  refine hM.giveBack (Untouched.of_after hafter hkeeps) fun o => ?_
  cases o with
  | alloc al => simp [RouteRun.Holds]
  | page x =>
    show x ∈ r.pages.erase a ↔ _
    rw [h.pmm.pages_nodup.mem_erase_iff, Ne, Ne, Region.page.injEq]
    rfl

/-- The kernel's memory stands for arrays. -/
def Implements (r : RouteRun) (M : Arrays) : Prop :=
  (∃ objs bigs, RouteInv r objs bigs) ∧ Agrees r M

lemma Agrees.isSome (h : Agrees r M) (ho : r.Holds o) : ∃ c, M o = some c :=
  Option.isSome_iff_exists.mp ((h.held o).mpr ho)

/-- Every step in the kernel's memory is one of arrays. -/
lemma kernel_follows : Follows KernelStep ArrayStep Implements := by
  intro r e r' hst M hR
  obtain ⟨⟨objs, bigs, hinv⟩, hM⟩ := hR
  have hinv' : ∃ objs' bigs', RouteInv r' objs' bigs' := by
    obtain rfl | hroute := hst.route
    · exact ⟨objs, bigs, hinv⟩
    · exact hinv.step hroute
  suffices hstep : ∃ M', ArrayStep M e M' ∧ Agrees r' M' by
    obtain ⟨M', hstep, hM'⟩ := hstep
    exact ⟨M', hstep, hinv', hM'⟩
  cases hst with
  | kmallocPtr hsize hk =>
    obtain ⟨hnone, hM'⟩ := hinv.kmallocPtr_agrees hM hsize hk _
    exact ⟨_, .handOut hnone, hM'⟩
  | kmallocNull hsize hk =>
    rw [hinv.pmm.kmalloc_null hsize hk]
    exact ⟨M, .refuse, hM⟩
  | kfree hal =>
    obtain ⟨c, hc⟩ := hM.isSome (o := .alloc _) hal
    exact ⟨_, .giveBack hc, hinv.kfree_agrees hM hal _⟩
  | allocPage hpage =>
    obtain ⟨hnone, hM'⟩ := hinv.allocPage_agrees hM hpage _
    exact ⟨_, .handOut hnone, hM'⟩
  | allocPageNone hpage =>
    rw [pmmAllocPage_none hpage]
    exact ⟨M, .refuse, hM⟩
  | freePage ha =>
    obtain ⟨c, hc⟩ := hM.isSome (o := .page _) ha
    exact ⟨_, .giveBack hc, hinv.freePage_agrees hM ha _⟩
  | @store al i b hal hi =>
    obtain ⟨c, hc⟩ := hM.isSome (o := .alloc al) hal
    have hM' := hM.learn (t := ⟨⟨storeByte r.run.slabs (al.ptr + i) b, r.run.live⟩, r.pages,
      r.slabPtrs⟩) hinv hc hi ⟨rfl, rfl⟩ (fun o => by cases o <;> rfl) rfl
    exact ⟨_, .store hc hi, hM'⟩
  | @storePage a i b ha hi hclean =>
    obtain ⟨c, hc⟩ := hM.isSome (o := .page a) ha
    have hM' := hM.learn (t := ⟨⟨withMem r.run.slabs (update r.run.slabs.buddy.mem (a + i)
      b), r.run.live⟩, r.pages, r.slabPtrs⟩) hinv hc hi ⟨rfl, rfl⟩ (fun o => by cases o <;> rfl) rfl
    exact ⟨_, .store hc hi, hM'⟩
  | @load o i ho hi =>
    obtain ⟨c, hc⟩ := hM.isSome ho
    refine ⟨_, .load hc hi ?_, hM.learn hinv hc hi (SamePtrs.refl _) (fun _ => Iff.rfl)
      (update_eq_self _ _).symm⟩
    -- a byte that is known is the one in memory
    cases hci : c i with
    | none => exact Or.inl rfl
    | some b => exact Or.inr (by rw [(hM.known o c i b hc hci).2])

/-- Whatever clients see in a run of the kernel from boot on, with any number of regions that are
handed out, written to, read and given back in any order, they can see with arrays of their own. -/
theorem kernel_refines_arrays {specs : List ArenaSpec} (hv : ValidSpecs specs)
    (hpos : ∀ s ∈ specs, 0 < s.base) {hhdm : ℕ} {mem : Mem} {counter addr : ℕ}
    (hmap : Mapped (PmmRun.init specs hhdm mem counter addr).slabs)
    (hstray : NoStrayMagic (PmmRun.init specs hhdm mem counter addr).slabs) {es : List Event}
    (hrun : Run KernelStep (RouteRun.init specs hhdm mem counter addr) es r) :
    ∃ M, Run ArrayStep (fun _ => none) es M ∧ ∀ o, (M o).isSome ↔ r.Holds o := by
  have hinv := RouteReachable.inv hv hpos hmap hstray (.init rfl)
  have hstart : Agrees (RouteRun.init specs hhdm mem counter addr) fun _ => none := by
    refine ⟨fun o => ?_, fun o c i b hc => absurd hc (by simp)⟩
    cases o with
    | alloc al => simp [RouteRun.Holds, RouteRun.init, PmmRun.init]
    | page a => simp [RouteRun.Holds, RouteRun.init]
  obtain ⟨M, hrun', -, hM⟩ := kernel_follows.run hrun ⟨hinv, hstart⟩
  exact ⟨M, hrun', hM.held⟩

/-- A byte that was just stored is loaded. -/
lemma KernelStep.load_stored (b : UInt8) (h : al ∈ r.run.live) (hi : i < al.size) :
    KernelStep ⟨⟨storeByte r.run.slabs (al.ptr + i) b, r.run.live⟩, r.pages, r.slabPtrs⟩
      (.load (.alloc al) i b)
      ⟨⟨storeByte r.run.slabs (al.ptr + i) b, r.run.live⟩, r.pages, r.slabPtrs⟩ := by
  have hload := KernelStep.load (r := ⟨⟨storeByte r.run.slabs (al.ptr + i) b, r.run.live⟩, r.pages,
    r.slabPtrs⟩) (o := .alloc al) h hi
  have hbyte : (storeByte r.run.slabs (al.ptr + i) b).buddy.mem
      (Region.phys (storeByte r.run.slabs (al.ptr + i) b) (.alloc al) i) = b :=
    update_self _ _ _
  rwa [hbyte] at hload

/-- A page and 3000 bytes are handed out, and one byte is written and read. -/
theorem kernel_refines_arrays_twoPages : ∃ M, Run ArrayStep (fun _ => none)
    [.handOut (.page 0x100000), .handOut (.alloc twoPagesBlock), .store (.alloc twoPagesBlock) 5 7,
      .load (.alloc twoPagesBlock) 5 7] M ∧ (M (.page 0x100000)).isSome := by
  have hpage : KernelStep ⟨twoPages, [], []⟩ (.handOut (.page 0x100000)) twoPagesPage :=
    .allocPage (Prod.ext (by decide +kernel) rfl)
  have hblock : KernelStep twoPagesPage (.handOut (.alloc twoPagesBlock)) twoPagesBoth :=
    .kmallocPtr (markerFits_of_page (by decide)) (Prod.ext (by decide +kernel) rfl)
  have hheld : twoPagesBlock ∈ twoPagesBoth.run.live := mem_cons_self
  have hstore := KernelStep.store (r := twoPagesBoth) (i := 5) 7 hheld (by decide)
  have hload := KernelStep.load_stored (r := twoPagesBoth) (i := 5) 7 hheld (by decide)
  obtain ⟨M, hrun, hheld⟩ := kernel_refines_arrays twoPages_validSpecs (by decide) twoPages_mapped
    twoPages_noStrayMagic (.cons hpage (.cons hblock (.cons hstore (.cons hload (.nil _)))))
  exact ⟨M, hrun, (hheld _).mpr (mem_cons_self (a := 0x100000))⟩

end LunOS.Pmm
