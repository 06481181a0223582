import LunOS.Pmm.Theorems

/-!
# What decides how a pointer is freed

`slab_find_containing` rounds a pointer down to 8 KiB and trusts the word it finds there, which may
be the first word of somebody else's page.

- Runs of `kmalloc`, `kfree`, `pmm_alloc_page` and `pmm_free_page`, with the owners of the pages
  writing to them.
- `find_iff_slab`: as long as no owner stores the magic number of a slab in the first word of a page
  at an 8 KiB boundary, a live pointer is found in a slab if and only if the slab caches handed it
  out, and `kfree` of any other pointer goes to the buddy allocator.
- `foreign_page_routes`: with such a page in front, `kfree` of a block goes through `slab_free`.
-/

namespace LunOS.Pmm
open LunOS.Dyadic LunOS.Memory LunOS.BuddyAllocator LunOS.SlabAllocator

variable {s : SlabState} {objs : CacheIdx → List ℕ} {bigs : List Big} {pages : List ℕ}
  {r : RouteRun}

/-- A slab on a list of its cache that has the pointer among its objects. -/
def SlabContains (s : SlabState) (a ptr : ℕ) : Prop :=
  ∃ c w, a ∈ (s.slabCaches c).lists w ∧ ∃ i, i < (s.slabCaches c).objectsPerSlab ∧
    virtToPhys s ptr = objectAddr a (s.slabCaches c).objectSize i

lemma PagesInv.find_object_contains (h : PagesInv s objs bigs pages) {c : CacheIdx} {p : ℕ}
    (hp : p ∈ objs c) : SlabContains s (slabOf p) (p + s.buddy.hhdmOffset) := by
  have hlt := h.object_lt hp
  have hsize := (h.slabs.caches c).shaped.size_ge
  rw [(h.slabs.caches c).shaped.1] at hsize
  obtain ⟨w, hlisted, _⟩ := (h.slabs.caches c).slab_of_live hp
  obtain ⟨i, hi, heq⟩ := (h.slabs.live_slot hp).2.1
  refine ⟨c, w, hlisted, i, hi, ?_⟩
  rw [virtToPhys_eq (by omega)]
  exact heq

/-- In every run of `kmalloc` (with requests that leave room for the end marker), `kfree`,
`pmm_alloc_page` and `pmm_free_page`, in which the owners of pages write what they like except for
the magic number of a slab in the first word of a page at an 8 KiB boundary: `slab_find_containing`
finds a live pointer if and only if the slab caches handed it out, what it finds is the slab that
contains it, and `kfree` of every other live pointer gives a block back to the buddy allocator. -/
theorem find_iff_slab {specs : List ArenaSpec} (hv : ValidSpecs specs)
    (hpos : ∀ s ∈ specs, 0 < s.base) {hhdm : ℕ} {mem : Mem} {counter addr : ℕ}
    (hmap : Mapped (PmmRun.init specs hhdm mem counter addr).slabs)
    (hstray : NoStrayMagic (PmmRun.init specs hhdm mem counter addr).slabs)
    (hr : RouteReachable MarkerFits NoSlabMagic (RouteRun.init specs hhdm mem counter addr) r)
    {al : Alloc} (hal : al ∈ r.run.live) :
    ((slabFindContaining r.run.slabs al.ptr).isSome ↔ al.ptr ∈ r.slabPtrs) ∧
      (∀ a, slabFindContaining r.run.slabs al.ptr = some a → SlabContains r.run.slabs a al.ptr) ∧
      (al.ptr ∉ r.slabPtrs → (kfree r.run.slabs al.ptr).1 = .buddyFreed) := by
  obtain ⟨objs, bigs, hinv⟩ := RouteReachable.inv hv hpos hmap hstray hr
  have hpath := hinv.path al hal
  obtain ⟨c, p, hp, hptr, _⟩ | ⟨g, hg, hptr, _⟩ := hinv.owned al hal
  · have hslab : al.ptr ∈ r.slabPtrs := hpath.mpr ⟨c, p, hp, hptr⟩
    refine ⟨?_, fun a ha => ?_, fun hnot => absurd hslab hnot⟩
    · rw [hptr, hinv.pmm.find_object hp, ← hptr]
      exact iff_of_true rfl hslab
    · rw [hptr, hinv.pmm.find_object hp] at ha
      rw [← Option.some.inj ha, hptr]
      exact hinv.pmm.find_object_contains hp
  · have hnot : al.ptr ∉ r.slabPtrs := fun hmem =>
      hinv.pmm.big_not_object hg hptr (hpath.mp hmem)
    have hnone := hinv.pmm.find_big hg
    rw [← hptr] at hnone
    refine ⟨?_, fun a ha => ?_, fun _ => ?_⟩
    · rw [hnone]
      exact iff_of_false Bool.false_ne_true hnot
    · rw [hnone] at ha
      exact absurd ha (Option.some_ne_none a).symm
    · rw [hptr, hinv.pmm.kfree_big hg]

/-! ## A page that looks like a slab -/

/-- The arena of two pages, with the first page handed out. -/
def twoPagesPage : RouteRun := ⟨⟨(pmmAllocPage twoPages.slabs).2, []⟩, [0x100000], []⟩

/-- The pointer to 3000 bytes in the second page. -/
def twoPagesBlock : Alloc := ⟨0xFFFF800000101010, 3000⟩

def twoPagesBoth : RouteRun :=
  ⟨⟨(kmalloc twoPagesPage.run.slabs 3000).2, [twoPagesBlock]⟩, [0x100000], []⟩

/-- The owner of the first page writes a slab header: the magic number and the address of the first
cache. -/
def twoPagesFake : RouteRun :=
  ⟨⟨withMem twoPagesBoth.run.slabs (writeLE (writeLE twoPagesBoth.run.slabs.buddy.mem 0x100000 8
    slabMagic) 0x100008 8 0xFFFFFFFF80100000), [twoPagesBlock]⟩, [0x100000], []⟩

lemma twoPagesBoth_reachable {Q : Mem → ℕ → Prop} :
    RouteReachable MarkerFits Q ⟨twoPages, [], []⟩ twoPagesBoth := by
  have hpage : RouteReachable MarkerFits Q ⟨twoPages, [], []⟩ twoPagesPage := by
    refine Runs.Reachable.step (.init rfl) ?_
    exact RouteStep.allocPage (Prod.ext (by decide +kernel) rfl)
  refine hpage.step ?_
  exact RouteStep.kmallocPtr (markerFits_of_page (by decide)) (Prod.ext (by decide +kernel) rfl)

theorem find_iff_slab_twoPages :
    slabFindContaining twoPagesBoth.run.slabs twoPagesBlock.ptr = none ∧
      (kfree twoPagesBoth.run.slabs twoPagesBlock.ptr).1 = .buddyFreed := by
  have hroute := find_iff_slab twoPages_validSpecs (by decide) twoPages_mapped
    twoPages_noStrayMagic twoPagesBoth_reachable (List.mem_cons_self (a := twoPagesBlock))
  have hnot : twoPagesBlock.ptr ∉ twoPagesBoth.slabPtrs := List.not_mem_nil
  refine ⟨?_, hroute.2.2 hnot⟩
  rw [← Option.not_isSome_iff_eq_none, hroute.1]
  exact hnot

/-- A block of `kmalloc` behind a page whose owner wrote a slab header into it: the header is taken
for a slab, and `kfree` puts the block on its free list. -/
theorem foreign_page_routes :
    RouteReachable MarkerFits (fun _ _ => True) ⟨twoPages, [], []⟩ twoPagesFake ∧
      twoPagesBlock ∈ twoPagesFake.run.live ∧ twoPagesBlock.ptr ∉ twoPagesFake.slabPtrs ∧
      slabFindContaining twoPagesFake.run.slabs twoPagesBlock.ptr = some 0x100000 ∧
      (kfree twoPagesFake.run.slabs twoPagesBlock.ptr).1 = .slabFreed := by
  refine ⟨twoPagesBoth_reachable.step ?_, List.mem_cons_self, List.not_mem_nil,
    by decide +kernel, by decide +kernel⟩
  apply RouteStep.writePage List.mem_cons_self _ trivial
  intro z hz
  unfold pageFrameSize at hz
  rw [writeLE_of_outside (by omega), writeLE_of_outside (by omega)]

end LunOS.Pmm
