import LunOS.BuddyAllocator.Remains
import LunOS.Pmm.Routing

/-!
# Freeing a pointer twice

`kfree` marks what it frees with `FREED_PATTERN`. The mark of an object stays until the object is
handed out again. The mark of a block is the first word of its header, and `buddy_free_pages` writes
the order of a node into the low byte of that word unless the block is merged with one below.

- `kfree_twice`: a second `kfree` of the same pointer changes nothing, whatever it reports.
- `freed_pattern_stays_iff`: the second `kfree` of a block finds the mark if and only if the block
  was merged downwards.
- `freed_pattern_overwritten`: otherwise it takes what is left of the header for a size.
-/

namespace LunOS.Pmm
open LunOS.Dyadic LunOS.Memory LunOS.BuddyAllocator LunOS.SlabAllocator List

/-- The virtual address of the header in front of a pointer. -/
def headerPtr (ptr : ℕ) : ℕ := u64 (ptr + (2 ^ 64 - allocHeaderSize))

/-- The buddies of the block of a pointer, from the order in its header up to some order, are free,
and the last of them is below the block. -/
def BlockMergesDown (s : SlabState) (ptr : ℕ) : Prop :=
  ∃ i, findArena s.buddy (virtToPhys s (headerPtr ptr)) = some i ∧
    MergesDown (s.buddy.buddyArenas i) (virtToPhys s (headerPtr ptr))
      (load s (u64 (headerPtr ptr + 12)) 1)

variable {s : SlabState} {objs : CacheIdx → List ℕ} {bigs : List Big} {pages : List ℕ}

/-! ## Objects -/

/-- A freed object is still a slot of its slab, with the freed pattern in its first word. -/
lemma PagesInv.kfree_object_twice (h : PagesInv s objs bigs pages) {c : CacheIdx} {p : ℕ}
    (hp : p ∈ objs c) :
    kfree (kfree s (p + s.buddy.hhdmOffset)).2 (p + s.buddy.hhdmOffset) =
      (.slabDoubleFree, (kfree s (p + s.buddy.hhdmOffset)).2) := by
  rw [h.kfree_object hp]
  split
  · next hpattern =>
    rw [h.kfree_object hp, if_pos hpattern]
  · obtain ⟨_, hkeeps, hlist, _, ⟨c', w, hlisted⟩, hpoison⟩ := h.slabs.free hp
    have hfreed := h.free_object hp
    have hslot := ((hfreed.slabs.caches c').slab w _ hlisted).slots p
      (hlist ▸ mem_cons_self)
    have hagain := hfreed.kfree_slot hlisted hslot
    rw [hkeeps.ptrs.hhdm] at hagain
    exact hagain.trans (if_pos hpoison)

/-! ## Blocks -/

/-- A freed block is reported. -/
lemma kfreeBuddy_of_pattern {ptr : ℕ} (h : load s (headerPtr ptr) 8 = freedPattern) :
    kfreeBuddy s ptr = (.buddyDoubleFree, s) := by
  unfold kfreeBuddy
  exact if_pos h

lemma kfreeBuddy_of_order {ptr : ℕ} (h : load s (headerPtr ptr) 8 % 256 ≤ maxSupportedOrder) :
    load s (headerPtr ptr) 8 ≠ freedPattern ∧ kfreeBuddy s ptr = (.corrupted, s) := by
  have hpattern : load s (headerPtr ptr) 8 ≠ freedPattern := by
    intro heq
    rw [heq] at h
    exact absurd h (by decide)
  have hmagic : load s (headerPtr ptr) 8 ≠ allocMagic := by
    intro heq
    rw [heq] at h
    exact absurd h (by decide)
  unfold kfreeBuddy
  exact ⟨hpattern, (if_neg hpattern).trans (if_pos (Or.inl hmagic))⟩

/-- What `kfree` of a block leaves in the first words of pages. -/
lemma PagesInv.freed_words (h : PagesInv s objs bigs pages) {g : Big} (hg : g ∈ bigs)
    {s' : SlabState} (hs' : s' = (kfree s (g.block.addr + 16 + s.buddy.hhdmOffset)).2) :
    ∃ i start, findArena s.buddy g.block.addr = some i ∧
      (start ≠ g.block.addr ↔
        MergesDown (s.buddy.buddyArenas i) g.block.addr g.block.order) ∧
      ∀ p, 4096 ∣ p →
        if p = start then readLE s'.buddy.mem p 8 % 256 ≤ maxSupportedOrder
        else if p = g.block.addr then readLE s'.buddy.mem p 8 = freedPattern
        else readLE s'.buddy.mem p 8 = readLE s.buddy.mem p 8 := by
  have hcons := h.perm (perm_cons_erase hg) (List.Perm.refl pages)
  have hfits := (h.bigs g hg).fits
  have hpage := h.big_dvd hg
  have hmarked := (write_block (t := s.store g.block.addr 8 freedPattern) hcons.slabs (by
    intro z hz
    rw [mem_span] at hz
    exact writeLE_of_outside (by omega)) rfl).1
  obtain ⟨i, start, harena, hmoves, hwords⟩ := hmarked.buddy.free_words (x := g.block)
    (mem_append_right _ mem_cons_self)
  rw [hs', h.kfree_big hg]
  refine ⟨i, start, harena, hmoves, fun p hp => ?_⟩
  have hword := hwords p hp
  split at hword
  · next hstart =>
    rw [if_pos hstart]
    exact hword
  · next hstart =>
    rw [if_neg hstart]
    split
    · next haddr =>
      refine hword.trans ?_
      rw [haddr]
      exact readLE_writeLE_same (by decide)
    · refine hword.trans ?_
      exact readLE_writeLE_of_disjoint (by omega)

/-- The header of a live block, where `BlockMergesDown` reads address and order. -/
lemma PagesInv.blockMergesDown_iff (h : PagesInv s objs bigs pages) {g : Big} (hg : g ∈ bigs) {i : ℕ}
    (harena : findArena s.buddy g.block.addr = some i) :
    BlockMergesDown s (g.block.addr + 16 + s.buddy.hhdmOffset) ↔
      MergesDown (s.buddy.buddyArenas i) g.block.addr g.block.order := by
  have hlt := h.big_lt hg
  have hfits := (h.bigs g hg).fits
  have hheader : headerPtr (g.block.addr + 16 + s.buddy.hhdmOffset) =
      g.block.addr + s.buddy.hhdmOffset := header_eq (by omega)
  have hfield : u64 (g.block.addr + s.buddy.hhdmOffset + 12) =
      g.block.addr + 12 + s.buddy.hhdmOffset := by
    rw [Nat.add_right_comm]
    exact Nat.mod_eq_of_lt (by omega)
  unfold BlockMergesDown
  rw [hheader, hfield, load_eq (by omega), (h.bigs g hg).order, virtToPhys_eq (by omega), harena]
  constructor
  · rintro ⟨j, hj, hdown⟩
    cases hj
    exact hdown
  · exact fun hdown => ⟨i, rfl, hdown⟩

/-- The second `kfree` of a block stops at the freed pattern, or at what is left of it. -/
lemma PagesInv.kfree_big_twice (h : PagesInv s objs bigs pages) {g : Big} (hg : g ∈ bigs)
    {ptr : ℕ} (hptr : ptr = g.block.addr + 16 + s.buddy.hhdmOffset) {s' : SlabState}
    (hs' : s' = (kfree s ptr).2) :
    (BlockMergesDown s ptr ∧ load s' (headerPtr ptr) 8 = freedPattern ∧
        kfree s' ptr = (.buddyDoubleFree, s')) ∨
      (¬BlockMergesDown s ptr ∧ load s' (headerPtr ptr) 8 ≠ freedPattern ∧
        kfree s' ptr = (.corrupted, s')) := by
  have hlt := h.big_lt hg
  have hfits := (h.bigs g hg).fits
  rw [hptr] at hs'
  obtain ⟨i, start, harena, hmoves, hwords⟩ := h.freed_words hg hs'
  rw [h.kfree_big hg] at hs'
  obtain ⟨hfreed, hkeeps⟩ :=
    (h.perm (perm_cons_erase hg) (List.Perm.refl pages)).free_big hs'
  have hhdm := hkeeps.ptrs.hhdm
  have hload : load s' (headerPtr ptr) 8 = readLE s'.buddy.mem g.block.addr 8 := by
    have hheader : headerPtr ptr = g.block.addr + s.buddy.hhdmOffset := by
      rw [hptr]
      exact header_eq (by omega)
    rw [hheader, ← hhdm]
    exact load_eq (by rw [hhdm]; omega) 8
  -- no word where a slab could begin has become the magic number
  have hword : readLE s'.buddy.mem (slabOf (g.block.addr + 16)) 8 ≠ slabMagic := by
    have hold := h.big_word hg
    have hnew := hwords (slabOf (g.block.addr + 16)) (by unfold slabOf; omega)
    intro hmagic
    rw [hmagic] at hnew
    split at hnew
    · exact absurd hnew (by decide)
    · split at hnew
      · exact absurd hnew (by decide)
      · exact hold hnew.symm
  have hnone : slabFindContaining s' ptr = none := by
    rw [hptr, ← hhdm]
    exact hfreed.mapped.find_none (by rw [hhdm]; omega) hword
  have hkfree : kfree s' ptr = kfreeBuddy s' ptr := by
    unfold kfree
    rw [if_neg (by omega), hnone]
  have hat := hwords g.block.addr (h.big_dvd hg)
  rw [hkfree, hptr, h.blockMergesDown_iff hg harena, ← hmoves, ← hptr]
  by_cases hstart : g.block.addr = start
  · rw [if_pos hstart, ← hload] at hat
    exact Or.inr ⟨fun hne => hne hstart.symm, kfreeBuddy_of_order hat⟩
  · rw [if_neg hstart, if_pos rfl, ← hload] at hat
    exact Or.inl ⟨fun heq => hstart heq.symm, hat, kfreeBuddy_of_pattern hat⟩

/-! ## Runs -/

section
variable {r : RouteRun} {specs : List ArenaSpec} {hhdm : ℕ} {mem : Mem} {counter addr : ℕ}

/-- In every run of `kmalloc`, `kfree` and the page functions, with requests that leave room for the
end marker and no page that looks like a slab: a second `kfree` of a live pointer leaves the whole
state as the first one left it. The second call may look for the end marker at a stray address; here
every address can be read. -/
theorem kfree_twice (hv : ValidSpecs specs) (hpos : ∀ s ∈ specs, 0 < s.base)
    (hmap : Mapped (PmmRun.init specs hhdm mem counter addr).slabs)
    (hstray : NoStrayMagic (PmmRun.init specs hhdm mem counter addr).slabs)
    (hr : RouteReachable MarkerFits NoSlabMagic (RouteRun.init specs hhdm mem counter addr) r)
    {al : Alloc} (hal : al ∈ r.run.live) :
    (kfree (kfree r.run.slabs al.ptr).2 al.ptr).2 = (kfree r.run.slabs al.ptr).2 := by
  obtain ⟨objs, bigs, hinv⟩ := RouteReachable.inv hv hpos hmap hstray hr
  obtain ⟨c, p, hp, hptr, _⟩ | ⟨g, hg, hptr, _⟩ := hinv.owned al hal
  · rw [hptr, hinv.pmm.kfree_object_twice hp]
  · obtain ⟨_, _, htwice⟩ | ⟨_, _, htwice⟩ := hinv.pmm.kfree_big_twice hg hptr rfl
    · rw [htwice]
    · rw [htwice]

theorem kfree_twice_twoPages :
    (kfree (kfree twoPagesFirst.run.slabs twoPagesAlloc.ptr).2 twoPagesAlloc.ptr).2 =
        (kfree twoPagesFirst.run.slabs twoPagesAlloc.ptr).2 ∧
      (kfree (kfree twoPagesBoth.run.slabs twoPagesBlock.ptr).2 twoPagesBlock.ptr).2 =
        (kfree twoPagesBoth.run.slabs twoPagesBlock.ptr).2 := by
  constructor
  · exact kfree_twice twoPages_validSpecs (by decide) twoPages_mapped twoPages_noStrayMagic
      twoPagesFirst_reachable mem_cons_self
  · exact kfree_twice twoPages_validSpecs (by decide) twoPages_mapped twoPages_noStrayMagic
      twoPagesBoth_reachable mem_cons_self

/-- In every such run: after `kfree` of a live pointer to a block, a second `kfree` finds the freed
pattern in the header and stops there if and only if the block was merged with one below. -/
theorem freed_pattern_stays_iff (hv : ValidSpecs specs) (hpos : ∀ s ∈ specs, 0 < s.base)
    (hmap : Mapped (PmmRun.init specs hhdm mem counter addr).slabs)
    (hstray : NoStrayMagic (PmmRun.init specs hhdm mem counter addr).slabs)
    (hr : RouteReachable MarkerFits NoSlabMagic (RouteRun.init specs hhdm mem counter addr) r)
    {al : Alloc} (hal : al ∈ r.run.live) (hbuddy : al.ptr ∉ r.slabPtrs) :
    (load (kfree r.run.slabs al.ptr).2 (headerPtr al.ptr) 8 = freedPattern ∧
      (kfree (kfree r.run.slabs al.ptr).2 al.ptr).1 = .buddyDoubleFree) ↔
    BlockMergesDown r.run.slabs al.ptr := by
  obtain ⟨objs, bigs, hinv⟩ := RouteReachable.inv hv hpos hmap hstray hr
  obtain ⟨c, p, hp, hptr, _⟩ | ⟨g, hg, hptr, _⟩ := hinv.owned al hal
  · exact absurd ((hinv.path al hal).mpr ⟨c, p, hp, hptr⟩) hbuddy
  · obtain ⟨hdown, hload, htwice⟩ | ⟨hdown, hload, _⟩ := hinv.pmm.kfree_big_twice hg hptr rfl
    · rw [htwice]
      exact iff_of_true ⟨hload, rfl⟩ hdown
    · exact iff_of_false (fun hboth => hload hboth.1) hdown

end

/-- The second page holds the block and the first one is free again. -/
def twoPagesUpper : RouteRun :=
  ⟨⟨pmmFreePage twoPagesBoth.run.slabs 0x100000, [twoPagesBlock]⟩, [], []⟩

theorem freed_pattern_stays_twoPages :
    load (kfree twoPagesUpper.run.slabs twoPagesBlock.ptr).2 (headerPtr twoPagesBlock.ptr) 8 =
        freedPattern ∧
      (kfree (kfree twoPagesUpper.run.slabs twoPagesBlock.ptr).2 twoPagesBlock.ptr).1 =
        .buddyDoubleFree := by
  have hreach : RouteReachable MarkerFits NoSlabMagic ⟨twoPages, [], []⟩ twoPagesUpper :=
    twoPagesBoth_reachable.step
      (RouteStep.freePage mem_cons_self)
  refine (freed_pattern_stays_iff twoPages_validSpecs (by decide) twoPages_mapped
    twoPages_noStrayMagic hreach mem_cons_self not_mem_nil).mpr ?_
  refine ⟨1, by decide +kernel, 0, by decide +kernel, by decide +kernel, fun j _ hj => ?_,
    by decide +kernel⟩
  rw [Nat.le_zero.mp hj]
  decide +kernel

/-! ## A block that is merged upwards -/

/-- The pointer to 3000 bytes in the first page. -/
def lowerBlock : Alloc := ⟨0xFFFF800000100010, 3000⟩

def twoPagesLower : RouteRun := ⟨⟨(kmalloc twoPages.slabs 3000).2, [lowerBlock]⟩, [], []⟩

/-- The block is merged with the free page behind it, whose order goes into the first byte of the
header: a second `kfree` does not find the pattern, and looks for the end marker a megabyte behind
the pointer, the low half of the address in the node. -/
theorem freed_pattern_overwritten :
    RouteReachable MarkerFits NoSlabMagic ⟨twoPages, [], []⟩ twoPagesLower ∧
      lowerBlock ∈ twoPagesLower.run.live ∧ lowerBlock.ptr ∉ twoPagesLower.slabPtrs ∧
      (kfree twoPagesLower.run.slabs lowerBlock.ptr).1 = .buddyFreed ∧
      load (kfree twoPagesLower.run.slabs lowerBlock.ptr).2 (headerPtr lowerBlock.ptr) 8 =
        0xDEADDEADDEADDE01 ∧
      load (kfree twoPagesLower.run.slabs lowerBlock.ptr).2 (headerPtr lowerBlock.ptr + 8) 4 =
        0x100000 ∧
      (kfree (kfree twoPagesLower.run.slabs lowerBlock.ptr).2 lowerBlock.ptr).1 = .corrupted := by
  refine ⟨?_, mem_cons_self, not_mem_nil, by decide +kernel, by decide +kernel,
    by decide +kernel, by decide +kernel⟩
  refine Runs.Reachable.step (.init rfl) ?_
  exact RouteStep.kmallocPtr (markerFits_of_page (by decide)) (Prod.ext (by decide +kernel) rfl)

end LunOS.Pmm
