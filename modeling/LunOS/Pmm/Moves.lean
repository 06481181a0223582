import LunOS.Pmm.Blocks
import LunOS.Pmm.OrderSearch

/-!
# What `kmalloc` and `kfree` do

- `PagesInv.of_keeps`: operations that spare the blocks of the others keep the invariant.
- `PagesInv.kfree_object`, `PagesInv.kfree_big`: what `kfree` does with a live object and with a
  live block.
- `PagesInv.kmalloc`: what `kmalloc` returns, and that it spares what the clients hold.
-/

namespace LunOS.Pmm
open LunOS.Dyadic LunOS.Memory LunOS.BuddyAllocator LunOS.SlabAllocator Function List

variable {s s' : SlabState} {objs objs' : CacheIdx → List ℕ} {bigs bigs' : List Big}
  {pages pages' : List ℕ}

/-! ## What stays when the allocators work -/

variable {g : Big} {env : List Block} {c : CacheIdx} {p size : ℕ}

/-- Header and marker depend on the bytes of the block outside the client's memory. -/
lemma BigOk.congr (h : BigOk s g)
    (hm : ∀ z ∈ g.block.span 12, z < g.block.addr + 16 ∨ g.block.addr + 16 + g.size ≤ z →
      s'.buddy.mem z = s.buddy.mem z) : BigOk s' g := by
  have hfits := h.fits
  have hfield : ∀ k n, k + n ≤ 16 ∨ 16 + g.size ≤ k → k + n ≤ g.size + 24 →
      readLE s'.buddy.mem (g.block.addr + k) n = readLE s.buddy.mem (g.block.addr + k) n := by
    intro k n hout hkn
    apply readLE_congr
    intro z hz hz'
    apply hm
    · rw [mem_span]
      omega
    · omega
  refine ⟨?_, ?_, ?_, ?_, h.fits⟩
  · exact (hfield 0 8 (by omega) (by omega)).trans h.magic
  · exact (hfield 8 4 (by omega) (by omega)).trans h.size
  · exact (hfield 12 1 (by omega) (by omega)).trans h.order
  · rw [Nat.add_assoc]
    refine (hfield (16 + g.size) 8 (by omega) (by omega)).trans ?_
    rw [← Nat.add_assoc]
    exact h.marker

/-- The first word at an 8 KiB boundary outside the arenas has no byte inside one. -/
lemma SlabInv.word_outside (h : SlabInv s env objs) {a k : ℕ} (ha : 8192 ∣ a) (hk : k < 8)
    (hout : ∀ i, a ∉ (s.buddy.buddyArenas i).pages) (i : ℕ) :
    a + k ∉ (s.buddy.buddyArenas i).pages := by
  intro hin
  have htiles := (h.buddy.buddy.arena i).tiles
  rcases (htiles.cover (a + k)).mp hin with ⟨y, hy, hay⟩
  have hal : Dyadic.size 12 y.order ∣ y.addr := htiles.aligned y hy
  have hpage : 4096 ∣ y.addr := (size_dvd_size (w := 12) (Nat.zero_le y.order)).trans hal
  apply hout i
  apply htiles.span_subset hy
  rw [mem_span] at hay ⊢
  omega

/-- The first word of a page depends on the bytes of the page. -/
lemma page_word_congr {a : ℕ}
    (hm : ∀ z ∈ (pageBlock a).span 12, s'.buddy.mem z = s.buddy.mem z) :
    readLE s'.buddy.mem a 8 = readLE s.buddy.mem a 8 := by
  apply readLE_congr
  intro z hz hz'
  apply hm
  rw [mem_span]
  have h4096 : Dyadic.size 12 0 = 4096 := rfl
  show a ≤ z ∧ z < a + Dyadic.size 12 0
  omega

/-- An operation that spares the blocks of `env` keeps everything but the slab invariant. -/
lemma PagesInv.of_keeps (h : PagesInv s objs bigs pages) {live : CacheIdx → List ℕ}
    (hk : Keeps s s' env live)
    (hinv : SlabInv s' (bigs'.map Big.block ++ pages'.map pageBlock) objs')
    (hbigs : ∀ g ∈ bigs', g ∈ bigs ∧ g.block ∈ env ∨ BigOk s' g)
    (hpages : ∀ a ∈ pages', a ∈ pages ∧ pageBlock a ∈ env ∨
      (8192 ∣ a → readLE s'.buddy.mem a 8 ≠ slabMagic)) : PagesInv s' objs' bigs' pages' := by
  refine ⟨hinv, fun g hg => ?_, h.mapped.of_same hk.ptrs hk.shape, ?_, fun a ha => ?_⟩
  · obtain ⟨hold, henv⟩ | hok := hbigs g hg
    · apply (h.bigs g hold).congr
      intro z hz _
      exact hk.frame z (Or.inl ⟨g.block, henv, hz⟩)
    · exact hok
  · intro a ha hout hin
    have hpages := hk.shape.pages
    simp only [hpages] at hout hin
    have hword : readLE s'.buddy.mem a 8 = readLE s.buddy.mem a 8 := by
      apply readLE_congr
      intro z hz hz'
      apply hk.frame
      apply Or.inr
      apply Or.inr
      intro i
      rw [show z = a + (z - a) by omega]
      exact SlabInv.word_outside h.slabs ha (by omega) hout i
    rw [hword]
    exact h.stray a ha hout hin
  · obtain ⟨hold, henv⟩ | hclean := hpages a ha
    · rw [page_word_congr fun z hz => hk.frame z (Or.inl ⟨pageBlock a, henv, hz⟩)]
      exact h.clean a hold
    · exact hclean

/-- An operation that spares all blocks and pages. -/
lemma PagesInv.of_keeps_all (h : PagesInv s objs bigs pages) {live : CacheIdx → List ℕ}
    (hk : Keeps s s' (bigs.map Big.block ++ pages.map pageBlock) live)
    (hinv : SlabInv s' (bigs.map Big.block ++ pages.map pageBlock) objs') :
    PagesInv s' objs' bigs pages := by
  apply h.of_keeps hk hinv
  · intro g hg
    exact Or.inl ⟨hg, mem_append_left _ (mem_map_of_mem hg)⟩
  · intro a ha
    exact Or.inl ⟨ha, mem_append_right _ (mem_map_of_mem ha)⟩

/-- The order in which the blocks of the others are listed does not matter. -/
lemma SlabInv.perm {env' : List Block} (h : SlabInv s env objs) (hp : env.Perm env') :
    SlabInv s env' objs :=
  ⟨h.buddy.perm (hp.append_left _), h.nonzero, h.caches, h.held, h.images, h.chained⟩

section
variable (h : PagesInv s objs bigs pages)
include h

lemma PagesInv.perm (hb : bigs.Perm bigs') (hp : pages.Perm pages') :
    PagesInv s objs bigs' pages' :=
  ⟨SlabInv.perm h.slabs ((hb.map Big.block).append (hp.map pageBlock)),
    fun g hg => h.bigs g (hb.mem_iff.mpr hg), h.mapped, h.stray,
    fun a ha => h.clean a (hp.mem_iff.mpr ha)⟩

/-! ## `kfree` -/

/-- `kfree` of a slot of a slab, live or free, reports a double free if its first word is the freed
pattern, and frees it otherwise. -/
lemma PagesInv.kfree_slot {w : SlabList} (ha : slabOf p ∈ (s.slabCaches c).lists w)
    (hslot : IsSlot (s.slabCaches c) (slabOf p) p) :
    kfree s (p + s.buddy.hhdmOffset) =
      if readLE s.buddy.mem p 8 = freedPattern then (.slabDoubleFree, s)
      else (.slabFreed, slabFree s (slabOf p) p) := by
  have hlt := h.slot_lt ⟨c, w, ha⟩ hslot
  have hb := h.slabs.slot_bounds hslot
  have hsize := (h.slabs.caches c).shaped.size_ge
  rw [(h.slabs.caches c).shaped.1] at hsize
  have hload := load_eq (s := s) (p := p) (by omega) 8
  have hphys := virtToPhys_eq (s := s) (p := p) (by omega)
  unfold kfree
  rw [if_neg (by omega), h.find_slot ha hslot]
  simp only [hload, hphys]

/-- `kfree` of a slab object. -/
lemma PagesInv.kfree_object (hp : p ∈ objs c) :
    kfree s (p + s.buddy.hhdmOffset) =
      if readLE s.buddy.mem p 8 = freedPattern then (.slabDoubleFree, s)
      else (.slabFreed, slabFree s (slabOf p) p) := by
  obtain ⟨w, ha, hslot, _⟩ := (h.slabs.caches c).slab_of_live hp
  exact h.kfree_slot ha hslot

/-- `kfree` of a live block marks its header and gives the block back. -/
lemma PagesInv.kfree_big (hg : g ∈ bigs) :
    kfree s (g.block.addr + 16 + s.buddy.hhdmOffset) =
      (.buddyFreed, { s.store g.block.addr 8 freedPattern with
        buddy := buddyFreePages (s.store g.block.addr 8 freedPattern).buddy
          g.block.addr g.block.order }) := by
  have hlt := h.big_lt hg
  have hok := h.bigs g hg
  have hfits := hok.fits
  have hheader := header_eq (s := s) (p := g.block.addr) (by omega)
  have hsmall : ∀ k, k < Dyadic.size 12 g.block.order →
      u64 (g.block.addr + s.buddy.hhdmOffset + k) = g.block.addr + k + s.buddy.hhdmOffset := by
    intro k hk
    rw [show g.block.addr + s.buddy.hhdmOffset + k = g.block.addr + k + s.buddy.hhdmOffset by omega]
    exact Nat.mod_eq_of_lt (by omega)
  have hmagic : load s (g.block.addr + s.buddy.hhdmOffset) 8 = allocMagic := by
    rw [load_eq (by omega)]
    exact hok.magic
  have hsize : load s (u64 (g.block.addr + s.buddy.hhdmOffset + 8)) 4 = g.size := by
    rw [hsmall 8 (by omega), load_eq (by omega)]
    exact hok.size
  have hmarker : load s (u64 (g.block.addr + 16 + s.buddy.hhdmOffset + g.size)) 8
      = allocMagic := by
    rw [show g.block.addr + 16 + s.buddy.hhdmOffset + g.size
      = g.block.addr + s.buddy.hhdmOffset + (16 + g.size) by omega, hsmall _ (by omega),
      load_eq (by omega), ← Nat.add_assoc]
    exact hok.marker
  have hphys : virtToPhys s (g.block.addr + s.buddy.hhdmOffset) = g.block.addr :=
    virtToPhys_eq (by omega)
  -- the order is read after the magic was overwritten
  have horder : load (s.store g.block.addr 8 freedPattern)
      (u64 (g.block.addr + s.buddy.hhdmOffset + 12)) 1 = g.block.order := by
    rw [hsmall 12 (by omega)]
    refine (load_eq (s := s.store g.block.addr 8 freedPattern) (p := g.block.addr + 12) ?_ 1).trans
      (Eq.trans ?_ hok.order)
    · show g.block.addr + 12 + s.buddy.hhdmOffset < 2 ^ 64
      omega
    exact readLE_writeLE_of_disjoint (by omega)
  unfold kfree
  rw [if_neg (by omega), h.find_big hg]
  simp only [kfreeBuddy, hheader, hmagic, hsize, hmarker, hphys, horder]
  rw [if_neg (by decide), if_neg (by simp)]

/-- The object leaves the live ones. -/
lemma PagesInv.free_object (hp : p ∈ objs c) :
    PagesInv (slabFree s (slabOf p) p) (update objs c ((objs c).erase p)) bigs pages :=
  h.of_keeps_all (h.slabs.free hp).2.1 (h.slabs.free hp).1

end

/-- Stores inside one block of the others. -/
lemma write_block {t : SlabState} {x : Block} (hs : SlabInv s (x :: env) objs)
    (hm : ∀ z, z ∉ x.span 12 → t.buddy.mem z = s.buddy.mem z)
    (hq : t = { s with buddy := { s.buddy with mem := t.buddy.mem } }) :
    SlabInv t (x :: env) objs ∧ Keeps s t env objs := by
  have hpart := hs.buddy.pagePartition
  have hlive : x ∈ s.held ++ x :: env := mem_append_right _ mem_cons_self
  have hnd := nodup_cons.mp (nodup_append.mp hs.buddy.live_nodup).2.1
  rcases hpart.live_inside _ hlive with ⟨i, _, hi⟩
  refine ⟨?_, ?_⟩
  · rw [hq]
    apply hs.write
    · intro z hz
      apply hm
      intro hzg
      exact hz (Or.inl ⟨x, mem_cons_self, hzg⟩)
    · intro z hz
      apply hm
      intro hzg
      exact hz i (hi hzg)
  · refine ⟨⟨?_, ?_⟩, fun j => ?_, fun z hz => hm z fun hzg => ?_⟩
    · rw [hq]
    · rw [hq]
    · rw [hq]
      exact ⟨rfl, rfl, rfl⟩
    · rcases hz with ⟨y, hy, hzy⟩ | ⟨c, p, hp, hzp, hzp'⟩ | hz
      · have hne : x ≠ y := fun heq => hnd.1 (heq ▸ hy)
        exact Set.disjoint_left.mp (hpart.live_live _ hlive y
          (mem_append_right _ (mem_cons_of_mem _ hy)) hne) hzg hzy
      · have hslot := hs.live_slot hp
        have hb := hs.slot_bounds hslot.2.1
        exact (hs.not_env hslot.1 (z := z) (by omega) (by omega)).1 _ mem_cons_self hzg
      · exact hz i (hi hzg)

/-- The block leaves the live ones. -/
lemma PagesInv.free_big {rest : List Big} (h : PagesInv s objs (g :: rest) pages)
    (ht : s' = { s.store g.block.addr 8 freedPattern with
      buddy := buddyFreePages (s.store g.block.addr 8 freedPattern).buddy
        g.block.addr g.block.order }) :
    PagesInv s' objs rest pages ∧
      Keeps s s' (rest.map Big.block ++ pages.map pageBlock) objs := by
  have hfits := (h.bigs g mem_cons_self).fits
  have hslabs : SlabInv s (g.block :: (rest.map Big.block ++ pages.map pageBlock)) objs := h.slabs
  have hwrite := write_block (t := s.store g.block.addr 8 freedPattern) hslabs (by
    intro z hz
    rw [mem_span] at hz
    exact writeLE_of_outside (by omega)) rfl
  have hfree := hwrite.1.envFree (x := g.block) mem_cons_self
  rw [erase_cons_head] at hfree
  have hkeeps := hwrite.2.trans hfree.2
  rw [ht]
  refine ⟨h.of_keeps hkeeps hfree.1 (fun x hx => ?_) fun a ha => ?_, hkeeps⟩
  · exact Or.inl ⟨mem_cons_of_mem g hx, mem_append_left _ (mem_map_of_mem hx)⟩
  · exact Or.inl ⟨ha, mem_append_right _ (mem_map_of_mem ha)⟩

/-! ## `kmalloc` -/

/-- The end marker of a request fits in the block that holds header, request and the four bytes
`kmalloc` reserves for the marker. -/
def MarkerFits (size : ℕ) : Prop :=
  size + 20 < 2 ^ 64 ∧ ∀ k, size + 20 ≤ 4096 * 2 ^ k → size + 24 ≤ 4096 * 2 ^ k

/-- In a request that fits into a page with header and marker there is room for both. -/
lemma markerFits_of_page (h : size + 24 ≤ 4096) : MarkerFits size := by
  refine ⟨by omega, fun k _ => ?_⟩
  have hpow : 1 ≤ 2 ^ k := Nat.one_le_two_pow
  omega

/-- The header of a fresh block, and its marker. -/
lemma writeAllocHeader_spec (hsize : g.size < 2 ^ 31) (horder : g.block.order < 256)
    (hfits : g.size + 24 ≤ Dyadic.size 12 g.block.order) (hs : SlabInv s (g.block :: env) objs) :
    SlabInv (writeAllocHeader s g.block.addr g.size g.block.order) (g.block :: env) objs ∧
    Keeps s (writeAllocHeader s g.block.addr g.size g.block.order) env objs ∧
    BigOk (writeAllocHeader s g.block.addr g.size g.block.order) g := by
  have hmem : (writeAllocHeader s g.block.addr g.size g.block.order).buddy.mem
      = writeLE (writeLE (writeLE (writeLE s.buddy.mem g.block.addr 8 allocMagic)
        (g.block.addr + 8) 4 g.size) (g.block.addr + 12) 1 g.block.order)
        (g.block.addr + 16 + g.size) 8 allocMagic := by
    show writeLE _ (g.block.addr + allocHeaderSize + g.size % 2 ^ 32) 8 allocMagic = _
    rw [Nat.mod_eq_of_lt (by omega)]
    rfl
  have hwrite := write_block (t := writeAllocHeader s g.block.addr g.size g.block.order) hs (by
    intro z hz
    rw [mem_span] at hz
    rw [hmem, writeLE_of_outside (by omega), writeLE_of_outside (by omega),
      writeLE_of_outside (by omega), writeLE_of_outside (by omega)]) rfl
  refine ⟨hwrite.1, hwrite.2, ⟨?_, ?_, ?_, ?_, hfits⟩⟩
  · rw [hmem, readLE_writeLE_of_disjoint (by omega), readLE_writeLE_of_disjoint (by omega),
      readLE_writeLE_of_disjoint (by omega)]
    exact readLE_writeLE_same (by norm_num [allocMagic])
  · rw [hmem, readLE_writeLE_of_disjoint (by omega), readLE_writeLE_of_disjoint (by omega)]
    exact readLE_writeLE_same (by omega)
  · rw [hmem, readLE_writeLE_of_disjoint (by omega)]
    exact readLE_writeLE_same (by omega)
  · rw [hmem]
    exact readLE_writeLE_same (by norm_num [allocMagic])

/-- The block for a request has room for header, request and marker, and its order is small. -/
lemma orderLoop_fits {order : ℕ} (hfit : MarkerFits size)
    (hloop : orderLoop (size + 20) 64 0 pageFrameSize = some order)
    (hmax : order < maxSupportedOrder) :
    size + 24 ≤ Dyadic.size 12 order ∧ size < 2 ^ 31 ∧ order < 256 := by
  unfold maxSupportedOrder at hmax
  have hblock : size + 24 ≤ 4096 * 2 ^ order := by
    apply hfit.2
    have hle := (orderLoop_spec hloop).1
    rw [blockSize_eq_pow, pow_add] at hle
    exact hle
  have hpow : 2 ^ order ≤ 2 ^ 19 := Nat.pow_le_pow_right (by norm_num) (by omega)
  refine ⟨?_, by omega, by omega⟩
  unfold Dyadic.size
  rw [pow_add]
  exact hblock

/-- The buddy path of `kmalloc` never returns, fails without a trace, or hands out a block. -/
lemma PagesInv.kmallocBuddy (h : PagesInv s objs bigs pages) (hfit : MarkerFits size) :
    kmallocBuddy s size = (.hang, s) ∨ kmallocBuddy s size = (.null, s) ∨
      ∃ g s', kmallocBuddy s size = (.ptr (g.block.addr + 16 + s.buddy.hhdmOffset), s') ∧
        g.size = size ∧ PagesInv s' objs (g :: bigs) pages ∧
        Keeps s s' (bigs.map Big.block ++ pages.map pageBlock) objs := by
  unfold Pmm.kmallocBuddy
  have htotal : u64 (allocHeaderSize + size + 4) = size + 20 := by
    have hlt := hfit.1
    unfold u64 allocHeaderSize
    rw [Nat.mod_eq_of_lt (by omega)]
    omega
  rw [htotal]
  cases hloop : orderLoop (size + 20) 64 0 pageFrameSize with
  | none => exact Or.inl rfl
  | some order =>
    apply Or.inr
    simp only
    by_cases hmax : maxSupportedOrder ≤ order
    · rw [if_pos hmax]
      exact Or.inl rfl
    rw [if_neg hmax]
    cases hal : buddyAllocPages s.buddy order with
    | mk r b =>
      cases r with
      | none =>
        apply Or.inl
        rw [buddyAllocPages_none hal]
      | some a =>
        apply Or.inr
        have hpos : a ≠ 0 := by
          rcases h.slabs.buddy.alloc_spec hal with ⟨i, _, hrange, _⟩
          intro heq
          rw [heq] at hrange
          exact h.slabs.nonzero i hrange
        obtain ⟨hfits, hsmall, horder⟩ := orderLoop_fits hfit hloop (Nat.not_le.mp hmax)
        have henv := h.slabs.envAlloc hal
        rcases writeAllocHeader_spec (g := ⟨⟨a, order⟩, size⟩) hsmall horder hfits henv.1 with
          ⟨hinv, hkeeps, hok⟩
        have hall := henv.2.trans hkeeps
        have hpmm : PagesInv (writeAllocHeader { s with buddy := b } a size order) objs
            (⟨⟨a, order⟩, size⟩ :: bigs) pages := by
          refine h.of_keeps hall hinv (fun g hg => ?_) fun x hx => ?_
          · obtain hg | hg := mem_cons.mp hg
            · rw [hg]
              exact Or.inr hok
            · exact Or.inl ⟨hg, mem_append_left _ (mem_map_of_mem hg)⟩
          · exact Or.inl ⟨hx, mem_append_right _ (mem_map_of_mem hx)⟩
        refine ⟨⟨⟨a, order⟩, size⟩, _, ?_, rfl, hpmm, hall⟩
        have hlt := hpmm.big_lt mem_cons_self
        have hptr : b.physToVirt (a + allocHeaderSize) = a + 16 + s.buddy.hhdmOffset := by
          have hhdm : b.hhdmOffset = s.buddy.hhdmOffset := henv.2.ptrs.hhdm
          have hsz := hok.fits
          rw [← hhdm]
          apply Nat.mod_eq_of_lt
          rw [hall.ptrs.hhdm] at hlt
          show a + 16 + b.hhdmOffset < 2 ^ 64
          simp only at hsz hlt
          omega
        cases a with
        | zero => exact absurd rfl hpos
        | succ n =>
          simp only [hptr]

/-- `slab_alloc_size` hands out an object that was not live, or does nothing. -/
lemma PagesInv.slabAllocSize (h : PagesInv s objs bigs pages) (size : ℕ) :
    (∃ c p s', slabAllocSize false s size = (.object p, s') ∧ size ≤ slabSizes.get c ∧
      p ∉ objs c ∧ PagesInv s' (update objs c (p :: objs c)) bigs pages ∧
      Keeps s s' (bigs.map Big.block ++ pages.map pageBlock) objs) ∨ slabAllocSize false s size = (.noSlab, s) := by
  unfold SlabAllocator.slabAllocSize
  cases hfind : (List.finRange numSlabSizes).find? fun c => size ≤ slabSizes.get c with
  | none => exact Or.inr rfl
  | some c =>
    have hle : size ≤ slabSizes.get c := by
      have hfound := List.find?_some hfind
      exact of_decide_eq_true hfound
    obtain ⟨p, t, heq, hinv, hp, hkeeps⟩ | hnone := h.slabs.alloc false c
    · exact Or.inl ⟨c, p, t, heq, hle, hp, h.of_keeps_all hkeeps hinv, hkeeps⟩
    · exact Or.inr hnone

/-- Without an object `kmalloc` goes on with the buddy allocator. -/
lemma kmalloc_of_noSlab (hzero : size ≠ 0)
    (hnone : slabAllocSize false s size = (.noSlab, s) ∨ slabThreshold < size) :
    slabServes s size = false ∧ kmalloc s size = kmallocBuddy s size := by
  unfold kmalloc
  rw [if_neg hzero]
  by_cases hsmall : size ≤ slabThreshold
  · have hnone : slabAllocSize false s size = (.noSlab, s) :=
      hnone.resolve_right (Nat.not_lt.mpr hsmall)
    rw [if_pos hsmall, hnone]
    exact ⟨by simp [slabServes, hnone], rfl⟩
  · rw [if_neg hsmall]
    exact ⟨by simp [slabServes, hsmall], rfl⟩

/-- `kmalloc` never returns, returns `NULL` and changes nothing, hands out an object that was not
live, or hands out a block. -/
lemma PagesInv.kmalloc (h : PagesInv s objs bigs pages) (hfit : MarkerFits size) :
    kmalloc s size = (.hang, s) ∨ kmalloc s size = (.null, s) ∨
      (∃ c p s', kmalloc s size = (.ptr (p + s.buddy.hhdmOffset), s') ∧
        slabServes s size = true ∧ size ≤ slabSizes.get c ∧ p ∉ objs c ∧
        PagesInv s' (update objs c (p :: objs c)) bigs pages ∧
        Keeps s s' (bigs.map Big.block ++ pages.map pageBlock) objs) ∨
      ∃ g s', kmalloc s size = (.ptr (g.block.addr + 16 + s.buddy.hhdmOffset), s') ∧
        slabServes s size = false ∧ g.size = size ∧ PagesInv s' objs (g :: bigs) pages ∧
        Keeps s s' (bigs.map Big.block ++ pages.map pageBlock) objs := by
  by_cases hzero : size = 0
  · apply Or.inr
    apply Or.inl
    rw [hzero]
    rfl
  have hpath : (size ≤ slabThreshold ∧ ∃ c p s', SlabAllocator.slabAllocSize false s size =
        (.object p, s') ∧ size ≤ slabSizes.get c ∧ p ∉ objs c ∧
        PagesInv s' (update objs c (p :: objs c)) bigs pages ∧
        Keeps s s' (bigs.map Big.block ++ pages.map pageBlock) objs) ∨
      slabServes s size = false ∧ Pmm.kmalloc s size = Pmm.kmallocBuddy s size := by
    by_cases hsmall : size ≤ slabThreshold
    · obtain hobject | hnone := h.slabAllocSize size
      · exact Or.inl ⟨hsmall, hobject⟩
      · exact Or.inr (kmalloc_of_noSlab hzero (Or.inl hnone))
    · exact Or.inr (kmalloc_of_noSlab hzero (Or.inr (Nat.lt_of_not_le hsmall)))
  obtain ⟨hsmall, c, p, t, heq, hle, hp, hpmm, hkeeps⟩ | ⟨hnot, heq⟩ := hpath
  · have hserves : slabServes s size = true := by
      simp [slabServes, hzero, hsmall, heq]
    have hself : p ∈ update objs c (p :: objs c) c := by
      rw [update_self]
      exact mem_cons_self
    have hlt := hpmm.object_lt hself
    have hsize := (h.slabs.caches c).shaped.size_ge
    rw [(h.slabs.caches c).shaped.1] at hsize
    refine Or.inr (Or.inr (Or.inl ⟨c, p, t, ?_, hserves, hle, hp, hpmm, hkeeps⟩))
    unfold Pmm.kmalloc
    rw [if_neg hzero, if_pos hsmall, heq]
    simp only
    rw [physToVirt_eq (by omega), hkeeps.ptrs.hhdm]
  · rw [heq, hnot]
    obtain hhang | hnull | ⟨g, t, hptr, hg⟩ := h.kmallocBuddy hfit
    · exact Or.inl hhang
    · exact Or.inr (Or.inl hnull)
    · exact Or.inr (Or.inr (Or.inr ⟨g, t, hptr, rfl, hg⟩))

end LunOS.Pmm
