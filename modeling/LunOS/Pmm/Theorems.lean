import LunOS.Pmm.Moves

/-!
# `kmalloc` and `kfree` over whole runs

In runs whose requests leave room for the end marker, `kfree` of a live pointer takes its freeing
path except for a slab object whose first word happens to be the freed pattern; and that does
happen, because `slab_free` writes that word and `slab_alloc` leaves it.
-/

namespace LunOS.Pmm
open LunOS.Dyadic LunOS.Memory LunOS.BuddyAllocator LunOS.SlabAllocator Function List

variable {s s' : SlabState} {objs objs' : CacheIdx → List ℕ} {bigs bigs' : List Big}
  {pages pages' : List ℕ}

/-! ## Live pointers -/

/-- A pointer a client holds belongs to a live object or to a live block. -/
def Owned (s : SlabState) (objs : CacheIdx → List ℕ) (bigs : List Big) (al : Alloc) : Prop :=
  (∃ c, ∃ p ∈ objs c, al.ptr = p + s.buddy.hhdmOffset ∧ al.size ≤ slabSizes.get c) ∨
    ∃ g ∈ bigs, al.ptr = g.block.addr + 16 + s.buddy.hhdmOffset ∧ al.size = g.size

/-- The invariant of a run in which others hold pages. -/
structure PagesRunInv (r : PmmRun) (pages : List ℕ) (objs : CacheIdx → List ℕ) (bigs : List Big) :
    Prop where
  pmm : PagesInv r.slabs objs bigs pages
  owned : ∀ al ∈ r.live, Owned r.slabs objs bigs al
  ptrs : (r.live.map Alloc.ptr).Nodup

variable {c : CacheIdx} {p v size : ℕ} {g : Big} {al x : Alloc} {r : PmmRun}

/-- An object is in one cache only. -/
lemma PagesInv.cache_unique (h : PagesInv s objs bigs pages) {c' : CacheIdx} (hp : p ∈ objs c)
    (hp' : p ∈ objs c') : c = c' := by
  rcases (h.slabs.caches c).slab_of_live hp with ⟨w, ha, _⟩
  rcases (h.slabs.caches c').slab_of_live hp' with ⟨w', ha', _⟩
  exact (h.slabs.listsApart.unique c w c' w' _ ha ha').1

/-- An object is no data area of a block. -/
lemma PagesInv.object_ne_big (h : PagesInv s objs bigs pages) (hp : p ∈ objs c) (hg : g ∈ bigs) :
    p ≠ g.block.addr + 16 := by
  intro heq
  have hslot := h.slabs.live_slot hp
  have hb := h.slabs.slot_bounds hslot.2.1
  have hsize := (h.slabs.caches c).shaped.size_ge
  rw [(h.slabs.caches c).shaped.1] at hsize
  have hfits := (h.bigs g hg).fits
  refine (h.slabs.not_env hslot.1 (z := p) (by omega) (by omega)).1 g.block
    (mem_append_left _ (mem_map.mpr ⟨g, hg, rfl⟩)) ?_
  rw [mem_span]
  omega

/-- Two blocks with one address are the same. -/
lemma PagesInv.big_unique (h : PagesInv s objs bigs pages) {g' : Big} (hg : g ∈ bigs)
    (hg' : g' ∈ bigs) (heq : g.block.addr = g'.block.addr) : g = g' := by
  have hnd := (nodup_append.mp (nodup_append.mp h.slabs.buddy.live_nodup).2.1).1
  apply inj_on_of_nodup_map hnd hg hg'
  by_contra hne
  have hdis := h.slabs.buddy.pagePartition.live_live _ (big_live s pages hg) _
    (big_live s pages hg') hne
  refine Set.disjoint_left.mp hdis (addr_mem_span g.block) ?_
  rw [heq]
  exact addr_mem_span g'.block

/-- The pointer of a live object. -/
def IsObject (s : SlabState) (objs : CacheIdx → List ℕ) (ptr : ℕ) : Prop :=
  ∃ c, ∃ p ∈ objs c, ptr = p + s.buddy.hhdmOffset

/-- A block is no slab object. -/
lemma PagesInv.big_not_object (h : PagesInv s objs bigs pages) (hg : g ∈ bigs) {ptr : ℕ}
    (hptr : ptr = g.block.addr + 16 + s.buddy.hhdmOffset) : ¬IsObject s objs ptr := by
  intro hobj
  obtain ⟨c, p, hp, heq⟩ := hobj
  exact h.object_ne_big hp hg (by omega)

/-- A pointer whose object or block is still there. -/
def Stays (s : SlabState) (objs objs' : CacheIdx → List ℕ) (bigs bigs' : List Big)
    (al : Alloc) : Prop :=
  (∃ c, ∃ p ∈ objs c, p ∈ objs' c ∧ al.ptr = p + s.buddy.hhdmOffset ∧ al.size ≤ slabSizes.get c) ∨
    ∃ g ∈ bigs, g ∈ bigs' ∧ al.ptr = g.block.addr + 16 + s.buddy.hhdmOffset ∧ al.size = g.size

/-- What stays is still owned. -/
lemma Stays.owned (h : Stays s objs objs' bigs bigs' al) (hp : SamePtrs s s') :
    Owned s' objs' bigs' al := by
  unfold Owned
  rw [hp.hhdm]
  obtain ⟨c, p, _, hmem, h⟩ | ⟨g, _, hmem, h⟩ := h
  · exact Or.inl ⟨c, p, hmem, h⟩
  · exact Or.inr ⟨g, hmem, h⟩

/-- It is an object afterwards if and only if it was one before. -/
lemma Stays.isObject_iff (h : Stays s objs objs' bigs bigs' al) (hp : SamePtrs s s')
    (hinv : PagesInv s objs bigs pages) (hinv' : PagesInv s' objs' bigs' pages') :
    IsObject s' objs' al.ptr ↔ IsObject s objs al.ptr := by
  obtain ⟨c, p, hmem, hmem', hptr, _⟩ | ⟨g, hmem, hmem', hptr, _⟩ := h
  · have hobj : IsObject s objs al.ptr := ⟨c, p, hmem, hptr⟩
    have hobj' : IsObject s' objs' al.ptr := ⟨c, p, hmem', by rw [hp.hhdm]; exact hptr⟩
    exact iff_of_true hobj' hobj
  · have hptr' : al.ptr = g.block.addr + 16 + s'.buddy.hhdmOffset := by
      rw [hp.hhdm]
      exact hptr
    exact iff_of_false (hinv'.big_not_object hmem' hptr') (hinv.big_not_object hmem hptr)

/-- Nothing leaves when objects and blocks only come in. -/
lemma Owned.stays (h : Owned s objs bigs al) (hobjs : ∀ c, objs c ⊆ objs' c) (hbigs : bigs ⊆ bigs') :
    Stays s objs objs' bigs bigs' al := by
  obtain ⟨c, p, hmem, h⟩ | ⟨g, hmem, h⟩ := h
  · exact Or.inl ⟨c, p, hmem, hobjs c hmem, h⟩
  · exact Or.inr ⟨g, hmem, hbigs hmem, h⟩

/-- The pointer to a new object is not live yet. -/
lemma PagesRunInv.object_fresh (h : PagesRunInv r pages objs bigs)
    (hnew : PagesInv s' (update objs c (p :: objs c)) bigs pages) (hp : p ∉ objs c) :
    p + r.slabs.buddy.hhdmOffset ∉ r.live.map Alloc.ptr := by
  intro hmem
  have hself : p ∈ update objs c (p :: objs c) c := by
    rw [update_self]
    exact mem_cons_self
  rcases mem_map.mp hmem with ⟨al, hal, heq⟩
  rcases h.owned al hal with ⟨d, q, hq, hptr, _⟩ | ⟨g, hg, hptr, _⟩
  · have hqp : q = p := by omega
    rw [hqp] at hq
    have hin : p ∈ update objs c (p :: objs c) d := by
      by_cases hd : d = c
      · rw [hd]
        exact hself
      · rw [update_of_ne hd]
        exact hq
    rw [← hnew.cache_unique hself hin] at hq
    exact hp hq
  · exact hnew.object_ne_big hself hg (by omega)

/-- The pointer to a new block is not live yet. -/
lemma PagesRunInv.big_fresh (h : PagesRunInv r pages objs bigs)
    (hnew : PagesInv s' objs (g :: bigs) pages) :
    g.block.addr + 16 + r.slabs.buddy.hhdmOffset ∉ r.live.map Alloc.ptr := by
  intro hmem
  rcases mem_map.mp hmem with ⟨al, hal, heq⟩
  rcases h.owned al hal with ⟨d, q, hq, hptr, _⟩ | ⟨x, hx, hptr, _⟩
  · exact hnew.object_ne_big hq mem_cons_self (by omega)
  · have hxg : x = g := hnew.big_unique (mem_cons_of_mem _ hx) mem_cons_self (by omega)
    have hnd := (nodup_append.mp
      (nodup_append.mp hnew.slabs.buddy.live_nodup).2.1).1
    rw [hxg] at hx
    exact (nodup_cons.mp hnd).1 (mem_map.mpr ⟨g, hx, rfl⟩)

lemma subset_update_cons (objs : CacheIdx → List ℕ) (c : CacheIdx) (p : ℕ) (d : CacheIdx) :
    objs d ⊆ update objs c (p :: objs c) d := by
  by_cases hd : d = c
  · rw [hd, update_self]
    exact subset_cons_self p _
  · rw [update_of_ne hd]
    exact List.Subset.refl _

section
variable (h : PagesRunInv r pages objs bigs)
include h

/-- `kmalloc` keeps the run invariant, and the new pointer is that of an object if and only if the
slab caches served it. -/
lemma PagesRunInv.kmalloc (hfit : MarkerFits size) (hk : kmalloc r.slabs size = (.ptr v, s')) :
    ∃ objs' bigs', PagesRunInv ⟨s', ⟨v, size⟩ :: r.live⟩ pages objs' bigs' ∧
      (∀ al ∈ r.live, IsObject s' objs' al.ptr ↔ IsObject r.slabs objs al.ptr) ∧
      v ∉ r.live.map Alloc.ptr ∧ (IsObject s' objs' v ↔ slabServes r.slabs size = true) := by
  obtain heq | heq | ⟨c, p, t, heq, hserves, hle, hp, hinv, hkeeps⟩ |
    ⟨g, t, heq, hserves, hsize, hinv, hkeeps⟩ := h.pmm.kmalloc hfit
  · rw [heq] at hk
    simp at hk
  · rw [heq] at hk
    simp at hk
  · rw [heq, Prod.mk.injEq, KmallocResult.ptr.injEq] at hk
    rw [← hk.1, ← hk.2]
    have hptrs := hkeeps.ptrs
    have hself : p ∈ update objs c (p :: objs c) c := by
      rw [update_self]
      exact mem_cons_self
    have hptr : p + r.slabs.buddy.hhdmOffset = p + t.buddy.hhdmOffset := by rw [hptrs.hhdm]
    have hstays := fun al hal => (h.owned al hal).stays (subset_update_cons objs c p)
      (List.Subset.refl bigs)
    have hfresh := h.object_fresh hinv hp
    refine ⟨_, bigs, ⟨hinv, ?_, nodup_cons.mpr ⟨hfresh, h.ptrs⟩⟩,
      fun al hal => (hstays al hal).isObject_iff hptrs h.pmm hinv, hfresh,
      iff_of_true ⟨c, p, hself, hptr⟩ hserves⟩
    intro al hal
    obtain hal | hal := mem_cons.mp hal
    · rw [hal]
      exact Or.inl ⟨c, p, hself, hptr, hle⟩
    · exact (hstays al hal).owned hptrs
  · rw [heq, Prod.mk.injEq, KmallocResult.ptr.injEq] at hk
    rw [← hk.1, ← hk.2]
    have hptrs := hkeeps.ptrs
    have hptr : g.block.addr + 16 + r.slabs.buddy.hhdmOffset =
        g.block.addr + 16 + t.buddy.hhdmOffset := by rw [hptrs.hhdm]
    have hstays := fun al hal => (h.owned al hal).stays (fun c => List.Subset.refl (objs c))
      (subset_cons_self g bigs)
    have hfresh := h.big_fresh hinv
    refine ⟨objs, g :: bigs, ⟨hinv, ?_, nodup_cons.mpr ⟨hfresh, h.ptrs⟩⟩,
      fun al hal => (hstays al hal).isObject_iff hptrs h.pmm hinv, hfresh,
      iff_of_false (hinv.big_not_object mem_cons_self hptr) (by simp [hserves])⟩
    intro al hal
    obtain hal | hal := mem_cons.mp hal
    · rw [hal]
      exact Or.inr ⟨g, mem_cons_self, hptr, hsize.symm⟩
    · exact (hstays al hal).owned hptrs

/-- Other live pointers differ from the one that is freed. -/
lemma PagesRunInv.ptr_ne (hal : al ∈ r.live) (hx : x ∈ r.live.erase al) :
    x ∈ r.live ∧ x.ptr ≠ al.ptr := by
  have hnd := List.Nodup.of_map _ h.ptrs
  have hmem := (List.Nodup.mem_erase_iff hnd).mp hx
  exact ⟨hmem.2, fun heq => hmem.1 (inj_on_of_nodup_map h.ptrs hmem.2 hal heq)⟩

/-- When an object is freed the other pointers stay. -/
lemma PagesRunInv.stays_object (hal : al ∈ r.live) (hx : x ∈ r.live.erase al)
    (hptr : al.ptr = p + r.slabs.buddy.hhdmOffset) :
    Stays r.slabs objs (update objs c ((objs c).erase p)) bigs bigs x := by
  have hne := h.ptr_ne hal hx
  obtain ⟨d, q, hq, hxptr, hsize⟩ | ⟨g, hg, howned⟩ := h.owned x hne.1
  · refine Or.inl ⟨d, q, hq, ?_, hxptr, hsize⟩
    by_cases hd : d = c
    · rw [hd] at hq ⊢
      rw [update_self]
      have hqp : q ≠ p := by
        intro heq
        apply hne.2
        omega
      exact (mem_erase_of_ne hqp).mpr hq
    · rw [update_of_ne hd]
      exact hq
  · exact Or.inr ⟨g, hg, hg, howned⟩

/-- When a block is freed the other pointers stay. -/
lemma PagesRunInv.stays_big (hal : al ∈ r.live) (hx : x ∈ r.live.erase al)
    (hptr : al.ptr = g.block.addr + 16 + r.slabs.buddy.hhdmOffset) :
    Stays r.slabs objs objs bigs (bigs.erase g) x := by
  have hne := h.ptr_ne hal hx
  obtain ⟨d, q, hq, howned⟩ | ⟨y, hy, hxptr, hsize⟩ := h.owned x hne.1
  · exact Or.inl ⟨d, q, hq, hq, howned⟩
  · have hyg : y ≠ g := by
      intro heq
      apply hne.2
      rw [hxptr, hptr, heq]
    exact Or.inr ⟨y, hy, (mem_erase_of_ne hyg).mpr hy, hxptr, hsize⟩

/-- `kfree` keeps the run invariant, whichever way it ends. -/
lemma PagesRunInv.kfree (hal : al ∈ r.live) :
    ∃ objs' bigs', PagesRunInv ⟨(kfree r.slabs al.ptr).2, r.live.erase al⟩ pages objs' bigs' ∧
      ∀ x ∈ r.live.erase al, IsObject (Pmm.kfree r.slabs al.ptr).2 objs' x.ptr ↔
        IsObject r.slabs objs x.ptr := by
  have hnd : ((r.live.erase al).map Alloc.ptr).Nodup :=
    h.ptrs.sublist ((erase_sublist).map _)
  obtain ⟨c, p, hp, hptr, _⟩ | ⟨g, hg, hptr, _⟩ := h.owned al hal
  · rw [hptr, h.pmm.kfree_object hp]
    by_cases hpattern : readLE r.slabs.buddy.mem p 8 = freedPattern
    · -- the false report leaves the object where it is
      rw [if_pos hpattern]
      exact ⟨objs, bigs, ⟨h.pmm, fun x hx => h.owned x (h.ptr_ne hal hx).1, hnd⟩,
        fun x _ => Iff.rfl⟩
    · rw [if_neg hpattern]
      have hptrs := (h.pmm.slabs.free hp).2.1.ptrs
      have hinv := h.pmm.free_object hp
      have hstays := fun x hx => h.stays_object (x := x) (c := c) hal hx hptr
      exact ⟨_, bigs, ⟨hinv, fun x hx => (hstays x hx).owned hptrs, hnd⟩,
        fun x hx => (hstays x hx).isObject_iff hptrs h.pmm hinv⟩
  · rw [hptr, h.pmm.kfree_big hg]
    have hfree := (h.pmm.perm (perm_cons_erase hg) (List.Perm.refl pages)).free_big rfl
    have hstays := fun x hx => h.stays_big (x := x) hal hx hptr
    exact ⟨objs, bigs.erase g, ⟨hfree.1, fun x hx => (hstays x hx).owned hfree.2.ptrs, hnd⟩,
      fun x hx => (hstays x hx).isObject_iff hfree.2.ptrs h.pmm hfree.1⟩

end

/-- Where a byte of a live pointer's memory is. -/
lemma PagesInv.client_byte (h : PagesInv s objs bigs pages) (hal : Owned s objs bigs al)
    (hv : al.ptr ≤ v ∧ v < al.ptr + al.size) :
    (∃ c, ∃ p ∈ objs c, p ≤ virtToPhys s v ∧ virtToPhys s v < p + slabSizes.get c) ∨
      ∃ g ∈ bigs, g.block.addr + 16 ≤ virtToPhys s v ∧
        virtToPhys s v < g.block.addr + 16 + g.size := by
  rcases hal with ⟨c, p, hp, hptr, hsize⟩ | ⟨g, hg, hptr, hsize⟩
  · have hlt := h.object_lt hp
    have hphys := virtToPhys_eq (s := s) (p := v - s.buddy.hhdmOffset) (by omega)
    rw [show v - s.buddy.hhdmOffset + s.buddy.hhdmOffset = v by omega] at hphys
    exact Or.inl ⟨c, p, hp, by omega, by omega⟩
  · have hlt := h.big_lt hg
    have hfits := (h.bigs g hg).fits
    have hphys := virtToPhys_eq (s := s) (p := v - s.buddy.hhdmOffset) (by omega)
    rw [show v - s.buddy.hhdmOffset + s.buddy.hhdmOffset = v by omega] at hphys
    exact Or.inr ⟨g, hg, by omega, by omega⟩

/-- A client that writes a byte of its memory disturbs neither the allocators nor a header or
marker. -/
lemma PagesInv.storeByte (h : PagesInv s objs bigs pages) (hal : Owned s objs bigs al)
    (hv : al.ptr ≤ v ∧ v < al.ptr + al.size) (b : UInt8) :
    PagesInv (storeByte s v b) objs bigs pages := by
  have hframe : ∀ z, z ≠ virtToPhys s v → (Pmm.storeByte s v b).buddy.mem z = s.buddy.mem z :=
    fun z hz => update_of_ne hz _ _
  rcases h.client_byte hal hv with ⟨c, p, hp, hle, hlt⟩ | ⟨g, hg, hle, hlt⟩
  · have hslot := h.slabs.live_slot hp
    have hb := h.slabs.slot_bounds hslot.2.1
    rcases h.slabs.not_env hslot.1 (z := virtToPhys s v) (by omega) (by omega) with ⟨henv, i, hin⟩
    have hinv : SlabInv (Pmm.storeByte s v b) (bigs.map Big.block ++ pages.map pageBlock) objs := by
      apply h.slabs.write
      · intro z hz
        apply hframe
        intro heq
        rw [heq] at hz
        exact hz (Or.inr (Or.inl ⟨c, p, hp, hle, hlt⟩))
      · intro z hz
        apply hframe
        intro heq
        rw [heq] at hz
        exact hz i hin
    have hkeeps : Keeps s (Pmm.storeByte s v b) (bigs.map Big.block ++ pages.map pageBlock)
        fun _ => [] := by
      refine ⟨⟨rfl, rfl⟩, SameShape.refl _, fun z hz => hframe z fun heq => ?_⟩
      rw [heq] at hz
      rcases hz with ⟨y, hy, hzy⟩ | ⟨d, q, hq, _⟩ | hz
      · exact henv y hy hzy
      · exact absurd hq not_mem_nil
      · exact hz i hin
    exact h.of_keeps_all hkeeps hinv
  · have hperm := perm_cons_erase hg
    have hcons := h.perm hperm (List.Perm.refl pages)
    have hok := h.bigs g hg
    have hfits := hok.fits
    have hslabs : SlabInv s
        (g.block :: ((bigs.erase g).map Big.block ++ pages.map pageBlock)) objs := hcons.slabs
    have hwrite := write_block (t := Pmm.storeByte s v b) hslabs (by
      intro z hz
      apply hframe
      intro heq
      rw [heq, mem_span] at hz
      omega) rfl
    apply PagesInv.perm _ hperm.symm (List.Perm.refl pages)
    refine hcons.of_keeps hwrite.2 hwrite.1 (fun x hx => ?_) fun a ha => ?_
    · obtain hx' | hx' := mem_cons.mp hx
      · -- the byte is between header and marker of this block
        rw [hx']
        apply Or.inr
        apply hok.congr
        intro z _ hz
        apply hframe
        omega
      · exact Or.inl ⟨hx, mem_append_left _ (mem_map_of_mem hx')⟩
    · exact Or.inl ⟨ha, mem_append_right _ (mem_map_of_mem ha)⟩

/-- A failing `kmalloc` changes nothing. -/
lemma PagesInv.kmalloc_null (h : PagesInv s objs bigs pages) (hfit : MarkerFits size)
    (hk : Pmm.kmalloc s size = (.null, s')) : s' = s := by
  obtain heq | heq | ⟨c, p, t, heq, _⟩ | ⟨g, t, heq, _⟩ := h.kmalloc hfit
  all_goals
    rw [heq] at hk
    simp at hk
  exact hk.symm

/-! ## Pages -/

variable {a : ℕ}

/-- A page among the blocks of the others. -/
lemma PagesInv.page_first (h : PagesInv s objs bigs pages) (ha : a ∈ pages) :
    SlabInv s (pageBlock a :: (bigs.map Big.block ++ (pages.erase a).map pageBlock)) objs := by
  have hperm : (pages.map pageBlock).Perm (pageBlock a :: (pages.erase a).map pageBlock) :=
    (perm_cons_erase ha).map pageBlock
  exact SlabInv.perm h.slabs ((hperm.append_left _).trans perm_middle)

/-- `pmm_alloc_page` hands out a page that begins with the order of a free block. -/
lemma PagesInv.allocPage (h : PagesInv s objs bigs pages)
    (hal : pmmAllocPage s = (some a, s')) :
    PagesInv s' objs bigs (a :: pages) ∧
      Keeps s s' (bigs.map Big.block ++ pages.map pageBlock) objs := by
  unfold pmmAllocPage at hal
  cases hpage : buddyAllocPage s.buddy with
  | mk res b =>
    rw [hpage, Prod.mk.injEq] at hal
    rw [← hal.2]
    have hpage' : buddyAllocPages s.buddy 0 = (some a, b) := by
      rw [← hal.1]
      exact hpage
    obtain ⟨hinv, hkeeps⟩ := h.slabs.envAlloc hpage'
    refine ⟨h.of_keeps hkeeps (SlabInv.perm hinv perm_middle.symm) (fun g hg => ?_)
      fun x hx => ?_, hkeeps⟩
    · exact Or.inl ⟨hg, mem_append_left _ (mem_map_of_mem hg)⟩
    · obtain hx | hx := mem_cons.mp hx
      · -- the low byte of the magic number is no order
        apply Or.inr
        intro _ hmagic
        have hbyte := h.slabs.buddy.alloc_order_byte hpage'
        have hlow := readLE_mod b.mem a 7
        rw [hx] at hmagic
        change readLE b.mem a 8 = slabMagic at hmagic
        rw [hmagic] at hlow
        have hvalue : slabMagic % 256 = 190 := rfl
        unfold maxSupportedOrder at hbyte
        omega
      · exact Or.inl ⟨hx, mem_append_right _ (mem_map_of_mem hx)⟩

/-- Without a page nothing changes. -/
lemma pmmAllocPage_none (hal : pmmAllocPage s = (none, s')) : s' = s := by
  unfold pmmAllocPage at hal
  cases hpage : buddyAllocPage s.buddy with
  | mk res b =>
    rw [hpage, Prod.mk.injEq] at hal
    have hpage' : buddyAllocPages s.buddy 0 = (none, b) := by
      rw [← hal.1]
      exact hpage
    rw [← hal.2, buddyAllocPages_none hpage']

/-- What spares the blocks of `kmalloc` and the other pages. -/
lemma PagesInv.of_keeps_erase (h : PagesInv s objs bigs pages) {live : CacheIdx → List ℕ}
    (hk : Keeps s s' (bigs.map Big.block ++ (pages.erase a).map pageBlock) live)
    (hinv : SlabInv s' (bigs.map Big.block ++ (pages.erase a).map pageBlock) objs) :
    PagesInv s' objs bigs (pages.erase a) := by
  apply h.of_keeps hk hinv
  · intro g hg
    exact Or.inl ⟨hg, mem_append_left _ (mem_map_of_mem hg)⟩
  · intro x hx
    exact Or.inl ⟨mem_of_mem_erase hx, mem_append_right _ (mem_map_of_mem hx)⟩

/-- A page is given back. -/
lemma PagesInv.freePage (h : PagesInv s objs bigs pages) (ha : a ∈ pages) :
    PagesInv (pmmFreePage s a) objs bigs (pages.erase a) ∧
      Keeps s (pmmFreePage s a) (bigs.map Big.block ++ (pages.erase a).map pageBlock) objs := by
  obtain ⟨hinv, hkeeps⟩ := (h.page_first ha).envFree mem_cons_self
  rw [erase_cons_head] at hinv hkeeps
  exact ⟨h.of_keeps_erase hkeeps hinv, hkeeps⟩

/-- The owner of a page writes to it. -/
lemma PagesInv.writePage (h : PagesInv s objs bigs pages) (ha : a ∈ pages) {m : Mem}
    (hm : ∀ z, ¬(a ≤ z ∧ z < a + pageFrameSize) → m z = s.buddy.mem z)
    (hclean : NoSlabMagic m a) : PagesInv (withMem s m) objs bigs pages := by
  have hspan : ∀ z, z ∉ (pageBlock a).span 12 → m z = s.buddy.mem z := by
    intro z hz
    apply hm
    rw [mem_span] at hz
    exact hz
  obtain ⟨hinv, hkeeps⟩ := write_block (t := withMem s m) (h.page_first ha) hspan rfl
  have hperm := perm_cons_erase ha
  have hback : SlabInv (withMem s m) (bigs.map Big.block ++ pages.map pageBlock) objs := by
    apply SlabInv.perm hinv
    exact (((hperm.map pageBlock).append_left _).trans perm_middle).symm
  refine h.of_keeps hkeeps hback (fun g hg => ?_) fun x hx => ?_
  · exact Or.inl ⟨hg, mem_append_left _ (mem_map_of_mem hg)⟩
  · by_cases hxa : x = a
    · rw [hxa]
      exact Or.inr hclean
    · have hx' := (mem_erase_of_ne hxa).mpr hx
      exact Or.inl ⟨hx, mem_append_right _ (mem_map_of_mem hx')⟩

/-! ## Runs -/

/-- The invariant of a run: a live pointer is that of an object if and only if the slab caches
handed it out. -/
structure RouteInv (r : RouteRun) (objs : CacheIdx → List ℕ) (bigs : List Big) : Prop
    extends PagesRunInv r.run r.pages objs bigs where
  path : ∀ al ∈ r.run.live, al.ptr ∈ r.slabPtrs ↔ IsObject r.run.slabs objs al.ptr
  slabPtrs_live : ∀ p ∈ r.slabPtrs, p ∈ r.run.live.map Alloc.ptr

variable {r r' : RouteRun}

section
variable (h : RouteInv r objs bigs)
include h

/-- Steps that leave the live pointers and the live objects alone. -/
lemma RouteInv.of_pages (hptrs : SamePtrs r.run.slabs s') (hinv : PagesInv s' objs bigs pages) :
    RouteInv ⟨⟨s', r.run.live⟩, pages, r.slabPtrs⟩ objs bigs := by
  have hstays := fun al hal => (h.owned al hal).stays (fun c => List.Subset.refl (objs c))
    (List.Subset.refl bigs)
  refine ⟨⟨hinv, fun al hal => (hstays al hal).owned hptrs, h.ptrs⟩, fun al hal => ?_,
    h.slabPtrs_live⟩
  rw [(hstays al hal).isObject_iff hptrs h.pmm hinv]
  exact h.path al hal

/-- A request that is served. -/
lemma RouteInv.kmallocPtr (hsize : MarkerFits size) (hk : kmalloc r.run.slabs size = (.ptr v, s')) :
    ∃ objs' bigs', RouteInv ⟨⟨s', ⟨v, size⟩ :: r.run.live⟩, r.pages,
      if slabServes r.run.slabs size then v :: r.slabPtrs else r.slabPtrs⟩ objs' bigs' := by
  obtain ⟨objs', bigs', hinv, hold, hfresh, hnew⟩ := h.kmalloc hsize hk
  have hv : v ∉ r.slabPtrs := fun hmem => hfresh (h.slabPtrs_live v hmem)
  -- the new pointer is recorded exactly when the slab caches served it
  have hmem : ∀ p, p ∈ (if slabServes r.run.slabs size then v :: r.slabPtrs else r.slabPtrs) ↔
      (p = v ∧ slabServes r.run.slabs size = true) ∨ p ∈ r.slabPtrs := by
    intro p
    by_cases hserves : slabServes r.run.slabs size = true
    · simp [hserves]
    · simp [hserves]
  refine ⟨objs', bigs', hinv, fun al hal => ?_, fun p hp => ?_⟩
  · show al.ptr ∈ _ ↔ IsObject s' objs' al.ptr
    rw [hmem]
    obtain hal | hal := mem_cons.mp hal
    · rw [hal, hnew]
      simp [hv]
    · have hne : al.ptr ≠ v := fun heq => hfresh (heq ▸ mem_map_of_mem hal)
      rw [hold al hal, ← h.path al hal]
      simp [hne]
  · obtain ⟨heq, _⟩ | hp := (hmem p).mp hp
    · rw [heq]
      exact mem_cons_self
    · exact mem_cons_of_mem _ (h.slabPtrs_live p hp)

/-- A live pointer is freed. -/
lemma RouteInv.kfree (hal : al ∈ r.run.live) :
    ∃ objs' bigs', RouteInv ⟨⟨(kfree r.run.slabs al.ptr).2, r.run.live.erase al⟩, r.pages,
      r.slabPtrs.filter (· ≠ al.ptr)⟩ objs' bigs' := by
  obtain ⟨objs', bigs', hinv, hold⟩ := h.toPagesRunInv.kfree hal
  refine ⟨objs', bigs', hinv, fun x hx => ?_, fun p hp => ?_⟩
  · have hne := h.ptr_ne hal hx
    show x.ptr ∈ r.slabPtrs.filter (· ≠ al.ptr) ↔ IsObject _ objs' x.ptr
    rw [hold x hx, ← h.path x hne.1]
    simp [hne.2]
  · -- the pointers that were handed out otherwise are live as before
    have hp' : p ∈ r.slabPtrs ∧ p ≠ al.ptr := by simpa using hp
    obtain ⟨x, hx, heq⟩ := mem_map.mp (h.slabPtrs_live p hp'.1)
    have hxal : x ≠ al := by
      intro hxal
      rw [hxal] at heq
      exact hp'.2 heq.symm
    exact mem_map.mpr ⟨x, (mem_erase_of_ne hxal).mpr hx, heq⟩

/-- Every step keeps the invariant, as long as pages stay without the magic number. -/
lemma RouteInv.step (hst : RouteStep MarkerFits NoSlabMagic r r') :
    ∃ objs' bigs', RouteInv r' objs' bigs' := by
  cases hst with
  | kmallocPtr hsize hk => exact h.kmallocPtr hsize hk
  | kmallocNull hsize hk =>
    rw [h.pmm.kmalloc_null hsize hk]
    exact ⟨objs, bigs, h⟩
  | kfree hal => exact h.kfree hal
  | @write al v b hal hv =>
    have hptrs : SamePtrs r.run.slabs (storeByte r.run.slabs v b) := ⟨rfl, rfl⟩
    exact ⟨objs, bigs, h.of_pages hptrs (h.pmm.storeByte (h.owned _ hal) hv b)⟩
  | allocPage hpage =>
    obtain ⟨hinv, hkeeps⟩ := h.pmm.allocPage hpage
    exact ⟨objs, bigs, h.of_pages hkeeps.ptrs hinv⟩
  | allocPageNone hpage =>
    rw [pmmAllocPage_none hpage]
    exact ⟨objs, bigs, h⟩
  | freePage ha =>
    obtain ⟨hinv, hkeeps⟩ := h.pmm.freePage ha
    exact ⟨objs, bigs, h.of_pages hkeeps.ptrs hinv⟩
  | @writePage a m ha hm hclean =>
    have hptrs : SamePtrs r.run.slabs (withMem r.run.slabs m) := ⟨rfl, rfl⟩
    exact ⟨objs, bigs, h.of_pages hptrs (h.pmm.writePage ha hm hclean)⟩

end

/-- The invariant holds in every run. -/
lemma RouteReachable.inv {specs : List ArenaSpec} (hv : ValidSpecs specs)
    (hpos : ∀ s ∈ specs, 0 < s.base) {hhdm : ℕ} {mem : Mem} {counter addr : ℕ}
    (hmap : Mapped (PmmRun.init specs hhdm mem counter addr).slabs)
    (hstray : NoStrayMagic (PmmRun.init specs hhdm mem counter addr).slabs)
    (hr : RouteReachable MarkerFits NoSlabMagic (RouteRun.init specs hhdm mem counter addr) r) :
    ∃ objs bigs, RouteInv r objs bigs := by
  refine hr.invariant (fun r hr => ?_) fun r r' hinv hst => ?_
  · rw [hr]
    have hslabs := SlabReachable.inv (r := SlabRun.init specs hhdm mem counter addr) hv hpos
      (.init rfl)
    exact ⟨fun _ => [], [], ⟨⟨hslabs, by simp, hmap, hstray, by simp [RouteRun.init]⟩,
      by simp [RouteRun.init, PmmRun.init], nodup_nil⟩,
      by simp [RouteRun.init, PmmRun.init], by simp [RouteRun.init]⟩
  · obtain ⟨_, _, hinv⟩ := hinv
    exact hinv.step hst

/-! ## The freeing paths -/

/-- `kfree` puts the object in front of its slab's free list, or gives the block back through
`buddy_free_pages`. -/
def TakesFreeingPath (s : SlabState) (ptr : ℕ) : Prop :=
  (∃ a, slabFindContaining s ptr = some a ∧ (kfree s ptr).1 = .slabFreed ∧
    ((kfree s ptr).2.slabs a).freeList = virtToPhys s ptr :: (s.slabs a).freeList ∧
    ((kfree s ptr).2.slabs a).freeCount = (s.slabs a).freeCount + 1) ∨
  ∃ header order, header + allocHeaderSize = virtToPhys s ptr ∧
    (kfree s ptr).1 = .buddyFreed ∧
    (kfree s ptr).2.buddy = buddyFreePages (s.store header 8 freedPattern).buddy header order

/-- In every state of a run of `kmalloc`, `kfree` and the page functions whose requests leave room
for the end marker, with no page that looks like a slab, `kfree` of a live pointer takes a freeing
path exactly when the pointer is no slab object or the object's first word is not the freed
pattern. -/
theorem kfree_takesFreeingPath_iff {specs : List ArenaSpec} (hv : ValidSpecs specs)
    (hpos : ∀ s ∈ specs, 0 < s.base) {hhdm : ℕ} {mem : Mem} {counter addr : ℕ}
    (hmap : Mapped (PmmRun.init specs hhdm mem counter addr).slabs)
    (hstray : NoStrayMagic (PmmRun.init specs hhdm mem counter addr).slabs)
    (hr : RouteReachable MarkerFits NoSlabMagic (RouteRun.init specs hhdm mem counter addr) r)
    {al : Alloc} (hal : al ∈ r.run.live) :
    TakesFreeingPath r.run.slabs al.ptr ↔
      ((slabFindContaining r.run.slabs al.ptr).isSome →
        load r.run.slabs al.ptr 8 ≠ freedPattern) := by
  rcases RouteReachable.inv hv hpos hmap hstray hr with ⟨objs, bigs, hinv⟩
  have h := hinv.pmm
  rcases hinv.owned al hal with ⟨c, p, hp, hptr, _⟩ | ⟨g, hg, hptr, _⟩
  · have hlt := h.object_lt hp
    have hsize := (h.slabs.caches c).shaped.size_ge
    rw [(h.slabs.caches c).shaped.1] at hsize
    have hphys := virtToPhys_eq (s := r.run.slabs) (p := p) (by omega)
    unfold TakesFreeingPath
    rw [hptr, h.kfree_object hp, h.find_object hp, hphys, load_eq (by omega)]
    by_cases hpattern : readLE r.run.slabs.buddy.mem p 8 = freedPattern
    · rw [if_pos hpattern]
      simp [hpattern]
    · rw [if_neg hpattern]
      have hfree := h.slabs.free hp
      exact ⟨fun _ _ => hpattern, fun _ => Or.inl ⟨_, rfl, rfl, hfree.2.2.1, hfree.2.2.2.1⟩⟩
  · have hlt := h.big_lt hg
    have hfits := (h.bigs g hg).fits
    have hphys := virtToPhys_eq (s := r.run.slabs) (p := g.block.addr + 16) (by omega)
    unfold TakesFreeingPath
    rw [hptr, h.kfree_big hg, h.find_big hg, hphys]
    refine ⟨fun _ hsome => ?_, fun _ => Or.inr ⟨g.block.addr, g.block.order, rfl, rfl, rfl⟩⟩
    simp at hsome

/-- One arena of two pages behind a direct map at `0xFFFF800000000000`. -/
def twoPages : PmmRun :=
  PmmRun.init [⟨1, 0x100000, 0x2000⟩] 0xFFFF800000000000 (fun _ => 0) 2 0xFFFFFFFF80100000

/-- The first pointer of 2048 bytes. -/
def twoPagesAlloc : Alloc := ⟨0xFFFF800000101030, 2048⟩

/-- The object is allocated, from its slab. -/
def twoPagesFirst : RouteRun :=
  ⟨⟨(kmalloc twoPages.slabs 2048).2, [twoPagesAlloc]⟩, [], [twoPagesAlloc.ptr]⟩

/-- It is freed, and the next request gets it again. -/
def twoPagesSecond : RouteRun :=
  ⟨⟨(kmalloc (kfree twoPagesFirst.run.slabs twoPagesAlloc.ptr).2 2048).2, [twoPagesAlloc]⟩, [],
    [twoPagesAlloc.ptr]⟩

lemma twoPagesFirst_reachable :
    RouteReachable MarkerFits NoSlabMagic ⟨twoPages, [], []⟩ twoPagesFirst := by
  refine Runs.Reachable.step (.init rfl) ?_
  exact RouteStep.kmallocPtr (markerFits_of_page (by decide)) (Prod.ext (by decide +kernel) rfl)

lemma twoPages_validSpecs : ValidSpecs [⟨1, 0x100000, 0x2000⟩] := ⟨by decide, by decide, by decide⟩

lemma twoPages_pages {i z : ℕ} (hz : z ∈ (twoPages.slabs.buddy.buddyArenas i).pages) :
    0x100000 ≤ z ∧ z < 0x102000 := by
  by_contra hnot
  have hfill := boot_fill twoPages_validSpecs 0xFFFF800000000000 (fun _ => 0) 2
  refine hfill.2.2 z ?_ i (pages_subset_range _ hz)
  intro s hs
  rw [mem_singleton.mp hs]
  exact hnot

lemma twoPages_mapped : Mapped twoPages.slabs := by
  refine ⟨fun i z hz => ?_, by decide +kernel, by decide, by decide⟩
  have hspec := twoPages_pages hz
  have hhdm : twoPages.slabs.buddy.hhdmOffset = 0xFFFF800000000000 := by decide +kernel
  omega

/-- The arena starts at an 8 KiB boundary, so no boundary lies in the page in front of it. -/
lemma twoPages_noStrayMagic : NoStrayMagic twoPages.slabs := by
  intro a hdvd hout hin
  rcases hin with ⟨i, hin⟩
  have hspec := twoPages_pages hin
  have ha : a = 0x100000 := by omega
  refine absurd ?_ (hout 1)
  rw [ha]
  show _ ∧ _
  decide +kernel

theorem kfree_takesFreeingPath_twoPages :
    TakesFreeingPath twoPagesFirst.run.slabs twoPagesAlloc.ptr :=
  (kfree_takesFreeingPath_iff twoPages_validSpecs (by decide) twoPages_mapped
    twoPages_noStrayMagic twoPagesFirst_reachable mem_cons_self).mpr (by decide +kernel)

/-- A pointer that is freed, handed out again and freed without having been written to is reported
as a double free. -/
theorem kfree_reports_reused_object :
    RouteReachable MarkerFits NoSlabMagic ⟨twoPages, [], []⟩ twoPagesSecond ∧
      twoPagesAlloc ∈ twoPagesSecond.run.live ∧
      (kfree twoPagesSecond.run.slabs twoPagesAlloc.ptr).1 = .slabDoubleFree := by
  have hfreed : RouteReachable MarkerFits NoSlabMagic ⟨twoPages, [], []⟩
      ⟨⟨(kfree twoPagesFirst.run.slabs twoPagesAlloc.ptr).2, []⟩, [], []⟩ :=
    twoPagesFirst_reachable.step (RouteStep.kfree mem_cons_self)
  refine ⟨hfreed.step ?_, mem_cons_self, by decide +kernel⟩
  exact RouteStep.kmallocPtr (markerFits_of_page (by decide)) (Prod.ext (by decide +kernel) rfl)

end LunOS.Pmm
