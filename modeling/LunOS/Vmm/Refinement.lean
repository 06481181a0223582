import LunOS.Vmm.Calls

/-!
# Page tables refine a partial map

Each call on an address space does to the map of its lower half what `PageMap.Step` says, and
`total_pages` counts the mapped pages.

- `SpaceRep`: the address space at `as` has its tables at `root` and counts its pages.
- `mapPage_spec`, `unmapPage_spec`, `vmmMapRange_spec`, `vmmUnmapRange_spec`: the calls.
-/

namespace LunOS.Vmm
open LunOS.Radix PageMachine LawfulPageMachine Function List

variable {σ : Type*} [LawfulPageMachine σ]
variable {k k' : VmmState σ} {as : VirtAddr} {root : PhysAddr}

/-- The address space at `as` has its tables at `root`, and counts its pages. -/
structure SpaceRep (k : VmmState σ) (as : VirtAddr) (root : PhysAddr) : Prop
    extends PartRep target lowerHalf k as root where
  counted : (k.spaces as).totalPages.toNat = (pageMap k.machine root).count

/-- What a call on the lower half of the address space at `as` does. -/
abbrev Effect (k k' : VmmState σ) (as : VirtAddr) (root : PhysAddr) : Prop :=
  PartEffect target lowerHalf lowerHalf k k' as root

lemma pageMap_lower (s : σ) (root : PhysAddr) : PageMap.Lower (pageMap s root) :=
  fun _ hn => if_neg (Nat.not_lt.mpr hn)

/-! ## Translation -/

/-- Translation reads the entry of the address. -/
lemma vmmVirtToPhys_eq (hnull : as ≠ 0) (hpml4 : (k.spaces as).pml4 = root + hhdmOffset σ)
    (hroot : root ∈ live k.machine) (v : VirtAddr) :
    vmmVirtToPhys k as v =
      match leaf target target (entry k.machine) root (upperIndices v) (ptIndex v) with
      | none => 0
      | some f => f ||| pageOffset v := by
  unfold vmmVirtToPhys
  rw [if_neg hnull, vmmWalkPageTable_lookup hnull hpml4 hroot]
  unfold leaf
  cases tableAt target (entry k.machine) root (upperIndices v) with
  | none => rfl
  | some f =>
    show (if entry k.machine f (ptIndex v) &&& ptePresent = 0 then 0 else _) = _
    rw [Option.bind_some]
    by_cases habsent : entry k.machine f (ptIndex v) &&& ptePresent = 0
    · rw [if_pos habsent, target_of_absent habsent]
    · rw [if_neg habsent, target_of_present habsent]
      rfl

variable {v : VirtAddr} {n x : ℕ} {s s' : σ} {r : ℤ} {p : PhysAddr} {flags size : BitVec 64}

lemma page_lt (hv : v.toNat < 2 ^ 47) : page v < 2 ^ 35 := by
  unfold page
  omega

/-- Translation by the page map. -/
lemma SpaceRep.virtToPhys (h : SpaceRep k as root) (hv : v.toNat < 2 ^ 47) :
    vmmVirtToPhys k as v = PageMap.translate (pageMap k.machine root) v := by
  have heq := vmmVirtToPhys_eq h.nonnull h.pml4 h.tree.root_live v
  rw [upperIndices_eq, ptIndex_eq] at heq
  unfold PageMap.translate pageMap
  rw [if_pos (page_lt hv)]
  exact heq

/-! ## The lower half as a part -/

lemma inPart_lower : InPart lowerHalf n ↔ n % 2 ^ 36 < 2 ^ 35 := by
  show (Fin.ofNat 512 (n / 2 ^ 27)).val < 256 ↔ _
  rw [Fin.val_ofNat]
  omega

lemma pageMap_of_lt (hn : n < 2 ^ 35) :
    pageMap s root n = pageIn target s root n :=
  if_pos hn

lemma partWalk_lower (s : σ) (root : PhysAddr) (hn : n < 2 ^ 35) :
    PartWalk target lowerHalf lowerHalf s root n :=
  ⟨pathOf_lower hn, pathOf_lower hn, cleanWalk_target _ _ _⟩

/-- The address space after a call that keeps the count. -/
lemma SpaceRep.after (h : SpaceRep k as root) (heffect : Effect k k' as root)
    (hcount : (k'.spaces as).totalPages.toNat = (pageMap k'.machine root).count) :
    SpaceRep k' as root :=
  ⟨heffect.rep h.toPartRep, hcount⟩

/-- A map of the lower half, page by page. -/
lemma pageMap_ext {m : PageMap} (hlower : m.Lower) (h : ∀ j < 2 ^ 35, pageIn target s root j = m j) :
    pageMap s root = m := by
  funext j
  by_cases hj : j < 2 ^ 35
  · rw [pageMap_of_lt hj, h j hj]
  · rw [hlower j (by omega), pageMap_lower s root j (by omega)]

lemma pageMap_same (h : ∀ j, InPart lowerHalf j → pageIn target s' root j = pageIn target s root j) :
    
    pageMap s' root = pageMap s root :=
  pageMap_ext (pageMap_lower s root) fun j hj =>
    (h j (inPart_lower.mpr (by omega))).trans (pageMap_of_lt hj).symm

lemma pageMap_set (hn : n < 2 ^ 35) {x : Option PhysAddr} (h : ∀ j, InPart lowerHalf j →
      pageIn target s' root j = (pageIn target s root).setPage n x j) :
    pageMap s' root = update (pageMap s root) n x := by
  refine pageMap_ext (fun j hj => ?_) fun j hj => ?_
  · rw [update_of_ne (by omega)]
    exact pageMap_lower s root j hj
  · rw [h j (inPart_lower.mpr (by omega))]
    unfold PageMap.setPage
    by_cases hjn : j = n
    · rw [hjn, if_pos rfl, update_self]
    · rw [if_neg (by omega), update_of_ne hjn, pageMap_of_lt hj]

/-! ## Single pages -/

/-- What mapping one page does, for any frame and flags. -/
lemma mapPage_lower (h : SpaceRep k as root) (hv : page v < 2 ^ 35)
    (hcall : mapPage k as v p flags = (r, k')) :
    SpaceRep k' as root ∧ Effect k k' as root ∧
      ((r = 0 ∧ pageMap k.machine root (page v) = none ∧
        pageMap k'.machine root =
          update (pageMap k.machine root) (page v) (some (mappedFrame p flags))) ∨
      (r = -1 ∧ pageMap k'.machine root = pageMap k.machine root ∧
        (pageMap k.machine root (page v) ≠ none ∨
          RunsOut k.machine (missing target (entry k.machine) root (pagePaths (page v)))))) := by
  rcases mapPage_part reads_target h.toPartRep (partWalk_lower _ _ hv) hcall with ⟨heffect, hcases⟩
  have hlower := pageMap_lower k.machine root
  rcases hcases with ⟨hr, hnone, hpages, htotal, -⟩ | ⟨hr, hpages, htotal, hwhy⟩
  · have hmap := pageMap_set hv hpages
    rw [← pageMap_of_lt hv] at hnone
    have hcount : (k'.spaces as).totalPages.toNat = (pageMap k'.machine root).count := by
      have hle := hlower.count_le
      rw [hmap, hlower.count_map hnone, htotal, ← h.counted]
      rw [← h.counted] at hle
      bv_omega
    exact ⟨h.after heffect hcount, heffect, Or.inl ⟨hr, hnone, hmap⟩⟩
  · have hmap := pageMap_same hpages
    rw [← pageMap_of_lt hv] at hwhy
    exact ⟨h.after heffect (by rw [htotal, hmap]; exact h.counted), heffect,
      Or.inr ⟨hr, hmap, hwhy⟩⟩

lemma mappedFrame_eq (hp : pteAddr (vmmPageAlignDown p) = vmmPageAlignDown p)
    (hflags : pteAddr flags = 0) : mappedFrame p flags = vmmPageAlignDown p := by
  unfold mappedFrame
  rw [pteAddr_or, hp, hflags]
  simp

/-- What mapping one page does. -/
lemma mapPage_spec (h : SpaceRep k as root) (hv : page v < 2 ^ 35)
    (hp : pteAddr (vmmPageAlignDown p) = vmmPageAlignDown p) (hflags : pteAddr flags = 0)
    (hcall : mapPage k as v p flags = (r, k')) :
    SpaceRep k' as root ∧ Effect k k' as root ∧
      ((r = 0 ∧ pageMap k.machine root (page v) = none ∧
        pageMap k'.machine root =
          update (pageMap k.machine root) (page v) (some (vmmPageAlignDown p))) ∨
      (r = -1 ∧ pageMap k'.machine root = pageMap k.machine root ∧
        (pageMap k.machine root (page v) ≠ none ∨
          RunsOut k.machine (missing target (entry k.machine) root (pagePaths (page v)))))) := by
  rw [← mappedFrame_eq hp hflags]
  exact mapPage_lower h hv hcall

/-- What unmapping one page does. -/
lemma unmapPage_spec (h : SpaceRep k as root) (hv : page v < 2 ^ 35)
    (hcall : unmapPage k as v = (r, k')) :
    SpaceRep k' as root ∧ Effect k k' as root ∧
      pageMap k'.machine root = update (pageMap k.machine root) (page v) none ∧
      ((r = 0 ∧ pageMap k.machine root (page v) ≠ none) ∨
        (r = -1 ∧ pageMap k.machine root (page v) = none)) := by
  rcases unmapPage_part h.toPartRep (partWalk_lower _ _ hv) hcall with ⟨heffect, hpages, hcases⟩
  have hlower := pageMap_lower k.machine root
  have hmap := pageMap_set hv hpages
  rw [← pageMap_of_lt hv] at hcases
  rcases hcases with ⟨hr, hsome, htotal⟩ | ⟨hr, hnone, htotal⟩
  · have hcount : (k'.spaces as).totalPages.toNat = (pageMap k'.machine root).count := by
      have hle := hlower.count_le
      have hone := hlower.count_unmap hsome
      rw [← h.counted] at hle hone
      rw [hmap, htotal]
      bv_omega
    exact ⟨h.after heffect hcount, heffect, hmap, Or.inl ⟨hr, hsome⟩⟩
  · have hcount : (k'.spaces as).totalPages.toNat = (pageMap k'.machine root).count := by
      rw [hmap, htotal, ← hnone, update_eq_self]
      exact h.counted
    exact ⟨h.after heffect hcount, heffect, hmap, Or.inr ⟨hr, hnone⟩⟩

/-! ## Ranges -/

lemma noWrap_of_lower (hlow : v.toNat + size.toNat ≤ 2 ^ 47) :
    v.toNat + size.toNat + 4095 < 2 ^ 64 := by
  omega

lemma range_lt (hlow : v.toNat + size.toNat ≤ 2 ^ 47) :
    page v + rangeCount v size ≤ 2 ^ 35 := by
  unfold rangeCount page
  omega

/-- The loop of `vmm_unmap_range`. -/
lemma unmapLoop_spec (h : SpaceRep k as root) {a : VirtAddr} (ha : a.toNat = 4096 * x)
    (hn : x + n ≤ 2 ^ 35) :
    let k' := ((List.range n).map (pageAddr a)).foldl (fun k v => (vmmUnmapPageNoFlush k as v).2) k
    SpaceRep k' as root ∧ Effect k k' as root ∧
      pageMap k'.machine root = (pageMap k.machine root).unmapPages x n := by
  induction n with
  | zero =>
    refine ⟨h, PartEffect.refl h.tree, ?_⟩
    rw [PageMap.unmapPages_zero]
    rfl
  | succ n ih =>
    rcases ih (by omega) with ⟨hrep, heffect, hmap⟩
    simp only [range_succ, map_append, map_singleton, foldl_append,
      foldl_cons, foldl_nil]
    have hpage : page (pageAddr a n) = x + n := page_pageAddr ha (by omega)
    rcases unmapPage_spec hrep (by rw [hpage]; omega) rfl with ⟨hrep', heffect', hmap', -⟩
    refine ⟨hrep', heffect.trans heffect', ?_⟩
    rw [PageMap.unmapPages_succ, ← hmap, ← hpage]
    exact hmap'

/-- What unmapping a range does. -/
lemma vmmUnmapRange_spec (h : SpaceRep k as root) (hlow : v.toNat + size.toNat ≤ 2 ^ 47)
    (hcall : vmmUnmapRange k as v size = (r, k')) :
    SpaceRep k' as root ∧ Effect k k' as root ∧
      ((size = 0 ∧ r = -1 ∧ pageMap k'.machine root = pageMap k.machine root) ∨
        (size ≠ 0 ∧ r = 0 ∧ pageMap k'.machine root =
          (pageMap k.machine root).unmapPages (page v) (rangeCount v size))) := by
  unfold vmmUnmapRange at hcall
  by_cases hsize : size = 0
  · rw [if_pos (Or.inr hsize)] at hcall
    cases hcall
    exact ⟨h, PartEffect.refl h.tree, Or.inl ⟨hsize, rfl, rfl⟩⟩
  · rw [if_neg (not_or.mpr ⟨h.nonnull, hsize⟩)] at hcall
    simp only at hcall
    rw [pagesFrom_eq (alignDown_aligned v) (rangeEnd_of_noWrap (noWrap_of_lower hlow)),
      Prod.mk.injEq] at hcall
    rcases unmapLoop_spec h (alignDown_aligned v) (range_lt hlow) with ⟨hrep, heffect, hmap⟩
    rw [← hcall.1, ← hcall.2]
    exact ⟨hrep, heffect, Or.inr ⟨hsize, rfl, hmap⟩⟩

/-- The pages that were added to the lower half. -/
lemma pageMap_fill {frame : ℕ → PhysAddr} (hn : x + n ≤ 2 ^ 35)
    (h : Added lowerHalf (pageIn target s root) (pageIn target s' root) x n frame) :
    (∀ i < n, pageMap s root (x + i) = none) ∧
      pageMap s' root = (pageMap s root).fill x n frame := by
  refine ⟨fun i hi => ?_, pageMap_ext ((pageMap_lower s root).fill hn frame) fun j hj => ?_⟩
  · rw [pageMap_of_lt (by omega)]
    exact h.free i hi
  · unfold PageMap.fill
    by_cases hin : x ≤ j ∧ j < x + n
    · rw [if_pos hin, ← h.there (j - x) (by omega), Nat.add_sub_cancel' hin.1]
    · rw [if_neg hin, pageMap_of_lt hj]
      exact h.kept j (inPart_lower.mpr (by omega)) fun i hi => by omega

/-- What mapping a range does, for any frames and flags. -/
lemma vmmMapRange_lower (h : SpaceRep k as root) (hlow : v.toNat + size.toNat ≤ 2 ^ 47)
    (hcall : vmmMapRange k as v p size flags = (r, k')) :
    SpaceRep k' as root ∧ Effect k k' as root ∧
      ((size ≠ 0 ∧ r = 0 ∧ (∀ i < rangeCount v size, pageMap k.machine root (page v + i) = none) ∧
          pageMap k'.machine root = (pageMap k.machine root).fill (page v) (rangeCount v size)
            fun i => mappedFrame (pageAddr (vmmPageAlignDown p) i) flags) ∨
        (r = -1 ∧ pageMap k'.machine root = pageMap k.machine root ∧
          (size = 0 ∨ (∃ i < rangeCount v size, pageMap k.machine root (page v + i) ≠ none) ∨
            RunsOut k.machine (missing target (entry k.machine) root
              (rangePaths (page v) (rangeCount v size)))))) := by
  have hrange := range_lt hlow
  have hlower := pageMap_lower k.machine root
  rcases vmmMapRange_part reads_target h.toPartRep (noWrap_of_lower hlow)
    (fun i hi => partWalk_lower _ _ (by omega)) hcall with ⟨heffect, hcases⟩
  rcases hcases with ⟨hsize, hr, hadded, htotal, -⟩ | ⟨hr, hpages, htotal, hwhy⟩
  · rcases pageMap_fill hrange hadded with ⟨hfree, hmap⟩
    have hcount : (k'.spaces as).totalPages.toNat = (pageMap k'.machine root).count := by
      have hle := hlower.count_le
      rw [hmap, hlower.count_fill hrange _ hfree, htotal, ← h.counted, BitVec.toNat_add,
        BitVec.toNat_ofNat]
      rw [← h.counted] at hle
      omega
    exact ⟨h.after heffect hcount, heffect, Or.inl ⟨hsize, hr, hfree, hmap⟩⟩
  · have hmap := pageMap_same hpages
    refine ⟨h.after heffect (by rw [htotal, hmap]; exact h.counted), heffect, Or.inr ⟨hr, hmap, hwhy.imp_right ?_⟩⟩
    rintro (⟨i, hi, hsome⟩ | hfails | hmany)
    · exact Or.inl ⟨i, hi, by rw [pageMap_of_lt (by omega)]; exact hsome⟩
    · exact Or.inr hfails
    · omega

/-- What mapping a range does. -/
lemma vmmMapRange_spec (h : SpaceRep k as root) (hlow : v.toNat + size.toNat ≤ 2 ^ 47)
    (hphys : page p + rangeCount v size ≤ 2 ^ 40) (hflags : pteAddr flags = 0)
    (hcall : vmmMapRange k as v p size flags = (r, k')) :
    SpaceRep k' as root ∧ Effect k k' as root ∧
      ((size ≠ 0 ∧ r = 0 ∧ (∀ i < rangeCount v size, pageMap k.machine root (page v + i) = none) ∧
          pageMap k'.machine root = (pageMap k.machine root).mapPages (page v) (rangeCount v size)
            (vmmPageAlignDown p)) ∨
        (r = -1 ∧ pageMap k'.machine root = pageMap k.machine root ∧
          (size = 0 ∨ (∃ i < rangeCount v size, pageMap k.machine root (page v + i) ≠ none) ∨
            RunsOut k.machine (missing target (entry k.machine) root
              (rangePaths (page v) (rangeCount v size)))))) := by
  -- the flags leave the frames as they are
  have hfill : ∀ m : PageMap, m.fill (page v) (rangeCount v size)
        (fun i => mappedFrame (pageAddr (vmmPageAlignDown p) i) flags) =
      m.mapPages (page v) (rangeCount v size) (vmmPageAlignDown p) := by
    intro m
    funext j
    unfold PageMap.fill PageMap.mapPages
    split_ifs with hin
    · have haddr := pageAddr_toNat (alignDown_aligned p) (i := j - page v) (by omega)
      have hframe := mappedFrame_eq (p := pageAddr (vmmPageAlignDown p) (j - page v))
        (pteAddr_alignDown (by omega)) hflags
      rw [alignDown_of_aligned haddr] at hframe
      exact congrArg some hframe
    · rfl
  rw [← hfill]
  exact vmmMapRange_lower h hlow hcall

/-! ## Any call -/

/-- A call on the address space at `as`. -/
def exec (k : VmmState σ) (as : VirtAddr) : Op → ℤ × VmmState σ
  | .mapPage v p flags => vmmMapPage k as v p flags
  | .unmapPage v => vmmUnmapPage k as v
  | .mapRange v p size flags => vmmMapRange k as v p size flags
  | .unmapRange v size => vmmUnmapRange k as v size

/-- Calls in a row, with their return values. -/
def execAll (k : VmmState σ) (as : VirtAddr) : List Op → List (Op × ℤ) × VmmState σ
  | [] => ([], k)
  | op :: ops =>
    let (r, k) := exec k as op
    let (calls, k) := execAll k as ops
    ((op, r) :: calls, k)

/-- The PML4 of the address space at `as`. -/
def rootOf (k : VmmState σ) (as : VirtAddr) : PhysAddr := (k.spaces as).pml4 - hhdmOffset σ

/-- The paths of the tables that a call creates if they are missing. -/
def Op.newPaths : Op → Finset (List Index)
  | .mapPage v _ _ => pagePaths (page v)
  | .mapRange v _ size _ => rangePaths (page v) (rangeCount v size)
  | .unmapPage _ => ∅
  | .unmapRange _ _ => ∅

/-- There are not enough pages for the tables that the call has to create. -/
def OutOfMemory (k : VmmState σ) (as : VirtAddr) (op : Op) : Prop :=
  RunsOut k.machine (missing target (entry k.machine) (rootOf k as) op.newPaths)

/-- For each of the calls in a row, whether the pages run out in it. -/
def shortages (k : VmmState σ) (as : VirtAddr) : List Op → List Prop
  | [] => []
  | op :: ops => OutOfMemory k as op :: shortages (exec k as op).2 as ops

lemma PartRep.rootOf_eq {child : EntryReader} {top : Set Index}
    (h : PartRep child top k as root) : rootOf k as = root := by
  unfold rootOf
  rw [h.pml4, BitVec.add_sub_cancel]

/-! ### Tables of a part -/

/-- The pages that a call goes through. -/
def Op.pages : Op → List VirtAddr
  | .mapPage v _ _ => [vmmPageAlignDown v]
  | .unmapPage v => [vmmPageAlignDown v]
  | .mapRange v _ size _ => pagesFrom (vmmPageAlignDown v) (vmmPageAlignUp (v + size))
  | .unmapRange v size => pagesFrom (vmmPageAlignDown v) (vmmPageAlignUp (v + size))

section
variable {a b v w : VirtAddr}

lemma alignUp_mod (v : VirtAddr) : (vmmPageAlignUp v).toNat % 4096 = 0 := by
  show (vmmPageAlignDown (v + pageSize - 1)).toNat % 4096 = 0
  rw [alignDown_toNat, Nat.mul_mod_left]

/-- A page of a range, and the pages before it. -/
lemma mem_pagesFrom (ha : a.toNat = 4096 * x) (hb : b.toNat % 4096 = 0) (hw : w ∈ pagesFrom a b) :
    ∃ n, w.toNat = 4096 * (x + n) ∧ pagesFrom a w ⊆ pagesFrom a b := by
  rcases mem_map.mp hw with ⟨n, hn, hwn⟩
  rw [mem_range] at hn
  have hlt := b.isLt
  have htoNat : w.toNat = 4096 * (x + n) := by
    rw [← hwn]
    exact pageAddr_toNat ha (by omega)
  refine ⟨n, htoNat, fun u hu => ?_⟩
  rw [pagesFrom_eq ha htoNat] at hu
  rcases mem_map.mp hu with ⟨m, hm, hum⟩
  rw [mem_range] at hm
  exact mem_map.mpr ⟨m, mem_range.mpr (by omega), hum⟩

/-- The rollback of `vmm_map_range` goes through pages of the range. -/
lemma rollback_pages (hw : w ∈ pagesFrom (vmmPageAlignDown v) (vmmPageAlignUp b)) :
    pagesFrom (vmmPageAlignDown (vmmPageAlignDown v))
        (vmmPageAlignUp (vmmPageAlignDown v + (w - vmmPageAlignDown v))) ⊆
      pagesFrom (vmmPageAlignDown v) (vmmPageAlignUp b) := by
  rcases mem_pagesFrom (alignDown_aligned v) (alignUp_mod b) hw with ⟨n, hn, hsub⟩
  have hlt := w.isLt
  have hup : vmmPageAlignUp w = w := by
    apply BitVec.eq_of_toNat_eq
    rw [alignUp_toNat (by omega)]
    omega
  rw [alignDown_of_aligned (alignDown_aligned v), BitVec.add_comm, BitVec.sub_add_cancel, hup]
  exact hsub

end

section
variable {child : EntryReader} {top T : Set Index} {v : VirtAddr}

lemma unmapPages_part (h : PartRep child top k as root) {vs : List VirtAddr}
    (hvs : ∀ v ∈ vs, PartWalk child top T k.machine root (page v)) :
    PartEffect child top T k (vs.foldl (fun k v => (vmmUnmapPageNoFlush k as v).2) k) as root := by
  induction vs generalizing k with
  | nil => exact PartEffect.refl h.tree
  | cons v vs ih =>
    have hone : PartEffect child top T k (vmmUnmapPageNoFlush k as v).2 as root :=
      (unmapPage_part h (hvs v mem_cons_self) rfl).1
    exact hone.trans (ih (hone.rep h) fun w hw => hone.walk (hvs w (mem_cons_of_mem _ hw)))

lemma unmapRange_part (h : PartRep child top k as root)
    (hvs : ∀ w ∈ pagesFrom (vmmPageAlignDown v) (vmmPageAlignUp (v + size)),
      PartWalk child top T k.machine root (page w)) :
    PartEffect child top T k (vmmUnmapRange k as v size).2 as root := by
  unfold vmmUnmapRange
  split_ifs
  · exact PartEffect.refl h.tree
  · exact unmapPages_part h hvs

/-- The loop of `vmm_map_range`; `P` are the pages of the range. -/
lemma mapPages_part (hreads : Reads child) {P vs : List VirtAddr} (h : PartRep child top k as root)
    (hP : ∀ w ∈ P, PartWalk child top T k.machine root (page w)) (hvs : vs ⊆ P)
    (hback : ∀ w ∈ P, pagesFrom (vmmPageAlignDown v) (vmmPageAlignUp (v + (w - v))) ⊆ P) :
    PartEffect child top T k (mapLoop as v flags vs p k).2 as root := by
  induction vs generalizing k p with
  | nil => exact PartEffect.refl h.tree
  | cons w vs ih =>
    have hone : PartEffect child top T k (vmmMapPageNoFlush k as w p flags).2 as root :=
      (mapPage_part hreads h (hP w (hvs mem_cons_self)) rfl).1
    have hP' := fun u hu => hone.walk (hP u hu)
    unfold mapLoop
    simp only
    split_ifs
    · refine hone.trans (unmapRange_part (hone.rep h) fun u hu => hP' u ?_)
      exact hback w (hvs mem_cons_self) hu
    · exact hone.trans (ih (hone.rep h) hP' fun u hu => hvs (mem_cons_of_mem _ hu))

/-- What any call does to the tables of a part. -/
lemma exec_part (hreads : Reads child) (h : PartRep child top k as root) {op : Op}
    (hop : ∀ w ∈ op.pages, PartWalk child top T k.machine root (page w)) :
    PartEffect child top T k (exec k as op).2 as root := by
  have hone : ∀ v, PartWalk child top T k.machine root (page (vmmPageAlignDown v)) →
      PartWalk child top T k.machine root (page v) := by
    intro v hv
    rw [page_alignDown] at hv
    exact hv
  cases op with
  | mapPage v p flags =>
    exact (mapPage_part hreads h (hone v (hop _ mem_cons_self)) rfl).1
  | unmapPage v => exact (unmapPage_part h (hone v (hop _ mem_cons_self)) rfl).1
  | mapRange v p size flags =>
    show PartEffect child top T k (vmmMapRange k as v p size flags).2 as root
    unfold vmmMapRange
    split_ifs
    · exact PartEffect.refl h.tree
    · exact PartEffect.refl h.tree
    · exact mapPages_part hreads h hop (List.Subset.refl _) fun w hw => rollback_pages hw
  | unmapRange v size => exact unmapRange_part h hop

end

/-! ### The lower half -/

/-- One call, on the page map. -/
lemma exec_spec (h : SpaceRep k as root) {op : Op} (hop : op.Valid) (hcall : exec k as op = (r, k')) :
    
    SpaceRep k' as root ∧ Effect k k' as root ∧
      PageMap.Step (OutOfMemory k as op) (pageMap k.machine root) op r
        (pageMap k'.machine root) := by
  unfold OutOfMemory
  rw [h.rootOf_eq]
  cases op with
  | mapPage v p flags =>
    rcases mapPage_spec h (page_lt hop.1) (pteAddr_alignDown hop.2.1) hop.2.2 hcall with
      ⟨hrep, heffect, ⟨hr, hnone, hmap⟩ | ⟨hr, hmap, hwhy⟩⟩
    · refine ⟨hrep, heffect, ?_⟩
      rw [hr, hmap, ← PageMap.mapPages_one]
      exact .mapPage hnone
    · refine ⟨hrep, heffect, ?_⟩
      rw [hr, hmap]
      exact .mapPageFails hwhy
  | unmapPage v =>
    rcases unmapPage_spec h (page_lt hop) hcall with ⟨hrep, heffect, hmap, hcases⟩
    refine ⟨hrep, heffect, ?_⟩
    rcases hcases with ⟨hr, hsome⟩ | ⟨hr, hnone⟩
    · rw [hr, hmap, ← PageMap.unmapPages_one]
      exact .unmapPage hsome
    · rw [hr, hmap, ← hnone, update_eq_self]
      exact .unmapPageFails hnone
  | mapRange v p size flags =>
    rcases vmmMapRange_spec h hop.1 hop.2.1 hop.2.2 hcall with
      ⟨hrep, heffect, ⟨hsize, hr, hfree, hmap⟩ | ⟨hr, hmap, hwhy⟩⟩
    · refine ⟨hrep, heffect, ?_⟩
      rw [hr, hmap]
      exact .mapRange hsize hfree
    · refine ⟨hrep, heffect, ?_⟩
      rw [hr, hmap]
      exact .mapRangeFails hwhy
  | unmapRange v size =>
    rcases vmmUnmapRange_spec h hop hcall with
      ⟨hrep, heffect, ⟨hsize, hr, hmap⟩ | ⟨hsize, hr, hmap⟩⟩
    · refine ⟨hrep, heffect, ?_⟩
      rw [hr, hmap, hsize]
      exact .unmapRangeFails
    · refine ⟨hrep, heffect, ?_⟩
      rw [hr, hmap]
      exact .unmapRange hsize

/-- Calls in a row. -/
lemma execAll_spec (h : SpaceRep k as root) {ops : List Op} (hops : ∀ op ∈ ops, op.Valid) :
    SpaceRep (execAll k as ops).2 as root ∧ Effect k (execAll k as ops).2 as root ∧
      PageMap.Run (pageMap k.machine root) (shortages k as ops) (execAll k as ops).1
        (pageMap (execAll k as ops).2.machine root) := by
  induction ops generalizing k with
  | nil => exact ⟨h, PartEffect.refl h.tree, .nil _⟩
  | cons op ops ih =>
    rcases exec_spec h (hops op mem_cons_self) rfl with ⟨hrep, heffect, hstep⟩
    rcases ih hrep fun o ho => hops o (mem_cons_of_mem _ ho) with ⟨hrep', heffect', hrun⟩
    exact ⟨hrep', heffect.trans heffect', .cons hstep hrun⟩

end LunOS.Vmm
