import LunOS.Vmm.Runs

/-!
# Where ranges end

`vmm_map_range` and `vmm_unmap_range` add the size to the address and round up, both modulo 2^64. A
range that ends in the last page of the address space or behind it gets an end before its start, or
in the page of its start, and the calls return 0 without having gone through its pages.
-/

namespace LunOS.Vmm
open LunOS.Radix PageMachine LawfulPageMachine List

/-! ## What a range call has to do -/

section
variable {σ : Type*} [LawfulPageMachine σ]

/-- The walk of page `n` ends at a present entry. -/
def PageMapped (k : VmmState σ) (as : VirtAddr) (n : ℕ) : Prop :=
  pageIn target k.machine (rootOf k as) n ≠ none

/-- The tables of the address space form a tree, without large pages on the way to the range. -/
structure RangeState (k : VmmState σ) (as v : VirtAddr) (size : BitVec 64) : Prop where
  nonnull : as ≠ 0
  tree : TreeIn tableTarget Set.univ k.machine (rootOf k as)
  clean : ∀ i < rangeCount v size,
    CleanWalk tableTarget k.machine (rootOf k as) (pathOf (page v + i))

end

/-- A call on the range that returns 0 has mapped, or unmapped, every page that meets the range. -/
structure RangeOk (v : VirtAddr) (size : BitVec 64) : Prop where
  map : ∀ {σ : Type} [LawfulPageMachine σ] {k k' : VmmState σ} {as : VirtAddr} {p : PhysAddr}
    {flags : BitVec 64}, RangeState k as v size → vmmMapRange k as v p size flags = (0, k') →
    (∀ i < rangeCount v size, PageMapped k' as (page v + i)) ∧
      (k'.spaces as).totalPages =
        (k.spaces as).totalPages + BitVec.ofNat 64 (rangeCount v size)
  unmap : ∀ {σ : Type} [LawfulPageMachine σ] {k k' : VmmState σ} {as : VirtAddr},
    RangeState k as v size → vmmUnmapRange k as v size = (0, k') →
    ∀ i < rangeCount v size, ¬PageMapped k' as (page v + i)

/-! ## Ranges that do not wrap -/

section
variable {σ : Type*} [LawfulPageMachine σ] {k k' : VmmState σ} {as v : VirtAddr}
variable {size : BitVec 64}

lemma RangeState.partRep (h : RangeState k as v size) :
    PartRep tableTarget Set.univ k as (rootOf k as) :=
  ⟨h.nonnull, pml4_eq k as, h.tree⟩

lemma RangeState.partWalk (h : RangeState k as v size) {i : ℕ} (hi : i < rangeCount v size) :
    PartWalk tableTarget Set.univ Set.univ k.machine (rootOf k as) (page v + i) :=
  ⟨inPart_univ _, inPart_univ _, h.clean i hi⟩

/-- On a clean walk both readings of the entries find the same page. -/
lemma pageIn_of_clean {s : σ} {root : PhysAddr} {n : ℕ}
    (h : CleanWalk tableTarget s root (pathOf n)) :
    pageIn tableTarget s root n = pageIn target s root n := by
  unfold pageIn leaf
  rw [h.tableAt_eq (append_nil _).symm]

/-- The pages of a part after a call. -/
lemma PartEffect.pageIn_eq {T : Set Index} {n : ℕ}
    (heffect : PartEffect tableTarget Set.univ T k k' as (rootOf k as))
    (hclean : CleanWalk tableTarget k.machine (rootOf k as) (pathOf n)) :
    pageIn target k'.machine (rootOf k' as) n = pageIn tableTarget k'.machine (rootOf k as) n := by
  have hroot : rootOf k' as = rootOf k as := by
    unfold rootOf
    rw [heffect.pml4]
  rw [hroot, pageIn_of_clean (heffect.clean _ rfl (within_univ _) hclean)]

end

variable {v : VirtAddr} {size : BitVec 64}

/-- Ranges that do not wrap. -/
lemma rangeOk_of_noWrap (hsize : size ≠ 0) (hwrap : v.toNat + size.toNat + 4095 < 2 ^ 64) :
    RangeOk v size where
  map {σ _ k k' as p flags} h hcall := by
    rcases vmmMapRange_part reads_tableTarget h.partRep hwrap (fun i hi => h.partWalk hi) hcall with
      ⟨heffect, ⟨-, -, hadded, htotal, -⟩ | ⟨hr, -⟩⟩
    · refine ⟨fun i hi => ?_, htotal⟩
      unfold PageMapped
      rw [heffect.pageIn_eq (h.clean i hi), hadded.there i hi]
      simp
    · exact absurd hr (by decide)
  unmap {σ _ k k' as} h hcall i hi := by
    rcases vmmUnmapRange_part h.partRep hsize hwrap (fun i hi => h.partWalk hi) hcall with
      ⟨-, heffect, hcleared⟩
    refine not_not.mpr ?_
    rw [heffect.pageIn_eq (h.clean i hi)]
    exact hcleared.gone i hi

/-! ## Ranges that wrap -/

lemma alignUp_toNat_mod (v : VirtAddr) :
    (vmmPageAlignUp v).toNat = (v.toNat + 4095) % 2 ^ 64 / 4096 * 4096 := by
  have hsum : v + pageSize - 1 = v + 4095 := by
    unfold pageSize
    bv_omega
  show (vmmPageAlignDown (v + pageSize - 1)).toNat = _
  rw [alignDown_toNat, hsum]
  unfold page
  rw [BitVec.toNat_add]
  rfl

/-- The loops go through no page, or through the first page of a range that has more. -/
lemma pagesFrom_of_wrap (hwrap : 2 ^ 64 ≤ v.toNat + size.toNat + 4095) :
    pagesFrom (vmmPageAlignDown v) (vmmPageAlignUp (v + size)) = [] ∨
      pagesFrom (vmmPageAlignDown v) (vmmPageAlignUp (v + size)) = [vmmPageAlignDown v] ∧
        page v + 1 < 2 ^ 52 ∧ 1 < rangeCount v size := by
  have hv := v.isLt
  have hend := alignUp_toNat_mod (v + size)
  rw [BitVec.toNat_add] at hend
  have hpage : page v = v.toNat / 4096 := rfl
  have hle : (vmmPageAlignUp (v + size)).toNat ≤ 4096 * page v + 4096 := by
    rw [hend, hpage]
    have hs := size.isLt
    omega
  have hmod := congrArg (· % 4096) hend
  simp only [Nat.mul_mod_left] at hmod
  unfold pagesFrom
  rw [alignDown_aligned]
  by_cases hone : (vmmPageAlignUp (v + size)).toNat = 4096 * page v + 4096
  · have hlt := (vmmPageAlignUp (v + size)).isLt
    have hcount : (4096 * page v + 4096 - 4096 * page v + 4095) / 4096 = 1 := by omega
    right
    rw [hone, hcount]
    refine ⟨by simp, by omega, ?_⟩
    unfold rangeCount
    omega
  · have hcount : ((vmmPageAlignUp (v + size)).toNat - 4096 * page v + 4095) / 4096 = 0 := by omega
    left
    rw [hcount]
    rfl

/-! ### A state with one page -/

/-- The entries of tables that map page `n` only. -/
def onePageEntry (n : ℕ) (f : PhysAddr) (i : Index) : PageTableEntry :=
  if f = 0x1000 ∧ i = Fin.ofNat 512 (n / 2 ^ 27) then 0x2003
  else if f = 0x2000 ∧ i = Fin.ofNat 512 (n / 2 ^ 18) then 0x3003
  else if f = 0x3000 ∧ i = Fin.ofNat 512 (n / 2 ^ 9) then 0x4003
  else if f = 0x4000 ∧ i = slotOf n then 0x5003
  else 0

def onePageState (n : ℕ) : VmmState Ram where
  machine := ⟨onePageEntry n, ⟨[], nodup_nil, forall_mem_nil _⟩,
    ⟨[], nodup_nil, forall_mem_nil _⟩⟩
  spaces _ := ⟨0x1000 + ramOffset, 1⟩
  kernelAs := 0x100

section
variable {n : ℕ} {f g : PhysAddr} {i : Index} {p : List Index}

lemma entry_onePage (n : ℕ) (f : PhysAddr) (i : Index) :
    entry (onePageState n).machine f i = onePageEntry n f i :=
  Ram.load_eq _ f i

lemma rootOf_onePage (n : ℕ) (as : VirtAddr) : rootOf (onePageState n) as = 0x1000 := by
  show 0x1000 + ramOffset - ramOffset = (0x1000 : PhysAddr)
  rw [BitVec.add_sub_cancel]

/-- No entry is that of a large page. -/
lemma onePage_small (n : ℕ) (f : PhysAddr) (i : Index) :
    tableTarget (entry (onePageState n).machine f i) = target (entry (onePageState n).machine f i) := by
  refine tableTarget_of_small ?_
  rw [entry_onePage]
  unfold onePageEntry
  split_ifs <;> decide

lemma onePage_link (hg : tableTarget (entry (onePageState n).machine f i) = some g) :
    f = 0x1000 ∧ i = Fin.ofNat 512 (n / 2 ^ 27) ∧ g = 0x2000 ∨
      f = 0x2000 ∧ i = Fin.ofNat 512 (n / 2 ^ 18) ∧ g = 0x3000 ∨
      f = 0x3000 ∧ i = Fin.ofNat 512 (n / 2 ^ 9) ∧ g = 0x4000 ∨
      f = 0x4000 ∧ i = slotOf n ∧ g = 0x5000 := by
  rw [entry_onePage] at hg
  unfold onePageEntry at hg
  split_ifs at hg with h₁ h₂ h₃ h₄
  · rw [show tableTarget 0x2003 = some 0x2000 by decide, Option.some.injEq] at hg
    exact Or.inl ⟨h₁.1, h₁.2, hg.symm⟩
  · rw [show tableTarget 0x3003 = some 0x3000 by decide, Option.some.injEq] at hg
    exact Or.inr (Or.inl ⟨h₂.1, h₂.2, hg.symm⟩)
  · rw [show tableTarget 0x4003 = some 0x4000 by decide, Option.some.injEq] at hg
    exact Or.inr (Or.inr (Or.inl ⟨h₃.1, h₃.2, hg.symm⟩))
  · rw [show tableTarget 0x5003 = some 0x5000 by decide, Option.some.injEq] at hg
    exact Or.inr (Or.inr (Or.inr ⟨h₄.1, h₄.2, hg.symm⟩))
  · rw [reads_tableTarget.zero] at hg
    cases hg

/-- The table at the end of a path, with the path to it. -/
lemma onePage_path (hp : tableAt tableTarget (entry (onePageState n).machine) 0x1000 p = some f) :
    p = (pathOf n ++ [slotOf n]).take p.length ∧ p.length ≤ 4 ∧
      f = BitVec.ofNat 64 (4096 * (p.length + 1)) := by
  induction p using List.reverseRecOn generalizing f with
  | nil =>
    rw [tableAt_nil, Option.some.injEq] at hp
    exact ⟨rfl, by simp, hp.symm⟩
  | append_singleton p i ih =>
    rw [tableAt_concat] at hp
    rcases Option.bind_eq_some_iff.mp hp with ⟨g, hg, hf⟩
    rcases ih hg with ⟨hpath, hlen, hgp⟩
    have hlink := onePage_link hf
    rw [hgp] at hlink
    rw [length_append, length_singleton]
    generalize p.length = d at hpath hlen hlink
    rw [hpath]
    interval_cases d <;> simp at hlink <;> rw [hlink.1, hlink.2] <;> simp [pathOf]

lemma onePage_rangeState (n : ℕ) (v : VirtAddr) (size : BitVec 64) :
    RangeState (onePageState n) 0x100 v size := by
  refine ⟨by decide, ⟨fun p q f hp hq _ _ hpf hqf => ?_, fun f ⟨p, hlen, _, hpf⟩ => ?_⟩,
    fun i _ q j r g _ _ => onePage_small n g j⟩
  · rw [rootOf_onePage] at hpf hqf
    rcases onePage_path hpf with ⟨hp', -, hf⟩
    rcases onePage_path hqf with ⟨hq', -, hf'⟩
    have hsame : p.length = q.length := by
      rw [hf] at hf'
      have hnat := congrArg BitVec.toNat hf'
      rw [BitVec.toNat_ofNat, BitVec.toNat_ofNat] at hnat
      omega
    rw [hp', hq', hsame]
  · rw [rootOf_onePage] at hpf
    rcases onePage_path hpf with ⟨-, -, hf⟩
    rw [hf]
    refine ⟨?_, not_mem_nil⟩
    generalize p.length = d at hlen
    interval_cases d <;> simp [IsFrame, pteAddr, ramOffset]

/-- The page is mapped. -/
lemma onePage_mapped (n : ℕ) :
    pageIn tableTarget (onePageState n).machine 0x1000 n = some 0x5000 := by
  have h₁ : onePageEntry n 0x1000 (Fin.ofNat 512 (n / 2 ^ 27)) = 0x2003 := if_pos ⟨rfl, rfl⟩
  have h₂ : onePageEntry n 0x2000 (Fin.ofNat 512 (n / 2 ^ 18)) = 0x3003 := by simp [onePageEntry]
  have h₃ : onePageEntry n 0x3000 (Fin.ofNat 512 (n / 2 ^ 9)) = 0x4003 := by simp [onePageEntry]
  have h₄ : onePageEntry n 0x4000 (slotOf n) = 0x5003 := by simp [onePageEntry]
  unfold pageIn leaf pathOf
  rw [tableAt_cons, entry_onePage, h₁, show tableTarget 0x2003 = some 0x2000 by decide,
    Option.bind_some, tableAt_cons, entry_onePage, h₂,
    show tableTarget 0x3003 = some 0x3000 by decide, Option.bind_some, tableAt_cons,
    entry_onePage, h₃, show tableTarget 0x4003 = some 0x4000 by decide, Option.bind_some,
    tableAt_nil, Option.bind_some, entry_onePage, h₄]
  decide

end

/-- A range that wraps is not unmapped when the page that the loop leaves out is mapped. -/
lemma not_rangeOk_of_wrap (hsize : size ≠ 0) (hwrap : 2 ^ 64 ≤ v.toNat + size.toNat + 4095) :
    ¬RangeOk v size := by
  intro h
  have hcall : ∀ n, vmmUnmapRange (onePageState n) 0x100 v size =
      (0, (pagesFrom (vmmPageAlignDown v) (vmmPageAlignUp (v + size))).foldl
        (fun k v => (vmmUnmapPageNoFlush k 0x100 v).2) (onePageState n)) := by
    intro n
    unfold vmmUnmapRange
    rw [if_neg (not_or.mpr ⟨by decide, hsize⟩)]
  rcases pagesFrom_of_wrap hwrap with hnone | ⟨hone, hlast, hmore⟩
  · -- nothing is unmapped
    have hstate := onePage_rangeState (page v) v size
    have hfirst : 0 < rangeCount v size := by
      have hv := v.isLt
      unfold rangeCount page
      omega
    rw [hnone] at hcall
    refine h.unmap hstate (hcall (page v)) 0 hfirst ?_
    unfold PageMapped
    rw [foldl_nil, ← pageIn_of_clean (hstate.clean 0 hfirst), rootOf_onePage, Nat.add_zero,
      onePage_mapped]
    simp
  · -- only the first page is unmapped
    have hstate := onePage_rangeState (page v + 1) v size
    have hfirst : PartWalk tableTarget Set.univ Set.univ (onePageState (page v + 1)).machine
        (rootOf (onePageState (page v + 1)) 0x100) (page (vmmPageAlignDown v)) := by
      rw [page_alignDown]
      exact hstate.partWalk (i := 0) (by omega)
    rcases unmapPage_part hstate.partRep hfirst rfl with ⟨heffect, hpages, -⟩
    rw [hone] at hcall
    refine h.unmap hstate (hcall (page v + 1)) 1 hmore ?_
    unfold PageMapped
    have hnext := hpages (page v + 1) (inPart_univ _)
    unfold PageMap.setPage at hnext
    rw [if_neg (by rw [page_alignDown]; omega), rootOf_onePage, onePage_mapped] at hnext
    have hread := heffect.pageIn_eq (hstate.clean 1 hmore)
    rw [rootOf_onePage, hnext] at hread
    exact fun hgone => absurd (hread.symm.trans hgone) (by simp)

/-- A range call does its work for all address spaces just if the range ends before the last
page. -/
theorem rangeOk_iff {v : VirtAddr} {size : BitVec 64} (hsize : size ≠ 0) :
    RangeOk v size ↔ v.toNat + size.toNat + 4095 < 2 ^ 64 := by
  constructor
  · intro h
    by_contra hwrap
    exact not_rangeOk_of_wrap hsize (by omega) h
  · exact rangeOk_of_noWrap hsize

theorem rangeOk_iff_lower : RangeOk 0x400000 0x3000 :=
  (rangeOk_iff (by decide)).mpr (by decide)

/-- The last page of the address space is neither mapped nor unmapped, and the calls return 0. -/
theorem range_end_wraps :
    Canonical 0xFFFFFFFFFFFFF000 ∧ RangeState hhdmState 0x100 0xFFFFFFFFFFFFF000 0x1000 ∧
      (vmmMapRange hhdmState 0x100 0xFFFFFFFFFFFFF000 0x5000 0x1000 3).1 = 0 ∧
      vmmVirtToPhys (vmmMapRange hhdmState 0x100 0xFFFFFFFFFFFFF000 0x5000 0x1000 3).2 0x100
        0xFFFFFFFFFFFFF000 = 0 ∧
      ((vmmMapRange hhdmState 0x100 0xFFFFFFFFFFFFF000 0x5000 0x1000 3).2.spaces 0x100).totalPages =
        0 ∧
      (vmmMapPage hhdmState 0x100 0xFFFFFFFFFFFFF000 0x5000 3).1 = 0 ∧
      (vmmUnmapRange (vmmMapPage hhdmState 0x100 0xFFFFFFFFFFFFF000 0x5000 3).2 0x100
        0xFFFFFFFFFFFFF000 0x1000).1 = 0 ∧
      vmmVirtToPhys (vmmUnmapRange (vmmMapPage hhdmState 0x100 0xFFFFFFFFFFFFF000 0x5000 3).2 0x100
        0xFFFFFFFFFFFFF000 0x1000).2 0x100 0xFFFFFFFFFFFFF000 = 0x5000 := by
  have hroot : rootOf hhdmState 0x100 = 0x1000 := by decide
  have hempty : entry hhdmState.machine 0x1000 511 = 0 := by decide
  have hcount : rangeCount 0xFFFFFFFFFFFFF000 0x1000 = 1 := by decide
  have hpath : pathOf (page 0xFFFFFFFFFFFFF000 + 0) = [511, 511, 511] := by decide
  have hkernel : (0x100 : VirtAddr) ∈ [hhdmState.kernelAs] := mem_cons_self
  have htree := hhdmState_treeReachable.inv.partRep hkernel
  refine ⟨by decide, ⟨by decide, htree.tree, fun i hi => ?_⟩, by decide +kernel,
    by decide +kernel, by decide +kernel, by decide +kernel, by decide +kernel,
    by decide +kernel⟩
  rw [hcount] at hi
  rw [Nat.lt_one_iff.mp hi, hpath, hroot]
  refine CleanWalk.cons ?_ fun g hg => ?_
  · rw [hempty, reads_tableTarget.zero, target_zero]
  · rw [hempty, reads_tableTarget.zero] at hg
    cases hg

end LunOS.Vmm
