import LunOS.MemMgr.Theorems

/-!
# The layout of an executable

`mm_setup_executable` asks for six regions: code, data, heap, stack, and a guard page above the heap
and below the stack. It passes the ends of code and data as they come from the caller, and the start
of the next region is such an end rounded up to a page. `mm_find_region` takes the ends of a region
as part of it, so two regions share an address when the end of the first is page aligned.
-/

namespace LunOS.MemMgr
open LunOS.Vmm PageMachine List

/-! ## Areas -/

/-- A region without the address of its record. -/
structure Area where
  start : VirtAddr
  stop : VirtAddr
  flags : BitVec 64

def MemRegion.area (r : MemRegion) : Area := ⟨r.start, r.stop, r.flags⟩

namespace Area

def Contains (a : Area) (v : VirtAddr) : Prop := a.start ≤ v ∧ v ≤ a.stop

def Apart (a b : Area) : Prop := ∀ v, a.Contains v → ¬b.Contains v

/-- The permissions of an area; a guard page permits nothing. -/
def permits (a : Area) (access : BitVec 64) : Bool := a.flags ≠ 0 ∧ a.flags &&& access = access

/-- `b` is not refused, and ends below `a`. -/
def Above (a b : Area) : Prop := b.start < b.stop ∧ b.stop < a.start

variable {a b c : Area}

instance instDecidableContains (v : VirtAddr) : Decidable (a.Contains v) := instDecidableAnd

instance instSymmApart : Std.Symm Apart := ⟨fun _ _ h v hb ha => h v ha hb⟩

/-- Areas above each other are apart. -/
lemma Above.apart (h : a.Above b) : a.Apart b := fun _ ha hb =>
  BitVec.not_lt.mpr (BitVec.le_trans ha.1 hb.2) h.2

lemma Above.trans (hab : a.Above b) (hbc : b.Above c) : a.Above c :=
  ⟨hbc.1, BitVec.lt_trans hbc.2 (BitVec.lt_trans hab.1 hab.2)⟩

instance instTransAbove : Trans Above Above Above := ⟨Above.trans⟩

end Area

/-! ## Lookup -/

section
variable {σ : Type*}

/-- The areas of the regions of a descriptor. -/
def MmState.areas (k : MmState σ) (mm : VirtAddr) : List Area :=
  (k.descriptors mm).regions.map MemRegion.area

variable {k k' : MmState σ} {mm : VirtAddr} {r r' : MemRegion} {v : VirtAddr}

/-- One region for an address. -/
lemma region_unique (hapart : (k.areas mm).Pairwise Area.Apart)
    (hr : r ∈ (k.descriptors mm).regions) (hr' : r' ∈ (k.descriptors mm).regions)
    (hv : r.area.Contains v) (hv' : r'.area.Contains v) : r = r' := by
  by_contra hne
  -- the records differ, but their areas may not: the list is pairwise apart as it stands
  have hregions := pairwise_map.mp hapart
  have : Std.Symm fun r r' : MemRegion => r.area.Apart r'.area := ⟨fun _ _ h => symm h⟩
  exact hregions.forall hr hr' hne v hv hv'

/-- The region that is found is the only one. -/
lemma mmFindRegion_of_apart (hmm : mm ≠ 0) (hapart : (k.areas mm).Pairwise Area.Apart)
    (hr : r ∈ (k.descriptors mm).regions) (hv : r.area.Contains v) :
    mmFindRegion k mm v = some r := by
  unfold mmFindRegion
  rw [if_neg hmm]
  cases hfind : (k.descriptors mm).regions.find? fun r => r.start ≤ v ∧ v ≤ r.stop with
  | none =>
    have hnot := List.find?_eq_none.mp hfind r hr
    exact absurd hv (of_decide_eq_false (Bool.eq_false_of_not_eq_true hnot))
  | some r' =>
    have hfound := List.find?_some hfind
    have hv' : r'.area.Contains v := of_decide_eq_true hfound
    rw [region_unique hapart hr (mem_of_find?_eq_some hfind) hv hv']

/-- The permissions are the region's. -/
lemma mmCheckAccess_of_find (hfind : mmFindRegion k mm v = some r) (access : BitVec 64) :
    mmCheckAccess k mm v access = r.area.permits access := by
  unfold mmCheckAccess Area.permits MemRegion.area
  rw [hfind]
  by_cases hguard : r.flags = 0
  · simp [hguard]
  · simp only [hguard, if_false, ne_eq, not_false_eq_true, true_and]

/-! ## The six regions -/

def stackBottom : VirtAddr := stackTop - stackSize + 1

/-- The region of the code. -/
def codeArea (codeStart codeEnd : VirtAddr) : Area := ⟨codeStart, codeEnd, rpRead ||| rpExec⟩

/-- The region of the data. -/
def dataArea (codeEnd dataEnd : VirtAddr) : Area := ⟨pageUp codeEnd, dataEnd, rpRead ||| rpWrite⟩

/-- The region of the heap. -/
def heapArea (dataEnd : VirtAddr) : Area :=
  ⟨heapStart dataEnd, heapEnd dataEnd, rpRead ||| rpWrite ||| rpHeap⟩

/-- The guard page behind the heap. -/
def heapGuard (dataEnd : VirtAddr) : Area := ⟨heapEnd dataEnd + 1, heapEnd dataEnd + guardSize, 0⟩

/-- The guard page below the stack. -/
def stackGuard : Area := ⟨stackBottom - guardSize, stackBottom - 1, 0⟩

/-- The region of the stack. -/
def stackArea : Area := ⟨stackBottom, stackTop, rpRead ||| rpWrite ||| rpStack⟩

/-- From the top down. -/
def executableAreas (codeStart codeEnd dataEnd : VirtAddr) : List Area :=
  [stackArea, stackGuard, heapGuard dataEnd, heapArea dataEnd, dataArea codeEnd dataEnd,
    codeArea codeStart codeEnd]

/-- The regions of a descriptor are those of an executable, no address is in two of them, and an
access is checked against the region of its address. -/
structure SoundLayout (k : MmState σ) (mm codeStart codeEnd dataEnd : VirtAddr) : Prop where
  six : (k.areas mm).Perm (executableAreas codeStart codeEnd dataEnd)
  disjoint : (k.areas mm).Pairwise Area.Apart
  unique : ∀ v, ∀ r ∈ (k.descriptors mm).regions, ∀ r' ∈ (k.descriptors mm).regions,
    r.area.Contains v → r'.area.Contains v → r = r'
  access : ∀ r ∈ (k.descriptors mm).regions, ∀ v access, r.area.Contains v →
    mmCheckAccess k mm v access = r.area.permits access

variable [PageMachine σ]
variable {codeStart codeEnd dataEnd start stop : VirtAddr} {flags : BitVec 64} {ret : ℤ}

/-- The areas after a new region. -/
lemma mmAddRegion_areas (hmm : mm ≠ 0)
    (hcall : mmAddRegion k mm start stop flags = some (ret, k')) :
    k'.areas mm = if stop ≤ start then k.areas mm else ⟨start, stop, flags⟩ :: k.areas mm := by
  unfold mmAddRegion at hcall
  by_cases hempty : stop ≤ start
  · rw [if_pos (Or.inr hempty), Option.some.injEq, Prod.mk.injEq] at hcall
    rw [if_pos hempty, hcall.2]
  · rw [if_neg (not_or.mpr ⟨hmm, hempty⟩)] at hcall
    simp only at hcall
    split at hcall
    · cases hcall
    · rw [Option.some.injEq, Prod.mk.injEq] at hcall
      rw [if_neg hempty, ← hcall.2]
      unfold MmState.areas
      rw [MmState.setDescriptor_self]
      rfl

/-- The empty intervals are left out. -/
lemma mmSetupExecutable_areas (hfresh : (k.descriptors mm).regions = [])
    (hcall : mmSetupExecutable k mm codeStart codeEnd dataEnd = some (ret, k')) :
    mm ≠ 0 ∧ k'.areas mm = (executableAreas codeStart codeEnd dataEnd).filter
      fun a => a.start < a.stop := by
  unfold mmSetupExecutable at hcall
  rcases Option.bind_eq_some_iff.mp hcall with ⟨⟨r₁, k₁⟩, h₁, hcall⟩
  rcases Option.bind_eq_some_iff.mp hcall with ⟨⟨r₂, k₂⟩, h₂, hcall⟩
  by_cases hmm : mm = 0
  · simp [hmm] at hcall
  simp only [if_neg hmm] at hcall
  rcases Option.bind_eq_some_iff.mp hcall with ⟨⟨r₃, k₃⟩, h₃, hcall⟩
  rcases Option.bind_eq_some_iff.mp hcall with ⟨⟨r₄, k₄⟩, h₄, hcall⟩
  rcases Option.bind_eq_some_iff.mp hcall with ⟨⟨r₅, k₅⟩, h₅, hcall⟩
  rcases Option.bind_eq_some_iff.mp hcall with ⟨⟨r₆, k₆⟩, h₆, hcall⟩
  simp only [Option.some.injEq, Prod.mk.injEq] at hcall
  have hnil : k.areas mm = [] := by
    unfold MmState.areas
    rw [hfresh]
    rfl
  have hbrk : ∀ (k : MmState σ) (brk : VirtAddr),
      (k.setDescriptor mm { k.descriptors mm with brk := brk }).areas mm = k.areas mm := by
    intro k brk
    unfold MmState.areas
    rw [MmState.setDescriptor_self]
  have hfilter : ∀ (a : Area) (l : List Area),
      (a :: l).filter (fun a => a.start < a.stop) =
        if a.stop ≤ a.start then l.filter fun a => a.start < a.stop
        else a :: l.filter fun a => a.start < a.stop := by
    intro a l
    rw [filter_cons]
    by_cases hempty : a.stop ≤ a.start
    · simp [hempty, BitVec.not_lt.mpr hempty]
    · simp [hempty, BitVec.not_le.mp hempty]
  refine ⟨hmm, ?_⟩
  rw [← hcall.2, mmAddRegion_areas hmm h₆, mmAddRegion_areas hmm h₅, mmAddRegion_areas hmm h₄,
    mmAddRegion_areas hmm h₃, hbrk, mmAddRegion_areas hmm h₂, mmAddRegion_areas hmm h₁, hnil]
  unfold executableAreas
  rw [hfilter, hfilter, hfilter, hfilter, hfilter, hfilter, filter_nil]
  rfl

/-! ## When the layout is sound -/

lemma pageUp_toNat {x : VirtAddr} (h : x.toNat + 4095 < 2 ^ 64) :
    (pageUp x).toNat = (x.toNat + 4095) / 4096 * 4096 :=
  alignUp_toNat h

lemma guardSize_toNat : guardSize.toNat = 4096 := by decide

/-- The heap and its guard page end below the guard page of the stack. -/
def HeapFits (dataEnd : VirtAddr) : Prop :=
  (dataEnd.toNat + 4095) / 4096 * 4096 + heapSize.toNat + guardSize.toNat ≤
    stackGuard.start.toNat

section
variable (h : HeapFits dataEnd)
include h

lemma HeapFits.bound : (dataEnd.toNat + 4095) / 4096 * 4096 + 2 ^ 30 + 4096 ≤ 0x7FFFFF7FF000 := by
  have hguard : stackGuard.start.toNat = 0x7FFFFF7FF000 := by decide
  unfold HeapFits at h
  rw [hguard, guardSize_toNat, heapSize_toNat] at h
  exact h

lemma HeapFits.heapStart_toNat :
    (heapStart dataEnd).toNat = (dataEnd.toNat + 4095) / 4096 * 4096 := by
  have hbound := h.bound
  exact pageUp_toNat (by omega)

lemma HeapFits.heapEnd_toNat :
    (heapEnd dataEnd).toNat = (heapStart dataEnd).toNat + 2 ^ 30 - 1 := by
  have hbound := h.bound
  have hstart := h.heapStart_toNat
  have hsize := heapSize_toNat
  have hroom : (heapStart dataEnd).toNat + heapSize.toNat ≤ 2 ^ 47 := by omega
  have hend := LunOS.MemMgr.heapEnd_toNat hroom
  rw [hsize] at hend
  exact hend

/-- The regions from the heap on lie one above the other. -/
lemma HeapFits.above :
    stackArea.Above stackGuard ∧ stackGuard.Above (heapGuard dataEnd) ∧
      (heapGuard dataEnd).Above (heapArea dataEnd) := by
  have hguard : stackGuard.start.toNat = 0x7FFFFF7FF000 := by decide
  have hbound := h.bound
  have hstart := h.heapStart_toNat
  have hend := h.heapEnd_toNat
  have hnext : (heapEnd dataEnd + 1).toNat = (heapEnd dataEnd).toNat + 1 := by bv_omega
  have hlast : (heapEnd dataEnd + guardSize).toNat = (heapEnd dataEnd).toNat + 4096 := by
    rw [BitVec.toNat_add, guardSize_toNat]
    omega
  refine ⟨⟨by decide, by decide⟩, ⟨?_, ?_⟩, ⟨?_, ?_⟩⟩
  · show heapEnd dataEnd + 1 < heapEnd dataEnd + guardSize
    rw [BitVec.lt_def]
    omega
  · show heapEnd dataEnd + guardSize < stackGuard.start
    rw [BitVec.lt_def]
    omega
  · show heapStart dataEnd < heapEnd dataEnd
    rw [BitVec.lt_def]
    omega
  · show heapEnd dataEnd < heapEnd dataEnd + 1
    rw [BitVec.lt_def]
    omega

/-- When code or data ends on a page boundary, its last address is in the next region. -/
lemma HeapFits.ends_of_apart (hcode : codeStart < codeEnd) (hdata : codeEnd < dataEnd)
    (hlt : pageUp codeEnd < dataEnd)
    (hapart : (executableAreas codeStart codeEnd dataEnd).Pairwise Area.Apart) :
    codeEnd.toNat % 4096 ≠ 0 ∧ dataEnd.toNat % 4096 ≠ 0 := by
  have hdata' := BitVec.lt_def.mp hdata
  have hbound := h.bound
  have hstart := h.heapStart_toNat
  have hend := h.heapEnd_toNat
  have hup : (pageUp codeEnd).toNat = (codeEnd.toNat + 4095) / 4096 * 4096 :=
    pageUp_toNat (by omega)
  rcases pairwise_cons.mp hapart with ⟨-, hapart⟩
  rcases pairwise_cons.mp hapart with ⟨-, hapart⟩
  rcases pairwise_cons.mp hapart with ⟨-, hapart⟩
  rcases pairwise_cons.mp hapart with ⟨hheap, hapart⟩
  rcases pairwise_cons.mp hapart with ⟨hcodeData, -⟩
  constructor
  · intro haligned
    have hle : pageUp codeEnd ≤ codeEnd := by
      rw [BitVec.le_def]
      omega
    exact hcodeData _ (mem_singleton_self _) codeEnd ⟨hle, BitVec.le_of_lt hdata⟩
      ⟨BitVec.le_of_lt hcode, BitVec.le_refl _⟩
  · intro haligned
    have hle : heapStart dataEnd ≤ dataEnd := by
      rw [BitVec.le_def]
      omega
    have hge : dataEnd ≤ heapEnd dataEnd := by
      rw [BitVec.le_def]
      omega
    exact hheap _ mem_cons_self dataEnd ⟨hle, hge⟩ ⟨BitVec.le_of_lt hlt, BitVec.le_refl _⟩

/-- Otherwise all regions lie one above the other. -/
lemma HeapFits.above_all (hcode : codeStart < codeEnd) (hcodeEnd : codeEnd.toNat % 4096 ≠ 0)
    (hdataEnd : dataEnd.toNat % 4096 ≠ 0) (hpages : page codeEnd < page dataEnd) :
    (∀ a ∈ executableAreas codeStart codeEnd dataEnd, a.start < a.stop) ∧
      (executableAreas codeStart codeEnd dataEnd).Pairwise Area.Above := by
  have hbound := h.bound
  have hstart := h.heapStart_toNat
  unfold page at hpages
  have hup : (pageUp codeEnd).toNat = (codeEnd.toNat + 4095) / 4096 * 4096 :=
    pageUp_toNat (by omega)
  rcases h.above with ⟨hstack, hguards, hheapGuard⟩
  have hheap : (heapArea dataEnd).Above (dataArea codeEnd dataEnd) := by
    constructor
    · show pageUp codeEnd < dataEnd
      rw [BitVec.lt_def]
      omega
    · show dataEnd < heapStart dataEnd
      rw [BitVec.lt_def]
      omega
  have hcodeData : (dataArea codeEnd dataEnd).Above (codeArea codeStart codeEnd) := by
    refine ⟨hcode, ?_⟩
    show codeEnd < pageUp codeEnd
    rw [BitVec.lt_def]
    omega
  have htop : stackArea.start < stackArea.stop := by decide
  constructor
  · simp [executableAreas, htop, hstack.1, hguards.1, hheapGuard.1, hheap.1, hcodeData.1]
  · apply List.IsChain.pairwise
    simp [executableAreas, hstack, hguards, hheapGuard, hheap, hcodeData]

end

/-- The layout is sound exactly when neither the code nor the data ends on a page boundary and the
data ends on a later page than the code. -/
theorem soundLayout_iff (hfresh : (k.descriptors mm).regions = []) (hcode : codeStart < codeEnd)
    (hdata : codeEnd < dataEnd) (hfits : HeapFits dataEnd)
    (hcall : mmSetupExecutable k mm codeStart codeEnd dataEnd = some (0, k')) :
    SoundLayout k' mm codeStart codeEnd dataEnd ↔
      codeEnd.toNat % 4096 ≠ 0 ∧ dataEnd.toNat % 4096 ≠ 0 ∧ page codeEnd < page dataEnd := by
  rcases mmSetupExecutable_areas hfresh hcall with ⟨hmm, hareas⟩
  constructor
  · intro hsound
    -- six regions: none of them was refused
    have hlength := hsound.six.length_eq
    rw [hareas] at hlength
    have hall := length_filter_eq_length_iff.mp hlength
    have hlt : pageUp codeEnd < dataEnd :=
      of_decide_eq_true (hall (dataArea codeEnd dataEnd) (by simp [executableAreas]))
    have hapart := hsound.disjoint
    rw [hareas, filter_eq_self.mpr hall] at hapart
    rcases hfits.ends_of_apart hcode hdata hlt hapart with ⟨hcodeEnd, hdataEnd⟩
    refine ⟨hcodeEnd, hdataEnd, ?_⟩
    have hbound := hfits.bound
    have hdata' := BitVec.lt_def.mp hdata
    have hup : (pageUp codeEnd).toNat = (codeEnd.toNat + 4095) / 4096 * 4096 :=
      pageUp_toNat (by omega)
    have hlt' := BitVec.lt_def.mp hlt
    unfold page
    omega
  · intro ⟨hcodeEnd, hdataEnd, hpages⟩
    rcases hfits.above_all hcode hcodeEnd hdataEnd hpages with ⟨hnonempty, habove⟩
    have hareas' : k'.areas mm = executableAreas codeStart codeEnd dataEnd := by
      rw [hareas]
      exact filter_eq_self.mpr fun a ha => decide_eq_true (hnonempty a ha)
    have hapart : (k'.areas mm).Pairwise Area.Apart := by
      rw [hareas']
      exact habove.imp fun h => h.apart
    refine ⟨hareas' ▸ List.Perm.refl _, hapart, fun v r hr r' hr' => region_unique hapart hr hr',
      fun r hr v access hv => ?_⟩
    exact mmCheckAccess_of_find (mmFindRegion_of_apart hmm hapart hr hv) access

end

/-! ## Two executables -/

/-- Code from `0x400000` to `0x401800`, data up to `0x402800`. -/
lemma richRam_unaligned : ∃ k,
    mmSetupExecutable (created richRam) 0x200 0x400000 0x401800 0x402800 = some (0, k) :=
  ⟨_, eq_some_of_fst (by decide +kernel) (0, boot richRam)⟩

theorem soundLayout_unaligned : ∃ k,
    mmSetupExecutable (created richRam) 0x200 0x400000 0x401800 0x402800 = some (0, k) ∧
      SoundLayout k 0x200 0x400000 0x401800 0x402800 := by
  rcases richRam_unaligned with ⟨k, hcall⟩
  have hfresh : ((created richRam).descriptors 0x200).regions = [] :=
    isEmpty_iff.mp (by decide +kernel)
  exact ⟨k, hcall, (soundLayout_iff hfresh (by decide) (by decide) (by unfold HeapFits; decide)
    hcall).mpr (by decide)⟩

/-- With code up to `0x401000` and data up to `0x402000` either end is in two regions, and at the end
of the code nothing can be executed. When the data ends on the last page of the code, there is no
region for it. -/
theorem aligned_regions_overlap :
    mmSetupExecutable (created richRam) 0x200 0x400000 0x401000 0x402000 =
        some (0, started richRam) ∧
      (codeArea 0x400000 0x401000).Contains 0x401000 ∧
      (dataArea 0x401000 0x402000).Contains 0x401000 ∧
      (dataArea 0x401000 0x402000).Contains 0x402000 ∧
      (heapArea 0x402000).Contains 0x402000 ∧
      mmCheckAccess (started richRam) 0x200 0x401000 rpExec = false ∧
      ¬SoundLayout (started richRam) 0x200 0x400000 0x401000 0x402000 ∧
      (mmSetupExecutable (created richRam) 0x200 0x400000 0x401800 0x401900).map
        (fun r => (r.1, (r.2.areas 0x200).length)) = some (0, 5) := by
  have haccess : mmCheckAccess (started richRam) 0x200 0x401000 rpExec = false := by decide +kernel
  have hmem : (codeArea 0x400000 0x401000).Contains 0x401000 := by decide
  refine ⟨richRam_setup, hmem, by decide, by decide, by decide, haccess, ?_, by decide +kernel⟩
  intro hsound
  have hcode : codeArea 0x400000 0x401000 ∈ (started richRam).areas 0x200 :=
    hsound.six.mem_iff.mpr (by simp [executableAreas])
  rcases mem_map.mp hcode with ⟨r, hr, harea⟩
  have hpermits := hsound.access r hr 0x401000 rpExec (harea ▸ hmem)
  rw [haccess, harea] at hpermits
  exact absurd hpermits (by decide)

end LunOS.MemMgr
