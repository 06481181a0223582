import LunOS.MemMgr.Common
import LunOS.Vmm.Isolation
import LunOS.Vmm.Supply

/-!
# Who owns the frames of a task

At any time the frames in use are those that were in use before the task (`L`), the frames that
stack and heap got (`D`) and the page tables of the task. `mm_free` gives back the tables.

- `LawfulBuddyMachine`: what the memory manager relies on.
- `MmInv`: the invariant of a descriptor.
- `MmInv.run`: what a run of page faults adds to `D`.
-/

namespace LunOS.MemMgr
open LunOS.Vmm LunOS.Radix PageMachine LawfulPageMachine BuddyMachine CountedPageMachine Set
open List hiding Disjoint

/-- The frames of a block. -/
def block (p : PhysAddr) (order : ℕ) : Set PhysAddr :=
  {f | ∃ i < 2 ^ order, f = p + BitVec.ofNat 64 (4096 * i)}

/-- Blocks are made of frames that are not in use. -/
class LawfulBuddyMachine (σ : Type*) [LawfulPageMachine σ] [BuddyMachine σ] : Prop where
  buddy_fails : ∀ {s : σ} {n}, (buddyAllocPages s n).1 = 0 → live (buddyAllocPages s n).2 = live s
  buddy_fresh : ∀ {s : σ} {n}, (buddyAllocPages s n).1 ≠ 0 →
    Disjoint (block (buddyAllocPages s n).1 n) (live s)
  buddy_range : ∀ {s : σ} {n}, (buddyAllocPages s n).1 ≠ 0 →
    page (buddyAllocPages s n).1 + 2 ^ n ≤ 2 ^ 40
  live_buddy : ∀ {s : σ} {n}, (buddyAllocPages s n).1 ≠ 0 →
    live (buddyAllocPages s n).2 = live s ∪ block (buddyAllocPages s n).1 n
  load_buddy : ∀ {s : σ} {n f} i, f ∈ live s →
    load (buddyAllocPages s n).2 (f + hhdmOffset σ) i = load s (f + hhdmOffset σ) i
  objects_buddy : ∀ {s : σ} {n}, objects (buddyAllocPages s n).2 = objects s
  live_buddyFree : ∀ {s : σ} {p n}, block p n ⊆ live s →
    live (buddyFreePages s p n) = live s \ block p n
  load_buddyFree : ∀ {s : σ} {p n f} i, block p n ⊆ live s → f ∈ live s → f ∉ block p n →
    load (buddyFreePages s p n) (f + hhdmOffset σ) i = load s (f + hhdmOffset σ) i
  objects_buddyFree : ∀ {s : σ} {p n}, block p n ⊆ live s →
    objects (buddyFreePages s p n) = objects s

/-! ## The invariant -/

variable {r : ℤ} {brk addr : VirtAddr} {p : PhysAddr}

section
variable {σ : Type*} [LawfulPageMachine σ]

/-- The objects of a descriptor: itself, its address space and its regions. -/
def MmState.owned (k : MmState σ) (mm : VirtAddr) : List VirtAddr :=
  mm :: (k.descriptors mm).as :: (k.descriptors mm).regions.map MemRegion.addr

/-- The entry of page `n` in the address space of a descriptor is present. -/
def MmState.Mapped (k : MmState σ) (mm : VirtAddr) (n : ℕ) : Prop :=
  pageMap k.vmm.machine (rootOf k.vmm (k.descriptors mm).as) n ≠ none

/-- The frames in use are those of `L` and `D`, and the tables at `root`. -/
structure MmInv (k : MmState σ) (mm : VirtAddr) (root : PhysAddr) (L D : Set PhysAddr) :
    Prop where
  nonnull : mm ≠ 0
  space : SpaceRep k.vmm (k.descriptors mm).as root
  notKernel : (k.descriptors mm).as ≠ k.vmm.kernelAs
  objects_sub : ∀ p ∈ k.owned mm, p ∈ objects k.vmm.machine
  nodup : (k.owned mm).Nodup
  live_eq : live k.vmm.machine = L ∪ D ∪ spaceTables k.vmm.machine root
  fresh : Disjoint L D
  apart : Disjoint (spaceTables k.vmm.machine root) (L ∪ D)
  brkAligned : (k.descriptors mm).brk.toNat % 4096 = 0

variable {k k' : MmState σ} {mm : VirtAddr} {root : PhysAddr} {L D D' : Set PhysAddr}

variable {s : σ}

section
variable (h : MmInv k mm root L D)
include h

/-- The machine changed outside of the tables. -/
lemma MmInv.setMachine (hlive : live s = L ∪ D' ∪ spaceTables k.vmm.machine root)
    (hfresh : Disjoint L D') (hapart : Disjoint (spaceTables k.vmm.machine root) (L ∪ D'))
    (hsame : ∀ f ∈ spaceTables k.vmm.machine root, ∀ i, entry s f i = entry k.vmm.machine f i)
    (hobjects : ∀ p ∈ k.owned mm, p ∈ objects s) : MmInv (k.setMachine s) mm root L D' := by
  have htables : spaceTables s root = spaceTables k.vmm.machine root := spaceTables_congr hsame
  have hsub : spaceTables k.vmm.machine root ⊆ live s := by
    rw [hlive]
    exact subset_union_right
  refine ⟨h.nonnull, h.space.kept rfl hsub hsame, h.notKernel, hobjects, h.nodup, ?_, hfresh, ?_,
    h.brkAligned⟩
  · exact hlive.trans (congrArg _ htables.symm)
  · show Disjoint (spaceTables s root) _
    rw [htables]
    exact hapart

/-- A machine with the same frames in use. -/
lemma MmInv.same (hlive : live s = live k.vmm.machine)
    (hsame : ∀ f ∈ live k.vmm.machine, ∀ i, entry s f i = entry k.vmm.machine f i)
    (hobjects : objects k.vmm.machine ⊆ objects s) : MmInv (k.setMachine s) mm root L D :=
  h.setMachine (hlive.trans h.live_eq) h.fresh h.apart
    (fun f hf => hsame f (h.space.tree.tables_live hf)) fun p hp => hobjects (h.objects_sub p hp)

/-- The machine took further frames. -/
lemma MmInv.take {E : Set PhysAddr} (hlive : live s = live k.vmm.machine ∪ E)
    (hE : Disjoint E (live k.vmm.machine))
    (hsame : ∀ f ∈ live k.vmm.machine, ∀ i, entry s f i = entry k.vmm.machine f i)
    (hobjects : objects k.vmm.machine ⊆ objects s) : MmInv (k.setMachine s) mm root L (D ∪ E) := by
  rw [h.live_eq, disjoint_union_right, disjoint_union_right] at hE
  refine h.setMachine ?_ ?_ ?_ (fun f hf => hsame f (h.space.tree.tables_live hf))
    fun p hp => hobjects (h.objects_sub p hp)
  · rw [hlive, h.live_eq, ← union_assoc, union_right_comm]
  · exact disjoint_union_right.mpr ⟨h.fresh, hE.1.1.symm⟩
  · rw [← union_assoc]
    exact disjoint_union_right.mpr ⟨h.apart, hE.2.symm⟩

/-- A call on the address space. -/
lemma MmInv.effect {v : VmmState σ} (heffect : Effect k.vmm v (k.descriptors mm).as root)
    (hrep : SpaceRep v (k.descriptors mm).as root) : MmInv { k with vmm := v } mm root L D := by
  have hout : ∀ f ∈ spaceTables v.machine root, f ∉ L ∪ D := by
    intro f hf hmem
    have hlive : f ∈ live k.vmm.machine := by
      rw [h.live_eq]
      exact Or.inl hmem
    exact disjoint_left.mp h.apart (heffect.grows.fresh f hf hlive) hmem
  refine ⟨h.nonnull, hrep, ?_, fun p hp => ?_, h.nodup, ?_, h.fresh, ?_, h.brkAligned⟩
  · show (k.descriptors mm).as ≠ v.kernelAs
    rw [heffect.kernelAs]
    exact h.notKernel
  · show p ∈ objects v.machine
    rw [heffect.grows.objects_eq]
    exact h.objects_sub p hp
  · show live v.machine = _
    rw [heffect.grows.live_eq, h.live_eq, union_assoc]
    exact congrArg _ (union_eq_right.mpr heffect.grows.tables_sub)
  · exact disjoint_left.mpr hout

/-- The descriptor changed in its break. -/
lemma MmInv.setBrk (hbrk : brk.toNat % 4096 = 0) :
    MmInv (k.setDescriptor mm { k.descriptors mm with brk := brk }) mm root L D := by
  refine ⟨h.nonnull, ?_, ?_, ?_, ?_, h.live_eq, h.fresh, h.apart, ?_⟩
  · rw [MmState.setDescriptor_self]
    exact h.space
  · rw [MmState.setDescriptor_self]
    exact h.notKernel
  · unfold MmState.owned
    rw [MmState.setDescriptor_self]
    exact h.objects_sub
  · unfold MmState.owned
    rw [MmState.setDescriptor_self]
    exact h.nodup
  · rw [MmState.setDescriptor_self]
    exact hbrk

/-- The descriptor changed in its regions. -/
lemma MmInv.setRegions {regions : List MemRegion}
    (hobjects : ∀ p ∈ regions.map MemRegion.addr, p ∈ objects k.vmm.machine)
    (hnodup : (mm :: (k.descriptors mm).as :: regions.map MemRegion.addr).Nodup) :
    MmInv (k.setDescriptor mm { k.descriptors mm with regions := regions }) mm root L D := by
  refine ⟨h.nonnull, ?_, ?_, fun p hp => ?_, ?_, h.live_eq, h.fresh, h.apart, ?_⟩
  · rw [MmState.setDescriptor_self]
    exact h.space
  · rw [MmState.setDescriptor_self]
    exact h.notKernel
  · unfold MmState.owned at hp
    rw [MmState.setDescriptor_self] at hp
    rcases mem_cons.mp hp with hp | hp
    · rw [hp]
      exact h.objects_sub mm mem_cons_self
    · rcases mem_cons.mp hp with hp | hp
      · rw [hp]
        exact h.objects_sub _ (mem_cons_of_mem _ mem_cons_self)
      · exact hobjects p hp
  · unfold MmState.owned
    rw [MmState.setDescriptor_self]
    exact hnodup
  · rw [MmState.setDescriptor_self]
    exact h.brkAligned

/-! ## Creating a descriptor -/

/-- A new region. -/
lemma MmInv.addRegion {start stop : VirtAddr} {flags : BitVec 64}
    (hcall : mmAddRegion k mm start stop flags = some (r, k')) :
    MmInv k' mm root L D ∧ (k'.descriptors mm).brk = (k.descriptors mm).brk ∧
      (k'.descriptors mm).as = (k.descriptors mm).as ∧
      pageMap k'.vmm.machine root = pageMap k.vmm.machine root := by
  unfold mmAddRegion at hcall
  split at hcall
  · cases hcall
    exact ⟨h, rfl, rfl, rfl⟩
  · simp only at hcall
    split at hcall
    · cases hcall
    · next hne =>
      rw [Option.some.injEq, Prod.mk.injEq] at hcall
      have hsub : objects k.vmm.machine ⊆ objects (kmalloc k.vmm.machine sizeofMemRegion).2 := by
        rw [objects_kmalloc sizeofMemRegion_le hne]
        exact subset_insert _ _
      have hmem : (kmalloc k.vmm.machine sizeofMemRegion).1 ∈
          objects (kmalloc k.vmm.machine sizeofMemRegion).2 := by
        rw [objects_kmalloc sizeofMemRegion_le hne]
        exact mem_insert _ _
      have hnew : (kmalloc k.vmm.machine sizeofMemRegion).1 ∉ k.owned mm := fun hin =>
        kmalloc_fresh sizeofMemRegion_le hne (h.objects_sub _ hin)
      have hobjects : ∀ p ∈ (kmalloc k.vmm.machine sizeofMemRegion).1 ::
          (k.descriptors mm).regions.map MemRegion.addr,
          p ∈ objects (kmalloc k.vmm.machine sizeofMemRegion).2 := by
        intro p hp
        rcases mem_cons.mp hp with hp | hp
        · rw [hp]
          exact hmem
        · exact hsub (h.objects_sub p (mem_cons_of_mem _ (mem_cons_of_mem _ hp)))
      have hnodup : (mm :: (k.descriptors mm).as :: (kmalloc k.vmm.machine sizeofMemRegion).1 ::
          (k.descriptors mm).regions.map MemRegion.addr).Nodup :=
        (((List.Perm.swap _ _ _).cons mm).trans (List.Perm.swap _ _ _)).nodup_iff.mpr
          (nodup_cons.mpr ⟨hnew, h.nodup⟩)
      have h₁ := h.same (live_kmalloc sizeofMemRegion_le)
        (fun f hf i => load_kmalloc i sizeofMemRegion_le hf) hsub
      rw [← hcall.2]
      refine ⟨h₁.setRegions hobjects hnodup, ?_, ?_, ?_⟩
      · rw [MmState.setDescriptor_self]
      · rw [MmState.setDescriptor_self]
      · exact pageMap_congr fun f hf i =>
          load_kmalloc i sizeofMemRegion_le (h.space.tree.tables_live hf)

end

lemma perm_cons_eraseP {α : Type*} {p : α → Bool} {l : List α} {a : α} (h : l.find? p = some a) :
    l.Perm (a :: l.eraseP p) := by
  rcases List.find?_eq_some_iff_append.mp h with ⟨ha, before, after, hsplit, hbefore⟩
  have hnot : ∀ b ∈ before, ¬p b := fun b hb hpb => by
    have hfalse := hbefore b hb
    rw [hpb] at hfalse
    exact absurd hfalse (by decide)
  rw [hsplit, eraseP_append_right _ hnot, eraseP_cons_of_pos ha]
  exact perm_middle

/-- The record of a region is given back when the region is removed. -/
lemma MmInv.removeRegion (h : MmInv k mm root L D) {start stop : VirtAddr}
    (hcall : mmRemoveRegion k mm start stop = (r, k')) :
    MmInv k' mm root L D ∧ (k'.descriptors mm).brk = (k.descriptors mm).brk ∧
      pageMap k'.vmm.machine root = pageMap k.vmm.machine root := by
  unfold mmRemoveRegion at hcall
  split at hcall
  · cases hcall
    exact ⟨h, rfl, rfl⟩
  · simp only at hcall
    split at hcall
    · next rmr hfind =>
      rw [Prod.mk.injEq] at hcall
      set rest := (k.descriptors mm).regions.eraseP (fun r => r.start = start ∧ r.stop = stop)
      have hperm : (k.owned mm).Perm (rmr.addr :: mm :: (k.descriptors mm).as ::
          rest.map MemRegion.addr) := by
        have hregions := (perm_cons_eraseP hfind).map MemRegion.addr
        refine ((hregions.cons _).cons mm).trans ?_
        exact ((List.Perm.swap _ _ _).cons mm).trans (List.Perm.swap _ _ _)
      rcases nodup_cons.mp (hperm.nodup_iff.mp h.nodup) with ⟨hout, hnodup⟩
      have howned : ∀ p ∈ mm :: (k.descriptors mm).as :: rest.map MemRegion.addr,
          p ∈ objects k.vmm.machine := fun p hp =>
        h.objects_sub p (hperm.mem_iff.mpr (mem_cons_of_mem _ hp))
      have hobject : rmr.addr ∈ objects k.vmm.machine :=
        h.objects_sub _ (hperm.mem_iff.mpr mem_cons_self)
      -- first the list loses the record, then the record is given back
      have h₁ := h.setRegions (fun p hp => howned p (mem_cons_of_mem _
        (mem_cons_of_mem _ hp))) hnodup
      have hkept : ∀ p ∈ mm :: (k.descriptors mm).as :: rest.map MemRegion.addr,
          p ∈ objects (kfree k.vmm.machine rmr.addr) := by
        intro p hp
        rw [objects_kfree hobject]
        exact ⟨howned p hp, ne_of_mem_of_not_mem hp hout⟩
      have hload : ∀ f ∈ spaceTables k.vmm.machine root, ∀ i,
          entry (kfree k.vmm.machine rmr.addr) f i = entry k.vmm.machine f i :=
        fun f hf i => load_kfree i hobject (h.space.tree.tables_live hf)
      rw [← hcall.2]
      refine ⟨h₁.setMachine ((live_kfree hobject).trans h.live_eq) h.fresh h.apart hload ?_, ?_,
        pageMap_congr hload⟩
      · unfold MmState.owned
        rw [MmState.setDescriptor_self]
        exact hkept
      · rw [MmState.setDescriptor_self]
    · cases hcall
      exact ⟨h, rfl, rfl⟩

/-- A new descriptor owns its PML4. -/
lemma mmAlloc_inv (hkernel : k.vmm.kernelAs ∈ objects k.vmm.machine)
    (hcall : mmAlloc k = some (mm, k')) (hmm : mm ≠ 0) :
    ∃ root, MmInv k' mm root (live k.vmm.machine) ∅ ∧
      pageMap k'.vmm.machine root = PageMap.empty := by
  unfold mmAlloc at hcall
  rcases hdesc : kmalloc k.vmm.machine sizeofMemDescriptor with ⟨memDesc, s⟩
  rcases hcreate : vmmCreateAddressSpace { k.vmm with machine := s } with ⟨as, v⟩
  rw [hdesc] at hcall
  simp only [hcreate] at hcall
  split at hcall
  · rw [Option.some.injEq, Prod.mk.injEq] at hcall
    exact absurd hcall.1.symm hmm
  · next has =>
    split at hcall
    · cases hcall
    · next hne =>
      rw [Option.some.injEq, Prod.mk.injEq] at hcall
      have hs : s = (kmalloc k.vmm.machine sizeofMemDescriptor).2 := by rw [hdesc]
      have hptr : memDesc = (kmalloc k.vmm.machine sizeofMemDescriptor).1 := by rw [hdesc]
      have hobjects : objects s = insert memDesc (objects k.vmm.machine) := by
        rw [hs, objects_kmalloc sizeofMemDescriptor_le (hptr ▸ hne), ← hptr]
      have hlive : live s = live k.vmm.machine := by
        rw [hs, live_kmalloc sizeofMemDescriptor_le]
      rcases vmmCreateAddressSpace_created hcreate has with ⟨root, hc⟩
      have hobject : as ∉ objects s := hc.object
      have hmem : memDesc ∈ objects s := by
        rw [hobjects]
        exact mem_insert _ _
      have hkernel' : k.vmm.kernelAs ∈ objects s := by
        rw [hobjects]
        exact mem_insert_of_mem _ hkernel
      have hclive : live v.machine = insert root (live k.vmm.machine) := by
        rw [← hlive]
        exact hc.live_eq
      have hfresh : root ∉ live k.vmm.machine := by
        rw [← hlive]
        exact hc.fresh
      rw [← hcall.1, ← hcall.2]
      refine ⟨root, ⟨hne, ?_, ?_, ?_, ?_, ?_, disjoint_empty _, ?_, ?_⟩, hc.empty⟩
      · rw [MmState.setDescriptor_self]
        exact hc.rep
      · rw [MmState.setDescriptor_self]
        show as ≠ v.kernelAs
        rw [hc.kernelAs]
        exact (ne_of_mem_of_not_mem hkernel' hobject).symm
      · unfold MmState.owned
        rw [MmState.setDescriptor_self]
        show ∀ p ∈ [memDesc, as], p ∈ objects v.machine
        rw [hc.objects_eq]
        simp [hmem]
      · unfold MmState.owned
        rw [MmState.setDescriptor_self]
        simpa using ne_of_mem_of_not_mem hmem hobject
      · show live v.machine = live k.vmm.machine ∪ ∅ ∪ spaceTables v.machine root
        rw [hclive, hc.tables_eq, union_empty, union_singleton]
      · show Disjoint (spaceTables v.machine root) _
        rw [hc.tables_eq, union_empty]
        exact disjoint_singleton_left.mpr hfresh
      · rw [MmState.setDescriptor_self]
        rfl

lemma pageUp_aligned (x : VirtAddr) : (pageUp x).toNat % 4096 = 0 := by
  show (vmmPageAlignDown (x + pageSize - 1)).toNat % 4096 = 0
  rw [alignDown_toNat, Nat.mul_mod_left]

/-- `mm_setup_executable`. -/
lemma MmInv.setup (h : MmInv k mm root L D) {codeStart codeEnd dataEnd : VirtAddr}
    (hcall : mmSetupExecutable k mm codeStart codeEnd dataEnd = some (r, k')) :
    MmInv k' mm root L D ∧ (k'.descriptors mm).brk = heapStart dataEnd ∧
      (k'.descriptors mm).as = (k.descriptors mm).as ∧
      pageMap k'.vmm.machine root = pageMap k.vmm.machine root := by
  unfold mmSetupExecutable at hcall
  rcases Option.bind_eq_some_iff.mp hcall with ⟨⟨r₁, k₁⟩, h₁, hcall⟩
  rcases Option.bind_eq_some_iff.mp hcall with ⟨⟨r₂, k₂⟩, h₂, hcall⟩
  simp only [if_neg h.nonnull] at hcall
  rcases Option.bind_eq_some_iff.mp hcall with ⟨⟨r₃, k₃⟩, h₃, hcall⟩
  rcases Option.bind_eq_some_iff.mp hcall with ⟨⟨r₄, k₄⟩, h₄, hcall⟩
  rcases Option.bind_eq_some_iff.mp hcall with ⟨⟨r₅, k₅⟩, h₅, hcall⟩
  rcases Option.bind_eq_some_iff.mp hcall with ⟨⟨r₆, k₆⟩, h₆, hcall⟩
  simp only [Option.some.injEq, Prod.mk.injEq] at hcall
  rcases h.addRegion h₁ with ⟨i₁, -, a₁, m₁⟩
  rcases i₁.addRegion h₂ with ⟨i₂, -, a₂, m₂⟩
  rcases (i₂.setBrk (pageUp_aligned dataEnd)).addRegion h₃ with ⟨i₃, b₃, a₃, m₃⟩
  rcases i₃.addRegion h₄ with ⟨i₄, b₄, a₄, m₄⟩
  rcases i₄.addRegion h₅ with ⟨i₅, b₅, a₅, m₅⟩
  rcases i₅.addRegion h₆ with ⟨i₆, b₆, a₆, m₆⟩
  rw [MmState.setDescriptor_self] at b₃ a₃
  rw [← hcall.2]
  refine ⟨i₆, ?_, ?_, ?_⟩
  · rw [b₆, b₅, b₄, b₃]
    rfl
  · rw [a₆, a₅, a₄, a₃, a₂, a₁]
  · rw [m₆, m₅, m₄, m₃, MmState.setDescriptor_vmm, m₂, m₁]

/-! ## Freeing a descriptor -/

/-- `kfree` gives back no frames. -/
lemma kfreeAll_live {l : List VirtAddr} (hnodup : l.Nodup) (hl : ∀ p ∈ l, p ∈ objects s) :
    live (l.foldl kfree s) = live s ∧ objects (l.foldl kfree s) = objects s \ {p | p ∈ l} := by
  induction l generalizing s with
  | nil => simp
  | cons p l ih =>
    rw [nodup_cons] at hnodup
    have hp := hl p mem_cons_self
    have hrest : ∀ q ∈ l, q ∈ objects (kfree s p) := by
      intro q hq
      rw [objects_kfree hp]
      exact ⟨hl q (mem_cons_of_mem _ hq), ne_of_mem_of_not_mem hq hnodup.1⟩
    rcases ih hnodup.2 hrest with ⟨hlive, hobjects⟩
    rw [foldl_cons]
    refine ⟨hlive.trans (live_kfree hp), ?_⟩
    rw [hobjects, objects_kfree hp]
    ext q
    simp only [mem_sdiff, mem_singleton_iff, mem_ofPred_eq, mem_cons, not_or,
      and_assoc]

/-- `mm_free` gives back the tables and nothing else. -/
lemma MmInv.free (h : MmInv k mm root L D) : live (mmFree k mm).vmm.machine = L ∪ D := by
  rcases vmmDestroyAddressSpace_freed h.space.nonnull h.space.pml4 h.space.tree h.notKernel
    with ⟨s, hfree, hdestroy⟩
  rcases hfree.spec h.space.tree.tables_live with ⟨hlive, hobjects, -⟩
  have hfold : ∀ (l : List MemRegion) (s : σ), l.foldl (fun s r => kfree s r.addr) s =
      (l.map MemRegion.addr).foldl kfree s := fun l s => (foldl_map).symm
  have hmachine : (mmFree k mm).vmm.machine =
      ((k.descriptors mm).as :: (k.descriptors mm).regions.map MemRegion.addr ++ [mm]).foldl
        kfree s := by
    unfold mmFree
    simp only [if_neg h.nonnull, hdestroy, foldl_append, foldl_cons, ← hfold]
    rfl
  have hperm : ((k.descriptors mm).as :: (k.descriptors mm).regions.map MemRegion.addr ++
      [mm]).Perm (k.owned mm) := perm_append_singleton mm _
  have hmem : ∀ p ∈ (k.descriptors mm).as :: (k.descriptors mm).regions.map MemRegion.addr ++
      [mm], p ∈ objects s := by
    intro p hp
    rw [hobjects]
    exact h.objects_sub p (hperm.mem_iff.mp hp)
  rw [hmachine, (kfreeAll_live (hperm.nodup_iff.mpr h.nodup) hmem).1, hlive, h.live_eq,
    union_sdiff_right]
  exact sdiff_eq_left.mpr h.apart.symm

/-! ## The stack -/

lemma growFlags_frame : pteAddr growFlags = 0 := by decide

/-- A frame is aligned. -/
lemma alignDown_frame (h : pteAddr p = p) : vmmPageAlignDown p = p := by
  have hmask : (0x000FFFFFFFFFF000 : BitVec 64) &&& pageMask = 0x000FFFFFFFFFF000 := by decide
  rw [← h]
  unfold vmmPageAlignDown pteAddr
  rw [BitVec.and_assoc, hmask]

/-- A page for the stack. -/
lemma MmInv.expandStack (h : MmInv k mm root L D) (haddr : addr.toNat < 2 ^ 47)
    (hcall : mmExpandStack k mm addr = some (r, k')) :
    ((pmmAllocPage k.vmm.machine).1 = 0 ∧ MmInv k' mm root L D ∧
        pageMap k'.vmm.machine root = pageMap k.vmm.machine root) ∨
      ((pmmAllocPage k.vmm.machine).1 ≠ 0 ∧
        MmInv k' mm root L (D ∪ {(pmmAllocPage k.vmm.machine).1}) ∧
        (pageMap k'.vmm.machine root = pageMap k.vmm.machine root ∨
          pageMap k'.vmm.machine root = Function.update (pageMap k.vmm.machine root) (page addr)
            (some (pmmAllocPage k.vmm.machine).1))) := by
  unfold mmExpandStack at hcall
  simp only at hcall
  have hobjects : objects k.vmm.machine ⊆ objects (pmmAllocPage k.vmm.machine).2 :=
    objects_alloc.ge
  have hmap₀ : pageMap (pmmAllocPage k.vmm.machine).2 root = pageMap k.vmm.machine root :=
    pageMap_congr fun f hf => entry_alloc f (h.space.tree.tables_live hf)
  split at hcall
  · next hzero =>
    cases hcall
    exact Or.inl ⟨hzero, h.same (alloc_fails hzero) entry_alloc hobjects, hmap₀⟩
  · next hne =>
    rw [if_neg h.nonnull, Option.some.injEq, Prod.mk.injEq] at hcall
    rcases hmapPage : vmmMapPage (k.setMachine (pmmAllocPage k.vmm.machine).2).vmm
      ((k.setMachine (pmmAllocPage k.vmm.machine).2).descriptors mm).as addr
      (pmmAllocPage k.vmm.machine).1 growFlags with ⟨ret, v⟩
    rw [hmapPage] at hcall
    have hlive : live (pmmAllocPage k.vmm.machine).2 =
        live k.vmm.machine ∪ {(pmmAllocPage k.vmm.machine).1} := by
      rw [live_alloc hne, union_singleton]
    have hpage := h.take hlive (disjoint_singleton_left.mpr (alloc_fresh hne)) entry_alloc hobjects
    rcases mapPage_spec hpage.space (page_lt haddr) (pteAddr_alignDown (frame_lt (alloc_frame hne)))
      growFlags_frame hmapPage with ⟨hrep, heffect, hcases⟩
    rw [alignDown_frame (alloc_frame hne)] at hcases
    rw [← hcall.2]
    refine Or.inr ⟨hne, hpage.effect heffect hrep, ?_⟩
    rcases hcases with ⟨-, -, hmap⟩ | ⟨-, hmap, -⟩
    · exact Or.inr (hmap.trans (congrArg (Function.update · (page addr) _) hmap₀))
    · exact Or.inl (hmap.trans hmap₀)

end

/-! ## Page faults -/

/-- A call of `mm_expand_stack` or `mm_expand_heap`. -/
inductive Fault
  | stack (addr : VirtAddr)
  | heap (addr : VirtAddr)

/-- The address is in the lower half; above the heap there is room to grow. -/
def Fault.Valid : Fault → Prop
  | .stack addr => addr.toNat < 2 ^ 47
  | .heap addr => addr.toNat + heapGrowSize.toNat ≤ 2 ^ 47

section
open LawfulBuddyMachine
variable {σ : Type*} [LawfulPageMachine σ] [BuddyMachine σ]

/-- The call. -/
def Fault.exec (k : MmState σ) (mm : VirtAddr) : Fault → Option (ℤ × MmState σ)
  | .stack addr => mmExpandStack k mm addr
  | .heap addr => mmExpandHeap k mm addr

/-- What `buddy_alloc_pages` returns for a growth of the heap, and the memory after it. -/
abbrev MmState.heapBlock (k : MmState σ) : PhysAddr × σ :=
  buddyAllocPages k.vmm.machine heapGrowOrder

/-- Calls in a row, each with the state that it is made in. -/
inductive FaultRun (mm : VirtAddr) : MmState σ → List (MmState σ × Fault) → MmState σ → Prop
  | nil (k) : FaultRun mm k [] k
  | cons {k k' k'' f r calls} : f.exec k mm = some (r, k') → FaultRun mm k' calls k'' →
    FaultRun mm k ((k, f) :: calls) k''

variable [LawfulBuddyMachine σ]
variable {k k' : MmState σ} {mm : VirtAddr} {root : PhysAddr} {L D : Set PhysAddr}

lemma block_nonempty (p : PhysAddr) (n : ℕ) : (block p n).Nonempty :=
  ⟨p, 0, Nat.two_pow_pos n, by simp⟩

/-- The heap grows by 16 pages. -/
lemma rangeCount_grow (hbrk : brk.toNat % 4096 = 0) :
    rangeCount brk heapGrowSize = 16 := by
  have hsize : heapGrowSize.toNat = 65536 := by decide
  unfold rangeCount page
  omega

lemma brk_grow_aligned (hbrk : brk.toNat % 4096 = 0) :
    (brk + heapGrowSize).toNat % 4096 = 0 := by
  have hsize : heapGrowSize.toNat = 65536 := by decide
  rw [BitVec.toNat_add, hsize]
  omega

/-- What a call of `mm_expand_heap` may do. -/
inductive HeapGrowth (k k' : MmState σ) (mm : VirtAddr) (root : PhysAddr) (D : Set PhysAddr)
    (addr : VirtAddr) : ℤ → Set PhysAddr → Prop
  /-- The address is below the break. -/
  | below : addr < (k.descriptors mm).brk → k' = k → HeapGrowth k k' mm root D addr 0 D
  /-- There is no block. -/
  | noBlock : (k.descriptors mm).brk ≤ addr → k.heapBlock.1 = 0 →
    pageMap k'.vmm.machine root = pageMap k.vmm.machine root →
    (k'.descriptors mm).brk = (k.descriptors mm).brk → HeapGrowth k k' mm root D addr (-1) D
  /-- The block is not mapped, and given back. -/
  | noMap : (k.descriptors mm).brk ≤ addr → k.heapBlock.1 ≠ 0 →
    pageMap k'.vmm.machine root = pageMap k.vmm.machine root →
    (k'.descriptors mm).brk = (k.descriptors mm).brk + heapGrowSize →
    HeapGrowth k k' mm root D addr (-1) D
  /-- The block is mapped. -/
  | grown : (k.descriptors mm).brk ≤ addr → k.heapBlock.1 ≠ 0 →
    pageMap k'.vmm.machine root = (pageMap k.vmm.machine root).mapPages
      (page (k.descriptors mm).brk) 16 (vmmPageAlignDown k.heapBlock.1) →
    (k'.descriptors mm).brk = (k.descriptors mm).brk + heapGrowSize →
    HeapGrowth k k' mm root D addr 0 (D ∪ block k.heapBlock.1 heapGrowOrder)

/-- A block that was taken last is given back. -/
lemma MmInv.giveBack {n : ℕ} (h : MmInv k mm root L (D ∪ block p n)) (hD : Disjoint (block p n) D) :
    MmInv (k.setMachine (buddyFreePages k.vmm.machine p n)) mm root L D ∧
      pageMap (buddyFreePages k.vmm.machine p n) root = pageMap k.vmm.machine root := by
  have hfresh := disjoint_union_right.mp h.fresh
  have hapart := h.apart
  rw [← union_assoc, disjoint_union_right] at hapart
  have hsub : block p n ⊆ live k.vmm.machine := by
    rw [h.live_eq]
    exact fun f hf => Or.inl (Or.inr (Or.inr hf))
  have hsame : ∀ f ∈ spaceTables k.vmm.machine root, ∀ i,
      entry (buddyFreePages k.vmm.machine p n) f i = entry k.vmm.machine f i := fun f hf i =>
    load_buddyFree i hsub (h.space.tree.tables_live hf)
      (disjoint_left.mp hapart.2 hf)
  refine ⟨h.setMachine ?_ hfresh.1 hapart.1 hsame ?_, pageMap_congr hsame⟩
  · have hout : Disjoint (L ∪ D ∪ spaceTables k.vmm.machine root) (block p n) :=
      disjoint_union_left.mpr ⟨disjoint_union_left.mpr ⟨hfresh.2, hD.symm⟩, hapart.2⟩
    rw [live_buddyFree hsub, h.live_eq, ← union_assoc, union_right_comm,
      union_sdiff_right]
    exact sdiff_eq_left.mpr hout
  · exact fun q hq => (objects_buddyFree hsub).ge (h.objects_sub q hq)

/-- The break is that of the heap after its growth, and the block is mapped there or given back. -/
lemma MmInv.mapBlock (h : MmInv k mm root L (D ∪ block p heapGrowOrder))
    (hD : Disjoint (block p heapGrowOrder) D) (hrange : page p + 2 ^ heapGrowOrder ≤ 2 ^ 40)
    (hlow : (k.descriptors mm).brk.toNat + heapGrowSize.toNat ≤ 2 ^ 47) {ret : ℤ} {v : VmmState σ}
    (hcall : vmmMapRange k.vmm (k.descriptors mm).as (k.descriptors mm).brk p heapGrowSize
      growFlags = (ret, v)) :
    (ret = 0 ∧ MmInv { k with vmm := v } mm root L (D ∪ block p heapGrowOrder) ∧
        pageMap v.machine root = (pageMap k.vmm.machine root).mapPages
          (page (k.descriptors mm).brk) 16 (vmmPageAlignDown p)) ∨
      (ret = -1 ∧ MmInv { k with vmm := { v with
          machine := buddyFreePages v.machine p heapGrowOrder } } mm root L D ∧
        pageMap (buddyFreePages v.machine p heapGrowOrder) root = pageMap k.vmm.machine root) := by
  have hcount := rangeCount_grow h.brkAligned
  have hphys : page p + rangeCount (k.descriptors mm).brk heapGrowSize ≤ 2 ^ 40 := by
    rw [hcount]
    exact hrange
  rcases vmmMapRange_spec h.space hlow hphys growFlags_frame hcall with ⟨hrep, heffect, hcases⟩
  have h₁ := h.effect heffect hrep
  rw [hcount] at hcases
  rcases hcases with ⟨-, hret, -, hmap⟩ | ⟨hret, hmap, -⟩
  · exact Or.inl ⟨hret, h₁, hmap⟩
  · rcases h₁.giveBack hD with ⟨h₂, hmap₂⟩
    exact Or.inr ⟨hret, h₂, hmap₂.trans hmap⟩

/-- A block for the heap. -/
lemma MmInv.expandHeap (h : MmInv k mm root L D) (hroom : (k.descriptors mm).brk ≤ addr →
      (k.descriptors mm).brk.toNat + heapGrowSize.toNat ≤ 2 ^ 47)
    (hcall : mmExpandHeap k mm addr = some (r, k')) :
    ∃ D', MmInv k' mm root L D' ∧ (k'.descriptors mm).as = (k.descriptors mm).as ∧
      HeapGrowth k k' mm root D addr r D' := by
  unfold mmExpandHeap at hcall
  rw [if_neg h.nonnull] at hcall
  have hobjects : objects k.vmm.machine ⊆ objects k.heapBlock.2 := objects_buddy.ge
  have hload : ∀ f ∈ live k.vmm.machine, ∀ i,
      entry k.heapBlock.2 f i = entry k.vmm.machine f i :=
    fun f hf i => load_buddy i hf
  have hmap₀ : pageMap k.heapBlock.2 root = pageMap k.vmm.machine root :=
    pageMap_congr fun f hf => hload f (h.space.tree.tables_live hf)
  by_cases hbelow : addr < (k.descriptors mm).brk
  · rw [if_pos hbelow] at hcall
    cases hcall
    exact ⟨D, h, rfl, .below hbelow rfl⟩
  · have hbrk : (k.descriptors mm).brk ≤ addr := BitVec.not_lt.mp hbelow
    rw [if_neg hbelow] at hcall
    simp only at hcall
    by_cases hzero : k.heapBlock.1 = 0
    · rw [if_pos hzero] at hcall
      cases hcall
      exact ⟨D, h.same (buddy_fails hzero) hload hobjects, rfl,
        .noBlock hbrk hzero hmap₀ rfl⟩
    · rw [if_neg hzero, Option.some.injEq, Prod.mk.injEq] at hcall
      have hfresh : Disjoint (block k.heapBlock.1 heapGrowOrder) (live k.vmm.machine) :=
        buddy_fresh hzero
      have hblock := h.take (live_buddy hzero) hfresh hload hobjects
      have hD : Disjoint (block k.heapBlock.1 heapGrowOrder) D := by
        rw [h.live_eq, disjoint_union_right, disjoint_union_right] at hfresh
        exact hfresh.1.2
      have haligned := brk_grow_aligned h.brkAligned
      rcases hmapRange : vmmMapRange (k.setMachine k.heapBlock.2).vmm (k.descriptors mm).as
          (k.descriptors mm).brk k.heapBlock.1 heapGrowSize growFlags with ⟨ret, v⟩
      have hcases := hblock.mapBlock hD (buddy_range hzero) (hroom hbrk) hmapRange
      change (vmmMapRange (k.setMachine k.heapBlock.2).vmm (k.descriptors mm).as
        (k.descriptors mm).brk k.heapBlock.1 heapGrowSize growFlags).1 = r ∧ _ at hcall
      rw [← hcall.1, ← hcall.2]
      simp only [MmState.setMachine] at hmapRange hcases ⊢
      simp only [hmapRange]
      rcases hcases with ⟨hret, hinv, hmap⟩ | ⟨hret, hinv, hmap⟩
      · simp only [hret, ne_eq, not_true_eq_false, if_false]
        exact ⟨_, hinv.setBrk haligned, by rw [MmState.setDescriptor_self],
          .grown hbrk hzero (by rw [← hmap₀]; exact hmap) (by rw [MmState.setDescriptor_self])⟩
      · rw [if_pos (show ret ≠ 0 by rw [hret]; decide)]
        simp only [hret]
        exact ⟨_, hinv.setBrk haligned, by rw [MmState.setDescriptor_self],
          .noMap hbrk hzero (hmap.trans hmap₀) (by rw [MmState.setDescriptor_self])⟩

/-! ## When a block is mapped -/

variable [CountedPageMachine σ]

/-- The pages behind the break are not mapped, and once the block is taken there are pages for the
tables that they need. -/
structure BlockFits (k : MmState σ) (mm : VirtAddr) : Prop where
  unmapped : ∀ i < 16, ¬k.Mapped mm (page (k.descriptors mm).brk + i)
  tables : missing target (entry k.vmm.machine) (rootOf k.vmm (k.descriptors mm).as)
      (rangePaths (page (k.descriptors mm).brk) 16) ≤ freePages k.heapBlock.2

/-- A growth succeeds when there is a block that fits. -/
lemma MmInv.expandHeap_eq_zero_iff (h : MmInv k mm root L D) (hbrk : (k.descriptors mm).brk ≤ addr)
    (hroom : (k.descriptors mm).brk.toNat + heapGrowSize.toNat ≤ 2 ^ 47)
    (hcall : mmExpandHeap k mm addr = some (r, k')) :
    r = 0 ↔ k.heapBlock.1 ≠ 0 ∧ BlockFits k mm := by
  have hcount := rangeCount_grow h.brkAligned
  have hrange := range_lt hroom
  have hwalk : ∀ s : σ, ∀ i < rangeCount (k.descriptors mm).brk heapGrowSize,
      PartWalk target lowerHalf lowerHalf s root (page (k.descriptors mm).brk + i) :=
    fun s i hi => partWalk_lower s root (by omega)
  have hload : ∀ f ∈ live k.vmm.machine, ∀ i,
      entry k.heapBlock.2 f i = entry k.vmm.machine f i :=
    fun f hf i => load_buddy i hf
  unfold mmExpandHeap at hcall
  rw [if_neg h.nonnull, if_neg (BitVec.not_lt.mpr hbrk)] at hcall
  simp only at hcall
  by_cases hzero : k.heapBlock.1 = 0
  · rw [if_pos hzero] at hcall
    cases hcall
    exact iff_of_false (by decide) fun hcond => hcond.1 hzero
  · rw [if_neg hzero, Option.some.injEq, Prod.mk.injEq] at hcall
    have hpart := h.space.toPartRep.kept (s := k.heapBlock.2)
      (by rw [live_buddy hzero]; exact subset_union_left) hload
    have hiff := vmmMapRange_eq_zero_iff reads_target hpart k.heapBlock.1 growFlags
      (noWrap_of_lower hroom) (by omega) (hwalk _)
    rw [hcount] at hwalk hiff hrange
    rw [← hcall.1, and_iff_right hzero]
    refine hiff.trans ?_
    -- the tables and pages are those before the block was taken
    rw [and_iff_right (show heapGrowSize ≠ 0 by decide),
      missing_congr (h.space.tree.slots_kept hload)
        (rangePaths_inside fun i hi => (hwalk k.vmm.machine i hi).inside)]
    have hmapped : ∀ i < 16,
        pageIn target k.heapBlock.2 root (page (k.descriptors mm).brk + i) = none ↔
        ¬k.Mapped mm (page (k.descriptors mm).brk + i) := by
      intro i hi
      unfold MmState.Mapped
      rw [pageIn_kept (fun f hf => hload f (h.space.tree.tables_live hf))
        (hwalk k.vmm.machine i hi).inside, h.space.rootOf_eq, pageMap_of_lt (by omega), not_not]
    constructor
    · intro hcond
      refine ⟨fun i hi => (hmapped i hi).mp (hcond.1 i hi), ?_⟩
      rw [h.space.rootOf_eq]
      exact hcond.2
    · intro hfits
      refine ⟨fun i hi => (hmapped i hi).mpr (hfits.unmapped i hi), ?_⟩
      have htables := hfits.tables
      rw [h.space.rootOf_eq] at htables
      exact htables

/-! ## Runs -/

/-- The call gets memory that it does not give back itself: a page for the stack, or a block for the
heap that fits behind the break. -/
def Fault.Keeps (k : MmState σ) (mm : VirtAddr) : Fault → Prop
  | .stack _ => (pmmAllocPage k.vmm.machine).1 ≠ 0
  | .heap addr => (k.descriptors mm).brk ≤ addr ∧ k.heapBlock.1 ≠ 0 ∧ BlockFits k mm

/-- A call adds frames to `D` exactly when it keeps memory. -/
lemma MmInv.exec (h : MmInv k mm root L D) {f : Fault} (hf : f.Valid)
    (hcall : f.exec k mm = some (r, k')) :
    ∃ D', MmInv k' mm root L D' ∧ D ⊆ D' ∧ (f.Keeps k mm → D'.Nonempty) ∧
      (¬f.Keeps k mm → D' = D) := by
  cases f with
  | stack addr =>
    rcases h.expandStack hf hcall with ⟨hzero, h', -⟩ | ⟨hne, h', -⟩
    · exact ⟨D, h', subset_rfl, fun hkeeps => absurd hzero hkeeps, fun _ => rfl⟩
    · exact ⟨_, h', subset_union_left, fun _ => ⟨_, Or.inr rfl⟩, fun hnot => absurd hne hnot⟩
  | heap addr =>
    have hroom : (k.descriptors mm).brk ≤ addr →
        (k.descriptors mm).brk.toNat + heapGrowSize.toNat ≤ 2 ^ 47 := by
      intro hbrk
      have hle := BitVec.le_def.mp hbrk
      have hvalid : addr.toNat + heapGrowSize.toNat ≤ 2 ^ 47 := hf
      omega
    have hiff := fun hbrk => h.expandHeap_eq_zero_iff hbrk (hroom hbrk) hcall
    rcases h.expandHeap hroom hcall with ⟨D', h', -, hgrowth⟩
    refine ⟨D', h', ?_⟩
    cases hgrowth with
    | below hbelow =>
      exact ⟨subset_rfl, fun hkeeps => absurd hbelow (BitVec.not_lt.mpr hkeeps.1), fun _ => rfl⟩
    | noBlock hbrk =>
      exact ⟨subset_rfl, fun hkeeps => absurd ((hiff hbrk).mpr hkeeps.2) (by decide), fun _ => rfl⟩
    | noMap hbrk =>
      exact ⟨subset_rfl, fun hkeeps => absurd ((hiff hbrk).mpr hkeeps.2) (by decide), fun _ => rfl⟩
    | grown hbrk =>
      exact ⟨subset_union_left, fun _ => (block_nonempty _ _).inr,
        fun hnot => absurd ⟨hbrk, (hiff hbrk).mp rfl⟩ hnot⟩

/-- Any calls for faults. -/
lemma MmInv.run {calls : List (MmState σ × Fault)} (h : MmInv k mm root L D)
    (hrun : FaultRun mm k calls k') (hvalid : ∀ c ∈ calls, c.2.Valid) :
    ∃ D', MmInv k' mm root L D' ∧ D ⊆ D' ∧
      ((∃ c ∈ calls, c.2.Keeps c.1 mm) → D'.Nonempty) ∧
      ((∀ c ∈ calls, ¬c.2.Keeps c.1 mm) → D' = D) := by
  induction hrun generalizing D with
  | nil k => exact ⟨D, h, subset_rfl, fun ⟨_, hc, _⟩ => absurd hc not_mem_nil, fun _ => rfl⟩
  | @cons k k₁ k₂ f r calls hcall _ ih =>
    rw [forall_mem_cons] at hvalid
    rcases h.exec hvalid.1 hcall with ⟨D₁, h₁, hsub₁, hkeeps₁, hnot₁⟩
    rcases ih h₁ hvalid.2 with ⟨D₂, h₂, hsub₂, hkeeps₂, hnot₂⟩
    refine ⟨D₂, h₂, hsub₁.trans hsub₂, fun hsome => ?_, fun hnone => ?_⟩
    · rcases hsome with ⟨c, hc, hkeeps⟩
      rcases mem_cons.mp hc with hc | hc
      · rw [hc] at hkeeps
        exact (hkeeps₁ hkeeps).mono hsub₂
      · exact hkeeps₂ ⟨c, hc, hkeeps⟩
    · rw [forall_mem_cons] at hnone
      rw [hnot₂ hnone.2, hnot₁ hnone.1]

end

end LunOS.MemMgr
