import LunOS.Vmm.Calls
import LunOS.Vmm.Ram

/-!
# The pages that a mapping needs

A walk that creates tables takes one page for every table that is missing on its way. On a machine
that hands out pages as long as it has some, a page or a range is mapped exactly when its pages are
not mapped and the free pages suffice for the missing tables.

- `CountedPageMachine`: a machine with the number of its free pages.
- `mapPage_eq_zero_iff`, `vmmMapRange_eq_zero_iff`: when the calls return 0.
-/

namespace LunOS.Vmm
open LunOS.Radix PageMachine LawfulPageMachine List

/-- `pmm_alloc_page` fails only when no page is free, and writes to frames in use free none. -/
class CountedPageMachine (σ : Type*) [LawfulPageMachine σ] where
  freePages : σ → ℕ
  alloc_eq_zero_iff : ∀ {s : σ}, (pmmAllocPage s).1 = 0 ↔ freePages s = 0
  freePages_alloc : ∀ {s : σ}, freePages (pmmAllocPage s).2 = freePages s - 1
  freePages_store : ∀ {s : σ} {f} i e, f ∈ live s →
    freePages (store s (f + hhdmOffset σ) i e) = freePages s
  freePages_memset : ∀ {s : σ} {f}, f ∈ live s →
    freePages (memsetPage s (f + hhdmOffset σ)) = freePages s

variable {σ : Type*} [LawfulPageMachine σ]
open CountedPageMachine

section
variable [CountedPageMachine σ] {s s' : σ} {child : EntryReader}
variable {top T : Set Index} {root : PhysAddr} {k : VmmState σ} {as v : VirtAddr}

/-! ## Counting pages -/

/-- Each frame that was taken is one page less. -/
lemma Takes.freePages_eq {fs : List PhysAddr} (h : Takes s fs s') :
    freePages s' + fs.length = freePages s := by
  induction h with
  | refl => rfl
  | alloc _ hne ih =>
    have hpos := mt alloc_eq_zero_iff.mpr hne
    rw [freePages_alloc, length_cons]
    omega
  | allocFails _ hzero ih =>
    have hnone := alloc_eq_zero_iff.mp hzero
    rw [freePages_alloc]
    omega
  | memset _ hf ih => rw [freePages_memset hf, ih]
  | store i e _ hf ih => rw [freePages_store i e hf, ih]

lemma RunsOut.freePages_lt {n : ℕ} (h : RunsOut s n) : freePages s < n := by
  rcases h with ⟨fs, s', htakes, hlt, hzero⟩
  have hnone := alloc_eq_zero_iff.mp hzero
  have htaken := htakes.freePages_eq
  omega

lemma Filled.missing_le {P : Finset (List Index)} (h : Filled child top s s' root P) :
    missing child (entry s) root P ≤ freePages s := by
  rcases h.takes with ⟨fs, hfs, hlen⟩
  have htaken := hfs.freePages_eq
  omega

/-! ## Mapping -/

/-- A page is mapped when it was not and there are pages for the missing tables. -/
lemma mapPage_eq_zero_iff (hreads : Reads child) (h : PartRep child top k as root)
    (hv : PartWalk child top T k.machine root (page v)) {p : PhysAddr} {flags : BitVec 64} :
    (mapPage k as v p flags).1 = 0 ↔
      pageIn child k.machine root (page v) = none ∧
        missing child (entry k.machine) root (pagePaths (page v)) ≤ freePages k.machine := by
  rcases hcall : mapPage k as v p flags with ⟨r, k'⟩
  rcases (mapPage_part hreads h hv hcall).2 with
    ⟨hr, hnone, -, -, hfilled⟩ | ⟨hr, -, -, hwhy⟩
  · exact iff_of_true hr ⟨hnone, hfilled.missing_le⟩
  · rw [hr]
    refine iff_of_false (show ¬(-1 : ℤ) = 0 by decide) fun hcond => ?_
    rcases hwhy with hsome | hout
    · exact hsome hcond.1
    · exact absurd hcond.2 (Nat.not_le.mpr hout.freePages_lt)

/-- A range is mapped when none of its pages was and there are pages for the missing tables. -/
lemma vmmMapRange_eq_zero_iff (hreads : Reads child) (h : PartRep child top k as root)
    (p : PhysAddr) {size : BitVec 64} (flags : BitVec 64)
    (hwrap : v.toNat + size.toNat + 4095 < 2 ^ 64) (hroom : rangeCount v size ≤ 2 ^ 36)
    (hwalk : ∀ i < rangeCount v size, PartWalk child top T k.machine root (page v + i)) :
    (vmmMapRange k as v p size flags).1 = 0 ↔
      size ≠ 0 ∧ (∀ i < rangeCount v size, pageIn child k.machine root (page v + i) = none) ∧
        missing child (entry k.machine) root (rangePaths (page v) (rangeCount v size)) ≤
          freePages k.machine := by
  rcases hcall : vmmMapRange k as v p size flags with ⟨r, k'⟩
  rcases (vmmMapRange_part hreads h hwrap hwalk hcall).2 with
    ⟨hsize, hr, hadded, -, hfilled⟩ | ⟨hr, -, -, hwhy⟩
  · exact iff_of_true hr ⟨hsize, hadded.free, hfilled.missing_le⟩
  · rw [hr]
    refine iff_of_false (show ¬(-1 : ℤ) = 0 by decide) fun hcond => ?_
    rcases hwhy with hsize | ⟨i, hi, hsome⟩ | hout | hmany
    · exact hcond.1 hsize
    · exact hsome (hcond.2.1 i hi)
    · exact absurd hcond.2.2 (Nat.not_le.mpr hout.freePages_lt)
    · exact absurd hroom (Nat.not_le.mpr hmany)

end

/-! ## Other changes of the machine -/

section
variable {child : EntryReader} {top T : Set Index} {s s' : σ}
variable {k : VmmState σ} {as : VirtAddr} {root : PhysAddr} {n : ℕ}

lemma pageIn_kept
    (hsame : ∀ f ∈ tables child (entry s) root top 3, ∀ i, entry s' f i = entry s f i)
    (hn : InPart top n) : pageIn child s' root n = pageIn child s root n :=
  leaf_congr (fun x hx => hsame x.1 (mem_tables_of_slots hx) x.2) (Nat.le_refl 3) (within_path hn _)

lemma TreeIn.slots_kept (h : TreeIn child top s root)
    (hsame : ∀ f ∈ live s, ∀ i, entry s' f i = entry s f i) :
    ∀ x ∈ slots child (entry s) root top 3, entry s' x.1 x.2 = entry s x.1 x.2 := fun x hx =>
  hsame x.1 (h.tables_live (mem_tables_of_slots (slots_mono (by omega) hx))) x.2

lemma PartRep.kept (h : PartRep child top k as root) (hsub : live k.machine ⊆ live s)
    (hsame : ∀ f ∈ live k.machine, ∀ i, entry s f i = entry k.machine f i) :
    PartRep child top { k with machine := s } as root := by
  have hslots := h.tree.slots_kept hsame
  refine ⟨h.nonnull, h.pml4, h.tree.tree.congr hslots, ?_⟩
  rw [tables_congr hslots]
  exact h.tree.tables_live.trans hsub

lemma PartWalk.kept (h : PartWalk child top T s root n) (htree : TreeIn child top s root)
    (hsame : ∀ f ∈ live s, ∀ i, entry s' f i = entry s f i) :
    PartWalk child top T s' root n := by
  have hin := within_path h.inside []
  rw [append_nil] at hin
  exact ⟨h.mem, h.inside, h.clean.congr rfl hin (htree.slots_kept hsame)⟩

end

/-! ## The machine with a list of free frames -/

instance : CountedPageMachine Ram where
  freePages s := s.pool.items.length
  alloc_eq_zero_iff {s} := by
    show (s.pool.take 0).1 = 0 ↔ _
    rw [length_eq_zero_iff]
    constructor
    · intro hzero
      by_contra hne
      have hhead : (s.pool.take 0).1 ∈ s.pool.items := by
        show s.pool.items.headD 0 ∈ _
        rw [headD_eq_head?_getD, List.head?_eq_some_head hne]
        exact head_mem hne
      rw [hzero] at hhead
      exact (s.pool.all_ok 0 hhead).2.1 rfl
    · intro hnil
      show s.pool.items.headD 0 = 0
      rw [hnil]
      rfl
  freePages_alloc {s} := length_tail
  freePages_store _ _ _ := rfl
  freePages_memset _ := rfl

end LunOS.Vmm
