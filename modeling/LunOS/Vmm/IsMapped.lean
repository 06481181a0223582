import LunOS.Vmm.Theorems

/-!
# Is an address mapped?

`vmm_is_mapped` takes the physical address 0 for an address that is not mapped. This goes wrong for
the first address of a page that is mapped to frame 0.

- `lastMapping`: the frame that the last successful call gave a page, `none` when the page was never
  mapped or has been unmapped since.
-/

namespace LunOS.Vmm
open LunOS.Radix PageMachine LawfulPageMachine Function

/-- The virtual addresses lie in the lower half. -/
def Op.Lower : Op → Prop
  | .mapPage v _ _ => v.toNat < 2 ^ 47
  | .unmapPage v => v.toNat < 2 ^ 47
  | .mapRange v _ size _ => v.toNat + size.toNat ≤ 2 ^ 47
  | .unmapRange v size => v.toNat + size.toNat ≤ 2 ^ 47

/-- The mappings after a call that returned `r`. -/
def Op.after (m : PageMap) (r : ℤ) : Op → PageMap
  | .mapPage v p flags =>
    if r = 0 then update m (page v) (some (mappedFrame p flags)) else m
  | .unmapPage v => if r = 0 then update m (page v) none else m
  | .mapRange v p size flags =>
    if r = 0 then
      m.fill (page v) (rangeCount v size) fun i =>
        mappedFrame (pageAddr (vmmPageAlignDown p) i) flags
    else m
  | .unmapRange v size => if r = 0 then m.unmapPages (page v) (rangeCount v size) else m

/-- What the calls made so far, with their return values, have left mapped. -/
def lastMapping (calls : List (Op × ℤ)) : PageMap :=
  calls.foldl (fun m call => call.1.after m call.2) PageMap.empty

section
variable {σ : Type*} [LawfulPageMachine σ] {k k' : VmmState σ} {as : VirtAddr} {root : PhysAddr}

/-- The mappings of an address space follow its calls. -/
lemma exec_lower (h : SpaceRep k as root) {op : Op} (hop : op.Lower) {r : ℤ}
    (hcall : exec k as op = (r, k')) :
    SpaceRep k' as root ∧ pageMap k'.machine root = op.after (pageMap k.machine root) r := by
  cases op with
  | mapPage v p flags =>
    rcases mapPage_lower h (page_lt hop) hcall with
      ⟨hrep, -, ⟨hr, -, hmap⟩ | ⟨hr, hmap, -⟩⟩
    · exact ⟨hrep, hmap.trans (if_pos hr).symm⟩
    · exact ⟨hrep, hmap.trans (if_neg (by rw [hr]; decide)).symm⟩
  | unmapPage v =>
    rcases unmapPage_spec h (page_lt hop) hcall with ⟨hrep, -, hmap, ⟨hr, -⟩ | ⟨hr, hnone⟩⟩
    · exact ⟨hrep, hmap.trans (if_pos hr).symm⟩
    · rw [← hnone, update_eq_self] at hmap
      exact ⟨hrep, hmap.trans (if_neg (by rw [hr]; decide)).symm⟩
  | mapRange v p size flags =>
    rcases vmmMapRange_lower h hop hcall with
      ⟨hrep, -, ⟨-, hr, -, hmap⟩ | ⟨hr, hmap, -⟩⟩
    · exact ⟨hrep, hmap.trans (if_pos hr).symm⟩
    · exact ⟨hrep, hmap.trans (if_neg (by rw [hr]; decide)).symm⟩
  | unmapRange v size =>
    rcases vmmUnmapRange_spec h hop hcall with
      ⟨hrep, -, ⟨-, hr, hmap⟩ | ⟨-, hr, hmap⟩⟩
    · exact ⟨hrep, hmap.trans (if_neg (by rw [hr]; decide)).symm⟩
    · exact ⟨hrep, hmap.trans (if_pos hr).symm⟩

lemma execAll_lower (h : SpaceRep k as root) {ops : List Op} (hops : ∀ op ∈ ops, op.Lower) :
    SpaceRep (execAll k as ops).2 as root ∧
      pageMap (execAll k as ops).2.machine root =
        (execAll k as ops).1.foldl (fun m call => call.1.after m call.2)
          (pageMap k.machine root) := by
  induction ops generalizing k with
  | nil => exact ⟨h, rfl⟩
  | cons op ops ih =>
    rcases exec_lower h (hops op List.mem_cons_self) rfl with ⟨hrep, hmap⟩
    rcases ih hrep fun o ho => hops o (List.mem_cons_of_mem _ ho) with ⟨hrep', hmap'⟩
    rw [hmap] at hmap'
    exact ⟨hrep', hmap'⟩

/-- The answer for an address is whether its page is mapped, unless the page is mapped to frame 0 and
the address is its first one. -/
theorem vmmIsMapped_exact_iff {k₁ : VmmState σ} (hcreate : vmmCreateAddressSpace k = (as, k₁))
    (has : as ≠ 0) {ops : List Op} (hops : ∀ op ∈ ops, op.Lower) {v : VirtAddr}
    (hv : v.toNat < 2 ^ 47) :
    (vmmIsMapped (execAll k₁ as ops).2 as v = true ↔
        lastMapping (execAll k₁ as ops).1 (page v) ≠ none) ↔
      ¬(lastMapping (execAll k₁ as ops).1 (page v) = some 0 ∧ pageOffset v = 0) := by
  rcases vmmCreateAddressSpace_created hcreate has with ⟨root, hcreated⟩
  rcases execAll_lower hcreated.rep hops with ⟨hrep, hmap⟩
  rw [hcreated.empty] at hmap
  have hlast : lastMapping (execAll k₁ as ops).1 (page v) =
      pageMap (execAll k₁ as ops).2.machine root (page v) := by
    rw [hmap]
    rfl
  unfold vmmIsMapped
  rw [hrep.virtToPhys hv, hlast]
  unfold PageMap.translate
  cases pageMap (execAll k₁ as ops).2.machine root (page v) with
  | none => simp
  | some frame => simp [BitVec.or_eq_zero_iff, imp_iff_not_or]

end

/-! ## A page that is mapped to frame 0 -/

/-- A page is mapped, unmapped, and mapped to frame 0. -/
def frameZeroOps : List Op :=
  [.mapPage 0x400000 0x5000 7, .unmapPage 0x400123, .mapPage 0x400000 0 7]

theorem vmmIsMapped_exact_iff_inside :
    vmmIsMapped (execAll (vmmCreateAddressSpace bootState).2 0x200 frameZeroOps).2 0x200 0x400008 =
        true ↔
      lastMapping (execAll (vmmCreateAddressSpace bootState).2 0x200 frameZeroOps).1
        (page 0x400008) ≠ none := by
  have has : (vmmCreateAddressSpace bootState).1 = 0x200 := by decide
  have hoffset : pageOffset 0x400008 ≠ 0 := by decide
  refine (vmmIsMapped_exact_iff (by rw [← has]) (by decide) ?_ (by decide)).mpr fun h =>
    hoffset h.2
  simp [frameZeroOps, Op.Lower]

/-- The page is mapped, and the answer is no for its first address and yes for the next one. -/
theorem vmmIsMapped_frameZero :
    (vmmCreateAddressSpace bootState).1 = 0x200 ∧
      lastMapping (execAll (vmmCreateAddressSpace bootState).2 0x200 frameZeroOps).1
        (page 0x400000) = some 0 ∧
      vmmIsMapped (execAll (vmmCreateAddressSpace bootState).2 0x200 frameZeroOps).2 0x200
        0x400000 = false ∧
      vmmIsMapped (execAll (vmmCreateAddressSpace bootState).2 0x200 frameZeroOps).2 0x200
        0x400001 = true :=
  ⟨by decide, by decide +kernel, by decide +kernel, by decide +kernel⟩

end LunOS.Vmm
