import LunOS.Vmm.Ram
import LunOS.Vmm.Spaces

/-!
# An address space is a partial map

From its creation on, an address space translates the lower half as the map that its calls and their
return values give, and `total_pages` is the number of mapped pages.
-/

namespace LunOS.Vmm
open LunOS.Radix PageMachine LawfulPageMachine

variable {σ : Type*} [LawfulPageMachine σ]

/-- After any calls on a new address space there is a map that the abstract operations reach with
the same return values, and translation and page count are those of this map. A call fails for want
of pages only if they do not suffice for the tables that it has to create. -/
theorem run_refines_pageMap {k k₁ : VmmState σ} {as : VirtAddr}
    (hcreate : vmmCreateAddressSpace k = (as, k₁)) (has : as ≠ 0) {ops : List Op}
    (hops : ∀ op ∈ ops, op.Valid) :
    ∃ m : PageMap, PageMap.Run PageMap.empty (shortages k₁ as ops) (execAll k₁ as ops).1 m ∧
      (∀ v : VirtAddr, v.toNat < 2 ^ 47 →
        vmmVirtToPhys (execAll k₁ as ops).2 as v = m.translate v) ∧
      ((execAll k₁ as ops).2.spaces as).totalPages.toNat = m.count := by
  rcases vmmCreateAddressSpace_created hcreate has with ⟨root, hcreated⟩
  rcases execAll_spec hcreated.rep hops with ⟨hrep, -, hrun⟩
  rw [hcreated.empty] at hrun
  exact ⟨_, hrun, fun v hv => hrep.virtToPhys hv, hrep.counted⟩

def bootFrames : List PhysAddr :=
  [0x2000, 0x3000, 0x4000, 0x5000, 0x6000, 0x7000, 0x8000, 0x9000, 0xA000, 0xB000]

lemma bootFrames_isFrame : ∀ f ∈ bootFrames, IsFrame f := by
  simp [bootFrames, IsFrame, pteAddr, ramOffset]

/-- A machine with ten free frames; the boot loader's PML4 is at `0x1000`. -/
def bootRam : Ram where
  frames _ _ := 0
  pool := ⟨bootFrames, by decide +kernel, bootFrames_isFrame⟩
  heap := ⟨[0x100, 0x200, 0x300], by decide, by simp⟩

def bootState : VmmState Ram := ((vmmInit bootRam 0x1000).get (by decide)).2

/-- A page mapped, mapped again and unmapped. -/
def onePageOps : List Op :=
  [.mapPage 0x400123 0x100456 7, .mapPage 0x400000 0x200000 7, .unmapPage 0x400FFF]

theorem run_refines_pageMap_onePage :
    (vmmCreateAddressSpace bootState).1 = 0x200 ∧
    (execAll (vmmCreateAddressSpace bootState).2 0x200 onePageOps).1.map Prod.snd = [0, -1, 0] ∧
    ∃ m : PageMap, PageMap.Run PageMap.empty
        (shortages (vmmCreateAddressSpace bootState).2 0x200 onePageOps)
        (execAll (vmmCreateAddressSpace bootState).2 0x200 onePageOps).1 m ∧
      (∀ v : VirtAddr, v.toNat < 2 ^ 47 →
        vmmVirtToPhys (execAll (vmmCreateAddressSpace bootState).2 0x200 onePageOps).2 0x200 v =
          m.translate v) ∧
      ((execAll (vmmCreateAddressSpace bootState).2 0x200 onePageOps).2.spaces 0x200
        ).totalPages.toNat = m.count := by
  have has : (vmmCreateAddressSpace bootState).1 = 0x200 := by decide
  have hvalid : ∀ op ∈ onePageOps, op.Valid := by decide
  exact ⟨has, by decide +kernel, run_refines_pageMap (by rw [← has]) (by decide) hvalid⟩

end LunOS.Vmm
