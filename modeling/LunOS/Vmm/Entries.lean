import LunOS.Vmm.Common
import LunOS.Utils.Memory

/-!
# Page table entries and indices

What the bit operations of `vmm.h` compute: the frame of an entry, the page of an address, and the
four indices, which together are the page of a lower-half address.
-/

namespace LunOS.Vmm
open LunOS.Memory

/-! ## Entries -/

/-- A way to read entries: the frame that an entry leads to, if any. -/
abbrev EntryReader := PageTableEntry → Option PhysAddr

/-- The frame that an entry points to. -/
def target (pte : PageTableEntry) : Option PhysAddr :=
  if pte &&& ptePresent = 0 then none else some (pteAddr pte)

lemma target_of_absent {pte : PageTableEntry} (h : pte &&& ptePresent = 0) : target pte = none :=
  if_pos h

lemma target_of_present {pte : PageTableEntry} (h : pte &&& ptePresent ≠ 0) :
    target pte = some (pteAddr pte) :=
  if_neg h

lemma target_ne_none {pte : PageTableEntry} (h : pte &&& ptePresent ≠ 0) : target pte ≠ none := by
  rw [target_of_present h]
  simp

@[simp] lemma target_zero : target 0 = none := by decide

lemma pteAddr_or (a b : PageTableEntry) : pteAddr (a ||| b) = pteAddr a ||| pteAddr b := by
  unfold pteAddr
  ext i hi
  simp only [BitVec.getElem_and, BitVec.getElem_or, Bool.and_or_distrib_right]

lemma or_ptePresent_ne_zero (e : PageTableEntry) : (e ||| ptePresent) &&& ptePresent ≠ 0 := by
  intro h
  have hbit := congrArg (fun x : BitVec 64 => x.getLsbD 0) h
  simp [ptePresent] at hbit

/-- The entry that a walk links points to the new table. -/
lemma target_link {f : PhysAddr} (hf : pteAddr f = f) :
    target (f ||| ptePresent ||| pteWritable ||| pteUser) = some f := by
  have hpresent : (f ||| ptePresent ||| pteWritable ||| pteUser) &&& ptePresent ≠ 0 := by
    rw [BitVec.or_assoc, BitVec.or_assoc, BitVec.or_comm ptePresent, ← BitVec.or_assoc]
    exact or_ptePresent_ne_zero _
  have hflags : pteAddr ptePresent = 0 ∧ pteAddr pteWritable = 0 ∧ pteAddr pteUser = 0 := by decide
  rw [target_of_present hpresent, pteAddr_or, pteAddr_or, pteAddr_or, hf, hflags.1, hflags.2.1,
    hflags.2.2]
  simp

/-! ## Pages -/

/-- The page of an address. -/
def page (v : VirtAddr) : ℕ := v.toNat / 4096

lemma alignDown_toNat (v : VirtAddr) : (vmmPageAlignDown v).toNat = page v * 4096 := by
  have hmask : pageMask.toNat = 2 ^ 64 - 2 ^ 12 := by decide
  unfold vmmPageAlignDown page
  rw [BitVec.toNat_and, hmask, land_highMask (by omega) v.isLt]
  norm_num

@[simp] lemma page_alignDown (v : VirtAddr) : page (vmmPageAlignDown v) = page v := by
  unfold page
  rw [alignDown_toNat]
  exact Nat.mul_div_cancel _ (by decide)

/-- Up to the last page of the address space `vmm_page_align_up` rounds up. -/
lemma alignUp_toNat {v : VirtAddr} (h : v.toNat + 4095 < 2 ^ 64) :
    (vmmPageAlignUp v).toNat = (v.toNat + 4095) / 4096 * 4096 := by
  have hsum : v + pageSize - 1 = v + 4095 := by
    unfold pageSize
    bv_omega
  have hnat : (v + 4095).toNat = v.toNat + 4095 := by bv_omega
  show (vmmPageAlignDown (v + pageSize - 1)).toNat = _
  rw [alignDown_toNat, hsum]
  unfold page
  rw [hnat]

/-- A frame that fits into an entry is below 2^52. -/
lemma frame_lt {p : PhysAddr} (h : pteAddr p = p) : p.toNat < 2 ^ 52 := by
  have hmask : (0x000FFFFFFFFFF000 : BitVec 64).toNat = 2 ^ 52 - 2 ^ 12 := by decide
  have hle : p.toNat ≤ 2 ^ 52 - 2 ^ 12 := by
    rw [← h, ← hmask]
    unfold pteAddr
    rw [BitVec.toNat_and]
    exact Nat.and_le_right
  omega

/-- A frame below 2^52 fits into an entry. -/
lemma pteAddr_alignDown {p : PhysAddr} (h : p.toNat < 2 ^ 52) :
    pteAddr (vmmPageAlignDown p) = vmmPageAlignDown p := by
  have hmask : (0x000FFFFFFFFFF000 : BitVec 64).toNat = 2 ^ 52 - 2 ^ 12 := by decide
  have hle : page p * 4096 ≤ p.toNat := Nat.div_mul_le_self _ _
  apply BitVec.eq_of_toNat_eq
  unfold pteAddr
  rw [BitVec.toNat_and, hmask, land_highMask (by omega) (by rw [alignDown_toNat]; omega)]
  rw [alignDown_toNat]
  omega

/-! ## Indices -/

/-- The index of an address at bit `k`. -/
lemma index_val (v : VirtAddr) (k : ℕ) :
    (Fin.ofNat 512 ((v >>> k) &&& 0x1FF).toNat).val = v.toNat / 2 ^ k % 512 := by
  have hmask : (0x1FF : BitVec 64).toNat = 2 ^ 9 - 1 := by decide
  rw [Fin.val_ofNat, BitVec.toNat_and, hmask, land_lowMask, BitVec.toNat_ushiftRight,
    Nat.shiftRight_eq_div_pow]
  exact Nat.mod_mod _ _

lemma pml4Index_val (v : VirtAddr) : (pml4Index v).val = v.toNat / 2 ^ 39 % 512 := index_val v 39
lemma pdpIndex_val (v : VirtAddr) : (pdpIndex v).val = v.toNat / 2 ^ 30 % 512 := index_val v 30
lemma pdIndex_val (v : VirtAddr) : (pdIndex v).val = v.toNat / 2 ^ 21 % 512 := index_val v 21
lemma ptIndex_val (v : VirtAddr) : (ptIndex v).val = v.toNat / 2 ^ 12 % 512 := index_val v 12

/-- The path of a page: three indices to its page table and the one in it. -/
def pathOf (n : ℕ) : List Index :=
  [Fin.ofNat 512 (n / 2 ^ 27), Fin.ofNat 512 (n / 2 ^ 18), Fin.ofNat 512 (n / 2 ^ 9)]

def slotOf (n : ℕ) : Index := Fin.ofNat 512 n

lemma upperIndices_eq (v : VirtAddr) : upperIndices v = pathOf (page v) := by
  have h₁ : pml4Index v = Fin.ofNat 512 (page v / 2 ^ 27) := by
    apply Fin.ext
    rw [pml4Index_val, Fin.val_ofNat]
    unfold page
    omega
  have h₂ : pdpIndex v = Fin.ofNat 512 (page v / 2 ^ 18) := by
    apply Fin.ext
    rw [pdpIndex_val, Fin.val_ofNat]
    unfold page
    omega
  have h₃ : pdIndex v = Fin.ofNat 512 (page v / 2 ^ 9) := by
    apply Fin.ext
    rw [pdIndex_val, Fin.val_ofNat]
    unfold page
    omega
  unfold upperIndices pathOf
  rw [h₁, h₂, h₃]

lemma ptIndex_eq (v : VirtAddr) : ptIndex v = slotOf (page v) := by
  apply Fin.ext
  rw [ptIndex_val]
  rfl

/-- The indices of the lower half of a PML4. -/
def lowerHalf : Set Index := {i | i.val < 256}

lemma pathOf_lower {n : ℕ} (h : n < 2 ^ 35) : Fin.ofNat 512 (n / 2 ^ 27) ∈ lowerHalf := by
  show (Fin.ofNat 512 (n / 2 ^ 27)).val < 256
  rw [Fin.val_ofNat]
  omega

end LunOS.Vmm
