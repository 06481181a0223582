import LunOS.Vmm.Isolation

/-!
# The kernel half

An address space gets its upper half by copying the entries of the PML4 of `kernel_as` once. Later
calls on `kernel_as` are seen in all address spaces as long as they go through entries of the PML4
that exist, and through page tables only.

- `HalfReachable`: the runs in which calls on `kernel_as` do not fill an empty entry of its PML4
  while address spaces exist.
-/

namespace LunOS.Vmm
open LunOS.Radix PageMachine LawfulPageMachine List

variable {σ : Type*} [LawfulPageMachine σ]

/-! ## Calls on the upper half -/

/-- The kernel half of a PML4. -/
def upperHalf : Set Index := {i | 256 ≤ i.val}

lemma mem_upperHalf {i : Index} : i ∈ upperHalf ↔ i ∉ lowerHalf := Nat.not_lt.symm

/-- The first address of the upper half. -/
def kernelBase : VirtAddr := 0xFFFF800000000000

/-- The first address of a call. -/
def Op.start : Op → VirtAddr
  | .mapPage v _ _ => v
  | .unmapPage v => v
  | .mapRange v _ _ _ => v
  | .unmapRange v _ => v

lemma pml4Index_upper {v : VirtAddr} (hv : kernelBase.toNat ≤ v.toNat) :
    pml4Index v ∈ upperHalf := by
  have hbase : kernelBase.toNat = 2 ^ 64 - 2 ^ 47 := by decide
  have hlt := v.isLt
  show 256 ≤ (pml4Index v).val
  rw [pml4Index_val]
  omega

/-- A call that starts in the upper half stays there. -/
lemma Op.pages_upper {op : Op} (hop : kernelBase.toNat ≤ op.start.toNat) :
    ∀ w ∈ op.pages, pml4Index w ∈ upperHalf := by
  have hbase : kernelBase.toNat = 4096 * (2 ^ 52 - 2 ^ 35) := by decide
  have hone : ∀ v : VirtAddr, kernelBase.toNat ≤ v.toNat →
      kernelBase.toNat ≤ (vmmPageAlignDown v).toNat := by
    intro v hv
    rw [alignDown_aligned]
    unfold page
    omega
  have hrange : ∀ v b : VirtAddr, kernelBase.toNat ≤ v.toNat →
      ∀ w ∈ pagesFrom (vmmPageAlignDown v) (vmmPageAlignUp b), pml4Index w ∈ upperHalf := by
    intro v b hv w hw
    have hdown := hone v hv
    rcases mem_pagesFrom (alignDown_aligned v) (alignUp_mod b) hw with ⟨n, hn, -⟩
    rw [alignDown_aligned] at hdown
    exact pml4Index_upper (by omega)
  cases op with
  | mapPage v p flags => exact forall_mem_singleton.mpr (pml4Index_upper (hone v hop))
  | unmapPage v => exact forall_mem_singleton.mpr (pml4Index_upper (hone v hop))
  | mapRange v p size flags => exact hrange v _ hop
  | unmapRange v size => exact hrange v _ hop

lemma inPart_page {T : Set Index} {v : VirtAddr} : InPart T (page v) ↔ pml4Index v ∈ T := by
  rw [(List.cons.inj (upperIndices_eq v)).1]
  rfl

/-! ## Runs -/

/-- An operation on an address space, or a call on `kernel_as` with addresses of the upper half that
meets no large page. While address spaces exist, the call goes through entries of the PML4 that are
present. -/
inductive HalfStep : Sys σ → Sys σ → Prop
  | space {x y : Sys σ} {op : SysOp} : SysStep x op y → HalfStep x y
  | kernel {k : VmmState σ} {l : List VirtAddr} {op : Op} :
    kernelBase.toNat ≤ op.start.toNat →
    (∀ v ∈ op.pages,
      CleanWalk tableTarget k.machine (rootOf k k.kernelAs) (upperIndices v)) →
    (l ≠ [] → ∀ v ∈ op.pages,
      entry k.machine (rootOf k k.kernelAs) (pml4Index v) &&& ptePresent ≠ 0) →
    HalfStep ⟨k, l⟩ ⟨(exec k k.kernelAs op).2, l⟩

/-- The states that these steps reach from `vmm_init`. The boot loader's tables of the upper half
form a tree, of frames that the allocator does not hand out. -/
def HalfReachable : Sys σ → Prop := Runs.Reachable (Booted (TreeIn tableTarget upperHalf)) HalfStep

/-- The invariant of the kernel half. -/
structure HalfInv (x : Sys σ) : Prop where
  sys : SysInv upperHalf x.vmm x.spaces
  tree : TreeIn tableTarget upperHalf x.vmm.machine (rootOf x.vmm x.vmm.kernelAs)

section
variable {T : Set Index} {k k' : VmmState σ} {l : List VirtAddr}

/-- A call on `kernel_as` leaves the address spaces alone. -/
lemma SysInv.half (h : SysInv upperHalf k l)
    (heffect : PartEffect tableTarget upperHalf T k k' k.kernelAs (rootOf k k.kernelAs))
    (hT : l ≠ [] → ∀ i ∈ T, tableTarget (entry k.machine (rootOf k k.kernelAs) i) ≠ none) :
    SysInv upperHalf k' l := by
  have hspaces : ∀ a ∈ l, k'.spaces a = k.spaces a :=
    fun a ha => heffect.others a (ne_of_mem_of_not_mem ha h.kernelOut)
  have hroots : ∀ a ∈ l, rootOf k' a = rootOf k a := by
    intro a ha
    unfold rootOf
    rw [hspaces a ha]
  have hkroot : rootOf k' k'.kernelAs = rootOf k k.kernelAs := by
    unfold rootOf
    rw [heffect.kernelAs, heffect.pml4]
  have hsame : ∀ a ∈ l, ∀ f ∈ tablesOf k a, ∀ i, entry k'.machine f i = entry k.machine f i :=
    fun a ha f hf => heffect.grows.others f ((h.rep a ha).tree.tables_live hf)
      fun hmem => Set.disjoint_left.mp (h.kernelApart a ha) hmem hf
  have htables : ∀ a ∈ l, tablesOf k' a = tablesOf k a := by
    intro a ha
    unfold tablesOf
    rw [hroots a ha]
    exact spaceTables_congr (hsame a ha)
  refine ⟨h.nodup, fun a ha => ?_, fun a ha => ?_, fun a ha b hb hne => ?_, ?_, ?_, ?_, ?_,
    fun a ha => ?_, fun a ha i hi => ?_⟩
  · rw [hroots a ha]
    exact (h.rep a ha).kept (hspaces a ha)
      (fun f hf => heffect.grows.live_sub ((h.rep a ha).tree.tables_live hf)) (hsame a ha)
  · rw [heffect.grows.objects_eq]
    exact h.object a ha
  · rw [htables a ha, htables b hb]
    exact h.apart a ha b hb hne
  · rw [heffect.kernelAs]
    exact h.kernelNonnull
  · rw [heffect.kernelAs, heffect.grows.objects_eq]
    exact h.kernelObject
  · rw [heffect.kernelAs]
    exact h.kernelOut
  · rw [hkroot]
    exact heffect.grows.inv.tables_live
  · rw [hkroot, htables a ha]
    refine Set.disjoint_left.mpr fun f hf hfa => ?_
    exact Set.disjoint_left.mp (h.kernelApart a ha)
      (heffect.grows.fresh f hf ((h.rep a ha).tree.tables_live hfa)) hfa
  · -- no entry of the PML4 is filled
    have hkept : entry k'.machine (rootOf k k.kernelAs) i =
        entry k.machine (rootOf k k.kernelAs) i := by
      apply heffect.filled
      by_cases hiT : i ∈ T
      · exact Or.inr (hT (ne_nil_of_mem ha) i hiT)
      · exact Or.inl hiT
    rw [hroots a ha, hkroot, hkept, hsame a ha _ root_mem_tables]
    exact h.upper a ha i hi

end

/-- One step keeps the invariant. -/
lemma HalfInv.step {x y : Sys σ} (h : HalfInv x) (hstep : HalfStep x y) : HalfInv y := by
  cases hstep with
  | space hspace =>
    rcases h.sys.untouched hspace with ⟨X, m, hu, hX, -⟩
    rcases hu.kernel h.sys hX with ⟨htables, hsame⟩
    refine ⟨h.sys.step hspace, ?_, ?_⟩
    · rw [hu.kernelAs, hu.rootOf_eq (Or.inl rfl)]
      exact h.tree.tree.congr fun z hz =>
        (hsame z.1 (mem_tables_of_slots (slots_mono (by omega) hz))).2 z.2
    · show kernelTables upperHalf y.vmm.machine _ ⊆ _
      rw [htables]
      exact fun f hf => (hsame f hf).1
  | @kernel k l op hstart hclean hpresent =>
    have hrep : PartRep tableTarget upperHalf k k.kernelAs (rootOf k k.kernelAs) :=
      ⟨h.sys.kernelNonnull, pml4_eq k _, h.tree⟩
    have heffect := exec_part (T := {i | ∃ v ∈ op.pages, pml4Index v = i}) reads_tableTarget hrep
      fun v hv => ⟨inPart_page.mpr ⟨v, hv, rfl⟩, inPart_page.mpr (op.pages_upper hstart v hv),
        upperIndices_eq v ▸ hclean v hv⟩
    refine ⟨h.sys.half heffect fun hl i hi => ?_, ?_⟩
    · rcases hi with ⟨v, hv, hi⟩
      have hread := hclean v hv [] _ _ _ rfl rfl
      rw [← hi, hread]
      exact target_ne_none (hpresent hl v hv)
    · have hroot : rootOf (exec k k.kernelAs op).2 (exec k k.kernelAs op).2.kernelAs =
          rootOf k k.kernelAs := by
        unfold rootOf
        rw [heffect.kernelAs, heffect.pml4]
      show TreeIn _ _ _ (rootOf (exec k k.kernelAs op).2 (exec k k.kernelAs op).2.kernelAs)
      rw [hroot]
      exact heffect.grows.inv

lemma HalfReachable.inv {x : Sys σ} (h : HalfReachable x) : HalfInv x := by
  refine h.invariant (fun x hx => ?_) fun x y hinv hstep => hinv.step hstep
  rcases hx with ⟨s, cr3, k, hinit, htree, rfl⟩
  rcases vmmInit_ok hinit with ⟨hroot, hmachine, -, -⟩
  refine ⟨SysInv.init hinit htree.tables_live, ?_⟩
  show TreeIn _ _ k.machine (rootOf k k.kernelAs)
  rw [hroot, hmachine]
  refine htree.congr ?_ fun f hf i => load_kmalloc i sizeofAddrSpace_le (htree.tables_live hf)
  rw [live_kmalloc sizeofAddrSpace_le]
  exact htree.tables_live

/-- In these runs all address spaces translate the upper half as `kernel_as` does. -/
theorem kernel_half_agrees {x : Sys σ} (hreach : HalfReachable x) {a : VirtAddr}
    (ha : a ∈ x.spaces) {v : VirtAddr} (hv : kernelBase.toNat ≤ v.toNat) :
    vmmVirtToPhys x.vmm a v = vmmVirtToPhys x.vmm x.vmm.kernelAs v := by
  have h := hreach.inv
  have hupper := mem_upperHalf.mp (pml4Index_upper hv)
  rw [vmmVirtToPhys_eq (h.sys.rep a ha).nonnull (pml4_eq _ _) (h.sys.rep a ha).tree.root_live,
    vmmVirtToPhys_eq h.sys.kernelNonnull (pml4_eq _ _) h.tree.root_live]
  have htable : tableAt target (entry x.vmm.machine) (rootOf x.vmm a) (upperIndices v) =
      tableAt target (entry x.vmm.machine) (rootOf x.vmm x.vmm.kernelAs) (upperIndices v) := by
    unfold upperIndices
    rw [tableAt_cons, tableAt_cons, h.sys.upper a ha _ hupper]
  unfold leaf
  rw [htable]

/-! ## The boot loader's large page -/

lemma hhdmOne_halfReachable : HalfReachable hhdmOne := by
  have hboot : HalfReachable ⟨hhdmState, []⟩ := .init (hhdmState_booted (hhdmRam_tree _))
  exact hboot.step (HalfStep.space (sysStep_create (by decide +kernel) (by decide)))

/-- A page of the kernel behind an entry of the PML4 that is there. -/
def oldSlotOp : Op := .mapPage 0xFFFF800040000000 0x5000 3

/-- A page of the kernel behind an empty entry of the PML4. -/
def newSlotOp : Op := .mapPage 0xFFFF900000000000 0x5000 3

lemma oldSlotOp_step : HalfStep hhdmOne ⟨(exec hhdmOne.vmm 0x100 oldSlotOp).2, [0x200]⟩ := by
  have hpages : oldSlotOp.pages = [0xFFFF800040000000] := by decide
  have hkernel : hhdmOne.vmm.kernelAs = 0x100 := by decide
  have hroot : rootOf hhdmOne.vmm 0x100 = 0x1000 := by decide +kernel
  have hpml4 : entry hhdmOne.vmm.machine 0x1000 256 = 0x20003 := by decide +kernel
  have hpdp : entry hhdmOne.vmm.machine 0x20000 1 = 0 := by decide +kernel
  have hclean : CleanWalk tableTarget hhdmOne.vmm.machine 0x1000 [256, 1, 0] := by
    apply CleanWalk.cons
    · rw [hpml4]
      decide
    · intro g hg
      rw [hpml4, show tableTarget 0x20003 = some 0x20000 by decide] at hg
      cases hg
      apply CleanWalk.cons
      · rw [hpdp]
        decide
      · intro g' hg'
        rw [hpdp, reads_tableTarget.zero] at hg'
        cases hg'
  have hstep : HalfStep ⟨hhdmOne.vmm, [0x200]⟩
      ⟨(exec hhdmOne.vmm hhdmOne.vmm.kernelAs oldSlotOp).2, [0x200]⟩ := by
    apply HalfStep.kernel (by decide)
    · rw [hpages, hkernel, hroot]
      exact forall_mem_singleton.mpr hclean
    · intro _
      rw [hpages, hkernel, hroot, forall_mem_singleton,
        show pml4Index 0xFFFF800040000000 = 256 by decide, hpml4]
      decide
  rw [hkernel] at hstep
  exact hstep

/-- Both translate the page that is mapped behind an old entry. -/
theorem kernel_half_agrees_oldSlot :
    vmmVirtToPhys (exec hhdmOne.vmm 0x100 oldSlotOp).2 0x200 0xFFFF800040000000 =
      vmmVirtToPhys (exec hhdmOne.vmm 0x100 oldSlotOp).2
        (exec hhdmOne.vmm 0x100 oldSlotOp).2.kernelAs 0xFFFF800040000000 := by
  have hagree := kernel_half_agrees (hhdmOne_halfReachable.step oldSlotOp_step)
    mem_cons_self (v := 0xFFFF800040000000) (by decide)
  simpa only using hagree

/-- The page behind a new entry is mapped in `kernel_as` and not in the address space. -/
theorem kernel_half_differs :
    HalfReachable hhdmOne ∧ hhdmOne.spaces = [0x200] ∧ hhdmOne.vmm.kernelAs = 0x100 ∧
      kernelBase.toNat ≤ newSlotOp.start.toNat ∧ (exec hhdmOne.vmm 0x100 newSlotOp).1 = 0 ∧
      vmmVirtToPhys (exec hhdmOne.vmm 0x100 newSlotOp).2 0x100 0xFFFF900000000000 = 0x5000 ∧
      vmmVirtToPhys (exec hhdmOne.vmm 0x100 newSlotOp).2 0x200 0xFFFF900000000000 = 0 := by
  refine ⟨hhdmOne_halfReachable, rfl, by decide, by decide, ?_, ?_, ?_⟩
  · decide +kernel
  · decide +kernel
  · decide +kernel

end LunOS.Vmm
