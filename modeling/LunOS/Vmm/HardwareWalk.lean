import LunOS.Vmm.Isolation

/-!
# The processor's walk

The translation that x86-64 makes of an address with four levels of tables, and when
`vmm_walk_page_table` goes the same way. The two differ at entries that map large pages: there the
processor stops, and the code takes the page for a table.

- `x86Translate`: what the processor does, `none` for a fault.
- `walkTrace`: the walk of the code, with the entries it follows.
-/

namespace LunOS.Vmm
open LunOS.Radix PageMachine LawfulPageMachine List

/-! ## Four-level paging -/

/-- Bits 47 to 63 of the address are equal. -/
def Canonical (v : VirtAddr) : Prop := v.toNat < 2 ^ 47 ∨ 2 ^ 64 - 2 ^ 47 ≤ v.toNat

instance decidableCanonical : DecidablePred Canonical := fun v =>
  inferInstanceAs (Decidable (v.toNat < 2 ^ 47 ∨ 2 ^ 64 - 2 ^ 47 ≤ v.toNat))

/-- The index of an address into a table of level `l`. Page tables are on level 0, the PML4 is on
level 3. -/
def x86Index (l : ℕ) (v : VirtAddr) : Index := Fin.ofNat 512 (v.toNat / 2 ^ (12 + 9 * l))

/-- Where an address is when an entry of level `l` maps its page. -/
def x86Page (l : ℕ) (e : PageTableEntry) (v : VirtAddr) : PhysAddr :=
  e &&& BitVec.ofNat 64 (2 ^ 52 - 2 ^ (12 + 9 * l)) |||
    v &&& BitVec.ofNat 64 (2 ^ (12 + 9 * l) - 1)

/-- The walk from a table of level `l` on. -/
def x86Walk (mem : PhysAddr → Index → PageTableEntry) (v : VirtAddr) :
    ℕ → PhysAddr → Option PhysAddr
  | 0, table =>
    let e := mem table (x86Index 0 v)
    if e &&& ptePresent = 0 then none else some (x86Page 0 e v)
  | l + 1, table =>
    let e := mem table (x86Index (l + 1) v)
    if e &&& ptePresent = 0 then none
    else if e &&& pteLarge = 0 then x86Walk mem v l (pteAddr e)
    -- the bit is reserved in the PML4
    else if l = 2 then none
    else some (x86Page (l + 1) e v)

/-- The translation of the processor. -/
def x86Translate (mem : PhysAddr → Index → PageTableEntry) (cr3 : PhysAddr) (v : VirtAddr) :
    Option PhysAddr :=
  if Canonical v then x86Walk mem v 3 cr3 else none

/-- The indices above the last level, from level `l` on. -/
def x86Path (v : VirtAddr) : ℕ → List Index
  | 0 => []
  | l + 1 => x86Index (l + 1) v :: x86Path v l

lemma upperIndices_eq_x86Path (v : VirtAddr) : upperIndices v = x86Path v 3 := by
  have hindex : ∀ l, Fin.ofNat 512 ((v >>> (12 + 9 * l)) &&& 0x1FF).toNat = x86Index l v :=
    fun l => Fin.ext (index_val v (12 + 9 * l))
  show [_, _, _] = [_, _, _]
  rw [← hindex 3, ← hindex 2, ← hindex 1]
  rfl

lemma ptIndex_eq_x86Index (v : VirtAddr) : ptIndex v = x86Index 0 v := Fin.ext (index_val v 12)

lemma tableTarget_of_absent {e : PageTableEntry} (h : e &&& ptePresent = 0) :
    tableTarget e = none := by
  unfold tableTarget
  rw [target_of_absent h, ite_self]

lemma tableTarget_of_small {e : PageTableEntry} (h : e &&& pteLarge = 0) :
    tableTarget e = target e :=
  if_neg (not_not.mpr h)

lemma small_of_tableTarget {e : PageTableEntry} {g : PhysAddr} (h : tableTarget e = some g) :
    e &&& pteLarge = 0 := by
  by_contra hlarge
  unfold tableTarget at h
  rw [if_pos hlarge] at h
  cases h

variable {σ : Type*} [LawfulPageMachine σ]

/-- Without large pages on its way the processor follows the tables. -/
lemma x86Walk_clean {s : σ} {f : PhysAddr} {v : VirtAddr} {l : ℕ}
    (h : CleanWalk tableTarget s f (x86Path v l)) :
    x86Walk (entry s) v l f =
      (leaf target target (entry s) f (x86Path v l) (x86Index 0 v)).map (· ||| pageOffset v) := by
  induction l generalizing f with
  | zero =>
    show (if entry s f (x86Index 0 v) &&& ptePresent = 0 then none else _) =
      (target (entry s f (x86Index 0 v))).map _
    by_cases habsent : entry s f (x86Index 0 v) &&& ptePresent = 0
    · rw [if_pos habsent, target_of_absent habsent]
      rfl
    · rw [if_neg habsent, target_of_present habsent]
      rfl
  | succ l ih =>
    have hread : tableTarget (entry s f (x86Index (l + 1) v)) =
        target (entry s f (x86Index (l + 1) v)) := h [] _ _ f rfl rfl
    unfold x86Walk leaf
    rw [show x86Path v (l + 1) = x86Index (l + 1) v :: x86Path v l from rfl, tableAt_cons]
    by_cases habsent : entry s f (x86Index (l + 1) v) &&& ptePresent = 0
    · simp only
      rw [if_pos habsent, target_of_absent habsent]
      rfl
    · rw [target_of_present habsent] at hread ⊢
      simp only
      rw [if_neg habsent, if_pos (small_of_tableTarget hread)]
      exact ih (h.tail hread)

/-! ## The entries that the code follows -/

/-- The levels of `vmm_walk_page_table` as in `walkLevels`, with the entries whose frames are taken
for tables. -/
def walkTrace (create : Bool) :
    List Index → VirtAddr → σ → List PageTableEntry × Option VirtAddr × σ
  | [], current, s => ([], some current, s)
  | idx :: rest, current, s =>
    if load s current idx &&& ptePresent = 0 then
      if create then
        match vmmAllocPageTable s with
        | (none, s) => ([], none, s)
        | (some newPt, s) =>
          let phys := newPt - hhdmOffset σ
          let s := store s current idx (phys ||| ptePresent ||| pteWritable ||| pteUser)
          let pte := load s current idx
          let (ptes, r) := walkTrace create rest (pteAddr pte + hhdmOffset σ) s
          (pte :: ptes, r)
      else ([], none, s)
    else
      let pte := load s current idx
      let (ptes, r) := walkTrace create rest (pteAddr pte + hhdmOffset σ) s
      (pte :: ptes, r)

lemma walkTrace_snd (create : Bool) (rest : List Index) (current : VirtAddr) (s : σ) :
    (walkTrace create rest current s).2 = walkLevels create rest current s := by
  induction rest generalizing current s with
  | nil => rfl
  | cons i rest ih =>
    unfold walkTrace walkLevels
    split_ifs
    · rcases vmmAllocPageTable s with ⟨newPt, s₁⟩
      cases newPt with
      | none => rfl
      | some newPt => exact ih _ _
    · rfl
    · exact ih _ _

/-- The entries above the last level that `vmm_walk_page_table` follows. -/
def walkedThrough (k : VmmState σ) (as vaddr : VirtAddr) (create : Bool) : List PageTableEntry :=
  if as = 0 ∨ (k.spaces as).pml4 = 0 then []
  else (walkTrace create (upperIndices vaddr) (k.spaces as).pml4 k.machine).1

section
variable {s : σ} {f : PhysAddr} {path : List Index}

/-- The walk meets a large page where the tables, read as the processor does, have one. -/
lemma walkTrace_lookup :
    (∀ e ∈ (walkTrace false path (f + hhdmOffset σ) s).1, e &&& pteLarge = 0) ↔
      CleanWalk tableTarget s f path := by
  induction path generalizing f with
  | nil =>
    refine ⟨fun _ q j r g hpath => ?_, fun _ e he => absurd he not_mem_nil⟩
    exact absurd hpath.symm (by simp)
  | cons i path ih =>
    by_cases habsent : load s (f + hhdmOffset σ) i &&& ptePresent = 0
    · have htrace : walkTrace false (i :: path) (f + hhdmOffset σ) s = ([], none, s) := by
        unfold walkTrace
        rw [if_pos habsent, if_neg (by simp)]
      have hnone : tableTarget (entry s f i) = none := tableTarget_of_absent habsent
      rw [htrace]
      refine ⟨fun _ => ?_, fun _ e he => absurd he not_mem_nil⟩
      refine CleanWalk.cons (hnone.trans (target_of_absent habsent).symm) fun g hg => ?_
      exact absurd (hnone.symm.trans hg) (by simp)
    · have htrace : (walkTrace false (i :: path) (f + hhdmOffset σ) s).1 = entry s f i ::
          (walkTrace false path (pteAddr (entry s f i) + hhdmOffset σ) s).1 := by
        rw [walkTrace, if_neg habsent]
        rfl
      have hpresent : target (entry s f i) = some (pteAddr (entry s f i)) :=
        target_of_present habsent
      rw [htrace, forall_mem_cons, ih]
      constructor
      · rintro ⟨hsmall, hrest⟩
        have hread := tableTarget_of_small hsmall
        refine CleanWalk.cons hread fun g hg => ?_
        rw [← Option.some.inj ((hread.trans hpresent).symm.trans hg)]
        exact hrest
      · intro hclean
        have hread := (hclean [] i path f rfl rfl).trans hpresent
        exact ⟨small_of_tableTarget hread, hclean.tail hread⟩

/-- A walk that creates tables follows its own links, and entries that were there. -/
lemma walkTrace_create (hlive : ∀ q r g, path = q ++ r →
      tableAt tableTarget (entry s) f q = some g → g ∈ live s)
    (hclean : CleanWalk tableTarget s f path) :
    ∀ e ∈ (walkTrace true path (f + hhdmOffset σ) s).1, e &&& pteLarge = 0 := by
  induction path generalizing f s with
  | nil => exact fun e he => absurd he not_mem_nil
  | cons i path ih =>
    have hf : f ∈ live s := hlive [] _ f rfl rfl
    have hread : tableTarget (entry s f i) = target (entry s f i) := hclean [] i path f rfl rfl
    unfold walkTrace
    by_cases habsent : load s (f + hhdmOffset σ) i &&& ptePresent = 0
    · rw [if_pos habsent, if_pos rfl]
      rcases halloc : vmmAllocPageTable s with ⟨newPt, s₁⟩
      cases newPt with
      | none => exact fun e he => absurd he not_mem_nil
      | some newPt =>
        rcases vmmAllocPageTable_some halloc with ⟨g, hg, hnew⟩
        have hf₁ : f ∈ live s₁ := by
          rw [hnew.live_eq]
          exact Set.mem_insert_of_mem _ hf
        have hg₁ : g ∈ live s₁ := by
          rw [hnew.live_eq]
          exact Set.mem_insert _ _
        have hblank : ∀ j, entry (store s₁ (f + hhdmOffset σ) i (linkEntry g)) g j = 0 := by
          intro j
          rw [entry_store_of_ne _ hf₁ hg₁ fun heq => hnew.fresh ((Prod.mk.inj heq).1 ▸ hf)]
          exact hnew.blank j
        simp only [hg, BitVec.add_sub_cancel]
        change ∀ e ∈ entry (store s₁ (f + hhdmOffset σ) i (linkEntry g)) f i ::
          (walkTrace true path (pteAddr (entry (store s₁ (f + hhdmOffset σ) i (linkEntry g)) f i) +
            hhdmOffset σ) (store s₁ (f + hhdmOffset σ) i (linkEntry g))).1, _
        rw [entry_store_self _ _ hf₁, pteAddr_linkEntry hnew.frame, forall_mem_cons]
        refine ⟨linkEntry_small hnew.frame, ih (fun q r x hpath hx => ?_)
          (cleanWalk_blank reads_tableTarget hblank path)⟩
        -- the new table leads nowhere
        cases q with
        | nil =>
          rw [← Option.some.inj hx, live_store _ _ hf₁]
          exact hg₁
        | cons j q =>
          rw [tableAt_cons, hblank, reads_tableTarget.zero] at hx
          cases hx
    · have hsome : tableTarget (entry s f i) = some (pteAddr (entry s f i)) :=
        hread.trans (target_of_present habsent)
      rw [if_neg habsent]
      change ∀ e ∈ entry s f i :: (walkTrace true path (pteAddr (entry s f i) + hhdmOffset σ) s).1, _
      rw [forall_mem_cons]
      refine ⟨small_of_tableTarget hsome, ih (fun q r g hpath hg => ?_) (hclean.tail hsome)⟩
      refine hlive (i :: q) r g (by rw [hpath, cons_append]) ?_
      rw [tableAt_cons, hsome]
      exact hg

end

/-! ## Agreement -/

/-- Translation gives what the processor gives, and no walk takes a large page for a table. -/
structure WalkAgrees (k : VmmState σ) (as v : VirtAddr) : Prop where
  translation : vmmVirtToPhys k as v = (x86Translate (entry k.machine) (rootOf k as) v).getD 0
  tables : ∀ create, ∀ e ∈ walkedThrough k as v create, e &&& pteLarge = 0

section
variable {k : VmmState σ} {as v : VirtAddr}

/-- Without large pages on the way translation is the processor's. -/
lemma vmmVirtToPhys_x86Walk (has : as ≠ 0) (hroot : rootOf k as ∈ live k.machine)
    (hclean : CleanWalk tableTarget k.machine (rootOf k as) (upperIndices v)) :
    vmmVirtToPhys k as v = (x86Walk (entry k.machine) v 3 (rootOf k as)).getD 0 := by
  rw [upperIndices_eq_x86Path] at hclean
  rw [x86Walk_clean hclean, vmmVirtToPhys_eq has (pml4_eq k as) hroot, upperIndices_eq_x86Path,
    ptIndex_eq_x86Index]
  cases leaf target target (entry k.machine) (rootOf k as) (x86Path v 3) (x86Index 0 v) with
  | none => rfl
  | some f => rfl

/-- The code walks as the processor does just if the walk of the processor meets no large page. -/
theorem walk_agrees_iff (has : as ≠ 0)
    (hlive : kernelTables Set.univ k.machine (rootOf k as) ⊆ live k.machine) (hv : Canonical v) :
    WalkAgrees k as v ↔ CleanWalk tableTarget k.machine (rootOf k as) (upperIndices v) := by
  have hroot : rootOf k as ∈ live k.machine := hlive root_mem_tables
  have hok : ¬(as = 0 ∨ (k.spaces as).pml4 = 0) := by
    rw [pml4_eq]
    exact not_or.mpr ⟨has, mapped hroot⟩
  have hthrough : ∀ create, walkedThrough k as v create =
      (walkTrace create (upperIndices v) (rootOf k as + hhdmOffset σ) k.machine).1 := by
    intro create
    unfold walkedThrough
    rw [if_neg hok, pml4_eq]
  constructor
  · intro h
    have hfalse := h.tables false
    rw [hthrough] at hfalse
    exact walkTrace_lookup.mp hfalse
  · intro hclean
    refine ⟨?_, fun create => ?_⟩
    · unfold x86Translate
      rw [if_pos hv]
      exact vmmVirtToPhys_x86Walk has hroot hclean
    · rw [hthrough]
      cases create with
      | false => exact walkTrace_lookup.mpr hclean
      | true =>
        refine walkTrace_create (fun q r g hpath hg => hlive ?_) hclean
        have hlen := congrArg List.length hpath
        rw [length_append, upperIndices_length] at hlen
        exact ⟨q, by omega, within_univ q, hg⟩

end

/-- An address of the lower half with the boot loader's tables. -/
theorem walk_agrees_iff_lower : WalkAgrees hhdmState 0x100 0x400000 := by
  have hroot : rootOf hhdmState 0x100 = 0x1000 := by decide
  have hkernel : hhdmState.kernelAs = 0x100 := by decide
  have hlive := hhdmState_reachable.inv.kernelLive
  simp only [hkernel] at hlive
  have hempty : entry hhdmState.machine 0x1000 (pml4Index 0x400000) = 0 := by decide
  refine (walk_agrees_iff (by decide) hlive (by decide)).mpr ?_
  rw [hroot]
  refine CleanWalk.cons ?_ fun g hg => ?_
  · rw [hempty, reads_tableTarget.zero, target_zero]
  · rw [hempty, reads_tableTarget.zero] at hg
    cases hg

/-- An address behind the boot loader's large page is not translated, and the walk follows the entry
of the large page, in `kernel_as` and in an address space that has its upper half. -/
theorem walk_disagrees :
    SysReachable hhdmOne ∧ hhdmOne.vmm.kernelAs = 0x100 ∧ hhdmOne.spaces = [0x200] ∧
      Canonical 0xFFFF800000000123 ∧
      ∀ as ∈ [0x100, 0x200],
        x86Translate (entry hhdmOne.vmm.machine) (rootOf hhdmOne.vmm as) 0xFFFF800000000123 =
          some 0x200123 ∧
        vmmVirtToPhys hhdmOne.vmm as 0xFFFF800000000123 = 0 ∧
        0x200083 ∈ walkedThrough hhdmOne.vmm as 0xFFFF800000000123 false ∧
        (0x200083 : PageTableEntry) &&& pteLarge ≠ 0 := by
  refine ⟨hhdmOne_reachable, by decide, rfl, by decide, ?_⟩
  rw [forall_mem_cons, forall_mem_singleton]
  exact ⟨⟨by decide +kernel, by decide +kernel, by decide +kernel, by decide⟩,
    by decide +kernel, by decide +kernel, by decide +kernel, by decide⟩

end LunOS.Vmm
