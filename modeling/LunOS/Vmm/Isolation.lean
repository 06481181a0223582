import LunOS.Utils.Runs
import LunOS.Vmm.Theorems

/-!
# Address spaces do not disturb each other

The system of `kernel_as` and the address spaces that exist, with the calls on them. An operation
writes only to the tables of the address space it is on, so it changes the translation of an
address in another one only when the walk of this address leaves the tables. This happens when an
entry above the last level maps a large page, which the walk takes for a table.

- `SysInv`: the tables of the address spaces and of `kernel_as` are apart, and the upper halves are
  those of `kernel_as`.
- `SysInv.untouched`: what an operation leaves alone.
-/

namespace LunOS.Vmm
open LunOS.Radix PageMachine LawfulPageMachine Set
open List hiding Disjoint

variable {σ : Type*} [LawfulPageMachine σ]

/-! ## Entries of large pages -/

/-- Bit 7 of an entry above the last level: the entry maps a large page. -/
def pteLarge : PageTableEntry := 0x80

/-- The table that an entry points to. -/
def tableTarget (pte : PageTableEntry) : Option PhysAddr :=
  if pte &&& pteLarge ≠ 0 then none else target pte

variable {g root : PhysAddr} {top : Set Index}

lemma linkEntry_small (hg : pteAddr g = g) : linkEntry g &&& pteLarge = 0 := by
  have hmask : g &&& pteLarge = 0 := by
    rw [← hg]
    unfold pteAddr
    rw [BitVec.and_assoc, show (0x000FFFFFFFFFF000 : BitVec 64) &&& pteLarge = 0 by decide]
    exact BitVec.and_zero
  have hflags : (ptePresent ||| pteWritable ||| pteUser) &&& pteLarge = 0 := by decide
  have hor : linkEntry g &&& pteLarge =
      (g &&& pteLarge) ||| ((ptePresent ||| pteWritable ||| pteUser) &&& pteLarge) := by
    unfold linkEntry
    ext i hi
    simp only [BitVec.getElem_and, BitVec.getElem_or, ← Bool.and_or_distrib_right, Bool.or_assoc]
  rw [hor, hmask, hflags]
  rfl

lemma reads_tableTarget : Reads tableTarget where
  zero := by decide
  link g hg := by
    unfold tableTarget
    rw [if_neg (not_not.mpr (linkEntry_small hg))]
    exact target_link hg

/-! ## The system -/

/-- The virtual memory manager with the address spaces that exist. -/
structure Sys (σ : Type*) where
  vmm : VmmState σ
  spaces : List VirtAddr

/-- Calls on any number of address spaces. -/
inductive SysOp
  | create
  | destroy (as : VirtAddr)
  | call (as : VirtAddr) (op : Op)

/-- The address space that an operation is on. -/
def SysOp.space : SysOp → Option VirtAddr
  | .create => none
  | .destroy as => some as
  | .call as _ => some as

/-- An operation on the address spaces that exist, with addresses of the lower half. -/
inductive SysStep : Sys σ → SysOp → Sys σ → Prop
  | create {k l as k'} : vmmCreateAddressSpace k = (as, k') →
    SysStep ⟨k, l⟩ .create ⟨k', if as = 0 then l else as :: l⟩
  | destroy {k l as} : as ∈ l →
    SysStep ⟨k, l⟩ (.destroy as) ⟨vmmDestroyAddressSpace k as, l.erase as⟩
  | call {k l as op} : as ∈ l → op.Valid → SysStep ⟨k, l⟩ (.call as op) ⟨(exec k as op).2, l⟩

/-- The tables of `kernel_as` below the part `top` of its PML4. -/
def kernelTables (top : Set Index) (s : σ) (root : PhysAddr) : Set PhysAddr :=
  tables tableTarget (entry s) root top 3

/-- After `vmm_init`, with boot loader's tables that are `ok`. -/
def Booted (ok : σ → PhysAddr → Prop) (x : Sys σ) : Prop :=
  ∃ s cr3 k, vmmInit s cr3 = some (0, k) ∧ ok s cr3 ∧ x = ⟨k, []⟩

/-- The states that operations reach from `vmm_init`. The boot loader's tables are not frames that
the allocator hands out. -/
def SysReachable : Sys σ → Prop :=
  Runs.Reachable (Booted fun s cr3 => kernelTables Set.univ s cr3 ⊆ live s)
    fun x y => ∃ op, SysStep x op y

variable {x : Sys σ}

lemma sysStep_create {as : VirtAddr} (has : (vmmCreateAddressSpace x.vmm).1 = as) (hne : as ≠ 0) :
    SysStep x .create ⟨(vmmCreateAddressSpace x.vmm).2, as :: x.spaces⟩ := by
  have hstep : SysStep x .create ⟨_, if as = 0 then x.spaces else as :: x.spaces⟩ :=
    SysStep.create (Prod.ext has rfl)
  rw [if_neg hne] at hstep
  exact hstep

lemma sysStep_call {as : VirtAddr} {op : Op} (has : as ∈ x.spaces) (hop : op.Valid) :
    SysStep x (.call as op) ⟨(exec x.vmm as op).2, x.spaces⟩ :=
  SysStep.call has hop

lemma pml4_eq (k : VmmState σ) (as : VirtAddr) :
    (k.spaces as).pml4 = rootOf k as + hhdmOffset σ :=
  (BitVec.sub_add_cancel _ _).symm

/-- The tables of an address space that exists. -/
def tablesOf (k : VmmState σ) (as : VirtAddr) : Set PhysAddr :=
  spaceTables k.machine (rootOf k as)

/-- The address spaces have tables of their own, and the upper half of `kernel_as`. -/
structure SysInv (top : Set Index) (k : VmmState σ) (l : List VirtAddr) : Prop where
  nodup : l.Nodup
  rep : ∀ a ∈ l, SpaceRep k a (rootOf k a)
  object : ∀ a ∈ l, a ∈ objects k.machine
  apart : ∀ a ∈ l, ∀ b ∈ l, a ≠ b → Disjoint (tablesOf k a) (tablesOf k b)
  kernelNonnull : k.kernelAs ≠ 0
  kernelObject : k.kernelAs ∈ objects k.machine
  kernelOut : k.kernelAs ∉ l
  kernelLive : kernelTables top k.machine (rootOf k k.kernelAs) ⊆ live k.machine
  kernelApart : ∀ a ∈ l,
    Disjoint (kernelTables top k.machine (rootOf k k.kernelAs)) (tablesOf k a)
  upper : ∀ a ∈ l, ∀ i, i ∉ lowerHalf →
    entry k.machine (rootOf k a) i = entry k.machine (rootOf k k.kernelAs) i

section
variable {top : Set Index} {k : VmmState σ} {l m : List VirtAddr} {as : VirtAddr}

lemma SysInv.perm (h : SysInv top k l) (hp : l.Perm m) : SysInv top k m where
  nodup := hp.nodup_iff.mp h.nodup
  rep a ha := h.rep a (hp.mem_iff.mpr ha)
  object a ha := h.object a (hp.mem_iff.mpr ha)
  apart a ha b hb := h.apart a (hp.mem_iff.mpr ha) b (hp.mem_iff.mpr hb)
  kernelNonnull := h.kernelNonnull
  kernelObject := h.kernelObject
  kernelOut hmem := h.kernelOut (hp.mem_iff.mpr hmem)
  kernelLive := h.kernelLive
  kernelApart a ha := h.kernelApart a (hp.mem_iff.mpr ha)
  upper a ha := h.upper a (hp.mem_iff.mpr ha)

/-- One more address space. -/
lemma SysInv.add (h : SysInv top k l) (hnew : as ∉ l) (hrep : SpaceRep k as (rootOf k as))
    (hobject : as ∈ objects k.machine) (hkernel : as ≠ k.kernelAs)
    (hapart : ∀ b ∈ l, Disjoint (tablesOf k as) (tablesOf k b))
    (hkernelApart : Disjoint (kernelTables top k.machine (rootOf k k.kernelAs)) (tablesOf k as))
    (hupper : ∀ i, i ∉ lowerHalf →
      entry k.machine (rootOf k as) i = entry k.machine (rootOf k k.kernelAs) i) :
    SysInv top k (as :: l) where
  nodup := nodup_cons.mpr ⟨hnew, h.nodup⟩
  rep := forall_mem_cons.mpr ⟨hrep, h.rep⟩
  object := forall_mem_cons.mpr ⟨hobject, h.object⟩
  apart a ha b hb hne := by
    rcases mem_cons.mp ha with ha | ha
    · rcases mem_cons.mp hb with hb | hb
      · exact absurd (ha.trans hb.symm) hne
      · rw [ha]
        exact hapart b hb
    · rcases mem_cons.mp hb with hb | hb
      · rw [hb]
        exact (hapart a ha).symm
      · exact h.apart a ha b hb hne
  kernelNonnull := h.kernelNonnull
  kernelObject := h.kernelObject
  kernelOut hmem := (mem_cons.mp hmem).elim (fun heq => hkernel heq.symm) h.kernelOut
  kernelLive := h.kernelLive
  kernelApart := forall_mem_cons.mpr ⟨hkernelApart, h.kernelApart⟩
  upper := forall_mem_cons.mpr ⟨hupper, h.upper⟩

end

/-! ## What an operation leaves alone -/

/-- Frames in use outside `X`, the address spaces of `m` and `kernel_as` are as they were. -/
structure Untouched (k k' : VmmState σ) (X : Set PhysAddr) (m : List VirtAddr) : Prop where
  live_sub : ∀ f ∈ live k.machine, f ∉ X → f ∈ live k'.machine
  entries : ∀ f ∈ live k.machine, f ∉ X → ∀ i, entry k'.machine f i = entry k.machine f i
  spaces : ∀ b, b = k.kernelAs ∨ b ∈ m → k'.spaces b = k.spaces b
  objects_sub : ∀ b, b = k.kernelAs ∨ b ∈ m → b ∈ objects k.machine → b ∈ objects k'.machine
  kernelAs : k'.kernelAs = k.kernelAs

section
variable {top : Set Index} {k k' : VmmState σ} {l m : List VirtAddr} {X : Set PhysAddr}
variable {b : VirtAddr}

lemma Untouched.rootOf_eq (hu : Untouched k k' X m) (hb : b = k.kernelAs ∨ b ∈ m) :
    rootOf k' b = rootOf k b := by
  unfold rootOf
  rw [hu.spaces b hb]

lemma Untouched.kernel (hu : Untouched k k' X m) (h : SysInv top k l)
    (hX : Disjoint X (kernelTables top k.machine (rootOf k k.kernelAs))) :
    kernelTables top k'.machine (rootOf k' k'.kernelAs) =
        kernelTables top k.machine (rootOf k k.kernelAs) ∧
      ∀ f ∈ kernelTables top k.machine (rootOf k k.kernelAs), f ∈ live k'.machine ∧
        ∀ i, entry k'.machine f i = entry k.machine f i := by
  have hout : ∀ f ∈ kernelTables top k.machine (rootOf k k.kernelAs), f ∉ X :=
    fun f hf hfX => disjoint_left.mp hX hfX hf
  refine ⟨?_, fun f hf => ⟨hu.live_sub f (h.kernelLive hf) (hout f hf),
    hu.entries f (h.kernelLive hf) (hout f hf)⟩⟩
  rw [hu.kernelAs, hu.rootOf_eq (Or.inl rfl)]
  refine tables_congr fun x hx => ?_
  have hmem : x.1 ∈ kernelTables top k.machine (rootOf k k.kernelAs) :=
    mem_tables_of_slots (slots_mono (by omega) hx)
  exact hu.entries x.1 (h.kernelLive hmem) (hout x.1 hmem) x.2

/-- An address space whose tables are as they were. -/
lemma SpaceRep.kept (hrep : SpaceRep k b root) (hspace : k'.spaces b = k.spaces b)
    (hlive : spaceTables k.machine root ⊆ live k'.machine)
    (hsame : ∀ f ∈ spaceTables k.machine root, ∀ i, entry k'.machine f i = entry k.machine f i) :
    SpaceRep k' b root := by
  refine ⟨⟨hrep.nonnull, ?_, hrep.tree.congr hlive hsame⟩, ?_⟩
  · rw [hspace]
    exact hrep.pml4
  · rw [hspace, pageMap_congr hsame]
    exact hrep.counted

/-- Its pages stay. -/
lemma Untouched.space (hu : Untouched k k' X m) (hb : b ∈ m) (hrep : SpaceRep k b (rootOf k b))
    (hX : Disjoint X (tablesOf k b)) :
    SpaceRep k' b (rootOf k' b) ∧ tablesOf k' b = tablesOf k b ∧
      ∀ f ∈ tablesOf k b, ∀ i, entry k'.machine f i = entry k.machine f i := by
  have hout : ∀ f ∈ tablesOf k b, f ∉ X := fun f hf hfX => disjoint_left.mp hX hfX hf
  have hsame : ∀ f ∈ tablesOf k b, ∀ i, entry k'.machine f i = entry k.machine f i :=
    fun f hf => hu.entries f (hrep.tree.tables_live hf) (hout f hf)
  unfold tablesOf
  rw [hu.rootOf_eq (Or.inr hb)]
  refine ⟨hrep.kept (hu.spaces b (Or.inr hb)) ?_ hsame, spaceTables_congr hsame, hsame⟩
  exact fun f hf => hu.live_sub f (hrep.tree.tables_live hf) (hout f hf)

/-- The invariant of the address spaces that an operation leaves alone. -/
lemma Untouched.inv (hu : Untouched k k' X m) (h : SysInv top k l) (hm : m.Sublist l)
    (hX : ∀ b ∈ m, Disjoint X (tablesOf k b))
    (hXkernel : Disjoint X (kernelTables top k.machine (rootOf k k.kernelAs))) :
    SysInv top k' m := by
  rcases hu.kernel h hXkernel with ⟨hkernel, hkernelSame⟩
  have hspace := fun b hb => hu.space hb (h.rep b (hm.subset hb)) (hX b hb)
  have hroot : rootOf k k.kernelAs ∈ kernelTables top k.machine (rootOf k k.kernelAs) :=
    root_mem_tables
  refine ⟨h.nodup.sublist hm, fun b hb => (hspace b hb).1, fun b hb => ?_, fun a ha b hb hne => ?_,
    ?_, ?_, ?_, ?_, fun b hb => ?_, fun b hb i hi => ?_⟩
  · exact hu.objects_sub b (Or.inr hb) (h.object b (hm.subset hb))
  · rw [(hspace a ha).2.1, (hspace b hb).2.1]
    exact h.apart a (hm.subset ha) b (hm.subset hb) hne
  · rw [hu.kernelAs]
    exact h.kernelNonnull
  · rw [hu.kernelAs]
    exact hu.objects_sub _ (Or.inl rfl) h.kernelObject
  · rw [hu.kernelAs]
    exact fun hmem => h.kernelOut (hm.subset hmem)
  · rw [hkernel]
    exact fun f hf => (hkernelSame f hf).1
  · rw [hkernel, (hspace b hb).2.1]
    exact h.kernelApart b (hm.subset hb)
  · rw [hu.kernelAs, hu.rootOf_eq (Or.inl rfl), hu.rootOf_eq (Or.inr hb),
      (hspace b hb).2.2 _ root_mem_tables, (hkernelSame _ hroot).2]
    exact h.upper b (hm.subset hb) i hi

end

/-! ## The operations -/

section
variable {top : Set Index} {k k' : VmmState σ} {l m : List VirtAddr} {as : VirtAddr}

/-- Destroying an address space touches its tables only. -/
lemma vmmDestroyAddressSpace_untouched (hnonnull : as ≠ 0)
    (hinv : TreeIn target lowerHalf k.machine (rootOf k as)) (hkernel : as ≠ k.kernelAs)
    (hobject : as ∈ objects k.machine) (hm : ∀ b, b = k.kernelAs ∨ b ∈ m → b ≠ as) :
    Untouched k (vmmDestroyAddressSpace k as) (tablesOf k as) m := by
  rcases vmmDestroyAddressSpace_freed hnonnull (pml4_eq k as) hinv hkernel with
    ⟨s, hfree, hdestroy⟩
  rcases hfree.spec hinv.tables_live with ⟨hlive, hobj, hsame⟩
  rw [← hobj] at hobject
  rw [hdestroy]
  have hlive' : ∀ f ∈ live k.machine, f ∉ tablesOf k as → f ∈ live s := by
    intro f hf hout
    rw [hlive]
    exact ⟨hf, hout⟩
  refine ⟨fun f hf hout => ?_, fun f hf hout i => ?_, fun _ _ => rfl, fun b hb hbobj => ?_, rfl⟩
  · show f ∈ live (kfree s as)
    rw [live_kfree hobject]
    exact hlive' f hf hout
  · exact (load_kfree i hobject (hlive' f hf hout)).trans (hsame f hf hout i)
  · show b ∈ objects (kfree s as)
    rw [objects_kfree hobject, hobj]
    exact ⟨hbobj, hm b hb⟩

/-- Creating an address space touches nothing that is in use. -/
lemma vmmCreateAddressSpace_untouched
    (hobject : ∀ b, b = k.kernelAs ∨ b ∈ l → b ∈ objects k.machine)
    (hcreate : vmmCreateAddressSpace k = (as, k')) : Untouched k k' ∅ l := by
  by_cases has : as = 0
  · rw [has] at hcreate
    rcases vmmCreateAddressSpace_failed hcreate with ⟨hlive, hobj, hsame, hspaces, hkernel⟩
    refine ⟨fun f hf _ => ?_, fun f hf _ => hsame f hf, fun b hb => hspaces b (hobject b hb),
      fun b _ hbobj => ?_, hkernel⟩
    · rw [hlive]
      exact hf
    · rw [hobj]
      exact hbobj
  · rcases vmmCreateAddressSpace_created hcreate has with ⟨root, hc⟩
    refine ⟨fun f hf _ => ?_, fun f hf _ => hc.entries f hf,
      fun b hb => hc.others b (ne_of_mem_of_not_mem (hobject b hb) hc.object),
      fun b _ hbobj => ?_, hc.kernelAs⟩
    · rw [hc.live_eq]
      exact mem_insert_of_mem _ hf
    · rw [hc.objects_eq]
      exact mem_insert_of_mem _ hbobj

section
variable (h : SysInv top k l)
include h

/-- An address space is not one of the others. -/
lemma SysInv.ne_of_other (has : as ∈ l) {b : VirtAddr} (hb : b = k.kernelAs ∨ b ∈ l.erase as) :
    b ≠ as := by
  rcases hb with hb | hb
  · rw [hb]
    exact (ne_of_mem_of_not_mem has h.kernelOut).symm
  · exact (h.nodup.mem_erase_iff.mp hb).1

lemma SysInv.apart_erase (has : as ∈ l) :
    ∀ b ∈ l.erase as, Disjoint (tablesOf k as) (tablesOf k b) := fun b hb =>
  h.apart as has b (mem_of_mem_erase hb) (h.ne_of_other has (Or.inr hb)).symm

lemma SysInv.untouched_call (has : as ∈ l) (hroot : rootOf k as = root)
    (heffect : Effect k k' as root) : Untouched k k' (tablesOf k as) (l.erase as) := by
  unfold tablesOf
  rw [hroot]
  refine ⟨fun f hf _ => heffect.grows.live_sub hf, heffect.grows.others, fun b hb => ?_,
    fun b _ hobj => ?_, heffect.kernelAs⟩
  · exact heffect.others b (h.ne_of_other has hb)
  · rw [heffect.grows.objects_eq]
    exact hobj

/-- A call on one address space. -/
lemma SysInv.call (has : as ∈ l) {op : Op} (hop : op.Valid) {r : ℤ} (hcall : exec k as op = (r, k')) :
    SysInv top k' l := by
  rcases exec_spec (h.rep as has) hop hcall with ⟨hrep, heffect, -⟩
  have hu := h.untouched_call has rfl heffect
  have hrest := hu.inv h erase_sublist (h.apart_erase has) (h.kernelApart as has).symm
  rcases hu.kernel h (h.kernelApart as has).symm with ⟨hkernel, hkernelSame⟩
  have hroot := hrep.rootOf_eq
  have hfresh : ∀ f ∈ tablesOf k' as, f ∈ live k.machine → f ∈ tablesOf k as := by
    unfold tablesOf
    rw [hroot]
    exact heffect.grows.fresh
  refine (hrest.add ?_ ?_ ?_ ?_ ?_ ?_ ?_).perm (perm_cons_erase has).symm
  · exact fun hmem => (h.nodup.mem_erase_iff.mp hmem).1 rfl
  · rw [hroot]
    exact hrep
  · rw [heffect.grows.objects_eq]
    exact h.object as has
  · rw [heffect.kernelAs]
    exact ne_of_mem_of_not_mem has h.kernelOut
  · -- a new table is none that was in use
    intro b hb
    have hbl := mem_of_mem_erase hb
    rw [(hu.space hb (h.rep b hbl) (h.apart_erase has b hb)).2.1]
    refine disjoint_left.mpr fun f hf hfb => ?_
    have hlive : f ∈ live k.machine := (h.rep b hbl).tree.tables_live hfb
    exact disjoint_left.mp (h.apart_erase has b hb) (hfresh f hf hlive) hfb
  · rw [hkernel]
    refine disjoint_left.mpr fun f hf hfas => ?_
    exact disjoint_left.mp (h.kernelApart as has) hf (hfresh f hfas (h.kernelLive hf))
  · intro i hi
    have hkroot : rootOf k k.kernelAs ∈ kernelTables top k.machine (rootOf k k.kernelAs) :=
      root_mem_tables
    rw [hroot, heffect.kernelAs, hu.rootOf_eq (Or.inl rfl), heffect.grows.outside i hi,
      (hkernelSame _ hkroot).2]
    exact h.upper as has i hi

lemma SysInv.untouched_destroy (has : as ∈ l) :
    Untouched k (vmmDestroyAddressSpace k as) (tablesOf k as) (l.erase as) :=
  vmmDestroyAddressSpace_untouched (h.rep as has).nonnull (h.rep as has).tree
    (ne_of_mem_of_not_mem has h.kernelOut) (h.object as has) fun _ hb => h.ne_of_other has hb

/-- An address space is destroyed. -/
lemma SysInv.destroy (has : as ∈ l) : SysInv top (vmmDestroyAddressSpace k as) (l.erase as) :=
  (h.untouched_destroy has).inv h erase_sublist (h.apart_erase has)
    (h.kernelApart as has).symm

lemma SysInv.untouched_create (hcreate : vmmCreateAddressSpace k = (as, k')) :
    Untouched k k' ∅ l := by
  refine vmmCreateAddressSpace_untouched (fun b hb => ?_) hcreate
  rcases hb with hb | hb
  · rw [hb]
    exact h.kernelObject
  · exact h.object b hb

/-- An address space is created. -/
lemma SysInv.create (hcreate : vmmCreateAddressSpace k = (as, k')) :
    SysInv top k' (if as = 0 then l else as :: l) := by
  have hu := h.untouched_create hcreate
  have hrest := hu.inv h (List.Sublist.refl l) (fun _ _ => empty_disjoint _)
    (empty_disjoint _)
  by_cases has : as = 0
  · rw [if_pos has]
    exact hrest
  · rw [if_neg has]
    rcases vmmCreateAddressSpace_created hcreate has with ⟨root, hc⟩
    rcases hu.kernel h (empty_disjoint _) with ⟨hkernel, hkernelSame⟩
    have hroot := hc.rep.rootOf_eq
    have hne : k.kernelAs ≠ as := ne_of_mem_of_not_mem h.kernelObject hc.object
    have htables : tablesOf k' as = {root} := by
      unfold tablesOf
      rw [hroot]
      exact hc.tables_eq
    refine hrest.add ?_ ?_ ?_ ?_ (fun b hb => ?_) ?_ fun i hi => ?_
    · exact fun hmem => hc.object (h.object as hmem)
    · rw [hroot]
      exact hc.rep
    · rw [hc.objects_eq]
      exact mem_insert _ _
    · rw [hc.kernelAs]
      exact hne.symm
    · rw [htables, (hu.space hb (h.rep b hb) (empty_disjoint _)).2.1]
      exact disjoint_singleton_left.mpr fun hmem =>
        hc.fresh ((h.rep b hb).tree.tables_live hmem)
    · rw [htables, hkernel]
      exact disjoint_singleton_right.mpr fun hmem => hc.fresh (h.kernelLive hmem)
    · have hkroot : rootOf k k.kernelAs ∈ kernelTables top k.machine (rootOf k k.kernelAs) :=
        root_mem_tables
      rw [hroot, hc.kernelAs, hu.rootOf_eq (Or.inl rfl), (hkernelSame _ hkroot).2]
      exact hc.upper h.kernelNonnull hne _ (h.kernelLive hkroot) (pml4_eq k _) i hi

end

end

/-! ## Whole runs -/

/-- What `vmm_init` leaves when it succeeds. -/
lemma vmmInit_ok {s : σ} {cr3 : PhysAddr} {k : VmmState σ} (hinit : vmmInit s cr3 = some (0, k)) :
    rootOf k k.kernelAs = cr3 ∧ k.machine = (kmalloc s sizeofAddrSpace).2 ∧
      k.kernelAs = (kmalloc s sizeofAddrSpace).1 ∧ (kmalloc s sizeofAddrSpace).1 ≠ 0 := by
  unfold vmmInit at hinit
  simp only at hinit
  split at hinit
  · cases hinit
  · next hnonnull =>
    split at hinit
    · cases hinit
    · cases hinit
      refine ⟨?_, rfl, rfl, hnonnull⟩
      unfold rootOf
      rw [VmmState.setSpace_kernelAs, VmmState.setSpace_self, BitVec.add_sub_cancel]

/-- The state after `vmm_init`. -/
lemma SysInv.init {s : σ} {cr3 : PhysAddr} {k : VmmState σ} (hinit : vmmInit s cr3 = some (0, k))
    (hboot : kernelTables top s cr3 ⊆ live s) :
    SysInv top k [] := by
  rcases vmmInit_ok hinit with ⟨hroot, hmachine, hptr, hnonnull⟩
  have htables : kernelTables top k.machine cr3 = kernelTables top s cr3 := by
    refine tables_congr fun x hx => ?_
    rw [hmachine]
    exact load_kmalloc x.2 sizeofAddrSpace_le (hboot (mem_tables_of_slots (slots_mono (by omega) hx)))
  refine ⟨nodup_nil, by simp, by simp, by simp, ?_, ?_, by simp, ?_, by simp, by simp⟩
  · rw [hptr]
    exact hnonnull
  · rw [hptr, hmachine, objects_kmalloc sizeofAddrSpace_le hnonnull]
    exact mem_insert _ _
  · rw [hroot, htables, hmachine, live_kmalloc sizeofAddrSpace_le]
    exact hboot

/-- One step keeps the invariant. -/
lemma SysInv.step {y : Sys σ} {op : SysOp} (h : SysInv top x.vmm x.spaces) (hstep : SysStep x op y) :
    SysInv top y.vmm y.spaces := by
  cases hstep with
  | create hcreate => exact h.create hcreate
  | destroy has => exact h.destroy has
  | call has hop => exact h.call has hop rfl

/-- The invariant holds in every run. -/
lemma SysReachable.inv (h : SysReachable x) : SysInv Set.univ x.vmm x.spaces := by
  refine h.invariant (fun x hx => ?_) fun x y hinv hst => ?_
  · rcases hx with ⟨s, cr3, k, hinit, hboot, rfl⟩
    exact SysInv.init hinit hboot
  · rcases hst with ⟨op, hstep⟩
    exact hinv.step hstep

/-- What an operation leaves alone. -/
lemma SysInv.untouched {y : Sys σ} {op : SysOp} (h : SysInv top x.vmm x.spaces)
    (hstep : SysStep x op y) :
    ∃ X m, Untouched x.vmm y.vmm X m ∧
      Disjoint X (kernelTables top x.vmm.machine (rootOf x.vmm x.vmm.kernelAs)) ∧
      ∀ b ∈ x.spaces, op.space ≠ some b → b ∈ m ∧ Disjoint X (tablesOf x.vmm b) := by
  cases hstep with
  | create hcreate =>
    exact ⟨∅, _, h.untouched_create hcreate, empty_disjoint _,
      fun b hb _ => ⟨hb, empty_disjoint _⟩⟩
  | destroy has =>
    refine ⟨_, _, h.untouched_destroy has, (h.kernelApart _ has).symm, fun b hb hne => ?_⟩
    have hmem := h.nodup.mem_erase_iff.mpr ⟨fun heq => hne (congrArg some heq.symm), hb⟩
    exact ⟨hmem, h.apart_erase has b hmem⟩
  | call has hop =>
    rcases exec_spec (h.rep _ has) hop rfl with ⟨-, heffect, -⟩
    refine ⟨_, _, h.untouched_call has rfl heffect, (h.kernelApart _ has).symm,
      fun b hb hne => ?_⟩
    have hmem := h.nodup.mem_erase_iff.mpr ⟨fun heq => hne (congrArg some heq.symm), hb⟩
    exact ⟨hmem, h.apart_erase has b hmem⟩

/-! ## Translation -/

section
variable {k k' : VmmState σ} {l m : List VirtAddr} {X : Set PhysAddr} {b v : VirtAddr}

variable {q r : List Index}

/-- A place on the way to the entry of an address. -/
lemma visited_prefix {j : Index} (hq : upperIndices v ++ [ptIndex v] = q ++ j :: r) :
    ∃ r', upperIndices v = q ++ r' := by
  refine ⟨(j :: r).dropLast, ?_⟩
  have hdrop := congrArg List.dropLast hq
  rw [dropLast_concat, dropLast_append_of_ne_nil (by simp)] at hdrop
  exact hdrop

lemma upperIndices_length (v : VirtAddr) : (upperIndices v).length = 3 := rfl

/-- The walk of an address of the lower half stays in the tables of the address space. -/
lemma mem_tablesOf_of_visited (hv : pml4Index v ∈ lowerHalf) (hpath : upperIndices v = q ++ r)
    (hg : tableAt target (entry k.machine) (rootOf k b) q = some g) : g ∈ tablesOf k b := by
  have hlen := congrArg List.length hpath
  rw [length_append, upperIndices_length] at hlen
  have hin : Within lowerHalf (q ++ r) := by
    rw [← hpath]
    exact within_cons.mpr hv
  exact ⟨q, by omega, hin.left, hg⟩

/-- A clean walk from `kernel_as` stays in its tables. -/
lemma mem_kernelTables_of_visited (hclean : CleanWalk tableTarget k.machine root (upperIndices v))
    (hpath : upperIndices v = q ++ r) (hg : tableAt target (entry k.machine) root q = some g) :
    g ∈ kernelTables Set.univ k.machine root := by
  have hlen := congrArg List.length hpath
  rw [length_append, upperIndices_length] at hlen
  exact ⟨q, by omega, within_univ q, (hclean.tableAt_eq hpath).trans hg⟩

/-- A clean walk in the upper half of an address space passes its PML4 and the tables of
`kernel_as`. -/
lemma SysInv.visited_upper (h : SysInv Set.univ k l) (hb : b ∈ l) (hv : pml4Index v ∉ lowerHalf)
    (hclean : CleanWalk tableTarget k.machine (rootOf k b) (upperIndices v))
    (hpath : upperIndices v = q ++ r)
    (hg : tableAt target (entry k.machine) (rootOf k b) q = some g) :
    g ∈ tablesOf k b ∨ g ∈ kernelTables Set.univ k.machine (rootOf k k.kernelAs) := by
  have hlen := congrArg List.length hpath
  rw [length_append, upperIndices_length] at hlen
  rw [← hclean.tableAt_eq hpath] at hg
  cases q with
  | nil =>
    left
    cases hg
    exact root_mem_tables
  | cons i q =>
    right
    have hi : i = pml4Index v := (List.cons.inj hpath).1.symm
    refine ⟨i :: q, by omega, within_univ _, ?_⟩
    rw [tableAt_cons, hi] at hg ⊢
    rw [← h.upper b hb _ hv]
    exact hg

/-- Translation does not change when the walk passes untouched tables only. -/
lemma Untouched.virtToPhys (hu : Untouched k k' X m) (hb : b = k.kernelAs ∨ b ∈ m)
    (hnonnull : b ≠ 0)
    (hvisited : ∀ q r g, upperIndices v = q ++ r →
      tableAt target (entry k.machine) (rootOf k b) q = some g → g ∈ live k.machine ∧ g ∉ X) :
    vmmVirtToPhys k' b v = vmmVirtToPhys k b v := by
  rcases hvisited [] _ _ rfl rfl with ⟨hlive, hout⟩
  have hroot := hu.rootOf_eq hb
  have hroot' : rootOf k' b ∈ live k'.machine := by
    rw [hroot]
    exact hu.live_sub _ hlive hout
  rw [vmmVirtToPhys_eq hnonnull (pml4_eq k' b) hroot',
    vmmVirtToPhys_eq hnonnull (pml4_eq k b) hlive, hroot]
  rw [leaf_congr_walk fun q j r g hq hg => ?_]
  rcases visited_prefix hq with ⟨r', hr'⟩
  rcases hvisited q r' g hr' hg with ⟨hglive, hgout⟩
  exact hu.entries g hglive hgout j

end

/-- An operation on one address space leaves the translation of an address in every other one, and
in `kernel_as`, alone when the address is in the lower half of an address space, or its walk meets
no large page. -/
theorem other_translation_unchanged {x y : Sys σ} {op : SysOp} (hreach : SysReachable x)
    (hstep : SysStep x op y) {b v : VirtAddr}
    (hb : b = x.vmm.kernelAs ∨ b ∈ x.spaces ∧ op.space ≠ some b)
    (hv : b ∈ x.spaces ∧ pml4Index v ∈ lowerHalf ∨
      CleanWalk tableTarget x.vmm.machine (rootOf x.vmm b) (upperIndices v)) :
    vmmVirtToPhys y.vmm b v = vmmVirtToPhys x.vmm b v := by
  have h := hreach.inv
  rcases h.untouched hstep with ⟨X, m, hu, hkernel, hothers⟩
  have hkernelOut : ∀ g ∈ kernelTables Set.univ x.vmm.machine (rootOf x.vmm x.vmm.kernelAs),
      g ∈ live x.vmm.machine ∧ g ∉ X :=
    fun g hg => ⟨h.kernelLive hg, fun hgX => disjoint_left.mp hkernel hgX hg⟩
  rcases hb with hb | ⟨hb, hne⟩
  · -- `kernel_as`
    have hclean := hv.resolve_left fun hlower => h.kernelOut (hb ▸ hlower.1)
    refine hu.virtToPhys (Or.inl hb) (hb ▸ h.kernelNonnull) fun q r g hpath hg => ?_
    have hmem := mem_kernelTables_of_visited hclean hpath hg
    rw [hb] at hmem
    exact hkernelOut g hmem
  · rcases hothers b hb hne with ⟨hm, hdisj⟩
    have htablesOut : ∀ g ∈ tablesOf x.vmm b, g ∈ live x.vmm.machine ∧ g ∉ X :=
      fun g hg => ⟨(h.rep b hb).tree.tables_live hg, fun hgX => disjoint_left.mp hdisj hgX hg⟩
    refine hu.virtToPhys (Or.inr hm) (h.rep b hb).nonnull fun q r g hpath hg => ?_
    by_cases hlower : pml4Index v ∈ lowerHalf
    · exact htablesOut g (mem_tablesOf_of_visited hlower hpath hg)
    · have hclean := hv.resolve_left fun hlow => hlower hlow.2
      exact (h.visited_upper hb hlower hclean hpath hg).elim (htablesOut g) (hkernelOut g)

/-! ## A boot loader that maps the memory with a large page -/

def hhdmEntry (f : PhysAddr) (i : Index) : PageTableEntry :=
  if f = 0x1000 ∧ i = 256 then 0x20003
  else if f = 0x20000 ∧ i = 0 then 0x21003
  else if f = 0x21000 ∧ i = 0 then 0x200083
  else 0

def hhdmFrames : List PhysAddr := [0x200000, 0x201000, 0x202000, 0x203000, 0x204000]

lemma hhdmFrames_isFrame : ∀ f ∈ hhdmFrames, IsFrame f := by
  simp [hhdmFrames, IsFrame, pteAddr, ramOffset]

/-- The memory from `0x200000` on is seen at `0xFFFF800000000000` through one large page. -/
def hhdmRam : Ram where
  frames := hhdmEntry
  pool := ⟨hhdmFrames, by decide +kernel, hhdmFrames_isFrame⟩
  heap := bootRam.heap

def hhdmState : VmmState Ram := ((vmmInit hhdmRam 0x1000).get (by decide)).2

lemma hhdmState_booted {ok : Ram → PhysAddr → Prop} (h : ok hhdmRam 0x1000) :
    Booted ok ⟨hhdmState, []⟩ :=
  ⟨hhdmRam, 0x1000, hhdmState, rfl, h, rfl⟩

/-- The links between the boot loader's tables. -/
lemma hhdm_link {f : PhysAddr} {i : Index} (hg : tableTarget (entry hhdmRam f i) = some g) :
    f = 0x1000 ∧ i = 256 ∧ g = 0x20000 ∨ f = 0x20000 ∧ i = 0 ∧ g = 0x21000 := by
  rw [show entry hhdmRam f i = hhdmEntry f i from Ram.load_eq hhdmRam f i] at hg
  unfold hhdmEntry at hg
  split_ifs at hg with h₁ h₂ h₃
  · rw [show tableTarget 0x20003 = some 0x20000 by decide] at hg
    exact Or.inl ⟨h₁.1, h₁.2, (Option.some.inj hg).symm⟩
  · rw [show tableTarget 0x21003 = some 0x21000 by decide] at hg
    exact Or.inr ⟨h₂.1, h₂.2, (Option.some.inj hg).symm⟩
  · rw [show tableTarget 0x200083 = none by decide] at hg
    cases hg
  · rw [reads_tableTarget.zero] at hg
    cases hg

/-- The paths to the boot loader's tables. -/
lemma hhdm_path {p : List Index} {f : PhysAddr}
    (hp : tableAt tableTarget (entry hhdmRam) 0x1000 p = some f) :
    p = [] ∧ f = 0x1000 ∨ p = [256] ∧ f = 0x20000 ∨ p = [256, 0] ∧ f = 0x21000 := by
  induction p using List.reverseRecOn generalizing f with
  | nil => exact Or.inl ⟨rfl, (Option.some.inj hp).symm⟩
  | append_singleton p i ih =>
    rw [tableAt_concat] at hp
    rcases Option.bind_eq_some_iff.mp hp with ⟨g, hg, hf⟩
    have hlink := hhdm_link hf
    rcases ih hg with ⟨hq, hgq⟩ | ⟨hq, hgq⟩ | ⟨hq, hgq⟩
    · rw [hgq] at hlink
      rw [hq]
      simpa using hlink
    · rw [hgq] at hlink
      rw [hq]
      simpa using hlink
    · rw [hgq] at hlink
      simp at hlink

lemma hhdmRam_tables (top : Set Index) : kernelTables top hhdmRam 0x1000 ⊆ live hhdmRam := by
  intro f ⟨p, _, _, hp⟩
  rcases hhdm_path hp with ⟨-, hf⟩ | ⟨-, hf⟩ | ⟨-, hf⟩ <;> rw [hf] <;>
    exact ⟨by simp [IsFrame, pteAddr, ramOffset], by decide⟩

lemma hhdmRam_tree (top : Set Index) : TreeIn tableTarget top hhdmRam 0x1000 := by
  refine ⟨fun p q f _ _ _ _ hp hq => ?_, hhdmRam_tables _⟩
  rcases hhdm_path hp with ⟨hp, hf⟩ | ⟨hp, hf⟩ | ⟨hp, hf⟩ <;>
    rcases hhdm_path hq with ⟨hq, hf'⟩ | ⟨hq, hf'⟩ | ⟨hq, hf'⟩ <;>
    rw [hp, hq] <;> rw [hf] at hf' <;> simp at hf'

lemma hhdmState_reachable : SysReachable ⟨hhdmState, []⟩ :=
  .init (hhdmState_booted (hhdmRam_tables _))

/-- One address space is created. -/
def hhdmOne : Sys Ram := ⟨(vmmCreateAddressSpace hhdmState).2, [0x200]⟩

lemma hhdmOne_reachable : SysReachable hhdmOne :=
  hhdmState_reachable.step ⟨_, sysStep_create (by decide +kernel) (by decide)⟩

/-- And another one. -/
def hhdmTwo : Sys Ram := ⟨(vmmCreateAddressSpace hhdmOne.vmm).2, [0x300, 0x200]⟩

lemma hhdmTwo_reachable : SysReachable hhdmTwo :=
  hhdmOne_reachable.step ⟨_, sysStep_create (by decide +kernel) (by decide)⟩

/-- A page that is mapped in one address space is not seen in the other one. -/
theorem other_translation_unchanged_two :
    vmmVirtToPhys (exec hhdmTwo.vmm 0x200 (.mapPage 0x400000 0x5000 7)).2 0x300 0x400000 =
      vmmVirtToPhys hhdmTwo.vmm 0x300 0x400000 := by
  have hlower : pml4Index 0x400000 ∈ lowerHalf := by
    show (pml4Index 0x400000).val < 256
    decide
  have hstep : SysStep hhdmTwo (.call 0x200 (.mapPage 0x400000 0x5000 7)) ⟨_, _⟩ :=
    sysStep_call (mem_cons_of_mem _ mem_cons_self) (by decide)
  have hsame := other_translation_unchanged hhdmTwo_reachable hstep
    (Or.inr ⟨mem_cons_self, by decide⟩) (Or.inl ⟨mem_cons_self, hlower⟩)
  simpa only using hsame

/-- A page that an address space maps changes what `kernel_as` translates an address to, that of
the first page behind the large page. -/
theorem kernel_translation_changed :
    SysReachable hhdmOne ∧ hhdmOne.spaces = [0x200] ∧ hhdmOne.vmm.kernelAs = 0x100 ∧
      (Op.mapPage 0x400000 0x5000 7).Valid ∧
      vmmVirtToPhys hhdmOne.vmm 0x100 0xFFFF800000000000 = 0 ∧
      vmmVirtToPhys (exec hhdmOne.vmm 0x200 (.mapPage 0x400000 0x5000 7)).2 0x100
        0xFFFF800000000000 = 0x201000 := by
  refine ⟨hhdmOne_reachable, rfl, by decide, by decide, ?_, ?_⟩
  · decide +kernel
  · decide +kernel

end LunOS.Vmm
