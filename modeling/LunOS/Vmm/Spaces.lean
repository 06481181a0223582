import LunOS.Vmm.Refinement

/-!
# Creating and destroying address spaces

- `Created`: a new address space has one table, whose upper half is that of `kernel_as`.
- `Freed`: a set of frames was given back.
- `vmmDestroyAddressSpace_freed`: destroying an address space gives back its tables.
-/

namespace LunOS.Vmm
open LunOS.Radix PageMachine LawfulPageMachine Set
open List hiding Disjoint

variable {σ : Type*} [LawfulPageMachine σ]

/-! ## A table without entries in its lower half -/

section
variable {s : σ} {root : PhysAddr} (hblank : ∀ i ∈ lowerHalf, entry s root i = 0)
include hblank

/-- The only table below it is the table itself. -/
lemma tableAt_blank {p : List Index} (hin : Within lowerHalf p) {f : PhysAddr}
    (hp : tableAt target (entry s) root p = some f) :
    p = [] ∧ f = root := by
  cases p with
  | nil => exact ⟨rfl, (Option.some.inj hp).symm⟩
  | cons i p =>
    rw [tableAt_cons, hblank i (within_cons.mp hin), target_zero] at hp
    cases hp

lemma spaceTables_blank : spaceTables s root = {root} := by
  ext f
  constructor
  · intro ⟨p, _, hin, hp⟩
    exact (tableAt_blank hblank hin hp).2
  · intro hf
    rw [mem_singleton_iff.mp hf]
    exact root_mem_tables

lemma treeIn_blank (hroot : root ∈ live s) : TreeIn target lowerHalf s root where
  tree p q f _ _ hin hin' hp hq :=
    (tableAt_blank hblank hin hp).1.trans (tableAt_blank hblank hin' hq).1.symm
  tables_live := by
    show spaceTables s root ⊆ live s
    rw [spaceTables_blank hblank]
    exact singleton_subset_iff.mpr hroot

/-- A new PML4 maps nothing. -/
lemma pageMap_blank : pageMap s root = PageMap.empty := by
  funext n
  unfold pageMap
  by_cases hn : n < 2 ^ 35
  · rw [if_pos hn]
    unfold leaf pathOf
    rw [tableAt_cons, hblank _ (pathOf_lower hn), target_zero]
    rfl
  · exact if_neg hn

end

/-! ## Copying entries -/

variable {idxs : List Index} {s : σ} {c : PhysAddr} {d : ℕ} {freeChild : σ → PhysAddr → σ}

section
variable {s : σ} {f : PhysAddr}

/-- Only the copied entries change. -/
lemma copyEntries_frame (hf : f ∈ live s) (src : VirtAddr) (idxs : List Index) :
    let s' := copyEntries (f + hhdmOffset σ) src idxs s
    live s' = live s ∧ objects s' = objects s ∧
      (∀ g ∈ live s, g ≠ f → ∀ i, entry s' g i = entry s g i) ∧
      (∀ i, i ∉ idxs → entry s' f i = entry s f i) ∧ Takes s [] s' := by
  induction idxs generalizing s with
  | nil => exact ⟨rfl, rfl, fun _ _ _ _ => rfl, fun _ _ => rfl, .refl⟩
  | cons j idxs ih =>
    have hlive := live_store j (load s src j) hf
    rcases ih (hlive ▸ hf) with ⟨hlive', hobj, hothers, hself, htakes⟩
    refine ⟨hlive'.trans hlive, hobj.trans (objects_store j _ hf), fun g hg hne i => ?_,
      fun i hi => ?_, (Takes.refl.store j _ hf).trans htakes⟩
    · refine (hothers g (hlive ▸ hg) hne i).trans (entry_store_of_ne _ hf hg fun heq => hne ?_)
      exact (Prod.mk.inj heq).1
    · rw [mem_cons, not_or] at hi
      refine (hself i hi.2).trans (entry_store_of_ne _ hf hf fun heq => hi.1 ?_)
      exact (Prod.mk.inj heq).2

/-- The entries are the same. -/
lemma copyEntries_copied (hf : f ∈ live s) {g : PhysAddr} (hg : g ∈ live s) (hne : g ≠ f)
    {i : Index} (hi : i ∈ idxs) :
    entry (copyEntries (f + hhdmOffset σ) (g + hhdmOffset σ) idxs s) f i = entry s g i := by
  induction idxs generalizing s with
  | nil => exact absurd hi not_mem_nil
  | cons j idxs ih =>
    have hlive := live_store j (load s (g + hhdmOffset σ) j) hf
    have hsame : ∀ i, entry (store s (f + hhdmOffset σ) j (load s (g + hhdmOffset σ) j)) g i =
        entry s g i :=
      fun i => entry_store_of_ne _ hf hg fun heq => hne (Prod.mk.inj heq).1
    by_cases hmem : i ∈ idxs
    · exact (ih (hlive ▸ hf) (hlive ▸ hg) hmem).trans (hsame i)
    · have hij : i = j := (mem_cons.mp hi).resolve_right hmem
      rcases copyEntries_frame (hlive ▸ hf) (g + hhdmOffset σ) idxs with ⟨-, -, -, hself, -⟩
      refine (hself i hmem).trans ?_
      rw [hij]
      exact entry_store_self _ _ hf

end

/-- The entries of the upper half. -/
lemma mem_upperEntries {i : Index} : i ∈ upperEntries ↔ i ∉ lowerHalf := by
  unfold upperEntries lowerHalf
  simp [Fin.le_def]

/-! ## Creating -/

/-- A new address space at `as` with its PML4 in the frame `root`. -/
structure Created (k k' : VmmState σ) (as : VirtAddr) (root : PhysAddr) : Prop where
  rep : SpaceRep k' as root
  empty : pageMap k'.machine root = PageMap.empty
  tables_eq : spaceTables k'.machine root = {root}
  object : as ∉ objects k.machine
  objects_eq : objects k'.machine = insert as (objects k.machine)
  fresh : root ∉ live k.machine
  live_eq : live k'.machine = insert root (live k.machine)
  entries : ∀ f ∈ live k.machine, ∀ i, entry k'.machine f i = entry k.machine f i
  others : ∀ b, b ≠ as → k'.spaces b = k.spaces b
  kernelAs : k'.kernelAs = k.kernelAs
  upper : k.kernelAs ≠ 0 → k.kernelAs ≠ as → ∀ f ∈ live k.machine,
    (k.spaces k.kernelAs).pml4 = f + hhdmOffset σ →
    ∀ i, i ∉ lowerHalf → entry k'.machine root i = entry k.machine f i
  takes : Takes (kmalloc k.machine sizeofAddrSpace).2 [root] k'.machine

section
variable {k k' : VmmState σ} {as : VirtAddr}

/-- The object of a new address space, its PML4 `root` in the machine `s₁` and the machine `s₂` in
which entries of the upper half may have been copied to it. -/
lemma created_of {s₁ s₂ : σ} {root : PhysAddr}
    (hkmalloc : kmalloc k.machine sizeofAddrSpace = (as, s)) (has : as ≠ 0)
    (hnew : NewTable s s₁ root) (hlive : live s₂ = live s₁) (hobjects : objects s₂ = objects s₁)
    (hothers : ∀ g ∈ live s₁, g ≠ root → ∀ i, entry s₂ g i = entry s₁ g i)
    (hlower : ∀ i ∈ lowerHalf, entry s₂ root i = entry s₁ root i)
    (hupper : k.kernelAs ≠ 0 → k.kernelAs ≠ as → ∀ f ∈ live k.machine,
      (k.spaces k.kernelAs).pml4 = f + hhdmOffset σ →
      ∀ i, i ∉ lowerHalf → entry s₂ root i = entry k.machine f i) (htakes : Takes s₁ [] s₂) :
    Created k ({ k with machine := s₂ }.setSpace as ⟨root + hhdmOffset σ, 0⟩) as root := by
  have hmachine : s = (kmalloc k.machine sizeofAddrSpace).2 := by rw [hkmalloc]
  have hptr : as = (kmalloc k.machine sizeofAddrSpace).1 := by rw [hkmalloc]
  have hlive₀ : live s = live k.machine := by rw [hmachine, live_kmalloc sizeofAddrSpace_le]
  have hobject : as ∉ objects k.machine := by
    rw [hptr] at has ⊢
    exact kmalloc_fresh sizeofAddrSpace_le has
  have hroot : root ∈ live s₂ := by
    rw [hlive, hnew.live_eq]
    exact mem_insert _ _
  have hblank : ∀ i ∈ lowerHalf, entry s₂ root i = 0 :=
    fun i hi => (hlower i hi).trans (hnew.blank i)
  refine ⟨⟨⟨has, ?_, treeIn_blank hblank hroot⟩, ?_⟩, pageMap_blank hblank,
    spaceTables_blank hblank, hobject, ?_, ?_, ?_, fun f hf i => ?_, ?_, rfl, hupper, ?_⟩
  · rw [VmmState.setSpace_self]
  · rw [VmmState.setSpace_self, VmmState.setSpace_machine, pageMap_blank hblank]
    simp [PageMap.count, PageMap.empty]
  · show objects s₂ = _
    rw [hobjects, hnew.objects_eq, hmachine, objects_kmalloc sizeofAddrSpace_le (hptr ▸ has), ← hptr]
  · rw [← hlive₀]
    exact hnew.fresh
  · show live s₂ = _
    rw [hlive, hnew.live_eq, hlive₀]
  · have hf₁ : f ∈ live s₁ := by
      rw [hnew.live_eq, hlive₀]
      exact mem_insert_of_mem _ hf
    show entry s₂ f i = _
    rw [hothers f hf₁ (ne_of_mem_of_not_mem (hlive₀ ▸ hf) hnew.fresh) i,
      hnew.others f (hlive₀ ▸ hf) i, hmachine]
    exact load_kmalloc i sizeofAddrSpace_le hf
  · exact fun b hb => VmmState.setSpace_of_ne _ _ _ hb
  · rw [hmachine] at hnew
    exact hnew.takes.trans htakes

/-- A new address space. -/
lemma vmmCreateAddressSpace_created (hcall : vmmCreateAddressSpace k = (as, k')) (has : as ≠ 0) :
    ∃ root, Created k k' as root := by
  unfold vmmCreateAddressSpace at hcall
  rcases hkmalloc : kmalloc k.machine sizeofAddrSpace with ⟨p, s⟩
  rw [hkmalloc] at hcall
  simp only at hcall
  by_cases hp : p = 0
  · rw [if_pos hp, Prod.mk.injEq] at hcall
    exact absurd hcall.1.symm has
  rw [if_neg hp] at hcall
  rcases halloc : vmmAllocPageTable s with ⟨r, s₁⟩
  rw [halloc] at hcall
  cases r with
  | none => exact absurd (Prod.mk.inj hcall).1.symm has
  | some pml4 =>
    rcases vmmAllocPageTable_some halloc with ⟨root, hpml4, hnew⟩
    simp only [hpml4, VmmState.setSpace_kernelAs, VmmState.setSpace_machine] at hcall
    have hroot : root ∈ live s₁ := by
      rw [hnew.live_eq]
      exact mem_insert _ _
    by_cases hkernel : k.kernelAs = 0
    · rw [if_pos hkernel] at hcall
      cases hcall
      exact ⟨root, created_of hkmalloc hp hnew rfl rfl (fun _ _ _ _ => rfl) (fun _ _ => rfl)
        (fun hne => absurd hkernel hne) .refl⟩
    · rw [if_neg hkernel, Prod.mk.injEq] at hcall
      rw [← hcall.1, ← hcall.2]
      generalize hsrc : (({ k with machine := s₁ }.setSpace p ⟨root + hhdmOffset σ, 0⟩).spaces
        k.kernelAs).pml4 = src
      rcases copyEntries_frame hroot src upperEntries with ⟨hlive, hobj, hothers, hself, htakes⟩
      have hupper : k.kernelAs ≠ 0 → k.kernelAs ≠ p → ∀ f ∈ live k.machine,
          (k.spaces k.kernelAs).pml4 = f + hhdmOffset σ → ∀ i, i ∉ lowerHalf →
          entry (copyEntries (root + hhdmOffset σ) src upperEntries s₁) root i =
            entry k.machine f i := by
        intro _ hne f hf hsrcf i hi
        have hmachine : s = (kmalloc k.machine sizeofAddrSpace).2 := by rw [hkmalloc]
        have hfs : f ∈ live s := by
          rw [hmachine, live_kmalloc sizeofAddrSpace_le]
          exact hf
        have hf₁ : f ∈ live s₁ := by
          rw [hnew.live_eq]
          exact mem_insert_of_mem _ hfs
        have hsrc' : src = f + hhdmOffset σ := by
          rw [← hsrc, ← hsrcf, VmmState.setSpace_of_ne _ _ _ hne]
        rw [hsrc', copyEntries_copied hroot hf₁ (ne_of_mem_of_not_mem hfs hnew.fresh)
          (mem_upperEntries.mpr hi), hnew.others f hfs i, hmachine]
        exact load_kmalloc i sizeofAddrSpace_le hf
      have hlower : ∀ i ∈ lowerHalf, i ∉ upperEntries := fun i hi hmem =>
        mem_upperEntries.mp hmem hi
      generalize copyEntries (root + hhdmOffset σ) src upperEntries s₁ = s₂
        at hlive hobj hothers hself hupper htakes ⊢
      exact ⟨root, created_of hkmalloc hp hnew hlive hobj hothers
        (fun i hi => hself i (hlower i hi)) hupper htakes⟩

/-- A failed creation leaves everything in use alone. -/
lemma vmmCreateAddressSpace_failed (hcall : vmmCreateAddressSpace k = (0, k')) :
    live k'.machine = live k.machine ∧ objects k'.machine = objects k.machine ∧
      (∀ f ∈ live k.machine, ∀ i, entry k'.machine f i = entry k.machine f i) ∧
      (∀ b ∈ objects k.machine, k'.spaces b = k.spaces b) ∧ k'.kernelAs = k.kernelAs := by
  unfold vmmCreateAddressSpace at hcall
  rcases hkmalloc : kmalloc k.machine sizeofAddrSpace with ⟨p, s⟩
  have hmachine : s = (kmalloc k.machine sizeofAddrSpace).2 := by rw [hkmalloc]
  have hptr : p = (kmalloc k.machine sizeofAddrSpace).1 := by rw [hkmalloc]
  have hlive : live s = live k.machine := by rw [hmachine, live_kmalloc sizeofAddrSpace_le]
  have hentry : ∀ f ∈ live k.machine, ∀ i, entry s f i = entry k.machine f i := by
    intro f hf i
    rw [hmachine]
    exact load_kmalloc i sizeofAddrSpace_le hf
  rw [hkmalloc] at hcall
  simp only at hcall
  by_cases hp : p = 0
  · rw [if_pos hp] at hcall
    cases hcall
    refine ⟨hlive, ?_, hentry, fun _ _ => rfl, rfl⟩
    show objects s = _
    rw [hmachine]
    exact kmalloc_fails sizeofAddrSpace_le (hptr ▸ hp)
  · have hfresh : p ∉ objects k.machine := by
      rw [hptr] at hp ⊢
      exact kmalloc_fresh sizeofAddrSpace_le hp
    have hobj : objects s = insert p (objects k.machine) := by
      rw [hmachine, objects_kmalloc sizeofAddrSpace_le (hptr ▸ hp), ← hptr]
    rw [if_neg hp] at hcall
    rcases halloc : vmmAllocPageTable s with ⟨r, s₁⟩
    rw [halloc] at hcall
    cases r with
    | none =>
      rcases vmmAllocPageTable_none halloc with ⟨-, hlive₁, hobj₁, hentry₁, -⟩
      have hmem : p ∈ objects s₁ := by
        rw [hobj₁, hobj]
        exact mem_insert _ _
      rw [← (Prod.mk.inj hcall).2]
      refine ⟨?_, ?_, fun f hf i => ?_, fun b hb => ?_, rfl⟩
      · show live (kfree s₁ p) = _
        rw [live_kfree hmem, hlive₁, hlive]
      · show objects (kfree s₁ p) = _
        rw [objects_kfree hmem, hobj₁, hobj, insert_sdiff_self_of_notMem hfresh]
      · have hfs : f ∈ live s := hlive ▸ hf
        exact (load_kfree i hmem (hlive₁ ▸ hfs)).trans ((hentry₁ f hfs i).trans (hentry f hf i))
      · exact VmmState.setSpace_of_ne _ _ _ (ne_of_mem_of_not_mem hb hfresh)
    | some pml4 =>
      simp only at hcall
      split at hcall
      · exact absurd (Prod.mk.inj hcall).1 hp
      · exact absurd (Prod.mk.inj hcall).1 hp

end

/-! ## Giving frames back -/

/-- `s'` is the machine after the frames of `X` were given back, each once. -/
def FreesAll (s : σ) (X : Set PhysAddr) (s' : σ) : Prop :=
  ∃ l : List PhysAddr, l.Nodup ∧ (∀ f, f ∈ l ↔ f ∈ X) ∧ s' = l.foldl pmmFreePage s

/-- Pages freed in a row. -/
lemma freePages_spec {l : List PhysAddr} (hnodup : l.Nodup) (hlive : ∀ f ∈ l, f ∈ live s) :
    live (l.foldl pmmFreePage s) = live s \ {f | f ∈ l} ∧
      objects (l.foldl pmmFreePage s) = objects s ∧
      ∀ g ∈ live s, g ∉ l → ∀ i, entry (l.foldl pmmFreePage s) g i = entry s g i := by
  induction l generalizing s with
  | nil => simp
  | cons f l ih =>
    rw [nodup_cons] at hnodup
    have hf : f ∈ live s := hlive f mem_cons_self
    have hlive₁ := live_free hf
    have hrest : ∀ g ∈ l, g ∈ live (pmmFreePage s f) := by
      intro g hg
      rw [hlive₁]
      exact ⟨hlive g (mem_cons_of_mem _ hg), ne_of_mem_of_not_mem hg hnodup.1⟩
    rcases ih hnodup.2 hrest with ⟨hlive', hobj, hsame⟩
    rw [foldl_cons]
    refine ⟨?_, hobj.trans (objects_free hf), fun g hg hout i => ?_⟩
    · rw [hlive', hlive₁]
      ext g
      simp only [mem_sdiff, mem_singleton_iff, mem_ofPred_eq, mem_cons, not_or,
        and_assoc]
    · rw [mem_cons, not_or] at hout
      have hg₁ : g ∈ live (pmmFreePage s f) := by
        rw [hlive₁]
        exact ⟨hg, hout.1⟩
      exact (hsame g hg₁ hout.2 i).trans (load_free i hf hg hout.1)

section
variable {s s₁ s₂ : σ} {X Y : Set PhysAddr}

/-- What is left in use. -/
lemma FreesAll.spec (h : FreesAll s X s₁) (hsub : X ⊆ live s) :
    live s₁ = live s \ X ∧ objects s₁ = objects s ∧
      ∀ g ∈ live s, g ∉ X → ∀ i, entry s₁ g i = entry s g i := by
  rcases h with ⟨l, hnodup, hmem, hs⟩
  have hX : {f | f ∈ l} = X := Set.ext hmem
  rcases freePages_spec hnodup fun f hf => hsub ((hmem f).mp hf) with ⟨hlive, hobj, hsame⟩
  rw [hs, ← hX]
  exact ⟨hlive, hobj, hsame⟩

lemma FreesAll.union (h : FreesAll s X s₁) (h' : FreesAll s₁ Y s₂) (hdisj : Disjoint X Y) :
    FreesAll s (X ∪ Y) s₂ := by
  rcases h with ⟨l, hnodup, hmem, hs⟩
  rcases h' with ⟨l', hnodup', hmem', hs'⟩
  refine ⟨l ++ l', ?_, fun f => ?_, ?_⟩
  · refine nodup_append.mpr ⟨hnodup, hnodup', fun a ha b hb heq => ?_⟩
    rw [heq] at ha
    exact disjoint_left.mp hdisj ((hmem b).mp ha) ((hmem' b).mp hb)
  · rw [mem_append, hmem, hmem']
    rfl
  · rw [foldl_append, ← hs, hs']

lemma freesAll_empty : FreesAll s ∅ s := ⟨[], nodup_nil, by simp, rfl⟩

lemma freesAll_singleton (c : PhysAddr) : FreesAll s {c} (pmmFreePage s c) :=
  ⟨[c], nodup_singleton c, by simp, rfl⟩

end

/-! ## Destroying -/

lemma vmmFreePageTable_eq (s : σ) (hc : c + hhdmOffset σ ≠ 0) :
    vmmFreePageTable s (c + hhdmOffset σ) = pmmFreePage s c := by
  unfold vmmFreePageTable
  rw [if_neg hc, BitVec.add_sub_cancel]

/-- `freeChild` gives back a tree of depth `d`. -/
def FreesBelow (d : ℕ) (freeChild : σ → PhysAddr → σ) : Prop :=
  ∀ s c, IsTree target (entry s) c Set.univ d → tables target (entry s) c Set.univ d ⊆ live s →
    FreesAll s (tables target (entry s) c Set.univ d) (freeChild s c)

/-- The loop over the children of a table gives back the trees below it. -/
lemma freeChildren_spec (hchild : FreesBelow d freeChild) (hnodup : idxs.Nodup)
    (ht : IsTree target (entry s) c {i | i ∈ idxs} (d + 1))
    (hlive : tables target (entry s) c {i | i ∈ idxs} (d + 1) ⊆ live s) :
    FreesAll s (tables target (entry s) c {i | i ∈ idxs} (d + 1) \ {c})
      (freeChildren freeChild (c + hhdmOffset σ) idxs s) := by
  induction idxs generalizing s with
  | nil =>
    have hnone : tables target (entry s) c {i | i ∈ []} (d + 1) \ {c} = ∅ := by
      ext f
      simp [mem_tables_succ]
    rw [hnone]
    exact freesAll_empty
  | cons i rest ih =>
    rw [nodup_cons] at hnodup
    have hcons : {j | j ∈ i :: rest} = insert i {j | j ∈ rest} := Set.ext fun j => mem_cons
    rw [hcons] at ht hlive ⊢
    have hsub := subset_insert i {j | j ∈ rest}
    show FreesAll s _ (freeChildren freeChild (c + hhdmOffset σ) rest
      (if load s (c + hhdmOffset σ) i &&& ptePresent ≠ 0 then
        freeChild s (pteAddr (load s (c + hhdmOffset σ) i)) else s))
    by_cases hpresent : load s (c + hhdmOffset σ) i &&& ptePresent ≠ 0
    · rw [if_pos hpresent]
      have hg : target (entry s c i) = some (pteAddr (load s (c + hhdmOffset σ) i)) :=
        target_of_present hpresent
      generalize pteAddr (load s (c + hhdmOffset σ) i) = g at hg
      rw [tables_insert hg] at hlive ⊢
      rcases union_subset_iff.mp hlive with ⟨hliveBelow, hliveRest⟩
      have hapart := fun f hf => ht.notMem_below (f := f) hnodup.1 hg hf
      have hfree := hchild s g (ht.below (mem_insert i _) hg) hliveBelow
      rcases hfree.spec hliveBelow with ⟨hlive₁, -, hsame⟩
      -- the other entries lead to tables that are still there
      have hslots : ∀ x ∈ slots target (entry s) c {j | j ∈ rest} (d + 1),
          entry (freeChild s g) x.1 x.2 = entry s x.1 x.2 := by
        intro x hx
        rcases hx with ⟨q, hlen, hin, hq⟩
        have htable : x.1 ∈ tables target (entry s) c {j | j ∈ rest} (d + 1) :=
          ⟨q, hlen.le, hin.left, hq⟩
        exact hsame x.1 (hliveRest htable) (hapart x.1 htable) x.2
      have htables := tables_congr hslots
      have hrest := ih hnodup.2 ((ht.mono hsub).congr hslots) (by
        rw [htables, hlive₁]
        exact fun f hf => ⟨hliveRest hf, hapart f hf⟩)
      rw [htables] at hrest
      rw [union_sdiff_distrib, sdiff_singleton_eq_self (hapart c root_mem_tables)]
      exact hfree.union hrest (disjoint_left.mpr fun f hf hf' => hapart f hf'.1 hf)
    · rw [if_neg hpresent]
      have hnone : target (entry s c i) = none := target_of_absent (not_not.mp hpresent)
      rw [tables_insert_none hnone] at hlive ⊢
      exact ih hnodup.2 (ht.mono hsub) hlive

/-- A table is given back after its children. -/
lemma freesAll_table (hchild : FreesBelow d freeChild) (hnodup : idxs.Nodup)
    (ht : IsTree target (entry s) c {i | i ∈ idxs} (d + 1))
    (hlive : tables target (entry s) c {i | i ∈ idxs} (d + 1) ⊆ live s) :
    FreesAll s (tables target (entry s) c {i | i ∈ idxs} (d + 1))
      (vmmFreePageTable (freeChildren freeChild (c + hhdmOffset σ) idxs s) (c + hhdmOffset σ)) := by
  have hc : c ∈ tables target (entry s) c {i | i ∈ idxs} (d + 1) := root_mem_tables
  rw [vmmFreePageTable_eq _ (mapped (hlive hc)), ← sdiff_union_of_subset
    (singleton_subset_iff.mpr hc)]
  exact (freeChildren_spec hchild hnodup ht hlive).union (freesAll_singleton c)
    disjoint_sdiff_left

lemma setOf_finRange : {i : Index | i ∈ List.finRange 512} = Set.univ := by
  ext i
  simp

lemma freesBelow_pt : FreesBelow 0 fun (s : σ) c => vmmFreePageTable s (c + hhdmOffset σ) := by
  intro s c _ hlive
  show FreesAll s _ (vmmFreePageTable s (c + hhdmOffset σ))
  rw [vmmFreePageTable_eq _ (mapped (hlive root_mem_tables)), tables_zero]
  exact freesAll_singleton c

/-- One level up. -/
lemma FreesBelow.table (hchild : FreesBelow d freeChild) :
    FreesBelow (d + 1) fun s c => vmmFreePageTable
      (freeChildren freeChild (c + hhdmOffset σ) (List.finRange 512) s) (c + hhdmOffset σ) := by
  intro s c ht hlive
  rw [← setOf_finRange] at ht hlive ⊢
  exact freesAll_table hchild (nodup_finRange 512) ht hlive

lemma freesBelow_pdp : FreesBelow 2 (freePdpTable : σ → PhysAddr → σ) := freesBelow_pt.table.table

lemma setOf_lowerEntries : {i : Index | i ∈ lowerEntries} = lowerHalf := by
  ext i
  unfold lowerEntries lowerHalf
  simp [Fin.lt_def]

/-- Destroying an address space gives back its tables, and its object. -/
lemma vmmDestroyAddressSpace_freed {k : VmmState σ} {as : VirtAddr} {root : PhysAddr}
    (hnonnull : as ≠ 0) (hpml4 : (k.spaces as).pml4 = root + hhdmOffset σ)
    (h : TreeIn target lowerHalf k.machine root) (hkernel : as ≠ k.kernelAs) :
    ∃ s, FreesAll k.machine (spaceTables k.machine root) s ∧
      vmmDestroyAddressSpace k as = { k with machine := kfree s as } := by
  have hnot : ¬(as = 0 ∨ as = k.kernelAs) := not_or.mpr ⟨hnonnull, hkernel⟩
  refine ⟨_, ?_, by unfold vmmDestroyAddressSpace; rw [if_neg hnot]⟩
  have ht := h.tree
  have hlive := h.tables_live
  unfold spaceTables
  rw [← setOf_lowerEntries] at ht hlive ⊢
  rw [hpml4]
  exact freesAll_table freesBelow_pdp ((nodup_finRange 512).filter _) ht hlive

end LunOS.Vmm
