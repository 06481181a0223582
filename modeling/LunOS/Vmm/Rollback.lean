import LunOS.Vmm.Runs

/-!
# A range is mapped as a whole or not at all

When `vmm_map_range` fails it has unmapped the pages it mapped, so that the address space translates
every address as before. The page tables it took on the way stay, without entries.
-/

namespace LunOS.Vmm
open LunOS.Radix PageMachine LawfulPageMachine List

variable {σ : Type*} [LawfulPageMachine σ]

/-! ## Entries that stay -/

section
variable {s s' : σ} {roots : Set PhysAddr} {r f g : PhysAddr} {q : List Index} {j : Index}

lemma present_of_tableTarget {e : PageTableEntry} (h : tableTarget e = some g) :
    e &&& ptePresent ≠ 0 := by
  intro habsent
  rw [tableTarget_of_absent habsent] at h
  cases h

/-- A present entry above the last level is not written. -/
lemma Edit.kept (he : Edit tableTarget r s s') (h : Forest s roots) (hr : r ∈ roots)
    (hlen : q.length < 3) (hq : tableAt tableTarget (entry s) r q = some g)
    (hpresent : entry s g j &&& ptePresent ≠ 0) : entry s' g j = entry s g j := by
  have hg : g ∈ live s := h.mem_live hr hlen.le hq
  cases he with
  | @link s₁ p f g' i hp hplen habsent hnone hnew =>
    rcases (h.treeIn hr).linked reads_tableTarget reads_tableTarget.zero hp hplen (within_univ _)
      hnone hnew with ⟨-, hentry, -, -, -⟩
    refine hentry g hg j fun heq => hpresent ?_
    rw [Prod.mk.injEq] at heq
    rw [heq.1, heq.2]
    exact habsent
  | @write p f i e hp hplen =>
    refine entry_store_of_ne e (h.mem_live hr hplen.le hp) hg fun heq => ?_
    rw [(Prod.mk.inj heq).1] at hq
    have hqp := (h.treeIn hr).tree q p f hlen.le hplen.le (within_univ q) (within_univ p) hq hp
    rw [hqp] at hlen
    omega
  | fails _ hsame => exact hsame g hg j

/-- Paths lead where they led. -/
lemma Edit.tableAt_kept (he : Edit tableTarget r s s') (h : Forest s roots) (hr : r ∈ roots)
    (hlen : q.length ≤ 3) (hq : tableAt tableTarget (entry s) r q = some g) :
    tableAt tableTarget (entry s') r q = some g := by
  induction q using List.reverseRecOn generalizing g with
  | nil => exact hq
  | append_singleton q i ih =>
    rw [length_append, length_singleton] at hlen
    rw [tableAt_concat] at hq ⊢
    rcases Option.bind_eq_some_iff.mp hq with ⟨f, hf, hchild⟩
    rw [ih (by omega) hf, Option.bind_some,
      he.kept h hr (by omega) hf (present_of_tableTarget hchild)]
    exact hchild

/-- Edits keep what is present. -/
lemma edits_kept (he : Relation.ReflTransGen (Edit tableTarget r) s s') (h : Forest s roots)
    (hr : r ∈ roots) :
    ∀ q g, q.length ≤ 3 → tableAt tableTarget (entry s) r q = some g →
      tableAt tableTarget (entry s') r q = some g ∧
        ∀ j, q.length < 3 → entry s g j &&& ptePresent ≠ 0 → entry s' g j = entry s g j := by
  induction he with
  | refl => exact fun q g _ hq => ⟨hq, fun _ _ _ => rfl⟩
  | tail hrun hedit ih =>
    intro q g hlen hq
    have hforest := (edits_forest hrun h hr).1
    rcases ih q g hlen hq with ⟨hq₁, hsame⟩
    refine ⟨hedit.tableAt_kept hforest hr hlen hq₁, fun j hlt hpresent => ?_⟩
    have hj := hsame j hlt hpresent
    rw [← hj] at hpresent
    rw [hedit.kept hforest hr hlt hq₁ hpresent, hj]

end

/-! ## Translation -/

section
variable {s s' : σ} {root f : PhysAddr} {u : VirtAddr}

/-- The processor meets the same large page. -/
lemma x86Walk_kept {p : List Index} {l : ℕ} (hlen : p.length + l = 3)
    (hkept : ∀ q g, q.length ≤ 3 → tableAt tableTarget (entry s) root q = some g →
      ∀ j, q.length < 3 → entry s g j &&& ptePresent ≠ 0 → entry s' g j = entry s g j)
    (hp : tableAt tableTarget (entry s) root p = some f)
    (hlarge : ¬CleanWalk tableTarget s f (x86Path u l)) :
    x86Walk (entry s') u l f = x86Walk (entry s) u l f := by
  induction l generalizing p f with
  | zero =>
    refine absurd (fun q j r g hpath => ?_) hlarge
    exact absurd hpath.symm (by simp [x86Path])
  | succ l ih =>
    by_cases hpresent : entry s f (x86Index (l + 1) u) &&& ptePresent = 0
    · -- an entry that is not present is no large page
      have hnone := tableTarget_of_absent hpresent
      refine absurd (CleanWalk.cons (hnone.trans (target_of_absent hpresent).symm)
        fun g hg => ?_) hlarge
      exact absurd (hnone.symm.trans hg) (by simp)
    · have hsame := hkept p f (by omega) hp (x86Index (l + 1) u) (by omega) hpresent
      unfold x86Walk
      simp only
      rw [hsame, if_neg hpresent, if_neg hpresent]
      by_cases hsmall : entry s f (x86Index (l + 1) u) &&& pteLarge = 0
      · rw [if_pos hsmall, if_pos hsmall]
        have hread := tableTarget_of_small hsmall
        have hchild := hread.trans (target_of_present hpresent)
        refine ih (p := p ++ [x86Index (l + 1) u]) (by simp; omega) ?_ fun hclean => hlarge ?_
        · rw [tableAt_concat, hp]
          exact hchild
        · refine CleanWalk.cons hread fun g hg => ?_
          cases hchild.symm.trans hg
          exact hclean
      · rw [if_neg hsmall, if_neg hsmall]

/-- What the processor reads on a clean walk. -/
lemma x86Walk_pageIn (hclean : CleanWalk tableTarget s root (upperIndices u)) :
    x86Walk (entry s) u 3 root =
      (pageIn tableTarget s root (page u)).map (· ||| pageOffset u) := by
  have htable := hclean.tableAt_eq (append_nil _).symm
  rw [upperIndices_eq_x86Path] at hclean
  rw [x86Walk_clean hclean, ← upperIndices_eq_x86Path, ← ptIndex_eq_x86Index]
  unfold pageIn leaf
  rw [← upperIndices_eq, ← ptIndex_eq, htable]

end

/-! ## Failing calls -/

/-- An address space that translates every address as before, and has got at most empty tables. -/
structure Unchanged (k k' : VmmState σ) (as : VirtAddr) : Prop where
  translate : ∀ u, x86Translate (entry k'.machine) (rootOf k' as) u =
    x86Translate (entry k.machine) (rootOf k as) u
  virtToPhys : ∀ u, CleanWalk tableTarget k.machine (rootOf k as) (upperIndices u) →
    vmmVirtToPhys k' as u = vmmVirtToPhys k as u
  totalPages : (k'.spaces as).totalPages = (k.spaces as).totalPages
  grows : GrowsIn tableTarget Set.univ k.machine k'.machine (rootOf k as)
  empty : ∀ q f, q.length = 3 →
    tableAt tableTarget (entry k'.machine) (rootOf k as) q = some f → f ∉ live k.machine →
    ∀ i, target (entry k'.machine f i) = none

/-- Every path is that of a page. -/
lemma exists_page (q : List Index) (hq : q.length = 3) (i : Index) :
    ∃ n, pathOf n = q ∧ slotOf n = i := by
  match q, hq with
  | [a, b, c], _ =>
    have ha := a.isLt
    have hb := b.isLt
    have hc := c.isLt
    have hi := i.isLt
    refine ⟨a.val * 2 ^ 27 + b.val * 2 ^ 18 + c.val * 2 ^ 9 + i.val, ?_, ?_⟩
    · simp only [pathOf, List.cons.injEq, Fin.ext_iff, Fin.val_ofNat, and_true]
      omega
    · simp only [slotOf, Fin.ext_iff, Fin.val_ofNat]
      omega

section
variable {k k' : VmmState σ} {l : List VirtAddr} {as : VirtAddr}

/-- A call that leaves every page as it was. -/
lemma TreeInv.unchanged (h : TreeInv k l) (has : as ∈ k.kernelAs :: l) {T : Set Index}
    (heffect : PartEffect tableTarget Set.univ T k k' as (rootOf k as))
    (hpages : ∀ n, pageIn tableTarget k'.machine (rootOf k as) n =
      pageIn tableTarget k.machine (rootOf k as) n)
    (htotal : (k'.spaces as).totalPages = (k.spaces as).totalPages) : Unchanged k k' as := by
  have hmem := TreeInv.mem_roots has
  have hkept := edits_kept heffect.edits h.forest hmem
  have hroot : rootOf k' as = rootOf k as := by
    unfold rootOf
    rw [heffect.pml4]
  have hclean : ∀ u, CleanWalk tableTarget k.machine (rootOf k as) (upperIndices u) →
      CleanWalk tableTarget k'.machine (rootOf k as) (upperIndices u) :=
    fun u => heffect.clean _ (upperIndices_length u) (within_univ _)
  have hwalk : ∀ u, x86Walk (entry k'.machine) u 3 (rootOf k as) =
      x86Walk (entry k.machine) u 3 (rootOf k as) := by
    intro u
    by_cases hu : CleanWalk tableTarget k.machine (rootOf k as) (upperIndices u)
    · rw [x86Walk_pageIn hu, x86Walk_pageIn (hclean u hu), hpages]
    · rw [upperIndices_eq_x86Path] at hu
      exact x86Walk_kept (p := []) rfl (fun q g hlen hq => (hkept q g hlen hq).2) rfl hu
  have hlive : rootOf k as ∈ live k.machine := (h.partRep has).tree.root_live
  refine ⟨fun u => ?_, fun u hu => ?_, htotal, heffect.grows, fun q f hlen hq hnew i => ?_⟩
  · unfold x86Translate
    rw [hroot, hwalk]
  · have hu' := hclean u hu
    have hlive' := heffect.grows.live_sub hlive
    rw [← hroot] at hu' hlive'
    rw [vmmVirtToPhys_x86Walk (h.nonnull as has) hlive hu,
      vmmVirtToPhys_x86Walk (h.nonnull as has) hlive' hu', hroot, hwalk]
  · -- a page behind a new table was not mapped before
    rcases exists_page q hlen i with ⟨n, hn, hni⟩
    have hold : tableAt tableTarget (entry k.machine) (rootOf k as) q = none := by
      by_contra hsome
      rcases Option.ne_none_iff_exists'.mp hsome with ⟨g, hg⟩
      have hg' := (hkept q g hlen.le hg).1
      rw [hq, Option.some.injEq] at hg'
      exact hnew (hg' ▸ h.forest.mem_live hmem hlen.le hg)
    have hpage := hpages n
    unfold pageIn leaf at hpage
    rw [hn, hni, hq, hold] at hpage
    exact hpage

/-- Pages of the lower half of an address space, for the walk of a call. -/
lemma TreeInv.partWalk_lower (h : TreeInv k l) (has : as ∈ l) {n : ℕ} (hn : n < 2 ^ 35) :
    PartWalk tableTarget Set.univ Set.univ k.machine (rootOf k as) n := by
  have hin := within_pathOf hn []
  rw [append_nil] at hin
  exact ⟨inPart_univ n, inPart_univ n, h.clean as has _ rfl hin⟩

end

/-- When `vmm_map_range` fails on an address space, or on `kernel_as` for pages that are not behind
large pages, then all translations and the number of pages are as before. -/
theorem vmmMapRange_all_or_nothing {x : Sys σ} (hreach : TreeReachable x) {as : VirtAddr}
    (has : as ∈ x.vmm.kernelAs :: x.spaces) {v : VirtAddr} {p : PhysAddr} {size flags : BitVec 64}
    (hrange : v.toNat + size.toNat ≤ 2 ^ 47)
    (hkernel : as = x.vmm.kernelAs → ∀ i < rangeCount v size,
      CleanWalk tableTarget x.vmm.machine (rootOf x.vmm as) (pathOf (page v + i)))
    {k' : VmmState σ} (hcall : vmmMapRange x.vmm as v p size flags = (-1, k')) :
    Unchanged x.vmm k' as ∧
      (as ∈ x.spaces → ∀ u : VirtAddr, u.toNat < 2 ^ 47 →
        vmmVirtToPhys k' as u = vmmVirtToPhys x.vmm as u) := by
  have h := hreach.inv
  have hlow := range_lt hrange
  have hwalk : ∀ i < rangeCount v size, PartWalk tableTarget Set.univ Set.univ x.vmm.machine
      (rootOf x.vmm as) (page v + i) := by
    intro i hi
    rcases mem_cons.mp has with has | has
    · exact ⟨inPart_univ _, inPart_univ _, hkernel has i hi⟩
    · exact h.partWalk_lower has (by omega)
  rcases vmmMapRange_part reads_tableTarget (h.partRep has) (noWrap_of_lower hrange) hwalk hcall with
    ⟨heffect, ⟨-, hr, -⟩ | ⟨-, hpages, htotal, -⟩⟩
  · exact absurd hr (by decide)
  · have hunchanged := h.unchanged has heffect (fun n => hpages n (inPart_univ n)) htotal
    refine ⟨hunchanged, fun hspace u hu => hunchanged.virtToPhys u ?_⟩
    rw [upperIndices_eq]
    exact (h.partWalk_lower hspace (page_lt hu)).clean

/-! ## A page in the middle that is mapped already -/

/-- The page at `0x402000` is mapped. -/
def hhdmMapped : Sys Ram := ⟨(exec hhdmOne.vmm 0x200 (.mapPage 0x402000 0x5000 7)).2, [0x200]⟩

lemma hhdmMapped_treeReachable : TreeReachable hhdmMapped := by
  have hmem : (0x200 : VirtAddr) ∈ hhdmOne.spaces := mem_cons_self
  have hpages : (Op.mapPage 0x402000 0x5000 7).pages = [0x402000] := by decide
  have hlower : pml4Index 0x402000 ∈ lowerHalf := by
    show (pml4Index 0x402000).val < 256
    decide
  refine hhdmOne_treeReachable.step (treeStep_call (mem_cons_of_mem _ hmem) ?_)
  rw [hpages, forall_mem_singleton]
  exact hhdmOne_treeReachable.inv.clean _ hmem _ (upperIndices_length _) (within_cons.mpr hlower)

/-- Four pages are to be mapped and the third one is there: the call fails, and the first two are
unmapped again. -/
theorem vmmMapRange_all_or_nothing_third :
    (vmmMapRange hhdmMapped.vmm 0x200 0x400000 0x8000 0x4000 7).1 = -1 ∧
      Unchanged hhdmMapped.vmm (vmmMapRange hhdmMapped.vmm 0x200 0x400000 0x8000 0x4000 7).2
        0x200 := by
  have hfails : (vmmMapRange hhdmMapped.vmm 0x200 0x400000 0x8000 0x4000 7).1 = -1 := by
    decide +kernel
  have hkernel : (0x200 : VirtAddr) ≠ hhdmMapped.vmm.kernelAs := by decide +kernel
  have hmem : (0x200 : VirtAddr) ∈ hhdmMapped.vmm.kernelAs :: hhdmMapped.spaces :=
    mem_cons_of_mem _ mem_cons_self
  rcases hcall : vmmMapRange hhdmMapped.vmm 0x200 0x400000 0x8000 0x4000 7 with ⟨r, k'⟩
  rw [hcall] at hfails
  have hr : r = -1 := hfails
  rw [hr] at hcall ⊢
  exact ⟨rfl, (vmmMapRange_all_or_nothing hhdmMapped_treeReachable hmem (by decide)
    (fun heq => absurd heq hkernel) hcall).1⟩

end LunOS.Vmm
