import LunOS.Vmm.HardwareWalk
import LunOS.Utils.Forest

/-!
# All address spaces in any run

Calls may be made on every address space and on `kernel_as`, with addresses of both halves. The
upper halves share tables, so a call on one address space may change the others, and the tables of
all of them together form a forest. Calls whose walk meets a large page are left out, as they take
ordinary memory for page tables.

- `Edit.forest`: one change of a call keeps the forest.
- `TreeInv`: what holds in every state that is reached.
-/

namespace LunOS.Vmm
open LunOS.Radix PageMachine LawfulPageMachine Set
open List hiding Disjoint

variable {σ : Type*} [LawfulPageMachine σ]

/-! ## The forest of the tables -/

/-- The tables below the PML4s `roots` are in use, and lower halves are not shared. -/
structure Forest (s : σ) (roots : Set PhysAddr) : Prop where
  forest : IsForest tableTarget (entry s) roots lowerHalf 3
  tables_live : ∀ r ∈ roots, tables tableTarget (entry s) r Set.univ 3 ⊆ live s

/-- The lower half has no large pages. -/
def LowClean (s : σ) (root : PhysAddr) : Prop :=
  ∀ path : List Index, path.length = 3 → Within lowerHalf path → CleanWalk tableTarget s root path

section
variable {s s' : σ} {roots : Set PhysAddr} {r r₀ f : PhysAddr} {q : List Index}

lemma Forest.mem_live (h : Forest s roots) (hr : r ∈ roots) (hlen : q.length ≤ 3)
    (hq : tableAt tableTarget (entry s) r q = some f) : f ∈ live s :=
  h.tables_live r hr ⟨q, hlen, within_univ q, hq⟩

lemma Forest.treeIn (h : Forest s roots) (hr : r ∈ roots) : TreeIn tableTarget Set.univ s r :=
  ⟨h.forest.isTree hr, h.tables_live r hr⟩

/-- The entries above the last level are as they were. -/
lemma Forest.congr (h : Forest s roots) (hlive : live s' = live s)
    (hsame : ∀ r ∈ roots, ∀ x ∈ slots tableTarget (entry s) r Set.univ 3,
      entry s' x.1 x.2 = entry s x.1 x.2) : Forest s' roots := by
  refine ⟨h.forest.congr hsame, fun r hr => ?_⟩
  rw [hlive, tables_congr (hsame r hr)]
  exact h.tables_live r hr

/-- One change keeps the forest, and leaves the lower halves of the other trees alone. -/
lemma Edit.forest (he : Edit tableTarget r₀ s s') (h : Forest s roots) (hr₀ : r₀ ∈ roots) :
    Forest s' roots ∧ ∀ r ∈ roots, r ≠ r₀ → ∀ x ∈ slots tableTarget (entry s) r lowerHalf 4,
      entry s' x.1 x.2 = entry s x.1 x.2 := by
  have hslot : ∀ r ∈ roots, ∀ top, ∀ x ∈ slots tableTarget (entry s) r top 4, x.1 ∈ live s := by
    intro r hr top x ⟨q, hq, _, hqx⟩
    exact h.mem_live hr (by omega) hqx
  cases he with
  | @link s₁ p f g i hp hlen hpresent habsent hnew =>
    rcases (h.treeIn hr₀).linked reads_tableTarget reads_tableTarget.zero hp hlen (within_univ _)
      habsent hnew with ⟨hlink, hentry, hblank, hlive, -⟩
    have hlinked : ForestLinked tableTarget (entry s)
        (entry (store s₁ (f + hhdmOffset σ) i (linkEntry g))) roots 3 r₀ p f i g :=
      ⟨hr₀, hp, hlen, habsent, hlink.target, fun r hr hg => hnew.fresh (h.tables_live r hr hg),
        hlink.empty, fun r hr x hx hne => hentry x.1 (hslot r hr _ x hx) x.2 hne⟩
    refine ⟨⟨hlinked.isForest h.forest, fun r hr => ?_⟩, fun r hr hne x hx => ?_⟩
    · rw [hlive]
      exact (hlinked.tables_sub h.forest hr).trans
        (insert_subset_insert (h.tables_live r hr))
    · refine hentry x.1 (hslot r hr _ x hx) x.2 fun heq => ?_
      exact h.forest.own_ne hr hr₀ hne hp hlen.le hx (Prod.mk.inj heq).1
  | @write p f i e hp hlen =>
    have hf : f ∈ live s := h.mem_live hr₀ hlen.le hp
    have hsame : ∀ r ∈ roots, ∀ top, ∀ x ∈ slots tableTarget (entry s) r top 4, x ≠ (f, i) →
        entry (store s (f + hhdmOffset σ) i e) x.1 x.2 = entry s x.1 x.2 :=
      fun r hr top x hx hne => entry_store_of_ne e hf (hslot r hr top x hx) hne
    refine ⟨h.congr (live_store i e hf) ?_, fun r hr hne x hx => ?_⟩
    · exact h.forest.write hr₀ hp hlen fun r hr => hsame r hr _
    · refine hsame r hr _ x hx fun heq => ?_
      exact h.forest.own_ne hr hr₀ hne hp hlen.le hx (congrArg Prod.fst heq)
  | fails hlive hsame =>
    refine ⟨h.congr hlive fun r hr x hx => ?_, fun r hr _ x hx => ?_⟩
    · exact hsame x.1 (hslot r hr _ x (slots_mono (by omega) hx)) x.2
    · exact hsame x.1 (hslot r hr _ x hx) x.2

/-- The changes of a call. -/
lemma edits_forest (he : Relation.ReflTransGen (Edit tableTarget r₀) s s') (h : Forest s roots)
    (hr₀ : r₀ ∈ roots) :
    Forest s' roots ∧ ∀ r ∈ roots, r ≠ r₀ → LowClean s r → LowClean s' r := by
  induction he with
  | refl => exact ⟨h, fun _ _ _ hclean => hclean⟩
  | tail _ hedit ih =>
    rcases hedit.forest ih.1 hr₀ with ⟨hforest, hsame⟩
    refine ⟨hforest, fun r hr hne hclean path hlen hin => ?_⟩
    refine (ih.2 r hr hne hclean path hlen hin).congr hlen hin fun x hx => ?_
    exact hsame r hr hne x (slots_mono (by omega) hx)

/-- Without large pages the lower half is the same tree for the code. -/
lemma LowClean.tableAt_eq (h : LowClean s r) (hlen : q.length ≤ 3) (hin : Within lowerHalf q) :
    tableAt tableTarget (entry s) r q = tableAt target (entry s) r q := by
  cases q with
  | nil => rfl
  | cons i q =>
    rw [length_cons] at hlen
    have hpath : (i :: (q ++ List.replicate (2 - q.length) i)).length = 3 := by
      rw [length_cons, length_append, length_replicate]
      omega
    exact (h _ hpath (within_cons.mpr (within_cons.mp hin))).tableAt_eq rfl

lemma LowClean.spaceTables_eq (h : LowClean s r) :
    spaceTables s r = tables tableTarget (entry s) r lowerHalf 3 := by
  ext f
  refine exists_congr fun q => and_congr_right fun hlen => and_congr_right fun hin => ?_
  rw [h.tableAt_eq hlen hin]

lemma LowClean.lowerTree (h : LowClean s r) (hforest : Forest s roots) (hr : r ∈ roots) :
    TreeIn target lowerHalf s r where
  tree p q f hp hq hin hin' hpf hqf := by
    rw [← h.tableAt_eq hp hin] at hpf
    rw [← h.tableAt_eq hq hin'] at hqf
    exact hforest.forest.isTree hr p q f hp hq (within_univ p) (within_univ q) hpf hqf
  tables_live := by
    show spaceTables s r ⊆ live s
    rw [h.spaceTables_eq]
    exact fun f ⟨q, hlen, _, hq⟩ => hforest.mem_live hr hlen hq

end

/-! ## Steps -/

/-- An operation on the address spaces that exist. A call on one of them, or on `kernel_as`, meets
no large page. -/
inductive TreeStep : Sys σ → Sys σ → Prop
  | create {k l as k'} : vmmCreateAddressSpace k = (as, k') →
    TreeStep ⟨k, l⟩ ⟨k', if as = 0 then l else as :: l⟩
  | destroy {k l as} : as ∈ l → TreeStep ⟨k, l⟩ ⟨vmmDestroyAddressSpace k as, l.erase as⟩
  | call {k l as op} : as ∈ k.kernelAs :: l →
    (∀ v ∈ op.pages, CleanWalk tableTarget k.machine (rootOf k as) (upperIndices v)) →
    TreeStep ⟨k, l⟩ ⟨(exec k as op).2, l⟩

/-- The states that these steps reach from `vmm_init`. The boot loader's tables form a tree, of
frames that the allocator does not hand out. -/
def TreeReachable : Sys σ → Prop := Runs.Reachable (Booted (TreeIn tableTarget Set.univ)) TreeStep

lemma treeStep_create {x : Sys σ} {as : VirtAddr} (has : (vmmCreateAddressSpace x.vmm).1 = as)
    (hne : as ≠ 0) : TreeStep x ⟨(vmmCreateAddressSpace x.vmm).2, as :: x.spaces⟩ := by
  have hstep : TreeStep x ⟨_, if as = 0 then x.spaces else as :: x.spaces⟩ :=
    TreeStep.create (Prod.ext has rfl)
  rw [if_neg hne] at hstep
  exact hstep

lemma treeStep_call {x : Sys σ} {as : VirtAddr} {op : Op} (has : as ∈ x.vmm.kernelAs :: x.spaces)
    (hop : ∀ v ∈ op.pages,
      CleanWalk tableTarget x.vmm.machine (rootOf x.vmm as) (upperIndices v)) :
    TreeStep x ⟨(exec x.vmm as op).2, x.spaces⟩ :=
  TreeStep.call has hop

/-- The PML4s of the address spaces and of `kernel_as`. -/
def rootsOf (k : VmmState σ) (l : List VirtAddr) : Set PhysAddr :=
  {r | ∃ a ∈ k.kernelAs :: l, rootOf k a = r}

/-- The tables of all address spaces form trees that share nothing. -/
structure TreeInv (k : VmmState σ) (l : List VirtAddr) : Prop where
  nodup : (k.kernelAs :: l).Nodup
  nonnull : ∀ a ∈ k.kernelAs :: l, a ≠ 0
  object : ∀ a ∈ k.kernelAs :: l, a ∈ objects k.machine
  inj : ∀ a ∈ k.kernelAs :: l, ∀ b ∈ k.kernelAs :: l, rootOf k a = rootOf k b → a = b
  forest : Forest k.machine (rootsOf k l)
  clean : ∀ a ∈ l, LowClean k.machine (rootOf k a)

section
variable {k k' : VmmState σ} {l m : List VirtAddr} {X : Set PhysAddr} {as : VirtAddr}

lemma TreeInv.mem_roots {a : VirtAddr} (ha : a ∈ k.kernelAs :: l) : rootOf k a ∈ rootsOf k l :=
  ⟨a, ha, rfl⟩

section
variable (h : TreeInv k l)
include h

lemma TreeInv.partRep (ha : as ∈ k.kernelAs :: l) :
    PartRep tableTarget Set.univ k as (rootOf k as) :=
  ⟨h.nonnull as ha, pml4_eq k as, h.forest.treeIn (mem_roots ha)⟩

/-- The tables of other address spaces are not below the lower half of this one. -/
lemma TreeInv.disjoint (has : as ∈ l) {b : VirtAddr} (hb : b ∈ k.kernelAs :: l.erase as) :
    Disjoint (tablesOf k as) (tables tableTarget (entry k.machine) (rootOf k b) Set.univ 3) := by
  have hbl : b ∈ k.kernelAs :: l :=
    cons_subset_cons _ erase_subset hb
  have hne : b ≠ as := by
    rcases mem_cons.mp hb with hb | hb
    · rw [hb]
      exact (ne_of_mem_of_not_mem has (nodup_cons.mp h.nodup).1).symm
    · exact ((nodup_cons.mp h.nodup).2.mem_erase_iff.mp hb).1
  have hmem := mem_cons_of_mem k.kernelAs has
  unfold tablesOf
  rw [(h.clean as has).spaceTables_eq]
  refine disjoint_left.mpr fun f ⟨p, hp, hin, hpf⟩ ⟨q, hq, _, hqf⟩ => ?_
  rcases h.forest.forest _ (mem_roots hmem) _ (mem_roots hbl) p q f hp hq hpf hqf with ⟨-, hout⟩
  exact hout (fun heq => hne (h.inj as hmem b hbl heq).symm) hin

/-- The invariant of the address spaces that an operation leaves alone. -/
lemma TreeInv.untouched (hu : Untouched k k' X m) (hm : m.Sublist l) (hX : ∀ b ∈ k.kernelAs :: m,
      Disjoint X (tables tableTarget (entry k.machine) (rootOf k b) Set.univ 3)) :
    TreeInv k' m ∧ ∀ b ∈ k.kernelAs :: m, rootOf k' b = rootOf k b ∧
      tables tableTarget (entry k'.machine) (rootOf k b) Set.univ 3 =
        tables tableTarget (entry k.machine) (rootOf k b) Set.univ 3 := by
  have hsub : ∀ b ∈ k.kernelAs :: m, b ∈ k.kernelAs :: l :=
    fun b hb => cons_subset_cons _ hm.subset hb
  have hroot : ∀ b ∈ k.kernelAs :: m, rootOf k' b = rootOf k b :=
    fun b hb => hu.rootOf_eq (mem_cons.mp hb)
  have hentry : ∀ b ∈ k.kernelAs :: m, ∀ q f, q.length ≤ 3 →
      tableAt tableTarget (entry k.machine) (rootOf k b) q = some f →
      f ∈ live k'.machine ∧ ∀ i, entry k'.machine f i = entry k.machine f i := by
    intro b hb q f hlen hq
    have hf := h.forest.mem_live (mem_roots (hsub b hb)) hlen hq
    have hout : f ∉ X := fun hfX =>
      disjoint_left.mp (hX b hb) hfX ⟨q, hlen, within_univ q, hq⟩
    exact ⟨hu.live_sub f hf hout, hu.entries f hf hout⟩
  have hslots : ∀ b ∈ k.kernelAs :: m, ∀ top,
      ∀ x ∈ slots tableTarget (entry k.machine) (rootOf k b) top 3,
      entry k'.machine x.1 x.2 = entry k.machine x.1 x.2 := by
    intro b hb top x ⟨q, hlen, _, hq⟩
    exact (hentry b hb q x.1 hlen.le hq).2 x.2
  have htables := fun b hb => tables_congr (hslots b hb Set.univ)
  have hroots : rootsOf k' m = {r | ∃ a ∈ k.kernelAs :: m, rootOf k a = r} := by
    unfold rootsOf
    rw [hu.kernelAs]
    ext r
    refine exists_congr fun a => and_congr_right fun ha => ?_
    rw [hroot a ha]
  have hsubset : {r | ∃ a ∈ k.kernelAs :: m, rootOf k a = r} ⊆ rootsOf k l :=
    fun r ⟨a, ha, hr⟩ => ⟨a, hsub a ha, hr⟩
  refine ⟨⟨?_, ?_, fun a ha => ?_, fun a ha b hb heq => ?_, ?_, fun a ha path hlen hin => ?_⟩,
    fun b hb => ⟨hroot b hb, htables b hb⟩⟩
  · rw [hu.kernelAs]
    exact h.nodup.sublist (hm.cons_cons _)
  · rw [hu.kernelAs]
    exact fun a ha => h.nonnull a (hsub a ha)
  · rw [hu.kernelAs] at ha
    exact hu.objects_sub a (mem_cons.mp ha) (h.object a (hsub a ha))
  · rw [hu.kernelAs] at ha hb
    rw [hroot a ha, hroot b hb] at heq
    exact h.inj a (hsub a ha) b (hsub b hb) heq
  · rw [hroots]
    have hold : IsForest tableTarget (entry k.machine)
        {r | ∃ a ∈ k.kernelAs :: m, rootOf k a = r} lowerHalf 3 :=
      fun r hr r' hr' => h.forest.forest r (hsubset hr) r' (hsubset hr')
    refine ⟨hold.congr fun r ⟨b, hb, hr⟩ => hr ▸ hslots b hb Set.univ, fun r ⟨b, hb, hr⟩ => ?_⟩
    rw [← hr, htables b hb]
    exact fun f ⟨q, hlen, _, hq⟩ => (hentry b hb q f hlen hq).1
  · have hmem := mem_cons_of_mem k.kernelAs ha
    rw [hroot a hmem]
    exact (h.clean a (hm.subset ha) path hlen hin).congr hlen hin (hslots a hmem lowerHalf)

/-! ## The operations -/

/-- A call on one address space. -/
lemma TreeInv.call (has : as ∈ k.kernelAs :: l) {op : Op}
    (hop : ∀ v ∈ op.pages, CleanWalk tableTarget k.machine (rootOf k as) (upperIndices v)) :
    TreeInv (exec k as op).2 l := by
  have heffect : PartEffect tableTarget Set.univ Set.univ k (exec k as op).2 as (rootOf k as) := by
    refine exec_part reads_tableTarget (h.partRep has) fun w hw => ?_
    have hclean := hop w hw
    rw [upperIndices_eq] at hclean
    exact ⟨inPart_univ _, inPart_univ _, hclean⟩
  have hroot : ∀ b, rootOf (exec k as op).2 b = rootOf k b := by
    intro b
    unfold rootOf
    by_cases hb : b = as
    · rw [hb, heffect.pml4]
    · rw [heffect.others b hb]
  have hroots : rootsOf (exec k as op).2 l = rootsOf k l := by
    unfold rootsOf
    simp only [hroot, heffect.kernelAs]
  rcases edits_forest heffect.edits h.forest (mem_roots has) with ⟨hforest, hclean⟩
  refine ⟨?_, ?_, ?_, ?_, ?_, fun a ha => ?_⟩
  · rw [heffect.kernelAs]
    exact h.nodup
  · rw [heffect.kernelAs]
    exact h.nonnull
  · rw [heffect.kernelAs, heffect.grows.objects_eq]
    exact h.object
  · simp only [hroot, heffect.kernelAs]
    exact h.inj
  · rw [hroots]
    exact hforest
  · rw [hroot]
    have hmem := mem_cons_of_mem k.kernelAs ha
    by_cases hne : a = as
    · intro path hlen hin
      rw [hne]
      exact heffect.clean path hlen (within_univ path) (hne ▸ h.clean a ha path hlen hin)
    · refine hclean _ (mem_roots hmem) (fun heq => hne ?_) (h.clean a ha)
      exact h.inj a hmem as has heq

/-- An address space is destroyed. -/
lemma TreeInv.destroy (has : as ∈ l) : TreeInv (vmmDestroyAddressSpace k as) (l.erase as) := by
  have hmem := mem_cons_of_mem k.kernelAs has
  have hkernel : as ≠ k.kernelAs := ne_of_mem_of_not_mem has (nodup_cons.mp h.nodup).1
  have hinv := (h.clean as has).lowerTree h.forest (mem_roots hmem)
  refine (h.untouched (vmmDestroyAddressSpace_untouched (h.nonnull as hmem) hinv hkernel
    (h.object as hmem) fun b hb => ?_) erase_sublist fun b hb => h.disjoint has hb).1
  rcases hb with hb | hb
  · rw [hb]
    exact hkernel.symm
  · exact ((nodup_cons.mp h.nodup).2.mem_erase_iff.mp hb).1

/-- One more address space, with the upper half of `kernel_as`. -/
lemma TreeInv.add (has : as ≠ 0) (hobject : as ∈ objects k.machine) (hnew : as ∉ k.kernelAs :: l)
    (hlive : rootOf k as ∈ live k.machine) (hfresh : ∀ r ∈ rootsOf k l,
      rootOf k as ∉ tables tableTarget (entry k.machine) r Set.univ 3)
    (hown : ∀ i ∈ lowerHalf, target (entry k.machine (rootOf k as) i) = none)
    (hcopy : ∀ i, i ∉ lowerHalf →
      entry k.machine (rootOf k as) i = entry k.machine (rootOf k k.kernelAs) i) :
    TreeInv k (as :: l) := by
  have hkernel : rootOf k k.kernelAs ∈ rootsOf k l := mem_roots mem_cons_self
  have hne : ∀ b ∈ k.kernelAs :: l, rootOf k b ≠ rootOf k as := by
    intro b hb heq
    refine hfresh _ (mem_roots hb) ?_
    rw [heq]
    exact root_mem_tables
  have hown' : ∀ i ∈ lowerHalf, tableTarget (entry k.machine (rootOf k as) i) = none := by
    intro i hi
    unfold tableTarget
    rw [hown i hi, ite_self]
  have hroots : rootsOf k (as :: l) = insert (rootOf k as) (rootsOf k l) := by
    ext r
    unfold rootsOf
    simp only [mem_ofPred_eq, mem_insert_iff, mem_cons, exists_eq_or_imp]
    rw [or_left_comm, eq_comm (a := rootOf k as)]
  have hperm : (as :: k.kernelAs :: l).Perm (k.kernelAs :: as :: l) := List.Perm.swap _ _ _
  have hall : ∀ {P : VirtAddr → Prop}, P as → (∀ b ∈ k.kernelAs :: l, P b) →
      ∀ b ∈ k.kernelAs :: as :: l, P b :=
    fun hP hrest b hb => forall_mem_cons.mpr ⟨hP, hrest⟩ b (hperm.mem_iff.mpr hb)
  refine ⟨?_, hall has h.nonnull, hall hobject h.object, ?_, ?_, ?_⟩
  · exact hperm.nodup_iff.mp (nodup_cons.mpr ⟨hnew, h.nodup⟩)
  · refine hall (hall (fun _ => rfl) fun b hb heq => absurd heq.symm (hne b hb)) fun a ha => ?_
    exact hall (fun heq => absurd heq (hne a ha)) (h.inj a ha)
  · rw [hroots]
    refine ⟨h.forest.forest.copy hkernel hfresh (fun _ _ _ _ => rfl) hown' hcopy, fun r hr => ?_⟩
    rcases hr with hr | hr
    · intro f ⟨q, hlen, _, hq⟩
      rw [hr] at hq
      rcases IsForest.tableAt_copy hkernel (fun _ _ _ _ => rfl) hown' hcopy hlen hq with
        ⟨-, hf⟩ | ⟨-, hq'⟩
      · rw [hf]
        exact hlive
      · exact h.forest.mem_live hkernel hlen hq'
    · exact h.forest.tables_live r hr
  · refine forall_mem_cons.mpr ⟨fun path hlen hin => ?_, h.clean⟩
    cases path with
    | nil => cases hlen
    | cons i path =>
      have hi := within_cons.mp hin
      refine CleanWalk.cons ((hown' i hi).trans (hown i hi).symm) fun g hg => ?_
      exact absurd ((hown' i hi).symm.trans hg) (by simp)

end

/-- The entries of a new address space in its lower half. -/
lemma Created.lower_absent {root : PhysAddr} (h : Created k k' as root) {i : Index}
    (hi : i ∈ lowerHalf) : target (entry k'.machine root i) = none := by
  by_contra hsome
  rcases Option.ne_none_iff_exists'.mp hsome with ⟨g, hg⟩
  have hpath : tableAt target (entry k'.machine) root [i] = some g := by
    rw [tableAt_cons, hg]
    rfl
  have hmem : g ∈ spaceTables k'.machine root := ⟨[i], by simp, within_cons.mpr hi, hpath⟩
  rw [h.tables_eq, mem_singleton_iff] at hmem
  rw [hmem] at hpath
  have hnil := h.rep.tree.tree [i] [] root (by simp) (by simp) (within_cons.mpr hi) within_nil
    hpath rfl
  cases hnil

/-- An address space is created. -/
lemma TreeInv.create (h : TreeInv k l) (hcreate : vmmCreateAddressSpace k = (as, k')) :
    TreeInv k' (if as = 0 then l else as :: l) := by
  have hu := vmmCreateAddressSpace_untouched (fun b hb => h.object b (mem_cons.mpr hb)) hcreate
  rcases h.untouched hu (List.Sublist.refl l) fun _ _ => empty_disjoint _ with ⟨hold, hsame⟩
  by_cases has : as = 0
  · rw [if_pos has]
    exact hold
  rw [if_neg has]
  rcases vmmCreateAddressSpace_created hcreate has with ⟨root, hc⟩
  have hroot : rootOf k' as = root := hc.rep.rootOf_eq
  have hmem : k.kernelAs ∈ k.kernelAs :: l := mem_cons_self
  have hlive : rootOf k k.kernelAs ∈ live k.machine :=
    h.forest.tables_live _ (mem_roots hmem) root_mem_tables
  have hkernel : k.kernelAs ≠ as := ne_of_mem_of_not_mem (h.object _ hmem) hc.object
  refine hold.add has ?_ ?_ ?_ ?_ ?_ ?_
  · rw [hc.objects_eq]
    exact mem_insert _ _
  · rw [hc.kernelAs]
    exact fun hin => hc.object (h.object as hin)
  · rw [hroot, hc.live_eq]
    exact mem_insert _ _
  · intro r ⟨b, hb, hr⟩
    rw [hc.kernelAs] at hb
    rw [← hr, hroot, (hsame b hb).1, (hsame b hb).2]
    exact fun hin => hc.fresh (h.forest.tables_live _ (mem_roots hb) hin)
  · rw [hroot]
    exact fun i hi => hc.lower_absent hi
  · intro i hi
    rw [hroot, hc.kernelAs, (hsame _ hmem).1, hc.entries _ hlive]
    exact hc.upper (h.nonnull _ hmem) hkernel _ hlive (pml4_eq k _) i hi

end

/-- The state after `vmm_init`. -/
lemma TreeInv.init {s : σ} {cr3 : PhysAddr} {k : VmmState σ} (hinit : vmmInit s cr3 = some (0, k))
    (htree : TreeIn tableTarget Set.univ s cr3) : TreeInv k [] := by
  rcases vmmInit_ok hinit with ⟨hroot, hmachine, hptr, hnonnull⟩
  have hslots : ∀ x ∈ slots tableTarget (entry s) cr3 Set.univ 3,
      entry k.machine x.1 x.2 = entry s x.1 x.2 := by
    intro x hx
    rw [hmachine]
    exact load_kmalloc x.2 sizeofAddrSpace_le
      (htree.tables_live (mem_tables_of_slots (slots_mono (by omega) hx)))
  have hroots : rootsOf k [] = {cr3} := by
    ext r
    unfold rootsOf
    simp only [mem_ofPred_eq, List.mem_singleton, exists_eq_left, hroot]
    exact eq_comm
  refine ⟨nodup_singleton _, ?_, ?_, ?_, ?_, by simp⟩
  · rw [forall_mem_singleton, hptr]
    exact hnonnull
  · rw [forall_mem_singleton, hptr, hmachine, objects_kmalloc sizeofAddrSpace_le hnonnull]
    exact mem_insert _ _
  · intro a ha b hb _
    rw [mem_singleton.mp ha, mem_singleton.mp hb]
  · have hforest : Forest s {cr3} := by
      refine ⟨fun r hr r' hr' p q f hp hq hpf hqf => ?_, fun r hr => ?_⟩
      · rw [hr] at hpf
        rw [hr'] at hqf
        exact ⟨htree.tree p q f hp hq (within_univ p) (within_univ q) hpf hqf,
          fun hne => absurd (hr.trans hr'.symm) hne⟩
      · rw [hr]
        exact htree.tables_live
    rw [hroots]
    refine hforest.congr (by rw [hmachine, live_kmalloc sizeofAddrSpace_le]) fun r hr => ?_
    rw [hr]
    exact hslots

/-- One step keeps the trees. -/
lemma TreeInv.step {x y : Sys σ} (h : TreeInv x.vmm x.spaces) (hstep : TreeStep x y) :
    TreeInv y.vmm y.spaces := by
  cases hstep with
  | create hcreate => exact h.create hcreate
  | destroy has => exact h.destroy has
  | call has hop => exact h.call has hop

lemma TreeReachable.inv {x : Sys σ} (h : TreeReachable x) : TreeInv x.vmm x.spaces := by
  refine h.invariant (fun x hx => ?_) fun x y hinv hstep => hinv.step hstep
  rcases hx with ⟨s, cr3, k, hinit, htree, rfl⟩
  exact TreeInv.init hinit htree

lemma hhdmState_treeReachable : TreeReachable ⟨hhdmState, []⟩ :=
  .init (hhdmState_booted (hhdmRam_tree _))

lemma hhdmOne_treeReachable : TreeReachable hhdmOne :=
  hhdmState_treeReachable.step (treeStep_create (by decide +kernel) (by decide))

end LunOS.Vmm
