import LunOS.Vmm.Tables

/-!
# Calls on a part of an address space

What the calls do to the tables below a part `top` of a PML4 that form a tree when entries are read
by `child`. Nothing is assumed of the physical addresses and the flags.

- `PartRep`: the part of the address space at `as` is a tree.
- `PartEffect`: what every call does to the tables.
- `mapPage_part`, `unmapPage_part`, `mapLoop_part`, `unmapLoop_part`: what the calls do to the pages.
-/

namespace LunOS.Vmm
open LunOS.Radix PageMachine LawfulPageMachine List

variable {σ : Type*} [LawfulPageMachine σ]

/-! ## Pages of a part -/

/-- The page has its place below the part `top` of a PML4. -/
def InPart (top : Set Index) (n : ℕ) : Prop := Fin.ofNat 512 (n / 2 ^ 27) ∈ top

variable {n x : ℕ} {top : Set Index} {s : σ} {r : ℤ} {p : PhysAddr} {flags size : BitVec 64}
  {m m' : PageMap} {frame : ℕ → PhysAddr}

lemma within_path (h : InPart top n) (q : List Index) :
    Within top (pathOf n ++ q) :=
  within_cons.mpr h

lemma inPart_univ (n : ℕ) : InPart Set.univ n := Set.mem_univ _

/-- Pages have the same indices if they agree in the low 36 bits of their number. -/
lemma samePath_iff {m : ℕ} :
    pathOf m = pathOf n ∧ slotOf m = slotOf n ↔ m % 2 ^ 36 = n % 2 ^ 36 := by
  simp only [pathOf, slotOf, List.cons.injEq, Fin.ext_iff, Fin.val_ofNat, and_true]
  constructor
  · intro h
    omega
  · intro h
    have h₁ : m / 2 ^ 27 % 512 = n / 2 ^ 27 % 512 := by omega
    have h₂ : m / 2 ^ 18 % 512 = n / 2 ^ 18 % 512 := by omega
    have h₃ : m / 2 ^ 9 % 512 = n / 2 ^ 9 % 512 := by omega
    have h₄ : m % 512 = n % 512 := by omega
    exact ⟨⟨h₁, h₂, h₃⟩, h₄⟩

/-- What a page is mapped to, when the tables are read by `child`. -/
def pageIn (child : EntryReader) (s : σ) (root : PhysAddr) : PageMap := fun n =>
  leaf child target (entry s) root (pathOf n) (slotOf n)

/-- The paths of the tables that the walk of page `n` goes through. -/
def pagePaths (n : ℕ) : Finset (List Index) := wayPaths [] (pathOf n)

/-- The paths of the tables for the pages `x, …, x + n - 1`. -/
def rangePaths (x n : ℕ) : Finset (List Index) := (Finset.range n).biUnion fun i => pagePaths (x + i)

lemma rangePaths_succ (x n : ℕ) : rangePaths x (n + 1) = rangePaths x n ∪ pagePaths (x + n) := by
  unfold rangePaths
  rw [Finset.range_add_one, Finset.biUnion_insert, Finset.union_comm]

lemma rangePaths_mono (x : ℕ) {m : ℕ} (h : m ≤ n) : rangePaths x m ⊆ rangePaths x n :=
  Finset.biUnion_subset_biUnion_of_subset_left _ (Finset.range_mono h)

lemma pagePaths_inside (h : InPart top n) :
    ∀ q ∈ pagePaths n, q.length ≤ 3 ∧ Within top q :=
  fun _ hq => inside_of_mem_wayPaths (p := []) (r := pathOf n) (Nat.le_refl 3) (within_cons.mpr h) hq

lemma rangePaths_inside (h : ∀ i < n, InPart top (x + i)) :
    ∀ q ∈ rangePaths x n, q.length ≤ 3 ∧ Within top q := by
  intro q hq
  rcases Finset.mem_biUnion.mp hq with ⟨i, hi, hq⟩
  exact pagePaths_inside (h i (Finset.mem_range.mp hi)) q hq

/-- The map with another value for the pages with the indices of page `n`. -/
def PageMap.setPage (m : PageMap) (n : ℕ) (x : Option PhysAddr) : PageMap := fun j =>
  if j % 2 ^ 36 = n % 2 ^ 36 then x else m j

lemma pageIn_congr {child : EntryReader} {root : PhysAddr} {m : ℕ}
    (h : m % 2 ^ 36 = n % 2 ^ 36) : pageIn child s root m = pageIn child s root n := by
  unfold pageIn
  rw [(samePath_iff.mpr h).1, (samePath_iff.mpr h).2]

/-- The frame in the entry that maps a page to `p`. -/
def mappedFrame (p : PhysAddr) (flags : BitVec 64) : PhysAddr :=
  pteAddr (vmmPageAlignDown p ||| flags)

lemma target_mapped (p : PhysAddr) (flags : BitVec 64) :
    target (vmmPageAlignDown p ||| flags ||| ptePresent) = some (mappedFrame p flags) := by
  have hzero : pteAddr ptePresent = 0 := by decide
  rw [target_of_present (or_ptePresent_ne_zero _), pteAddr_or _ ptePresent, hzero]
  unfold mappedFrame
  simp

/-! ## Trees -/

/-- The address space at `as` has its PML4 at `root`, and the part `top` of it is a tree. -/
structure PartRep (child : EntryReader) (top : Set Index) (k : VmmState σ)
    (as : VirtAddr) (root : PhysAddr) : Prop where
  nonnull : as ≠ 0
  pml4 : (k.spaces as).pml4 = root + hhdmOffset σ
  tree : TreeIn child top k.machine root

/-- A call that goes through the entries `T` of the PML4 writes only to tables of the part, and fills
only empty entries of `T`. -/
structure PartEffect (child : EntryReader) (top T : Set Index)
    (k k' : VmmState σ) (as : VirtAddr) (root : PhysAddr) : Prop where
  grows : GrowsIn child top k.machine k'.machine root
  edits : Relation.ReflTransGen (Edit child root) k.machine k'.machine
  filled : ∀ i, i ∉ T ∨ child (entry k.machine root i) ≠ none →
    entry k'.machine root i = entry k.machine root i
  clean : ∀ path, path.length = 3 → Within top path →
    CleanWalk child k.machine root path → CleanWalk child k'.machine root path
  pml4 : (k'.spaces as).pml4 = (k.spaces as).pml4
  others : ∀ b, b ≠ as → k'.spaces b = k.spaces b
  kernelAs : k'.kernelAs = k.kernelAs

/-- The walk of page `n` goes through an entry of `T`, and reads the entries as `child` does. -/
structure PartWalk (child : EntryReader) (top T : Set Index) (s : σ)
    (root : PhysAddr) (n : ℕ) : Prop where
  mem : InPart T n
  inside : InPart top n
  clean : CleanWalk child s root (pathOf n)

section
variable {child : EntryReader} {top T : Set Index} {k k' k'' : VmmState σ}
variable {as v : VirtAddr} {root : PhysAddr} {n : ℕ}

lemma PartEffect.refl (h : TreeIn child top k.machine root) : PartEffect child top T k k as root :=
  ⟨GrowsIn.refl h, .refl, fun _ _ => rfl, fun _ _ _ hclean => hclean, rfl, fun _ _ => rfl, rfl⟩

section
variable (h : PartEffect child top T k k' as root)
include h

/-- One effect after another. -/
lemma PartEffect.trans (h' : PartEffect child top T k' k'' as root) :
    PartEffect child top T k k'' as root where
  grows := h.grows.trans h'.grows
  edits := h.edits.trans h'.edits
  filled i hi := by
    have hsame := h.filled i hi
    rw [← hsame] at hi
    rw [h'.filled i hi, hsame]
  clean path hlen hin hclean := h'.clean path hlen hin (h.clean path hlen hin hclean)
  pml4 := h'.pml4.trans h.pml4
  others b hb := (h'.others b hb).trans (h.others b hb)
  kernelAs := h'.kernelAs.trans h.kernelAs

lemma PartEffect.rep (hrep : PartRep child top k as root) : PartRep child top k' as root :=
  ⟨hrep.nonnull, h.pml4.trans hrep.pml4, h.grows.inv⟩

lemma PartEffect.walk (hn : PartWalk child top T k.machine root n) :
    PartWalk child top T k'.machine root n := by
  have hin := within_path hn.inside []
  rw [append_nil] at hin
  exact ⟨hn.mem, hn.inside, h.clean _ rfl hin hn.clean⟩

end

variable {f : PhysAddr}

/-- On a clean walk both readings of the entries lead the same way. -/
lemma CleanWalk.tableAt_eq {path q r : List Index} (h : CleanWalk child s f path)
    (hpath : path = q ++ r) :
    tableAt child (entry s) f q = tableAt target (entry s) f q := by
  induction q using List.reverseRecOn generalizing r with
  | nil => rfl
  | append_singleton q i ih =>
    have hsplit : path = q ++ i :: r := by simpa using hpath
    rw [tableAt_concat, tableAt_concat, ← ih hsplit]
    cases hq : tableAt child (entry s) f q with
    | none => rfl
    | some g => exact h q i r g hsplit hq

lemma PartRep.walk_ok (h : PartRep child top k as root) : ¬(as = 0 ∨ (k.spaces as).pml4 = 0) := by
  rw [h.pml4]
  exact not_or.mpr ⟨h.nonnull, mapped h.tree.root_live⟩

/-- A walk that creates nothing. -/
lemma vmmWalkPageTable_lookup (hnull : as ≠ 0) (hpml4 : (k.spaces as).pml4 = root + hhdmOffset σ)
    (hroot : root ∈ live k.machine) (v : VirtAddr) :
    vmmWalkPageTable k as v false =
      ((tableAt target (entry k.machine) root (upperIndices v)).map
        fun f => (f + hhdmOffset σ, ptIndex v), k) := by
  have hwalk : ¬(as = 0 ∨ (k.spaces as).pml4 = 0) := by
    rw [hpml4]
    exact not_or.mpr ⟨hnull, mapped hroot⟩
  unfold vmmWalkPageTable
  rw [if_neg hwalk, hpml4, walkLevels_lookup]
  simp only [Option.map_map]
  rfl

/-- A walk that creates tables. -/
lemma vmmWalkPageTable_part (hreads : Reads child) (h : PartRep child top k as root)
    (hv : PartWalk child top T k.machine root (page v)) {r : Option (VirtAddr × Index)}
    (hwalk : vmmWalkPageTable k as v true = (r, k')) :
    PartEffect child top T k k' as root ∧ k'.spaces = k.spaces ∧
      (∀ j, InPart top j → pageIn child k'.machine root j = pageIn child k.machine root j) ∧
      (r = none → RunsOut k.machine (missing child (entry k.machine) root (pagePaths (page v)))) ∧
      ∀ x, r = some x → Filled child top k.machine k'.machine root (pagePaths (page v)) ∧
        ∃ f, x = (f + hhdmOffset σ, slotOf (page v)) ∧
          tableAt child (entry k'.machine) root (pathOf (page v)) = some f := by
  unfold vmmWalkPageTable at hwalk
  rw [if_neg h.walk_ok, h.pml4, upperIndices_eq] at hwalk
  rcases hlevels : walkLevels true (pathOf (page v)) (root + hhdmOffset σ) k.machine with ⟨r', s⟩
  rw [hlevels, Prod.mk.injEq] at hwalk
  have hlen : ([] : List Index).length + (pathOf (page v)).length = 3 := rfl
  rcases walkLevels_grows hreads h.tree rfl hlen (within_cons.mpr hv.inside) hv.clean hlevels with
    ⟨hwalked, hfails, hsome⟩
  have hhead : ∀ i, i ∉ T → ([] ++ pathOf (page v)).head? ≠ some i := by
    intro i hi heq
    rw [← Option.some.inj heq] at hi
    exact hi hv.mem
  rw [← hwalk.1, ← hwalk.2]
  refine ⟨⟨hwalked.grows, hwalked.edits, fun i hi => hwalked.root_eq i (hi.imp_left (hhead i)),
    hwalked.clean, rfl, fun _ _ => rfl, rfl⟩, rfl,
    fun j hj => hwalked.leaf_eq target target_zero _ _ rfl (within_path hj _),
    fun hr => hfails ?_, fun x hx => ?_⟩
  · exact Option.map_eq_none_iff.mp hr
  · rcases Option.map_eq_some_iff.mp hx with ⟨pt, hpt, hxpt⟩
    rcases hsome pt hpt with ⟨hfilled, f, hf, htable⟩
    refine ⟨hfilled, f, ?_, htable⟩
    rw [← hxpt, hf, ptIndex_eq]

/-- A write to the entry of a page. -/
lemma PartRep.storeLeaf (h : PartRep child top k as root) (hn : InPart top n)
    (hf : tableAt child (entry k.machine) root (pathOf n) = some f) (e : PageTableEntry)
    (total : BitVec 64) :
    let k' := { k with machine := store k.machine (f + hhdmOffset σ) (slotOf n) e }.setSpace as
      { k.spaces as with totalPages := total }
    PartEffect child top T k k' as root ∧
      (∀ j, InPart top j → pageIn child k'.machine root j =
        (pageIn child k.machine root).setPage n (target e) j) ∧
      (k'.spaces as).totalPages = total ∧ Filled child top k.machine k'.machine root ∅ := by
  intro k'
  have hin := within_path hn []
  rw [append_nil] at hin
  have hflive : f ∈ live k.machine := h.tree.tables_live ⟨pathOf n, Nat.le_refl 3, hin, hf⟩
  rcases h.tree.writeLeaf (i := slotOf n) rfl hin hf e with ⟨hgrows, hmem⟩
  have hslots := h.tree.tree.tableAt_write hf rfl hin hmem
  have hspace : k'.spaces as = { k.spaces as with totalPages := total } :=
    VmmState.setSpace_self _ _ _
  refine ⟨⟨hgrows, .single (.write _ e hf rfl), fun j _ => ?_,
    fun p hplen hpin hclean => hclean.congr hplen hpin hslots, ?_,
    fun b hb => VmmState.setSpace_of_ne _ _ _ hb, rfl⟩, fun j hj => ?_, by rw [hspace],
    Filled.of_slots hslots (Takes.refl.store _ e hflive)⟩
  · have hne : f ≠ root := h.tree.ne_root (p := pathOf n) (by simp [pathOf]) (Nat.le_refl 3) hin hf
    exact entry_store_of_ne e hflive h.tree.root_live fun heq => hne (Prod.mk.inj heq).1.symm
  · rw [hspace]
  · show leaf child target (entry (store _ _ _ _)) root (pathOf j) (slotOf j) = _
    unfold PageMap.setPage
    split_ifs with hsame
    · rw [(samePath_iff.mpr hsame).1, (samePath_iff.mpr hsame).2]
      unfold leaf
      rw [tableAt_congr (p := pathOf n) hslots (Nat.le_refl 3) hin, hf]
      show target (entry _ f (slotOf n)) = target e
      rw [entry_store_self _ _ hflive]
    · exact h.tree.tree.leaf_write hf rfl hin hmem rfl (within_path hj _)
        fun heq => hsame (samePath_iff.mp heq)

/-- The entry of a page in the last table of its path. -/
lemma pageIn_eq (hf : tableAt child (entry s) root (pathOf n) = some f) :
    pageIn child s root n = target (entry s f (slotOf n)) := by
  unfold pageIn leaf
  rw [hf]
  rfl

/-! ## Single pages -/

lemma alignDown_walk (hv : PartWalk child top T k.machine root (page v)) :
    PartWalk child top T k.machine root (page (vmmPageAlignDown v)) := by
  rw [page_alignDown]
  exact hv

/-- What mapping one page does. -/
lemma mapPage_part (hreads : Reads child) (h : PartRep child top k as root)
    (hv : PartWalk child top T k.machine root (page v)) (hcall : mapPage k as v p flags = (r, k')) :
    PartEffect child top T k k' as root ∧
      ((r = 0 ∧ pageIn child k.machine root (page v) = none ∧
        (∀ j, InPart top j → pageIn child k'.machine root j =
          (pageIn child k.machine root).setPage (page v) (some (mappedFrame p flags)) j) ∧
        (k'.spaces as).totalPages = (k.spaces as).totalPages + 1 ∧
        Filled child top k.machine k'.machine root (pagePaths (page v))) ∨
      (r = -1 ∧
        (∀ j, InPart top j → pageIn child k'.machine root j = pageIn child k.machine root j) ∧
        (k'.spaces as).totalPages = (k.spaces as).totalPages ∧
        (pageIn child k.machine root (page v) ≠ none ∨
          RunsOut k.machine (missing child (entry k.machine) root (pagePaths (page v)))))) := by
  unfold mapPage at hcall
  rw [if_neg h.nonnull] at hcall
  simp only at hcall
  rcases hwalk : vmmWalkPageTable k as (vmmPageAlignDown v) true with ⟨r₁, k₁⟩
  rcases vmmWalkPageTable_part hreads h (alignDown_walk hv) hwalk with
    ⟨heffect, hspaces, hpages, hfails, hsome⟩
  rw [page_alignDown] at hfails hsome
  rw [hwalk] at hcall
  cases r₁ with
  | none =>
    cases hcall
    exact ⟨heffect, Or.inr ⟨rfl, hpages, by rw [hspaces], Or.inr (hfails rfl)⟩⟩
  | some x =>
    rcases hsome x rfl with ⟨hfilled, f, hx, hf⟩
    rw [hx] at hcall
    simp only at hcall
    have hentry := pageIn_eq hf
    rw [hpages _ hv.inside] at hentry
    by_cases hpresent : load k₁.machine (f + hhdmOffset σ) (slotOf (page v)) &&& ptePresent ≠ 0
    · -- the page is mapped already
      rw [if_pos hpresent] at hcall
      cases hcall
      refine ⟨heffect, Or.inr ⟨rfl, hpages, by rw [hspaces], Or.inl ?_⟩⟩
      rw [hentry]
      exact target_ne_none hpresent
    · rw [if_neg hpresent, Prod.mk.injEq] at hcall
      rcases (heffect.rep h).storeLeaf (T := T) hv.inside hf
        (vmmPageAlignDown p ||| flags ||| ptePresent) ((k₁.spaces as).totalPages + 1) with
        ⟨heffect', hpages', htotal, hfilled'⟩
      rw [← hcall.1, ← hcall.2]
      refine ⟨heffect.trans heffect', Or.inl ⟨rfl, ?_, fun j hj => ?_, ?_, ?_⟩⟩
      · rw [hentry]
        exact target_of_absent (not_not.mp hpresent)
      · rw [hpages' j hj, target_mapped]
        unfold PageMap.setPage
        rw [hpages j hj]
      · rw [htotal, hspaces]
      · have hboth := hfilled.trans hfilled' fun q hq => absurd hq (Finset.notMem_empty q)
        rw [Finset.union_empty] at hboth
        exact hboth

/-- What unmapping one page does. -/
lemma unmapPage_part (h : PartRep child top k as root)
    (hv : PartWalk child top T k.machine root (page v)) (hcall : unmapPage k as v = (r, k')) :
    PartEffect child top T k k' as root ∧
      (∀ j, InPart top j → pageIn child k'.machine root j =
        (pageIn child k.machine root).setPage (page v) none j) ∧
      ((r = 0 ∧ pageIn child k.machine root (page v) ≠ none ∧
          (k'.spaces as).totalPages = (k.spaces as).totalPages - 1) ∨
        (r = -1 ∧ pageIn child k.machine root (page v) = none ∧
          (k'.spaces as).totalPages = (k.spaces as).totalPages)) := by
  unfold unmapPage at hcall
  rw [if_neg h.nonnull, vmmWalkPageTable_lookup h.nonnull h.pml4 h.tree.root_live, upperIndices_eq,
    ptIndex_eq, page_alignDown, ← hv.clean.tableAt_eq (append_nil _).symm] at hcall
  have hsame : pageIn child k.machine root (page v) = none → ∀ j, InPart top j →
      pageIn child k.machine root j =
        (pageIn child k.machine root).setPage (page v) none j := by
    intro hnone j _
    unfold PageMap.setPage
    split_ifs with heq
    · rw [pageIn_congr heq, hnone]
    · rfl
  cases hf : tableAt child (entry k.machine) root (pathOf (page v)) with
  | none =>
    have hnone : pageIn child k.machine root (page v) = none := by
      unfold pageIn leaf
      rw [hf]
      rfl
    rw [hf] at hcall
    cases hcall
    exact ⟨PartEffect.refl h.tree, hsame hnone, Or.inr ⟨rfl, hnone, rfl⟩⟩
  | some f =>
    have hentry := pageIn_eq hf
    rw [hf] at hcall
    simp only [Option.map_some] at hcall
    by_cases habsent : load k.machine (f + hhdmOffset σ) (slotOf (page v)) &&& ptePresent = 0
    · have hnone := hentry.trans (target_of_absent habsent)
      rw [if_pos habsent] at hcall
      cases hcall
      exact ⟨PartEffect.refl h.tree, hsame hnone, Or.inr ⟨rfl, hnone, rfl⟩⟩
    · rw [if_neg habsent] at hcall
      rcases h.storeLeaf (T := T) hv.inside hf 0 ((k.spaces as).totalPages - 1) with
        ⟨heffect, hpages, htotal, -⟩
      rw [target_zero] at hpages
      cases hcall
      refine ⟨heffect, hpages, Or.inl ⟨rfl, ?_, htotal⟩⟩
      rw [hentry]
      exact target_ne_none habsent

end

/-! ## Ranges -/

/-- The address of page `i` of a range that starts at `a`. -/
def pageAddr (a : VirtAddr) (i : ℕ) : VirtAddr := a + BitVec.ofNat 64 (4096 * i)

section
variable {a : VirtAddr} {x i n : ℕ}

section
variable (ha : a.toNat = 4096 * x)
include ha

lemma pageAddr_toNat (hi : x + i < 2 ^ 52) : (pageAddr a i).toNat = 4096 * (x + i) := by
  unfold pageAddr
  rw [BitVec.toNat_add, BitVec.toNat_ofNat, ha]
  omega

lemma page_of_aligned : page a = x := by
  unfold page
  rw [ha]
  exact Nat.mul_div_cancel_left x (by decide)

lemma page_pageAddr (hi : x + i < 2 ^ 52) : page (pageAddr a i) = x + i :=
  page_of_aligned (pageAddr_toNat ha hi)

lemma alignDown_of_aligned : vmmPageAlignDown a = a := by
  apply BitVec.eq_of_toNat_eq
  rw [alignDown_toNat, page_of_aligned ha, ha, Nat.mul_comm]

/-- The pages of a range. -/
lemma pagesFrom_eq {b : VirtAddr} (hb : b.toNat = 4096 * (x + n)) :
    pagesFrom a b = (List.range n).map (pageAddr a) := by
  have hcount : (b.toNat - a.toNat + 4095) / 4096 = n := by omega
  unfold pagesFrom
  rw [hcount]
  rfl

end

end

/-- The start of the page. -/
lemma alignDown_aligned (v : VirtAddr) : (vmmPageAlignDown v).toNat = 4096 * page v := by
  rw [alignDown_toNat, Nat.mul_comm]

/-- Where a range ends that does not wrap. -/
lemma rangeEnd_of_noWrap {v : VirtAddr} (hwrap : v.toNat + size.toNat + 4095 < 2 ^ 64) :
    (vmmPageAlignUp (v + size)).toNat = 4096 * (page v + rangeCount v size) := by
  have hsum : (v + size).toNat = v.toNat + size.toNat := by
    rw [BitVec.toNat_add]
    omega
  rw [alignUp_toNat (by omega), hsum]
  unfold rangeCount page
  omega

lemma range_le_of_noWrap {v : VirtAddr} (hwrap : v.toNat + size.toNat + 4095 < 2 ^ 64) :
    page v + rangeCount v size ≤ 2 ^ 52 := by
  unfold rangeCount page
  omega

/-- The pages `x, …, x + n - 1` of a part are not mapped any more. -/
structure Cleared (top : Set Index) (m m' : PageMap) (x n : ℕ) : Prop where
  gone : ∀ i < n, m' (x + i) = none
  kept : ∀ j, InPart top j → (∀ i < n, j % 2 ^ 36 ≠ (x + i) % 2 ^ 36) → m' j = m j

/-- The pages `x, …, x + n - 1` of a part, all different, are mapped to the frames given. -/
structure Added (top : Set Index) (m m' : PageMap) (x n : ℕ) (frame : ℕ → PhysAddr) : Prop where
  free : ∀ i < n, m (x + i) = none
  there : ∀ i < n, m' (x + i) = some (frame i)
  kept : ∀ j, InPart top j → (∀ i < n, j % 2 ^ 36 ≠ (x + i) % 2 ^ 36) → m' j = m j
  distinct : n ≤ 2 ^ 36

/-- Clearing what was added gives the map before. -/
lemma Added.cleared {m'' : PageMap} (h : Added top m m' x n frame) (h' : Cleared top m' m'' x n)
    (hm : ∀ i j, i % 2 ^ 36 = j % 2 ^ 36 → m i = m j ∧ m'' i = m'' j) {j : ℕ} (hj : InPart top j) :
    m'' j = m j := by
  by_cases hin : ∃ i < n, j % 2 ^ 36 = (x + i) % 2 ^ 36
  · rcases hin with ⟨i, hi, heq⟩
    rw [(hm _ _ heq).1, (hm _ _ heq).2, h'.gone i hi, h.free i hi]
  · have hout : ∀ i < n, j % 2 ^ 36 ≠ (x + i) % 2 ^ 36 := fun i hi heq => hin ⟨i, hi, heq⟩
    rw [h'.kept j hj hout, h.kept j hj hout]

/-- Maps that agree on the part have the same pages added. -/
lemma Added.congr {m'' : PageMap} (h : Added top m m' x n frame) (hin : ∀ i < n, InPart top (x + i))
    (heq : ∀ j, InPart top j → m'' j = m' j) : Added top m m'' x n frame :=
  ⟨h.free, fun i hi => (heq _ (hin i hi)).trans (h.there i hi),
    fun j hj hout => (heq j hj).trans (h.kept j hj hout), h.distinct⟩

/-- The next page is mapped: it was mapped before, or it is one of those that were added. -/
lemma Added.next_mapped (h : Added top m m' x n frame) (hin : InPart top (x + n))
    (hnext : m' (x + n) ≠ none) :
    m (x + n) ≠ none ∨ 2 ^ 36 ≤ n := by
  by_cases halias : ∃ j < n, (x + n) % 2 ^ 36 = (x + j) % 2 ^ 36
  · rcases halias with ⟨j, hj, heq⟩
    exact Or.inr (by omega)
  · refine Or.inl ?_
    rw [← h.kept _ hin fun j hj heq => halias ⟨j, hj, heq⟩]
    exact hnext

section
variable {child : EntryReader} {top T : Set Index} {k k' : VmmState σ}
variable {as v a : VirtAddr} {root : PhysAddr} {x n : ℕ}

/-- The loop of `vmm_unmap_range`. -/
lemma unmapLoop_part (h : PartRep child top k as root) (ha : a.toNat = 4096 * x)
    (hn : x + n ≤ 2 ^ 52) (hwalk : ∀ i < n, PartWalk child top T k.machine root (x + i)) :
    let k' := ((List.range n).map (pageAddr a)).foldl (fun k v => (vmmUnmapPageNoFlush k as v).2) k
    PartEffect child top T k k' as root ∧
      Cleared top (pageIn child k.machine root) (pageIn child k'.machine root) x n ∧
      (n ≤ 2 ^ 36 → (∀ i < n, pageIn child k.machine root (x + i) ≠ none) →
        (k'.spaces as).totalPages = (k.spaces as).totalPages - BitVec.ofNat 64 n) := by
  induction n with
  | zero =>
    refine ⟨PartEffect.refl h.tree, ⟨fun i hi => absurd hi (Nat.not_lt_zero i), fun _ _ _ => rfl⟩,
      fun _ _ => ?_⟩
    simp
  | succ n ih =>
    rcases ih (by omega) fun i hi => hwalk i (by omega) with ⟨heffect, hcleared, htotal⟩
    simp only [range_succ, map_append, map_singleton, foldl_append,
      foldl_cons, foldl_nil]
    have hpage := page_pageAddr ha (i := n) (by omega)
    have hnext := heffect.walk (hwalk n (by omega))
    rw [← hpage] at hnext
    rcases unmapPage_part (heffect.rep h) hnext rfl with ⟨heffect', hpages, hcases⟩
    rw [hpage] at hpages hcases
    refine ⟨heffect.trans heffect', ⟨fun i hi => ?_, fun j hj hout => ?_⟩, fun hroom hmapped => ?_⟩
    · have hin := (hwalk i hi).inside
      refine (hpages _ hin).trans ?_
      unfold PageMap.setPage
      split_ifs with heq
      · rfl
      · exact hcleared.gone i (by
          by_contra hge
          exact heq (by rw [show i = n by omega]))
    · refine (hpages j hj).trans ?_
      unfold PageMap.setPage
      rw [if_neg (hout n (by omega))]
      exact hcleared.kept j hj fun i hi => hout i (by omega)
    · -- the page is still mapped when its turn comes
      have hstill := hcleared.kept (x + n) (hwalk n (by omega)).inside fun i hi heq => by omega
      rcases hcases with ⟨-, -, hone⟩ | ⟨-, hnone, -⟩
      · refine hone.trans ?_
        rw [htotal (by omega) fun i hi => hmapped i (by omega), BitVec.ofNat_add]
        bv_omega
      · exact absurd (hstill.symm.trans hnone) (hmapped n (by omega))

/-- The rollback of `vmm_map_range` unmaps the first `n` pages. -/
lemma rollback_part (h : PartRep child top k as root) (ha : a.toNat = 4096 * x)
    (hn : x + n < 2 ^ 52) (hwalk : ∀ i < n, PartWalk child top T k.machine root (x + i)) :
    let k' := (vmmUnmapRange k as a (pageAddr a n - a)).2
    PartEffect child top T k k' as root ∧
      Cleared top (pageIn child k.machine root) (pageIn child k'.machine root) x n ∧
      (n ≤ 2 ^ 36 → (∀ i < n, pageIn child k.machine root (x + i) ≠ none) →
        (k'.spaces as).totalPages = (k.spaces as).totalPages - BitVec.ofNat 64 n) := by
  have hsize : (pageAddr a n - a).toNat = 4096 * n := by
    unfold pageAddr
    rw [BitVec.add_comm, BitVec.add_sub_cancel, BitVec.toNat_ofNat]
    omega
  by_cases hzero : n = 0
  · have hempty : pageAddr a n - a = 0 := by
      apply BitVec.eq_of_toNat_eq
      rw [hsize, hzero]
      rfl
    have hloop := unmapLoop_part h ha (n := n) (by omega) hwalk
    unfold vmmUnmapRange
    rw [if_pos (Or.inr hempty)]
    rw [hzero] at hloop ⊢
    exact hloop
  · have hne : pageAddr a n - a ≠ 0 := by
      intro heq
      rw [heq] at hsize
      have : (0 : ℕ) = 4096 * n := hsize
      omega
    have hcount : rangeCount a (pageAddr a n - a) = n := by
      unfold rangeCount
      rw [hsize, page_of_aligned ha, ha]
      omega
    have hwrap : a.toNat + (pageAddr a n - a).toNat + 4095 < 2 ^ 64 := by omega
    have hend := rangeEnd_of_noWrap hwrap
    rw [hcount, page_of_aligned ha] at hend
    unfold vmmUnmapRange
    rw [if_neg (not_or.mpr ⟨h.nonnull, hne⟩)]
    simp only
    rw [alignDown_of_aligned ha, pagesFrom_eq ha hend]
    exact unmapLoop_part h ha (by omega) hwalk

/-- One more page, when the entry of the page is empty. -/
lemma Added.step {m₁ m₂ : PageMap} {i : ℕ} (h : Added top m m₁ x i frame)
    (hm : ∀ p q, p % 2 ^ 36 = q % 2 ^ 36 → m₁ p = m₁ q) (hin : ∀ j < i + 1, InPart top (x + j))
    (hnone : m₁ (x + i) = none)
    (hset : ∀ j, InPart top j → m₂ j = m₁.setPage (x + i) (some (frame i)) j) :
    Added top m m₂ x (i + 1) frame := by
  -- the page is none of those that were mapped before
  have hnew : ∀ j < i, (x + i) % 2 ^ 36 ≠ (x + j) % 2 ^ 36 := by
    intro j hj heq
    rw [hm _ _ heq, h.there j hj] at hnone
    cases hnone
  have hroom := h.distinct
  refine ⟨fun j hj => ?_, fun j hj => ?_, fun j hj hout => ?_, ?_⟩
  · by_cases hji : j = i
    · rw [hji, ← h.kept _ (hin i (by omega)) hnew]
      exact hnone
    · exact h.free j (by omega)
  · rw [hset _ (hin j hj)]
    unfold PageMap.setPage
    by_cases hji : j = i
    · rw [hji, if_pos rfl]
    · rw [if_neg fun heq => hnew j (by omega) heq.symm]
      exact h.there j (by omega)
  · rw [hset j hj]
    unfold PageMap.setPage
    rw [if_neg (hout i (by omega))]
    exact h.kept j hj fun l hl => hout l (by omega)
  · by_contra hfull
    exact hnew 0 (by omega) (by omega)

/-- The loop of `vmm_map_range` after `i` pages, with `n` to go: `s` is the machine before the loop,
and `t` the number of pages. -/
lemma mapLoop_part (hreads : Reads child) {t : BitVec 64} (ha : a.toNat = 4096 * x) {i : ℕ}
    (hx : x + i + n ≤ 2 ^ 52) (h : PartRep child top k as root)
    (hwalk : ∀ j < i + n, PartWalk child top T k.machine root (x + j))
    (hadded : Added top (pageIn child s root) (pageIn child k.machine root) x i
      fun j => mappedFrame (pageAddr p j) flags)
    (hfilled : Filled child top s k.machine root (rangePaths x i))
    (htotal : (k.spaces as).totalPages = t + BitVec.ofNat 64 i)
    (hcall : mapLoop as a flags ((List.range' i n).map (pageAddr a)) (pageAddr p i) k = (r, k')) :
    PartEffect child top T k k' as root ∧
      ((r = 0 ∧ Added top (pageIn child s root) (pageIn child k'.machine root) x (i + n)
          (fun j => mappedFrame (pageAddr p j) flags) ∧
          (k'.spaces as).totalPages = t + BitVec.ofNat 64 (i + n) ∧
          Filled child top s k'.machine root (rangePaths x (i + n))) ∨
        (r = -1 ∧ (∀ j, InPart top j → pageIn child k'.machine root j = pageIn child s root j) ∧
          (k'.spaces as).totalPages = t ∧
          ((∃ j < i + n, pageIn child s root (x + j) ≠ none) ∨
            RunsOut s (missing child (entry s) root (rangePaths x (i + n))) ∨
            2 ^ 36 < i + n))) := by
  induction n generalizing i k with
  | zero =>
    rw [List.range'_zero, map_nil, mapLoop] at hcall
    cases hcall
    exact ⟨PartEffect.refl h.tree, Or.inl ⟨rfl, hadded, htotal, hfilled⟩⟩
  | succ n ih =>
    rw [List.range'_succ, map_cons, mapLoop] at hcall
    rcases hone : vmmMapPageNoFlush k as (pageAddr a i) (pageAddr p i) flags with ⟨r₁, k₁⟩
    rw [hone] at hcall
    simp only at hcall
    have hpage := page_pageAddr ha (i := i) (by omega)
    have hnext := hwalk i (by omega)
    rw [← hpage] at hnext
    rcases mapPage_part hreads h hnext hone with ⟨heffect, hcases⟩
    rw [hpage] at hcases
    have hinside := pagePaths_inside (hwalk i (by omega)).inside
    rcases hcases with ⟨hr, hnone, hpages, htotal₁, hfilled₁⟩ | ⟨hr, hpages, htotal₁, hwhy⟩
    · -- page `i` is mapped, the loop goes on
      rw [if_neg (by rw [hr]; decide)] at hcall
      have hstep : pageAddr p i + pageSize = pageAddr p (i + 1) := by
        unfold pageAddr pageSize
        rw [BitVec.add_assoc, Nat.mul_succ, BitVec.ofNat_add]
        rfl
      rw [hstep] at hcall
      have hadded₁ := hadded.step (fun _ _ => pageIn_congr)
        (fun j hj => (hwalk j (by omega)).inside) hnone hpages
      have htotal' : (k₁.spaces as).totalPages = t + BitVec.ofNat 64 (i + 1) := by
        rw [htotal₁, htotal, BitVec.ofNat_add, BitVec.add_assoc]
        rfl
      have hfilled' := hfilled.trans hfilled₁ hinside
      rw [← rangePaths_succ] at hfilled'
      have hrest := ih (by omega) (heffect.rep h)
        (fun j hj => heffect.walk (hwalk j (by omega))) hadded₁ hfilled' htotal' hcall
      rw [show i + 1 + n = i + (n + 1) by omega] at hrest
      exact ⟨heffect.trans hrest.1, hrest.2⟩
    · -- page `i` is not mapped, and the pages before it are unmapped again
      rw [if_pos (by rw [hr]; decide), Prod.mk.injEq] at hcall
      have hin := fun j (hj : j < i) => (hwalk j (by omega)).inside
      rcases rollback_part (heffect.rep h) ha (n := i) (by omega) (T := T)
        (fun j hj => heffect.walk (hwalk j (by omega))) with ⟨heffect', hcleared, hrolled⟩
      rw [← hcall.1, ← hcall.2]
      refine ⟨heffect.trans heffect', Or.inr ⟨rfl, fun j hj => ?_, ?_, ?_⟩⟩
      · exact (hadded.congr hin hpages).cleared hcleared
          (fun p q hpq => ⟨pageIn_congr hpq, pageIn_congr hpq⟩) hj
      · rw [hrolled hadded.distinct fun j hj => ?_, htotal₁, htotal, BitVec.add_sub_cancel]
        rw [hpages _ (hin j hj), hadded.there j hj]
        simp
      · rcases hwhy with hsome | hfails
        · rcases hadded.next_mapped (hwalk i (by omega)).inside hsome with hbefore | hfull
          · exact Or.inl ⟨i, by omega, hbefore⟩
          · exact Or.inr (Or.inr (by omega))
        · have hout := hfilled.runsOut hfails hinside
          rw [← rangePaths_succ] at hout
          exact Or.inr (Or.inl (hout.mono (missing_mono (rangePaths_mono x (by omega)))))

/-- What mapping a range does that does not wrap. -/
lemma vmmMapRange_part (hreads : Reads child) (h : PartRep child top k as root)
    (hwrap : v.toNat + size.toNat + 4095 < 2 ^ 64)
    (hwalk : ∀ i < rangeCount v size, PartWalk child top T k.machine root (page v + i))
    (hcall : vmmMapRange k as v p size flags = (r, k')) :
    PartEffect child top T k k' as root ∧
      ((size ≠ 0 ∧ r = 0 ∧ Added top (pageIn child k.machine root) (pageIn child k'.machine root)
          (page v) (rangeCount v size)
          (fun j => mappedFrame (pageAddr (vmmPageAlignDown p) j) flags) ∧
          (k'.spaces as).totalPages =
            (k.spaces as).totalPages + BitVec.ofNat 64 (rangeCount v size) ∧
          Filled child top k.machine k'.machine root (rangePaths (page v) (rangeCount v size))) ∨
        (r = -1 ∧
          (∀ j, InPart top j → pageIn child k'.machine root j = pageIn child k.machine root j) ∧
          (k'.spaces as).totalPages = (k.spaces as).totalPages ∧
          (size = 0 ∨
            (∃ i < rangeCount v size, pageIn child k.machine root (page v + i) ≠ none) ∨
            RunsOut k.machine (missing child (entry k.machine) root
              (rangePaths (page v) (rangeCount v size))) ∨
            2 ^ 36 < rangeCount v size))) := by
  unfold vmmMapRange at hcall
  rw [if_neg h.nonnull] at hcall
  by_cases hsize : size = 0
  · rw [if_pos hsize] at hcall
    cases hcall
    exact ⟨PartEffect.refl h.tree, Or.inr ⟨rfl, fun _ _ => rfl, rfl, Or.inl hsize⟩⟩
  · rw [if_neg hsize] at hcall
    simp only at hcall
    rw [pagesFrom_eq (alignDown_aligned v) (rangeEnd_of_noWrap hwrap), range_eq_range'] at hcall
    have hstart : vmmPageAlignDown p = pageAddr (vmmPageAlignDown p) 0 := by simp [pageAddr]
    rw [hstart] at hcall
    have hrange := range_le_of_noWrap hwrap
    have hempty : Added top (pageIn child k.machine root) (pageIn child k.machine root) (page v) 0
        fun j => mappedFrame (pageAddr (vmmPageAlignDown p) j) flags :=
      ⟨fun i hi => absurd hi (Nat.not_lt_zero i), fun i hi => absurd hi (Nat.not_lt_zero i),
        fun _ _ _ => rfl, Nat.zero_le _⟩
    have hloop := mapLoop_part (t := (k.spaces as).totalPages) hreads (alignDown_aligned v) (by omega)
      h (by rw [Nat.zero_add]; exact hwalk) hempty (Filled.of_slots (fun _ _ => rfl) .refl) (by simp)
      hcall
    rw [Nat.zero_add] at hloop
    refine ⟨hloop.1, hloop.2.imp ?_ ?_⟩
    · exact fun hdone => ⟨hsize, hdone⟩
    · exact fun hfail => ⟨hfail.1, hfail.2.1, hfail.2.2.1, Or.inr hfail.2.2.2⟩

/-- What unmapping a range does that does not wrap. -/
lemma vmmUnmapRange_part (h : PartRep child top k as root) (hsize : size ≠ 0)
    (hwrap : v.toNat + size.toNat + 4095 < 2 ^ 64)
    (hwalk : ∀ i < rangeCount v size, PartWalk child top T k.machine root (page v + i))
    (hcall : vmmUnmapRange k as v size = (r, k')) :
    r = 0 ∧ PartEffect child top T k k' as root ∧
      Cleared top (pageIn child k.machine root) (pageIn child k'.machine root) (page v)
        (rangeCount v size) := by
  unfold vmmUnmapRange at hcall
  rw [if_neg (not_or.mpr ⟨h.nonnull, hsize⟩)] at hcall
  simp only at hcall
  rw [pagesFrom_eq (alignDown_aligned v) (rangeEnd_of_noWrap hwrap), Prod.mk.injEq] at hcall
  have hloop := unmapLoop_part h (alignDown_aligned v) (range_le_of_noWrap hwrap) hwalk
  rw [← hcall.1, ← hcall.2]
  exact ⟨rfl, hloop.1, hloop.2.1⟩

end

end LunOS.Vmm
