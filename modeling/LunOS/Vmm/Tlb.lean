import LunOS.Vmm.Rollback

/-!
# Translation lookaside buffers

Every CPU translates addresses with the tables that its CR3 points to, and keeps translations for
later use. It may do so at any time, also in the middle of a call, so calls are taken apart here into
the work on single pages and the flush at their end. `vmm_flush_tlb_single` drops the translations
of one page and `vmm_flush_tlb` those of all pages, on the CPU that makes the call. Global pages are
not enabled.

- `startCall`, `nextPage`: the calls of `vmm.c`, one page at a time.
- `nextPage_exec`: taken together the steps of a call are the call.
- `tlb_coherent`: as long as a call is not on an address space that another CPU has loaded, no CPU
  keeps a translation that the tables do not have.
- `unmap_leaves_stale`: on an address space that another CPU has loaded, every `vmm_unmap_page` can
  leave one there.
-/

namespace LunOS.Vmm
open LunOS.Radix PageMachine LawfulPageMachine Function Set
open List hiding Disjoint

/-! ## Calls, one page at a time -/

/-- What a CPU has yet to do in a call. -/
inductive Phase
  | idle
  | mapLoop (as vstart : VirtAddr) (flags : BitVec 64) (vs : List VirtAddr) (p : PhysAddr)
  | unmapLoop (as : VirtAddr) (vs : List VirtAddr)
  | flushPage (as v : VirtAddr)
  | flushAll (as : VirtAddr)

namespace Phase

/-- The address space that the call is on. -/
def space : Phase → Option VirtAddr
  | idle => none
  | mapLoop as _ _ _ _ | unmapLoop as _ | flushPage as _ | flushAll as => some as

/-- The pages that a loop has yet to go through. -/
def pages : Phase → List VirtAddr
  | mapLoop _ _ _ vs _ | unmapLoop _ vs => vs
  | _ => []

/-- The flush instructions. -/
def flush : Phase → Set (VirtAddr × PhysAddr) → Set (VirtAddr × PhysAddr)
  | flushPage _ v, t => {x ∈ t | page x.1 ≠ page v}
  | flushAll _, _ => ∅
  | _, t => t

/-- The addresses whose translations the call has yet to flush. -/
def stale : Phase → Set VirtAddr
  | unmapLoop _ _ | flushAll _ => Set.univ
  | flushPage _ v => {u | page u = page v}
  | _ => ∅

end Phase

section
variable {σ : Type*} [PageMachine σ]

/-- A call up to its loop or its flush. -/
def startCall (k : VmmState σ) (as : VirtAddr) : Op → VmmState σ × Phase
  | .mapPage v p flags =>
    let (r, k) := mapPage k as v p flags
    (k, if r = 0 then .flushPage as (vmmPageAlignDown v) else .idle)
  | .unmapPage v =>
    let (r, k) := unmapPage k as v
    (k, if r = 0 then .flushPage as (vmmPageAlignDown v) else .idle)
  | .mapRange v p size flags =>
    if as = 0 ∨ size = 0 then (k, .idle)
    else
      let vstart := vmmPageAlignDown v
      let vend := vmmPageAlignUp (v + size)
      (k, .mapLoop as vstart flags (pagesFrom vstart vend) (vmmPageAlignDown p))
  | .unmapRange v size =>
    if as = 0 ∨ size = 0 then (k, .idle)
    else (k, .unmapLoop as (pagesFrom (vmmPageAlignDown v) (vmmPageAlignUp (v + size))))

/-- The next page of a loop, or the flush. -/
def nextPage (k : VmmState σ) : Phase → VmmState σ × Phase
  | .idle => (k, .idle)
  | .mapLoop as _ _ [] _ => (k, .flushAll as)
  | .mapLoop as vstart flags (v :: vs) p =>
    let (r, k) := vmmMapPageNoFlush k as v p flags
    -- the rollback is a call of its own, which ends at once if nothing was mapped
    if r ≠ 0 then startCall k as (.unmapRange vstart (v - vstart))
    else (k, .mapLoop as vstart flags vs (p + pageSize))
  | .unmapLoop as [] => (k, .flushAll as)
  | .unmapLoop as (v :: vs) => ((vmmUnmapPageNoFlush k as v).2, .unmapLoop as vs)
  | .flushPage _ _ => (k, .idle)
  | .flushAll _ => (k, .idle)

end

variable {σ : Type*} [LawfulPageMachine σ]

/-- Steps of one call. -/
inductive PageStep : VmmState σ × Phase → VmmState σ × Phase → Prop
  | next (k : VmmState σ) (ph : Phase) : PageStep (k, ph) (nextPage k ph)

lemma unmapLoop_runs (as : VirtAddr) (vs : List VirtAddr) (k : VmmState σ) :
    Relation.ReflTransGen PageStep (k, .unmapLoop as vs)
      (vs.foldl (fun k v => (vmmUnmapPageNoFlush k as v).2) k, .idle) := by
  induction vs generalizing k with
  | nil => exact .head (.next k (.unmapLoop as [])) (.single (.next k (.flushAll as)))
  | cons v vs ih => exact .head (.next k (.unmapLoop as (v :: vs))) (ih _)

lemma unmapRange_runs (k : VmmState σ) (as v : VirtAddr) (size : BitVec 64) :
    Relation.ReflTransGen PageStep (startCall k as (.unmapRange v size))
      ((vmmUnmapRange k as v size).2, .idle) := by
  unfold startCall vmmUnmapRange
  by_cases hnone : as = 0 ∨ size = 0
  · simp only [if_pos hnone]
    exact .refl
  · simp only [if_neg hnone]
    exact unmapLoop_runs as _ k

/-- The loop, page by page. -/
lemma mapLoop_runs (as vstart : VirtAddr) (flags : BitVec 64) (vs : List VirtAddr) (p : PhysAddr)
    (k : VmmState σ) :
    Relation.ReflTransGen PageStep (k, .mapLoop as vstart flags vs p)
      ((mapLoop as vstart flags vs p k).2, .idle) := by
  induction vs generalizing p k with
  | nil => exact .head (.next k (.mapLoop as vstart flags [] p)) (.single (.next k (.flushAll as)))
  | cons v vs ih =>
    refine .head (.next k (.mapLoop as vstart flags (v :: vs) p)) ?_
    unfold nextPage mapLoop
    by_cases hr : (vmmMapPageNoFlush k as v p flags).1 ≠ 0
    · simp only [if_pos hr]
      exact unmapRange_runs _ as vstart (v - vstart)
    · simp only [if_neg hr]
      exact ih _ _

/-- The flush after a single page. -/
lemma flushPage_runs (k : VmmState σ) (as v : VirtAddr) (r : ℤ) :
    Relation.ReflTransGen PageStep (k, if r = 0 then .flushPage as v else .idle) (k, .idle) := by
  by_cases hr : r = 0
  · rw [if_pos hr]
    exact .single (.next k (.flushPage as v))
  · rw [if_neg hr]

/-- The steps of a call lead to where the call leads. -/
lemma nextPage_exec (k : VmmState σ) (as : VirtAddr) (op : Op) :
    Relation.ReflTransGen PageStep (startCall k as op) ((exec k as op).2, .idle) := by
  cases op with
  | mapPage v p flags => exact flushPage_runs _ as _ _
  | unmapPage v => exact flushPage_runs _ as _ _
  | mapRange v p size flags =>
    show Relation.ReflTransGen PageStep _ ((vmmMapRange k as v p size flags).2, .idle)
    unfold startCall vmmMapRange
    by_cases has : as = 0
    · simp only [if_pos (Or.inl has), if_pos has]
      exact .refl
    · by_cases hsize : size = 0
      · simp only [if_pos (Or.inr hsize), if_neg has, if_pos hsize]
        exact .refl
      · simp only [if_neg (not_or.mpr ⟨has, hsize⟩), if_neg has, if_neg hsize]
        exact mapLoop_runs as _ flags _ _ k
  | unmapRange v size => exact unmapRange_runs k as v size

/-! ## What the processor sees of a step -/

section
variable {s s' : σ} {root f : PhysAddr} {u : VirtAddr}

/-- The walk reads the same entries. -/
lemma x86Walk_same {p : List Index} {l : ℕ} (hlen : p.length + l = 3)
    (hsame : ∀ q g, q.length ≤ 3 → tableAt tableTarget (entry s) root q = some g →
      ∀ j, entry s' g j = entry s g j)
    (hp : tableAt tableTarget (entry s) root p = some f) :
    x86Walk (entry s') u l f = x86Walk (entry s) u l f := by
  induction l generalizing p f with
  | zero =>
    unfold x86Walk
    rw [hsame p f (by omega) hp]
  | succ l ih =>
    unfold x86Walk
    rw [hsame p f (by omega) hp]
    by_cases hpresent : entry s f (x86Index (l + 1) u) &&& ptePresent = 0
    · simp only [if_pos hpresent]
    · by_cases hsmall : entry s f (x86Index (l + 1) u) &&& pteLarge = 0
      · simp only [if_neg hpresent, if_pos hsmall]
        have hchild := (tableTarget_of_small hsmall).trans (target_of_present hpresent)
        refine ih (p := p ++ [x86Index (l + 1) u]) (by simp; omega) ?_
        rw [tableAt_concat, hp]
        exact hchild
      · simp only [if_neg hpresent, if_neg hsmall]

/-- The same tables give the same translations. -/
lemma x86Translate_same (hsame : ∀ f ∈ tables tableTarget (entry s) root Set.univ 3,
    ∀ j, entry s' f j = entry s f j) :
    x86Translate (entry s') root u = x86Translate (entry s) root u := by
  unfold x86Translate
  rw [x86Walk_same (p := []) rfl (fun q g hlen hq => hsame g ⟨q, hlen, within_univ q, hq⟩) rfl]

end

/-- A step on the address space `a` leaves the other ones alone, and the translations of `a` that
exist, except in `S`. -/
structure Spares (k k' : VmmState σ) (l : List VirtAddr) (a : VirtAddr) (S : Set VirtAddr) :
    Prop where
  tree : TreeInv k' l
  kernelAs : k'.kernelAs = k.kernelAs
  roots : ∀ b, rootOf k' b = rootOf k b
  others : ∀ b ∈ k.kernelAs :: l, b ≠ a → ∀ u, x86Translate (entry k'.machine) (rootOf k b) u =
    x86Translate (entry k.machine) (rootOf k b) u
  self : ∀ u p, u ∉ S → x86Translate (entry k.machine) (rootOf k a) u = some p →
    x86Translate (entry k'.machine) (rootOf k a) u = some p

section
variable {k k' : VmmState σ} {l : List VirtAddr} {a v u : VirtAddr} {S : Set VirtAddr}

lemma Spares.refl (h : TreeInv k l) (a : VirtAddr) (S : Set VirtAddr) : Spares k k l a S :=
  ⟨h, rfl, fun _ => rfl, fun _ _ _ _ => rfl, fun _ _ _ hu => hu⟩

lemma Spares.mono {S' : Set VirtAddr} (h : Spares k k' l a S) (hS : S ⊆ S') :
    Spares k k' l a S' :=
  ⟨h.tree, h.kernelAs, h.roots, h.others, fun u p hu => h.self u p fun hin => hu (hS hin)⟩

/-- A translation stays when its page stays, and when it is behind a large page. -/
lemma TreeInv.x86Translate_kept (h : TreeInv k l) (ha : a ∈ k.kernelAs :: l) {T : Set Index}
    (heffect : PartEffect tableTarget Set.univ T k k' a (rootOf k a))
    (hpage : pageIn tableTarget k'.machine (rootOf k a) (page u) =
      pageIn tableTarget k.machine (rootOf k a) (page u)) :
    x86Translate (entry k'.machine) (rootOf k a) u =
      x86Translate (entry k.machine) (rootOf k a) u := by
  have hkept := edits_kept heffect.edits h.forest (TreeInv.mem_roots ha)
  unfold x86Translate
  by_cases hu : CleanWalk tableTarget k.machine (rootOf k a) (upperIndices u)
  · have hu' := heffect.clean _ (upperIndices_length u) (within_univ _) hu
    rw [x86Walk_pageIn hu, x86Walk_pageIn hu', hpage]
  · rw [upperIndices_eq_x86Path] at hu
    rw [x86Walk_kept (p := []) rfl (fun q g hlen hq => (hkept q g hlen hq).2) rfl hu]

/-- A call on one page of the lower half. -/
lemma TreeInv.spares_call (h : TreeInv k l) (ha : a ∈ l) {op : Op}
    (hop : ∀ w ∈ op.pages, w.toNat < 2 ^ 47)
    (hself : ∀ u p, u ∉ S → x86Translate (entry k.machine) (rootOf k a) u = some p →
      x86Translate (entry (exec k a op).2.machine) (rootOf k a) u = some p) :
    Spares k (exec k a op).2 l a S := by
  have hmem := mem_cons_of_mem k.kernelAs ha
  have hinv := (h.clean a ha).lowerTree h.forest (TreeInv.mem_roots hmem)
  have hrep : PartRep target lowerHalf k a (rootOf k a) :=
    ⟨h.nonnull a hmem, pml4_eq k a, hinv⟩
  have heffect : PartEffect target lowerHalf lowerHalf k (exec k a op).2 a (rootOf k a) :=
    exec_part reads_target hrep fun w hw => Vmm.partWalk_lower _ _ (page_lt (hop w hw))
  refine ⟨h.call hmem fun w hw => ?_, heffect.kernelAs, fun b => ?_, fun b hb hne u => ?_, hself⟩
  · rw [upperIndices_eq]
    exact (h.partWalk_lower ha (page_lt (hop w hw))).clean
  · unfold rootOf
    by_cases hb : b = a
    · rw [hb, heffect.pml4]
    · rw [heffect.others b hb]
  · apply x86Translate_same
    intro f hf
    have hb' : b ∈ k.kernelAs :: l.erase a := by
      obtain hb | hb := mem_cons.mp hb
      · exact hb ▸ mem_cons_self
      · exact mem_cons_of_mem _ ((mem_erase_of_ne hne).mpr hb)
    have hlive := h.forest.tables_live _ (TreeInv.mem_roots hb) hf
    exact heffect.grows.others f hlive fun hin =>
      disjoint_left.mp (h.disjoint ha hb') hin hf

lemma TreeInv.partWalk_page (h : TreeInv k l) (ha : a ∈ l) (hv : v.toNat < 2 ^ 47) :
    PartWalk tableTarget Set.univ Set.univ k.machine (rootOf k a) (page v) :=
  h.partWalk_lower ha (page_lt hv)

/-- A page that is not mapped has no translation, also under another address with its indices. -/
lemma TreeInv.x86Translate_none (h : TreeInv k l) (ha : a ∈ l) (hv : v.toNat < 2 ^ 47)
    (hnone : pageIn tableTarget k.machine (rootOf k a) (page v) = none)
    (hsame : page u % 2 ^ 36 = page v % 2 ^ 36) :
    x86Translate (entry k.machine) (rootOf k a) u = none := by
  have hclean := (h.partWalk_page ha hv).clean
  rw [← (samePath_iff.mpr hsame).1, ← upperIndices_eq] at hclean
  unfold x86Translate
  rw [x86Walk_pageIn hclean, pageIn_congr hsame, hnone]
  exact ite_self _

lemma lower_of_pages {op : Op} (hop : op.pages = [vmmPageAlignDown v]) (hv : v.toNat < 2 ^ 47) :
    ∀ w ∈ op.pages, w.toNat < 2 ^ 47 := by
  rw [hop, forall_mem_singleton, alignDown_toNat]
  unfold page
  omega

/-- Mapping a page takes no translation away. -/
lemma TreeInv.spares_mapPage (h : TreeInv k l) (ha : a ∈ l) (hv : v.toNat < 2 ^ 47)
    (p : PhysAddr) (flags : BitVec 64) : Spares k (mapPage k a v p flags).2 l a ∅ := by
  have hmem := mem_cons_of_mem k.kernelAs ha
  have hcall : mapPage k a v p flags = ((mapPage k a v p flags).1, (mapPage k a v p flags).2) := rfl
  have hlower : ∀ w ∈ (Op.mapPage v p flags).pages, w.toNat < 2 ^ 47 := lower_of_pages rfl hv
  refine h.spares_call ha hlower fun u q _ hu => ?_
  obtain ⟨heffect, ⟨-, hnone, hpages, -⟩ | ⟨-, hpages, -⟩⟩ := mapPage_part reads_tableTarget
    (h.partRep hmem) (h.partWalk_page ha hv) hcall
  · by_cases hsame : page u % 2 ^ 36 = page v % 2 ^ 36
    · rw [h.x86Translate_none ha hv hnone hsame] at hu
      cases hu
    · rw [← hu]
      exact h.x86Translate_kept hmem heffect ((hpages _ (inPart_univ _)).trans (if_neg hsame))
  · rw [← hu]
    exact h.x86Translate_kept hmem heffect (hpages _ (inPart_univ _))

/-- Different pages of canonical addresses have different indices. -/
lemma canonical_page (hu : Canonical u) (hv : v.toNat < 2 ^ 47) (hne : page u ≠ page v) :
    page u % 2 ^ 36 ≠ page v % 2 ^ 36 := by
  have hlt := u.isLt
  unfold Canonical at hu
  unfold page at hne ⊢
  omega

/-- Unmapping a page takes the translations of this page away. -/
lemma TreeInv.spares_unmapPage (h : TreeInv k l) (ha : a ∈ l) (hv : v.toNat < 2 ^ 47) :
    Spares k (unmapPage k a v).2 l a {u | page u = page v} ∧
      ((unmapPage k a v).1 ≠ 0 → Spares k (unmapPage k a v).2 l a ∅) := by
  have hmem := mem_cons_of_mem k.kernelAs ha
  have hcall : unmapPage k a v = ((unmapPage k a v).1, (unmapPage k a v).2) := rfl
  have hlower : ∀ w ∈ (Op.unmapPage v).pages, w.toNat < 2 ^ 47 := lower_of_pages rfl hv
  obtain ⟨heffect, hpages, hcases⟩ := unmapPage_part (h.partRep hmem) (h.partWalk_page ha hv) hcall
  have hkept : ∀ u, page u % 2 ^ 36 ≠ page v % 2 ^ 36 →
      x86Translate (entry (unmapPage k a v).2.machine) (rootOf k a) u =
        x86Translate (entry k.machine) (rootOf k a) u := by
    intro u hne
    refine h.x86Translate_kept hmem heffect ?_
    rw [hpages _ (inPart_univ _)]
    exact if_neg hne
  refine ⟨h.spares_call ha hlower fun u p hu hp => ?_, fun hr => ?_⟩
  · have hcanonical : Canonical u := by
      by_contra hnot
      unfold x86Translate at hp
      rw [if_neg hnot] at hp
      cases hp
    exact (hkept u (canonical_page hcanonical hv hu)).trans hp
  · obtain ⟨hzero, -⟩ | ⟨-, hnone, -⟩ := hcases
    · exact absurd hzero hr
    · refine h.spares_call ha hlower fun u p _ hp => ?_
      by_cases hsame : page u % 2 ^ 36 = page v % 2 ^ 36
      · rw [h.x86Translate_none ha hv hnone hsame] at hp
        cases hp
      · exact (hkept u hsame).trans hp

/-! ### The steps of a call -/

/-- The addresses in the range of a loop. -/
lemma pagesFrom_lt {b w : VirtAddr} (hw : w ∈ pagesFrom a b) : w.toNat < b.toNat := by
  obtain ⟨n, hn, rfl⟩ := mem_map.mp hw
  rw [List.mem_range] at hn
  have hb := b.isLt
  rw [BitVec.toNat_add, BitVec.toNat_ofNat]
  omega

/-- The rollback of a range of the lower half stays there. -/
lemma rollback_lower (hv : v.toNat < 2 ^ 47) (vstart : VirtAddr) :
    ∀ w ∈ (Op.unmapRange vstart (v - vstart)).pages, w.toNat < 2 ^ 47 := by
  intro w hw
  have hlt := pagesFrom_lt hw
  rw [BitVec.add_comm, BitVec.sub_add_cancel, alignUp_toNat (by omega)] at hlt
  omega

/-- A step of a call on `a`, after which `ph` is left: translations that are not flushed stay, and
the loop is in the lower half. -/
structure Leads (k k' : VmmState σ) (l : List VirtAddr) (a : VirtAddr) (ph : Phase) : Prop where
  spares : Spares k k' l a ph.stale
  space : ∀ b, ph.space = some b → b = a
  lower : ∀ w ∈ ph.pages, w.toNat < 2 ^ 47

attribute [local simp] Phase.space Phase.pages

/-- The beginning of a call. -/
lemma TreeInv.startCall (h : TreeInv k l) (ha : a ∈ l) {op : Op}
    (hop : ∀ w ∈ op.pages, w.toNat < 2 ^ 47) :
    Leads k (Vmm.startCall k a op).1 l a (Vmm.startCall k a op).2 := by
  have hone : ∀ {v}, (vmmPageAlignDown v).toNat < 2 ^ 47 → v.toNat < 2 ^ 47 := by
    intro v hv
    rw [alignDown_toNat] at hv
    unfold page at hv
    omega
  have hidle : Leads k k l a .idle := ⟨.refl h a _, by simp, by simp⟩
  unfold Vmm.startCall
  cases op with
  | mapPage v p flags =>
    have hspares := h.spares_mapPage ha (hone (hop _ mem_cons_self)) p flags
    by_cases hr : (mapPage k a v p flags).1 = 0
    · simp only [if_pos hr]
      exact ⟨hspares.mono (empty_subset _), by simp, by simp⟩
    · simp only [if_neg hr]
      exact ⟨hspares, by simp, by simp⟩
  | unmapPage v =>
    have hspares := h.spares_unmapPage ha (hone (hop _ mem_cons_self))
    by_cases hr : (unmapPage k a v).1 = 0
    · simp only [if_pos hr]
      refine ⟨?_, by simp, by simp⟩
      simp only [Phase.stale, page_alignDown]
      exact hspares.1
    · simp only [if_neg hr]
      exact ⟨hspares.2 hr, by simp, by simp⟩
  | mapRange v p size flags =>
    by_cases hnone : a = 0 ∨ size = 0
    · simp only [if_pos hnone]
      exact hidle
    · simp only [if_neg hnone]
      exact ⟨.refl h a _, by simp, hop⟩
  | unmapRange v size =>
    by_cases hnone : a = 0 ∨ size = 0
    · simp only [if_pos hnone]
      exact hidle
    · simp only [if_neg hnone]
      exact ⟨.refl h a _, by simp, hop⟩

lemma startCall_unmapRange (k : VmmState σ) (a v : VirtAddr) (size : BitVec 64) :
    (Vmm.startCall k a (.unmapRange v size)).1 = k := by
  by_cases hnone : a = 0 ∨ size = 0
  · simp only [Vmm.startCall, if_pos hnone]
  · simp only [Vmm.startCall, if_neg hnone]

/-- Every further step. What it leaves in the TLB was not to be flushed. -/
lemma TreeInv.nextPage (h : TreeInv k l) {ph : Phase} (hph : ph.space = some a) (ha : a ∈ l)
    (hlower : ∀ w ∈ ph.pages, w.toNat < 2 ^ 47) :
    Leads k (Vmm.nextPage k ph).1 l a (Vmm.nextPage k ph).2 ∧
      ∀ t x, x ∈ ph.flush t → x.1 ∉ (Vmm.nextPage k ph).2.stale → x ∈ t ∧ x.1 ∉ ph.stale := by
  have hflush : Leads k k l a (.flushAll a) := ⟨.refl h a _, by simp, by simp⟩
  have hidle : Leads k k l a .idle := ⟨.refl h a _, by simp, by simp⟩
  cases ph with
  | idle => cases hph
  | mapLoop as vstart flags vs p =>
    obtain rfl : as = a := Option.some.inj hph
    refine ⟨?_, fun t x hx _ => ⟨hx, notMem_empty _⟩⟩
    cases vs with
    | nil => exact hflush
    | cons v vs =>
      have hv := hlower v mem_cons_self
      have hspares := h.spares_mapPage ha hv p flags
      unfold Vmm.nextPage
      by_cases hr : (vmmMapPageNoFlush k as v p flags).1 ≠ 0
      · simp only [if_pos hr]
        have hrollback := hspares.tree.startCall ha (rollback_lower hv vstart)
        rw [startCall_unmapRange]
        exact ⟨hspares.mono (empty_subset _), hrollback.space, hrollback.lower⟩
      · simp only [if_neg hr]
        exact ⟨hspares, by simp, fun w hw => hlower w (mem_cons_of_mem v hw)⟩
  | unmapLoop as vs =>
    obtain rfl : as = a := Option.some.inj hph
    cases vs with
    | nil => exact ⟨hflush, fun _ _ _ hx => absurd (mem_univ _) hx⟩
    | cons v vs =>
      have hspares := (h.spares_unmapPage ha (hlower v mem_cons_self)).1
      exact ⟨⟨hspares.mono (subset_univ _), by simp [Vmm.nextPage],
        fun w hw => hlower w (mem_cons_of_mem v hw)⟩,
        fun _ _ _ hx => absurd (mem_univ _) hx⟩
  | flushPage as v => exact ⟨hidle, fun _ _ hx _ => hx⟩
  | flushAll as => exact ⟨hidle, fun _ _ hx => absurd hx (notMem_empty _)⟩

end

/-! ## CPUs -/

/-- The virtual memory manager and the CPUs that use it. -/
structure Mmu (σ κ : Type*) where
  sys : Sys σ
  cr3 : κ → PhysAddr
  tlb : κ → Set (VirtAddr × PhysAddr)
  phase : κ → Phase

variable {κ : Type*} [DecidableEq κ]

/-- What CPU `c` does. Two CPUs are never in a call on one address space, and an address space that
is destroyed is not in use. With `exclusive` a CPU that is in a call on an address space is the only
one that has it loaded. -/
inductive MmuStep (exclusive : Prop) (c : κ) : Mmu σ κ → Mmu σ κ → Prop
  | fill {x : Mmu σ κ} {v : VirtAddr} {p : PhysAddr}
      (h : x86Translate (entry x.sys.vmm.machine) (x.cr3 c) v = some p) :
      MmuStep exclusive c x { x with tlb := update x.tlb c (insert (v, p) (x.tlb c)) }
  | evict {x : Mmu σ κ} {t : Set (VirtAddr × PhysAddr)} (h : t ⊆ x.tlb c) :
      MmuStep exclusive c x { x with tlb := update x.tlb c t }
  | switch {x : Mmu σ κ} {a : VirtAddr} (hidle : x.phase c = .idle)
      (ha : a ∈ x.sys.vmm.kernelAs :: x.sys.spaces)
      (halone : exclusive → ∀ d, (x.phase d).space ≠ some a) :
      MmuStep exclusive c x { x with cr3 := update x.cr3 c (rootOf x.sys.vmm a)
                                     tlb := update x.tlb c ∅ }
  | create {x : Mmu σ κ} {a : VirtAddr} {k' : VmmState σ} (hidle : x.phase c = .idle)
      (h : vmmCreateAddressSpace x.sys.vmm = (a, k')) :
      MmuStep exclusive c x
        { x with sys := ⟨k', if a = 0 then x.sys.spaces else a :: x.sys.spaces⟩ }
  | destroy {x : Mmu σ κ} {a : VirtAddr} (hidle : x.phase c = .idle) (ha : a ∈ x.sys.spaces)
      (hunused : ∀ d, x.cr3 d ≠ rootOf x.sys.vmm a ∧ (x.phase d).space ≠ some a) :
      MmuStep exclusive c x
        { x with sys := ⟨vmmDestroyAddressSpace x.sys.vmm a, x.sys.spaces.erase a⟩ }
  | call {x : Mmu σ κ} {a : VirtAddr} {op : Op} (hidle : x.phase c = .idle)
      (ha : a ∈ x.sys.spaces) (hop : ∀ w ∈ op.pages, w.toNat < 2 ^ 47)
      (halone : ∀ d, d ≠ c → (x.phase d).space ≠ some a ∧
        (exclusive → x.cr3 d ≠ rootOf x.sys.vmm a)) :
      MmuStep exclusive c x { x with sys := ⟨(startCall x.sys.vmm a op).1, x.sys.spaces⟩
                                     phase := update x.phase c (startCall x.sys.vmm a op).2 }
  | next {x : Mmu σ κ} :
      MmuStep exclusive c x
        { x with sys := ⟨(nextPage x.sys.vmm (x.phase c)).1, x.sys.spaces⟩
                 tlb := update x.tlb c ((x.phase c).flush (x.tlb c))
                 phase := update x.phase c (nextPage x.sys.vmm (x.phase c)).2 }

/-- The CPUs get from `x` to `y`. -/
def MmuRun (exclusive : Prop) (x y : Mmu σ κ) : Prop :=
  Relation.ReflTransGen (fun x y => ∃ c, MmuStep exclusive c x y) x y

/-- After `vmm_init` all CPUs have the boot loader's tables, which form a tree. -/
def MmuBooted (x : Mmu σ κ) : Prop :=
  ∃ s cr3 k, vmmInit s cr3 = some (0, k) ∧ TreeIn tableTarget Set.univ s cr3 ∧
    x = ⟨⟨k, []⟩, fun _ => cr3, fun _ => ∅, fun _ => .idle⟩

/-- The states that CPUs reach from `vmm_init`. -/
def MmuReachable (exclusive : Prop) : Mmu σ κ → Prop :=
  Runs.Reachable MmuBooted fun x y => ∃ c, MmuStep exclusive c x y

/-- The invariant. -/
structure MmuInv (exclusive : Prop) (x : Mmu σ κ) : Prop where
  tree : TreeInv x.sys.vmm x.sys.spaces
  loaded : ∀ c, ∃ a ∈ x.sys.vmm.kernelAs :: x.sys.spaces, x.cr3 c = rootOf x.sys.vmm a
  called : ∀ c a, (x.phase c).space = some a → a ∈ x.sys.spaces
  alone : ∀ c d a, (x.phase c).space = some a → d ≠ c →
    (x.phase d).space ≠ some a ∧ (exclusive → x.cr3 d ≠ rootOf x.sys.vmm a)
  lower : ∀ c, ∀ w ∈ (x.phase c).pages, w.toNat < 2 ^ 47
  coherent : exclusive → ∀ c, ∀ y ∈ x.tlb c, y.1 ∉ (x.phase c).stale →
    x86Translate (entry x.sys.vmm.machine) (x.cr3 c) y.1 = some y.2

section
variable {exclusive : Prop} {x y : Mmu σ κ} {c : κ} {a : VirtAddr} {k' : VmmState σ}

/-- A step of a call. -/
lemma MmuInv.work (h : MmuInv exclusive x) (ha : a ∈ x.sys.spaces)
    (halone : ∀ d, d ≠ c → (x.phase d).space ≠ some a ∧
      (exclusive → x.cr3 d ≠ rootOf x.sys.vmm a)) {ph : Phase} {t : Set (VirtAddr × PhysAddr)}
    (hleads : Leads x.sys.vmm k' x.sys.spaces a ph)
    (hkept : ∀ z ∈ t, z.1 ∉ ph.stale → z ∈ x.tlb c ∧ z.1 ∉ (x.phase c).stale) :
    MmuInv exclusive ⟨⟨k', x.sys.spaces⟩, x.cr3, update x.tlb c t,
      update x.phase c ph⟩ := by
  obtain ⟨hspares, hspace, hlower⟩ := hleads
  refine ⟨hspares.tree, fun d => ?_, fun d b hb => ?_, fun d e b hb hne => ?_, fun d => ?_,
    fun hex d z hz hstale => ?_⟩
  · obtain ⟨b, hb, hroot⟩ := h.loaded d
    refine ⟨b, ?_, hroot.trans (hspares.roots b).symm⟩
    rw [hspares.kernelAs]
    exact hb
  · by_cases hd : d = c
    · simp only [hd, update_self] at hb
      rw [hspace b hb]
      exact ha
    · simp only [update_of_ne hd] at hb
      exact h.called d b hb
  · simp only [hspares.roots]
    by_cases hd : d = c
    · subst hd
      simp only [update_self] at hb
      simp only [update_of_ne hne]
      rw [hspace b hb]
      exact halone e hne
    · simp only [update_of_ne hd] at hb
      by_cases he : e = c
      · -- the address space of another call is not the one of this call
        subst he
        simp only [update_self]
        have hba : b ≠ a := fun hba => (halone d hd).1 (hba ▸ hb)
        exact ⟨fun hph => hba (hspace b hph), (h.alone d e b hb hne).2⟩
      · simp only [update_of_ne he]
        exact h.alone d e b hb hne
  · by_cases hd : d = c
    · simp only [hd, update_self]
      exact hlower
    · simp only [update_of_ne hd]
      exact h.lower d
  · obtain ⟨b, hb, hroot⟩ := h.loaded d
    by_cases hd : d = c
    · subst hd
      simp only [update_self] at hz hstale
      obtain ⟨hold, hfresh⟩ := hkept z hz hstale
      have hbefore := h.coherent hex d z hold hfresh
      rw [hroot] at hbefore
      simp only [hroot]
      by_cases hba : b = a
      · rw [hba] at hbefore ⊢
        exact hspares.self z.1 z.2 hstale hbefore
      · rw [hspares.others b hb hba]
        exact hbefore
    · simp only [update_of_ne hd] at hz hstale
      have hbefore := h.coherent hex d z hz hstale
      have hba : b ≠ a := by
        intro hba
        rw [hba] at hroot
        exact (halone d hd).2 hex hroot
      rw [hroot] at hbefore
      simp only [hroot]
      rw [hspares.others b hb hba]
      exact hbefore

/-- A call starts. -/
lemma MmuInv.call (h : MmuInv exclusive x) (hidle : x.phase c = .idle) (ha : a ∈ x.sys.spaces)
    {op : Op} (hop : ∀ w ∈ op.pages, w.toNat < 2 ^ 47)
    (halone : ∀ d, d ≠ c → (x.phase d).space ≠ some a ∧
      (exclusive → x.cr3 d ≠ rootOf x.sys.vmm a)) :
    MmuInv exclusive { x with
      sys := ⟨(startCall x.sys.vmm a op).1, x.sys.spaces⟩
      phase := update x.phase c (startCall x.sys.vmm a op).2 } := by
  have hwork := h.work (t := x.tlb c) ha halone (h.tree.startCall ha hop) fun z hz _ => by
    rw [hidle]
    exact ⟨hz, notMem_empty _⟩
  rwa [update_eq_self] at hwork

/-- A call goes on to the next page. -/
lemma MmuInv.next (h : MmuInv exclusive x) (c : κ) :
    MmuInv exclusive { x with
      sys := ⟨(nextPage x.sys.vmm (x.phase c)).1, x.sys.spaces⟩
      tlb := update x.tlb c ((x.phase c).flush (x.tlb c))
      phase := update x.phase c (nextPage x.sys.vmm (x.phase c)).2 } := by
  cases hph : (x.phase c).space with
  | none =>
    have hidle : x.phase c = .idle := by
      cases hx : x.phase c with
      | idle => rfl
      | _ => rw [hx] at hph; exact absurd hph (by simp [Phase.space])
    have hsame : update x.phase c (nextPage x.sys.vmm (x.phase c)).2 = x.phase := by
      rw [hidle]
      exact (congrArg _ hidle.symm).trans (update_eq_self c x.phase)
    rw [hsame, hidle]
    simp only [nextPage, Phase.flush, update_eq_self]
    exact h
  | some a =>
    obtain ⟨hleads, hkept⟩ := h.tree.nextPage hph (h.called c a hph) (h.lower c)
    exact h.work (h.called c a hph) (fun d hd => h.alone c d a hph hd) hleads
      fun z hz => hkept _ z hz

omit [DecidableEq κ] in
/-- Address spaces come and go, and those in use stay as they are. -/
lemma MmuInv.resize (h : MmuInv exclusive x) {l : List VirtAddr} (htree : TreeInv k' l)
    (hkernel : k'.kernelAs = x.sys.vmm.kernelAs)
    (hused : ∀ b ∈ x.sys.vmm.kernelAs :: x.sys.spaces,
      (∃ d, x.cr3 d = rootOf x.sys.vmm b ∨ (x.phase d).space = some b) →
      (b ∈ x.sys.spaces → b ∈ l) ∧ rootOf k' b = rootOf x.sys.vmm b ∧
        ∀ u, x86Translate (entry k'.machine) (rootOf x.sys.vmm b) u =
          x86Translate (entry x.sys.vmm.machine) (rootOf x.sys.vmm b) u) :
    MmuInv exclusive { x with sys := ⟨k', l⟩ } := by
  have hcalled : ∀ d b, (x.phase d).space = some b → b ∈ l ∧ rootOf k' b = rootOf x.sys.vmm b := by
    intro d b hb
    have hmem := h.called d b hb
    obtain ⟨hin, hroot, -⟩ := hused b (mem_cons_of_mem _ hmem) ⟨d, Or.inr hb⟩
    exact ⟨hin hmem, hroot⟩
  refine ⟨htree, fun d => ?_, fun d b hb => (hcalled d b hb).1, fun d e b hb hne => ?_, h.lower,
    fun hex d z hz hstale => ?_⟩
  · obtain ⟨b, hb, hroot⟩ := h.loaded d
    obtain ⟨hin, hsame, -⟩ := hused b hb ⟨d, Or.inl hroot⟩
    refine ⟨b, ?_, hroot.trans hsame.symm⟩
    rw [hkernel]
    obtain hb | hb := mem_cons.mp hb
    · rw [hb]
      exact mem_cons_self
    · exact mem_cons_of_mem _ (hin hb)
  · simp only [(hcalled d b hb).2]
    exact h.alone d e b hb hne
  · obtain ⟨b, hb, hroot⟩ := h.loaded d
    have hbefore := h.coherent hex d z hz hstale
    rw [hroot] at hbefore
    simp only [hroot]
    rw [(hused b hb ⟨d, Or.inl hroot⟩).2.2]
    exact hbefore

/-- An operation that leaves the tables of an address space alone leaves its translations alone. -/
lemma TreeInv.untouched_translate {k : VmmState σ} {l m : List VirtAddr} {X : Set PhysAddr}
    (h : TreeInv k l) (hu : Untouched k k' X m) (hm : m.Sublist l) {b : VirtAddr}
    (hb : b ∈ k.kernelAs :: m)
    (hX : Disjoint X (tables tableTarget (entry k.machine) (rootOf k b) Set.univ 3)) (u : VirtAddr) :
    x86Translate (entry k'.machine) (rootOf k b) u =
      x86Translate (entry k.machine) (rootOf k b) u := by
  apply x86Translate_same
  intro f hf
  have hmem : b ∈ k.kernelAs :: l := cons_subset_cons _ hm.subset hb
  exact hu.entries f (h.forest.tables_live _ (TreeInv.mem_roots hmem) hf)
    fun hin => disjoint_left.mp hX hin hf

omit [DecidableEq κ] in
/-- An address space is created. -/
lemma MmuInv.create (h : MmuInv exclusive x)
    (hcreate : vmmCreateAddressSpace x.sys.vmm = (a, k')) :
    MmuInv exclusive
      { x with sys := ⟨k', if a = 0 then x.sys.spaces else a :: x.sys.spaces⟩ } := by
  have hu := vmmCreateAddressSpace_untouched
    (fun b hb => h.tree.object b (mem_cons.mpr hb)) hcreate
  refine h.resize (h.tree.create hcreate) hu.kernelAs fun b hb _ => ⟨fun hin => ?_,
    hu.rootOf_eq (mem_cons.mp hb),
    h.tree.untouched_translate hu (List.Sublist.refl _) hb (empty_disjoint _)⟩
  split_ifs
  · exact hin
  · exact mem_cons_of_mem a hin

omit [DecidableEq κ] in
/-- An address space is destroyed. -/
lemma MmuInv.destroy (h : MmuInv exclusive x) (ha : a ∈ x.sys.spaces)
    (hunused : ∀ d, x.cr3 d ≠ rootOf x.sys.vmm a ∧ (x.phase d).space ≠ some a) :
    MmuInv exclusive
      { x with sys := ⟨vmmDestroyAddressSpace x.sys.vmm a, x.sys.spaces.erase a⟩ } := by
  have hmem := mem_cons_of_mem x.sys.vmm.kernelAs ha
  have hnd := nodup_cons.mp h.tree.nodup
  have hkernel : a ≠ x.sys.vmm.kernelAs := ne_of_mem_of_not_mem ha hnd.1
  have hinv := (h.tree.clean a ha).lowerTree h.tree.forest (TreeInv.mem_roots hmem)
  have hu : Untouched x.sys.vmm (vmmDestroyAddressSpace x.sys.vmm a) (tablesOf x.sys.vmm a)
      (x.sys.spaces.erase a) := by
    refine vmmDestroyAddressSpace_untouched (h.tree.nonnull a hmem) hinv hkernel
      (h.tree.object a hmem) fun b hb => ?_
    obtain hb | hb := hb
    · rw [hb]
      exact hkernel.symm
    · exact (hnd.2.mem_erase_iff.mp hb).1
  refine h.resize (h.tree.destroy ha) hu.kernelAs fun b hb ⟨d, hd⟩ => ?_
  have hba : b ≠ a := by
    rintro rfl
    exact hd.elim (hunused d).1 (hunused d).2
  have hb' : b ∈ x.sys.vmm.kernelAs :: x.sys.spaces.erase a := by
    obtain hb | hb := mem_cons.mp hb
    · rw [hb]
      exact mem_cons_self
    · exact mem_cons_of_mem _ ((mem_erase_of_ne hba).mpr hb)
  exact ⟨fun hin => (mem_erase_of_ne hba).mpr hin, hu.rootOf_eq (mem_cons.mp hb'),
    h.tree.untouched_translate hu erase_sublist hb' (h.tree.disjoint ha hb')⟩

/-- The translations of a CPU are replaced by ones that are right. -/
lemma MmuInv.setTlb (h : MmuInv exclusive x) {t : Set (VirtAddr × PhysAddr)}
    (ht : exclusive → ∀ z ∈ t, z.1 ∉ (x.phase c).stale →
      x86Translate (entry x.sys.vmm.machine) (x.cr3 c) z.1 = some z.2) :
    MmuInv exclusive { x with tlb := update x.tlb c t } := by
  refine ⟨h.tree, h.loaded, h.called, h.alone, h.lower, fun hex d z hz hstale => ?_⟩
  by_cases hd : d = c
  · simp only [hd, update_self] at hz hstale ⊢
    exact ht hex z hz hstale
  · simp only [update_of_ne hd] at hz
    exact h.coherent hex d z hz hstale

/-- One step keeps the invariant. -/
lemma MmuInv.step (h : MmuInv exclusive x) (hst : MmuStep exclusive c x y) :
    MmuInv exclusive y := by
  cases hst with
  | @fill v p hp =>
    refine h.setTlb fun hex z hz hstale => ?_
    obtain hz | hz := mem_insert_iff.mp hz
    · rw [hz]
      exact hp
    · exact h.coherent hex c z hz hstale
  | evict ht => exact h.setTlb fun hex z hz hstale => h.coherent hex c z (ht hz) hstale
  | @switch a hidle ha halone =>
    refine ⟨h.tree, fun d => ?_, h.called, fun d e b hb hne => ⟨(h.alone d e b hb hne).1,
      fun hex => ?_⟩, h.lower, fun hex d z hz hstale => ?_⟩
    · by_cases hd : d = c
      · simp only [hd, update_self]
        exact ⟨a, ha, rfl⟩
      · simp only [update_of_ne hd]
        exact h.loaded d
    · by_cases he : e = c
      · simp only [he, update_self]
        intro hroot
        have hab := h.tree.inj a ha b (mem_cons_of_mem _ (h.called d b hb)) hroot
        exact halone hex d (hab ▸ hb)
      · simp only [update_of_ne he]
        exact (h.alone d e b hb hne).2 hex
    · by_cases hd : d = c
      · simp only [hd, update_self] at hz
        exact absurd hz (notMem_empty _)
      · simp only [update_of_ne hd] at hz ⊢
        exact h.coherent hex d z hz hstale
  | create hidle hcreate => exact h.create hcreate
  | destroy hidle ha hunused => exact h.destroy ha hunused
  | call hidle ha hop halone => exact h.call hidle ha hop halone
  | next => exact h.next c

lemma MmuReachable.inv (h : MmuReachable exclusive x) : MmuInv exclusive x := by
  refine h.invariant (fun x hx => ?_) fun x y hinv hst => ?_
  · rcases hx with ⟨s, cr3, k, hinit, htree, rfl⟩
    exact ⟨TreeInv.init hinit htree, fun _ => ⟨_, mem_cons_self, (vmmInit_ok hinit).1.symm⟩,
      fun _ _ hb => absurd hb (by simp [Phase.space]),
      fun _ _ _ hb => absurd hb (by simp [Phase.space]), fun _ => by simp [Phase.pages],
      fun _ _ _ hz => absurd hz (notMem_empty _)⟩
  · rcases hst with ⟨c, hst⟩
    exact hinv.step hst

/-- No CPU keeps a translation that the tables do not have, except those that its call has yet to
flush. -/
theorem tlb_coherent (h : MmuReachable True x) {z : VirtAddr × PhysAddr} (hz : z ∈ x.tlb c)
    (hstale : z.1 ∉ (x.phase c).stale) :
    x86Translate (entry x.sys.vmm.machine) (x.cr3 c) z.1 = some z.2 :=
  h.inv.coherent trivial c z hz hstale

/-- A call on one page, up to its end. -/
lemma mmuRun_page (hidle : x.phase c = .idle) (ha : a ∈ x.sys.spaces)
    (halone : ∀ d, d ≠ c → (x.phase d).space ≠ some a ∧
      (exclusive → x.cr3 d ≠ rootOf x.sys.vmm a)) {v : VirtAddr} (hv : v.toNat < 2 ^ 47) {op : Op}
    (hop : op = .unmapPage v ∨ ∃ p flags, op = .mapPage v p flags) :
    ∃ t, MmuRun exclusive x ⟨⟨(exec x.sys.vmm a op).2, x.sys.spaces⟩, x.cr3,
        update x.tlb c t, x.phase⟩ := by
  have hpages : op.pages = [vmmPageAlignDown v] := by
    obtain rfl | ⟨p, flags, rfl⟩ := hop <;> rfl
  -- after the first step the page is flushed, or nothing is left to do
  have hstart : (startCall x.sys.vmm a op).1 = (exec x.sys.vmm a op).2 ∧
      ((startCall x.sys.vmm a op).2 = .flushPage a (vmmPageAlignDown v) ∨
        (startCall x.sys.vmm a op).2 = .idle) := by
    obtain rfl | ⟨p, flags, rfl⟩ := hop
    · exact ⟨rfl, ite_eq_or_eq _ _ _⟩
    · exact ⟨rfl, ite_eq_or_eq _ _ _⟩
  have hcall : MmuRun exclusive x _ :=
    .single ⟨c, .call hidle ha (lower_of_pages hpages hv) halone⟩
  have hback : update (update x.phase c (startCall x.sys.vmm a op).2) c .idle =
      x.phase := by
    rw [update_idem, ← hidle, update_eq_self]
  rw [hstart.1] at hcall
  have hnext := hcall.tail ⟨c, .next⟩
  simp only [update_self] at hnext
  have hend : nextPage (exec x.sys.vmm a op).2 (startCall x.sys.vmm a op).2 =
      ((exec x.sys.vmm a op).2, .idle) := by
    obtain hph | hph := hstart.2
    · rw [hph]
      rfl
    · rw [hph]
      rfl
  rw [hend, hback] at hnext
  exact ⟨_, hnext⟩

end

/-- When a CPU unmaps a page of an address space that another CPU has loaded, the other one can keep
the translation: a run of the two goes on to a state in which the call is over. -/
theorem unmap_leaves_stale {x : Mmu σ κ} (h : MmuReachable False x) {c d : κ} (hcd : d ≠ c)
    (hidle : x.phase c = .idle) {a : VirtAddr} (ha : a ∈ x.sys.spaces)
    (hfree : ∀ e, (x.phase e).space ≠ some a) (hloaded : x.cr3 d = rootOf x.sys.vmm a)
    {v : VirtAddr} (hv : v.toNat < 2 ^ 47) (hmapped : (vmmUnmapPage x.sys.vmm a v).1 = 0) :
    ∃ (y : Mmu σ κ) (p : PhysAddr), MmuRun False x y ∧
      y.sys.vmm = (vmmUnmapPage x.sys.vmm a v).2 ∧ y.phase = x.phase ∧ (v, p) ∈ y.tlb d ∧
      x86Translate (entry y.sys.vmm.machine) (y.cr3 d) v = none := by
  have htree := h.inv.tree
  have hmem := mem_cons_of_mem x.sys.vmm.kernelAs ha
  have hcall : unmapPage x.sys.vmm a v = (0, (vmmUnmapPage x.sys.vmm a v).2) := Prod.ext hmapped rfl
  obtain ⟨-, hpages, hcases⟩ := unmapPage_part (htree.partRep hmem) (htree.partWalk_page ha hv) hcall
  -- the page is mapped, so the other CPU can translate the address
  obtain ⟨f, hf⟩ : ∃ f, pageIn tableTarget x.sys.vmm.machine (rootOf x.sys.vmm a) (page v) =
      some f := by
    obtain ⟨-, hsome, -⟩ | ⟨hr, -⟩ := hcases
    · exact Option.ne_none_iff_exists'.mp hsome
    · exact absurd hr (by decide)
  have hclean := (htree.partWalk_page ha hv).clean
  rw [← upperIndices_eq] at hclean
  have hcanonical : Canonical v := Or.inl hv
  have htranslate : x86Translate (entry x.sys.vmm.machine) (x.cr3 d) v =
      some (f ||| pageOffset v) := by
    unfold x86Translate
    rw [if_pos hcanonical, hloaded, x86Walk_pageIn hclean, hf]
    rfl
  obtain ⟨t, hy⟩ := mmuRun_page (c := c)
    (x := { x with tlb := update x.tlb d (insert (v, f ||| pageOffset v) (x.tlb d)) })
    hidle ha (fun e _ => ⟨hfree e, fun hfalse : False => absurd hfalse not_false⟩) hv (Or.inl rfl)
  refine ⟨_, f ||| pageOffset v, .head ⟨d, .fill htranslate⟩ hy, rfl, rfl, ?_, ?_⟩
  · simp only [update_of_ne hcd, update_self]
    exact mem_insert _ _
  · have hspares := (htree.spares_unmapPage ha hv).1
    have hnone : pageIn tableTarget (unmapPage x.sys.vmm a v).2.machine
        (rootOf (unmapPage x.sys.vmm a v).2 a) (page v) = none := by
      rw [hspares.roots]
      exact (hpages _ (inPart_univ _)).trans (if_pos rfl)
    have htaken := hspares.tree.x86Translate_none (u := v) ha hv hnone rfl
    rw [hspares.roots] at htaken
    simp only [hloaded]
    exact htaken

/-! ## Two CPUs -/

/-- Two CPUs with one address space, which are in no call. -/
def twoCpus (k : VmmState Ram) (cr3 : Fin 2 → PhysAddr) (tlb : Fin 2 → Set (VirtAddr × PhysAddr)) :
    Mmu Ram (Fin 2) :=
  ⟨⟨k, [0x200]⟩, cr3, tlb, fun _ => .idle⟩

section
variable {exclusive : Prop} {k : VmmState Ram} {cr3 : Fin 2 → PhysAddr}

/-- The address space of `hhdmOne` is there, and both CPUs have the boot loader's tables. -/
lemma twoCpus_created :
    MmuReachable exclusive (twoCpus hhdmOne.vmm (fun _ => 0x1000) fun _ => ∅) := by
  have hcreate : (vmmCreateAddressSpace hhdmState).1 = 0x200 := by decide +kernel
  have hboot : MmuReachable exclusive
      (⟨⟨hhdmState, []⟩, fun _ => 0x1000, fun _ => ∅, fun _ => .idle⟩ : Mmu Ram (Fin 2)) :=
    .init ⟨hhdmRam, 0x1000, hhdmState, rfl, hhdmRam_tree _, rfl⟩
  exact hboot.step ⟨0, .create rfl (Prod.ext hcreate rfl)⟩

/-- A CPU loads the address space. -/
lemma twoCpus_load (h : MmuReachable exclusive (twoCpus k cr3 fun _ => ∅)) (c : Fin 2) :
    MmuReachable exclusive
      (twoCpus k (update cr3 c (rootOf k 0x200)) fun _ => ∅) := by
  have hstep := h.step ⟨c, .switch rfl (mem_cons_of_mem _ mem_cons_self)
    fun _ d => by simp [twoCpus, Phase.space]⟩
  have hempty : update (fun _ => ∅) c ∅ =
      fun _ : Fin 2 => (∅ : Set (VirtAddr × PhysAddr)) := update_eq_self c _
  simp only [twoCpus, hempty] at hstep
  exact hstep

/-- CPU 0 maps or unmaps a page. -/
lemma twoCpus_page (c : Fin 2 → PhysAddr) (halone : exclusive → c 1 ≠ rootOf k 0x200)
    (tlb : Fin 2 → Set (VirtAddr × PhysAddr)) {op : Op}
    (hop : op = .unmapPage 0x402000 ∨ ∃ p flags, op = .mapPage 0x402000 p flags) :
    ∃ t, MmuRun exclusive (twoCpus k c tlb) (twoCpus (exec k 0x200 op).2 c t) := by
  obtain ⟨t, hrun⟩ := mmuRun_page (x := twoCpus k c tlb) (c := 0) rfl mem_cons_self
    (fun d hd => by
      rw [show d = 1 by omega]
      exact ⟨by simp [twoCpus, Phase.space], halone⟩) (v := 0x402000) (by decide) hop
  exact ⟨_, hrun⟩

end

lemma hhdmMapped_vmm :
    hhdmMapped.vmm = (exec hhdmOne.vmm 0x200 (.mapPage 0x402000 0x5000 7)).2 := by rw [hhdmMapped]

/-- The page of `hhdmMapped` is unmapped, and mapped to another frame. -/
def hhdmRemapped : VmmState Ram :=
  (exec (exec hhdmMapped.vmm 0x200 (.unmapPage 0x402000)).2 0x200 (.mapPage 0x402000 0x6000 7)).2

/-- CPU 0 creates and loads an address space, maps a page in it, unmaps it and maps it to another
frame. It keeps the new translation. -/
theorem tlb_coherent_two : ∃ x : Mmu Ram (Fin 2), MmuReachable True x ∧
    x.sys.vmm = hhdmRemapped ∧ (0x402000, 0x6000) ∈ x.tlb 0 ∧
    x86Translate (entry x.sys.vmm.machine) (x.cr3 0) 0x402000 = some 0x6000 := by
  have hloaded : MmuReachable True _ := twoCpus_load twoCpus_created 0
  generalize hcr3 : update (fun _ : Fin 2 => (0x1000 : PhysAddr)) 0
    (rootOf hhdmOne.vmm 0x200) = cr3 at hloaded
  have hzero : cr3 0 = 0x200000 := by rw [← hcr3]; decide +kernel
  have hone : cr3 1 = 0x1000 := by rw [← hcr3]; decide +kernel
  obtain ⟨t₁, hmap⟩ := twoCpus_page (k := hhdmOne.vmm) cr3
    (fun _ : True => by rw [hone]; decide +kernel) (fun _ => ∅) (Or.inr ⟨0x5000, 7, rfl⟩)
  obtain ⟨t₂, hunmap⟩ := twoCpus_page (k := hhdmMapped.vmm) cr3
    (fun _ : True => by rw [hone]; decide +kernel) t₁ (Or.inl rfl)
  obtain ⟨t₃, hremap⟩ := twoCpus_page (k := (exec hhdmMapped.vmm 0x200 (.unmapPage 0x402000)).2)
    cr3 (fun _ : True => by rw [hone]; decide +kernel) t₂ (Or.inr ⟨0x6000, 7, rfl⟩)
  rw [← hhdmMapped_vmm] at hmap
  have hreach : MmuReachable True (twoCpus hhdmRemapped cr3 t₃) := by
    unfold hhdmRemapped
    exact ((hloaded.run hmap).run hunmap).run hremap
  have htranslate : x86Translate (entry hhdmRemapped.machine) (cr3 0) 0x402000 = some 0x6000 := by
    rw [hzero]
    decide +kernel
  generalize hhdmRemapped = m at hreach htranslate ⊢
  have hfill := hreach.step ⟨0, .fill htranslate⟩
  have hkept : (0x402000, 0x6000) ∈ update t₃ 0 (insert (0x402000, 0x6000) (t₃ 0)) 0 := by
    rw [update_self]
    exact mem_insert _ _
  exact ⟨_, hfill, rfl, hkept,
    tlb_coherent (c := 0) (z := (0x402000, 0x6000)) hfill hkept (notMem_empty _)⟩

/-- An address space is created and loaded on both CPUs. CPU 0 maps a page in it, and unmaps it. -/
theorem unmap_leaves_stale_two : ∃ (x y : Mmu Ram (Fin 2)) (p : PhysAddr),
    MmuReachable False x ∧ x.sys.vmm = hhdmMapped.vmm ∧ MmuRun False x y ∧
    y.sys.vmm = (vmmUnmapPage hhdmMapped.vmm 0x200 0x402000).2 ∧ (∀ c, y.phase c = .idle) ∧
    (0x402000, p) ∈ y.tlb 1 ∧
    x86Translate (entry y.sys.vmm.machine) (y.cr3 1) 0x402000 = none := by
  have hunmap : (vmmUnmapPage hhdmMapped.vmm 0x200 0x402000).1 = 0 := by decide +kernel
  have hloaded : MmuReachable False _ := twoCpus_load (twoCpus_load twoCpus_created 0) 1
  generalize hcr3 : update (update (fun _ : Fin 2 => (0x1000 : PhysAddr)) 0
    (rootOf hhdmOne.vmm 0x200)) 1 (rootOf hhdmOne.vmm 0x200) = cr3 at hloaded
  have hone : cr3 1 = rootOf hhdmMapped.vmm 0x200 := by rw [← hcr3]; decide +kernel
  obtain ⟨t, hmap⟩ := twoCpus_page (k := hhdmOne.vmm) cr3 (fun hfalse : False => hfalse.elim)
    (fun _ => ∅) (Or.inr ⟨0x5000, 7, rfl⟩)
  rw [← hhdmMapped_vmm] at hmap
  have hmapped := hloaded.run hmap
  generalize hhdmMapped.vmm = m at hmapped hone hunmap ⊢
  obtain ⟨y, p, hy, hvmm, hphase, hin, hnone⟩ := unmap_leaves_stale hmapped (c := 0) (d := 1)
    (by decide) rfl (a := 0x200) mem_cons_self (fun _ => by simp [twoCpus, Phase.space]) hone
    (v := 0x402000) (by decide) hunmap
  exact ⟨_, y, p, hmapped, rfl, hy, hvmm, fun c => by rw [hphase]; rfl, hin, hnone⟩

end LunOS.Vmm
