import LunOS.Vmm.PageMap
import LunOS.Utils.Radix

/-!
# Address spaces as trees of page tables

What the virtual memory manager relies on (`LawfulPageMachine`), and what a walk does to the tables
of an address space.

- `TreeIn`: the tables of a part of the root form a tree of frames in use.
- `GrowsIn`: the tree only got further tables of its own.
- `Filled`: the tables that were missing on some paths are there, for one page each.
- `walkLevels_lookup`, `walkLevels_grows`: the two ways to walk.
-/

namespace LunOS.Vmm
open LunOS.Radix List Set

/-- The allocators keep apart what is in use: `live` are the frames that were handed out and not
freed, or never belonged to the allocator, and `objects` the addresses from `kmalloc`. Frames that
are not in use may change at any call of an allocator. The laws of `kmalloc` are for sizes that it
gets from a slab; the end marker of a large block may lie behind the block. -/
class LawfulPageMachine (σ : Type*) extends PageMachine σ where
  live : σ → Set PhysAddr
  objects : σ → Set VirtAddr
  mapped : ∀ {s f}, f ∈ live s → f + hhdmOffset ≠ 0
  load_store_self : ∀ {s f} i e, f ∈ live s →
    load (store s (f + hhdmOffset) i e) (f + hhdmOffset) i = e
  load_store_of_ne : ∀ {s f g i j} e, f ∈ live s → g ∈ live s → (g, j) ≠ (f, i) →
    load (store s (f + hhdmOffset) i e) (g + hhdmOffset) j = load s (g + hhdmOffset) j
  live_store : ∀ {s f} i e, f ∈ live s → live (store s (f + hhdmOffset) i e) = live s
  objects_store : ∀ {s f} i e, f ∈ live s → objects (store s (f + hhdmOffset) i e) = objects s
  load_memset_self : ∀ {s f} i, f ∈ live s →
    load (memsetPage s (f + hhdmOffset)) (f + hhdmOffset) i = 0
  load_memset_of_ne : ∀ {s f g} i, f ∈ live s → g ∈ live s → g ≠ f →
    load (memsetPage s (f + hhdmOffset)) (g + hhdmOffset) i = load s (g + hhdmOffset) i
  live_memset : ∀ {s f}, f ∈ live s → live (memsetPage s (f + hhdmOffset)) = live s
  objects_memset : ∀ {s f}, f ∈ live s → objects (memsetPage s (f + hhdmOffset)) = objects s
  alloc_fails : ∀ {s}, (pmmAllocPage s).1 = 0 → live (pmmAllocPage s).2 = live s
  alloc_fresh : ∀ {s}, (pmmAllocPage s).1 ≠ 0 → (pmmAllocPage s).1 ∉ live s
  alloc_frame : ∀ {s}, (pmmAllocPage s).1 ≠ 0 → pteAddr (pmmAllocPage s).1 = (pmmAllocPage s).1
  live_alloc : ∀ {s}, (pmmAllocPage s).1 ≠ 0 →
    live (pmmAllocPage s).2 = insert (pmmAllocPage s).1 (live s)
  load_alloc : ∀ {s f} i, f ∈ live s →
    load (pmmAllocPage s).2 (f + hhdmOffset) i = load s (f + hhdmOffset) i
  objects_alloc : ∀ {s}, objects (pmmAllocPage s).2 = objects s
  live_free : ∀ {s f}, f ∈ live s → live (pmmFreePage s f) = live s \ {f}
  load_free : ∀ {s f g} i, f ∈ live s → g ∈ live s → g ≠ f →
    load (pmmFreePage s f) (g + hhdmOffset) i = load s (g + hhdmOffset) i
  objects_free : ∀ {s f}, f ∈ live s → objects (pmmFreePage s f) = objects s
  kmalloc_fails : ∀ {s n}, n ≤ 2048 → (kmalloc s n).1 = 0 → objects (kmalloc s n).2 = objects s
  kmalloc_fresh : ∀ {s n}, n ≤ 2048 → (kmalloc s n).1 ≠ 0 → (kmalloc s n).1 ∉ objects s
  objects_kmalloc : ∀ {s n}, n ≤ 2048 → (kmalloc s n).1 ≠ 0 →
    objects (kmalloc s n).2 = insert (kmalloc s n).1 (objects s)
  live_kmalloc : ∀ {s n}, n ≤ 2048 → live (kmalloc s n).2 = live s
  load_kmalloc : ∀ {s n f} i, n ≤ 2048 → f ∈ live s →
    load (kmalloc s n).2 (f + hhdmOffset) i = load s (f + hhdmOffset) i
  objects_kfree : ∀ {s p}, p ∈ objects s → objects (kfree s p) = objects s \ {p}
  live_kfree : ∀ {s p}, p ∈ objects s → live (kfree s p) = live s
  load_kfree : ∀ {s p f} i, p ∈ objects s → f ∈ live s →
    load (kfree s p) (f + hhdmOffset) i = load s (f + hhdmOffset) i

variable {σ : Type*} [LawfulPageMachine σ]
open PageMachine LawfulPageMachine

/-- The entries of the table in a frame. -/
def entry (s : σ) (f : PhysAddr) (i : Index) : PageTableEntry := load s (f + hhdmOffset σ) i

/-- The tables of the lower half. -/
def spaceTables (s : σ) (root : PhysAddr) : Set PhysAddr :=
  tables target (entry s) root lowerHalf 3

/-- The frame that a page of the lower half is mapped to. -/
def pageMap (s : σ) (root : PhysAddr) : PageMap := fun n =>
  if n < 2 ^ 35 then leaf target target (entry s) root (pathOf n) (slotOf n) else none

/-! ## Taking frames -/

/-- From `s` to `s'` the frames `fs` were taken, the last one first. Otherwise the machine only wrote
to frames in use. -/
inductive Takes (s : σ) : List PhysAddr → σ → Prop
  | refl : Takes s [] s
  | alloc {fs s'} : Takes s fs s' → (pmmAllocPage s').1 ≠ 0 →
    Takes s ((pmmAllocPage s').1 :: fs) (pmmAllocPage s').2
  | allocFails {fs s'} : Takes s fs s' → (pmmAllocPage s').1 = 0 → Takes s fs (pmmAllocPage s').2
  | memset {fs s' f} : Takes s fs s' → f ∈ live s' →
    Takes s fs (memsetPage s' (f + hhdmOffset σ))
  | store {fs s' f} (i : Index) (e : PageTableEntry) : Takes s fs s' → f ∈ live s' →
    Takes s fs (store s' (f + hhdmOffset σ) i e)

namespace Takes
variable {s s' s'' : σ} {fs gs : List PhysAddr}

lemma trans (h : Takes s fs s') (h' : Takes s' gs s'') : Takes s (gs ++ fs) s'' := by
  induction h' with
  | refl => exact h
  | alloc _ hne ih => exact ih.alloc hne
  | allocFails _ hzero ih => exact ih.allocFails hzero
  | memset _ hf ih => exact ih.memset hf
  | store i e _ hf ih => exact ih.store i e hf

/-- The frames were not in use, and are now. -/
lemma live_eq (h : Takes s fs s') :
    live s' = live s ∪ {f | f ∈ fs} ∧ ∀ f ∈ fs, f ∉ live s := by
  induction h with
  | refl => simp
  | alloc _ hne ih =>
    rw [live_alloc hne, ih.1]
    refine ⟨?_, forall_mem_cons.mpr ⟨fun hlive => alloc_fresh hne ?_, ih.2⟩⟩
    · ext f
      simp only [mem_insert_iff, mem_union, mem_ofPred_eq, mem_cons]
      exact or_left_comm
    · rw [ih.1]
      exact Or.inl hlive
  | allocFails _ hzero ih =>
    rw [alloc_fails hzero]
    exact ih
  | memset _ hf ih =>
    rw [live_memset hf]
    exact ih
  | store i e _ hf ih =>
    rw [live_store i e hf]
    exact ih

end Takes

/-! ## The tables of a machine that changed elsewhere -/

section
variable {s s' : σ} {root : PhysAddr}

lemma within_pathOf {n : ℕ} (hn : n < 2 ^ 35) (q : List Index) :
    Within lowerHalf (pathOf n ++ q) :=
  within_cons.mpr (pathOf_lower hn)

lemma spaceTables_congr (hsame : ∀ f ∈ spaceTables s root, ∀ i, entry s' f i = entry s f i) :
    spaceTables s' root = spaceTables s root :=
  tables_congr fun x hx => hsame x.1 (mem_tables_of_slots (slots_mono (by omega) hx)) x.2

lemma pageMap_congr (hsame : ∀ f ∈ spaceTables s root, ∀ i, entry s' f i = entry s f i) :
    pageMap s' root = pageMap s root := by
  funext n
  unfold pageMap
  by_cases hn : n < 2 ^ 35
  · rw [if_pos hn, if_pos hn]
    exact leaf_congr (fun x hx => hsame x.1 (mem_tables_of_slots hx) x.2) (Nat.le_refl 3)
      (within_pathOf hn [slotOf n])
  · rw [if_neg hn, if_neg hn]

end

/-! ## Any tree of tables -/

/-- The tables of a part `top` of the root form a tree of frames in use, when entries are read by
`child`. -/
structure TreeIn (child : EntryReader) (top : Set Index) (s : σ) (root : PhysAddr) : Prop where
  tree : IsTree child (entry s) root top 3
  tables_live : tables child (entry s) root top 3 ⊆ live s

/-- From `s` to `s'` the tree only got further tables of its own, and its entries and theirs were
written. -/
structure GrowsIn (child : EntryReader) (top : Set Index) (s s' : σ) (root : PhysAddr) : Prop where
  inv : TreeIn child top s' root
  live_eq : live s' = live s ∪ tables child (entry s') root top 3
  tables_sub : tables child (entry s) root top 3 ⊆ tables child (entry s') root top 3
  fresh : ∀ f ∈ tables child (entry s') root top 3, f ∈ live s →
    f ∈ tables child (entry s) root top 3
  others : ∀ f ∈ live s, f ∉ tables child (entry s) root top 3 → ∀ i, entry s' f i = entry s f i
  outside : ∀ i, i ∉ top → entry s' root i = entry s root i
  objects_eq : objects s' = objects s
  takes : ∃ fs, Takes s fs s'

variable {p : List Index} {s : σ} {i : Index} {g : PhysAddr}
  {child : EntryReader}

section
variable {child : EntryReader} {top : Set Index} {s s' s'' : σ}
variable {root f : PhysAddr}

section
variable (h : TreeIn child top s root)
include h

lemma TreeIn.root_live : root ∈ live s :=
  h.tables_live root_mem_tables

/-- A tree that did not change, on a machine where its tables are in use. -/
lemma TreeIn.congr (hlive : tables child (entry s) root top 3 ⊆ live s')
    (hsame : ∀ f ∈ tables child (entry s) root top 3, ∀ i, entry s' f i = entry s f i) :
    TreeIn child top s' root := by
  have hslots : ∀ x ∈ slots child (entry s) root top 3, entry s' x.1 x.2 = entry s x.1 x.2 :=
    fun x hx => hsame x.1 (mem_tables_of_slots (slots_mono (by omega) hx)) x.2
  refine ⟨h.tree.congr hslots, ?_⟩
  rw [tables_congr hslots]
  exact hlive

/-- Only entries of the tree may change, and none of them moves a table. -/
lemma GrowsIn.of_slots (hlive : live s' = live s)
    (hslots : ∀ x ∈ slots child (entry s) root top 3, entry s' x.1 x.2 = entry s x.1 x.2)
    (hothers : ∀ f ∈ live s, f ∉ tables child (entry s) root top 3 → ∀ i,
      entry s' f i = entry s f i) (houtside : ∀ i, i ∉ top → entry s' root i = entry s root i)
    (hobj : objects s' = objects s) (htakes : Takes s [] s') : GrowsIn child top s s' root := by
  have htables := tables_congr hslots
  refine ⟨⟨h.tree.congr hslots, ?_⟩, ?_, htables.ge, ?_, hothers, houtside, hobj, [], htakes⟩
  · rw [hlive, htables]
    exact h.tables_live
  · rw [hlive, htables]
    exact (union_eq_left.mpr h.tables_live).symm
  · intro f hf _
    rw [← htables]
    exact hf

lemma GrowsIn.of_same (hlive : live s' = live s)
    (hsame : ∀ f ∈ live s, ∀ i, entry s' f i = entry s f i) (hobj : objects s' = objects s)
    (htakes : Takes s [] s') : GrowsIn child top s s' root := by
  refine GrowsIn.of_slots h hlive (fun x hx => ?_) (fun f hf _ => hsame f hf)
    (fun i _ => hsame root h.root_live i) hobj htakes
  exact hsame x.1 (h.tables_live (mem_tables_of_slots (slots_mono (by omega) hx))) x.2

lemma GrowsIn.refl : GrowsIn child top s s root :=
  GrowsIn.of_same h rfl (fun _ _ _ => rfl) rfl .refl

end

lemma GrowsIn.live_sub (h : GrowsIn child top s s' root) : live s ⊆ live s' := by
  rw [h.live_eq]
  exact subset_union_left

/-- One growth after another. -/
lemma GrowsIn.trans (h : GrowsIn child top s s' root) (h' : GrowsIn child top s' s'' root) :
    GrowsIn child top s s'' root where
  inv := h'.inv
  live_eq := by
    rw [h'.live_eq, h.live_eq, union_assoc, union_eq_right.mpr h'.tables_sub]
  tables_sub := h.tables_sub.trans h'.tables_sub
  fresh f hf hlive := h.fresh f (h'.fresh f hf (h.live_sub hlive)) hlive
  others f hlive hf i := by
    rw [h'.others f (h.live_sub hlive) (fun hf' => hf (h.fresh f hf' hlive)) i]
    exact h.others f hlive hf i
  outside i hi := (h'.outside i hi).trans (h.outside i hi)
  objects_eq := h'.objects_eq.trans h.objects_eq
  takes := by
    rcases h.takes with ⟨fs, hfs⟩
    rcases h'.takes with ⟨gs, hgs⟩
    exact ⟨_, hfs.trans hgs⟩

/-- The root is at the end of no other path. -/
lemma TreeIn.ne_root (h : TreeIn child top s root) (hne : p ≠ []) (hlen : p.length ≤ 3)
    (hin : Within top p) (hp : tableAt child (entry s) root p = some f) :
    f ≠ root := by
  intro heq
  rw [heq] at hp
  exact hne (h.tree p [] root hlen (Nat.zero_le 3) hin within_nil hp rfl)

end

/-! ## New tables -/

/-- The frame `g` was taken for a table without entries. -/
structure NewTable (s s' : σ) (g : PhysAddr) : Prop where
  fresh : g ∉ live s
  frame : pteAddr g = g
  live_eq : live s' = insert g (live s)
  objects_eq : objects s' = objects s
  others : ∀ f ∈ live s, ∀ i, entry s' f i = entry s f i
  blank : ∀ i, entry s' g i = 0
  takes : Takes s [g] s'

/-- There is no page. -/
lemma vmmAllocPageTable_none {s' : σ} (h : vmmAllocPageTable s = (none, s')) :
    (pmmAllocPage s).1 = 0 ∧ live s' = live s ∧ objects s' = objects s ∧
      (∀ f ∈ live s, ∀ i, entry s' f i = entry s f i) ∧ Takes s [] s' := by
  unfold vmmAllocPageTable at h
  simp only at h
  split at h
  · next hzero =>
    cases h
    exact ⟨hzero, alloc_fails hzero, objects_alloc, fun f hf i => load_alloc i hf,
      Takes.refl.allocFails hzero⟩
  · exact absurd (Prod.mk.inj h).1 (by simp)

/-- The new table is blank. -/
lemma vmmAllocPageTable_some {s' : σ} {pt : VirtAddr} (h : vmmAllocPageTable s = (some pt, s')) :
    ∃ g, pt = g + hhdmOffset σ ∧ NewTable s s' g := by
  unfold vmmAllocPageTable at h
  simp only at h
  split at h
  · exact absurd (Prod.mk.inj h).1 (by simp)
  · next hg =>
    rw [Prod.mk.injEq, Option.some.injEq] at h
    refine ⟨(pmmAllocPage s).1, h.1.symm, ?_⟩
    have hlive := live_alloc hg
    have hmem : (pmmAllocPage s).1 ∈ live (pmmAllocPage s).2 := by
      rw [hlive]
      exact mem_insert _ _
    rw [← h.2]
    refine ⟨alloc_fresh hg, alloc_frame hg, ?_, ?_, fun f hf i => ?_, fun i => ?_,
      (Takes.refl.alloc hg).memset hmem⟩
    · rw [live_memset hmem, hlive]
    · rw [objects_memset hmem, objects_alloc]
    · have hf' : f ∈ live (pmmAllocPage s).2 := by
        rw [hlive]
        exact mem_insert_of_mem _ hf
      show load (memsetPage _ _) _ _ = load s _ _
      rw [load_memset_of_ne i hmem hf' (ne_of_mem_of_not_mem hf (alloc_fresh hg)), load_alloc i hf]
    · exact load_memset_self i hmem

/-! ## Pages for missing tables -/

/-- `pmm_alloc_page` fails after it handed out fewer than `n` pages. -/
def RunsOut (s : σ) (n : ℕ) : Prop :=
  ∃ fs s', Takes s fs s' ∧ fs.length < n ∧ (pmmAllocPage s').1 = 0

/-- The missing tables at the paths `P` are there, no others are new, and each took one page. -/
structure Filled (child : EntryReader) (top : Set Index) (s s' : σ)
    (root : PhysAddr) (P : Finset (List Index)) : Prop where
  opened : Opened child (entry s) (entry s') root top 3 P
  takes : ∃ fs, Takes s fs s' ∧ fs.length = missing child (entry s) root P

section
variable {child : EntryReader} {top : Set Index} {s s' s'' : σ}
variable {root f : PhysAddr} {P Q : Finset (List Index)}

lemma RunsOut.mono {n m : ℕ} (h : RunsOut s n) (hle : n ≤ m) : RunsOut s m := by
  rcases h with ⟨fs, s', htakes, hlt, hzero⟩
  exact ⟨fs, s', htakes, by omega, hzero⟩

/-- Nothing above the last level changed, and no page was taken. -/
lemma Filled.of_slots
    (hslots : ∀ x ∈ slots child (entry s) root top 3, entry s' x.1 x.2 = entry s x.1 x.2)
    (htakes : Takes s [] s') : Filled child top s s' root ∅ :=
  ⟨opened_empty hslots, [], htakes, rfl⟩

lemma Filled.trans (h : Filled child top s s' root P) (h' : Filled child top s' s'' root Q)
    (hQ : ∀ q ∈ Q, q.length ≤ 3 ∧ Within top q) : Filled child top s s'' root (P ∪ Q) := by
  rcases h.takes with ⟨fs, hfs, hlen⟩
  rcases h'.takes with ⟨gs, hgs, hlen'⟩
  refine ⟨h.opened.trans h'.opened, _, hfs.trans hgs, ?_⟩
  rw [length_append, hlen, hlen', h.opened.missing_union hQ, Nat.add_comm]

/-- The pages run out for the tables at `Q`, after those at `P` are there. -/
lemma Filled.runsOut (h : Filled child top s s' root P)
    (hout : RunsOut s' (missing child (entry s') root Q))
    (hQ : ∀ q ∈ Q, q.length ≤ 3 ∧ Within top q) :
    RunsOut s (missing child (entry s) root (P ∪ Q)) := by
  rcases h.takes with ⟨fs, hfs, hlen⟩
  rcases hout with ⟨gs, s'', hgs, hlt, hzero⟩
  refine ⟨_, s'', hfs.trans hgs, ?_, hzero⟩
  rw [length_append, hlen, h.opened.missing_union hQ]
  omega

/-- A path that leads to a table needs none. -/
lemma Filled.insert_of_some {q : List Index} (h : Filled child top s s' root P)
    (hq : tableAt child (entry s) root q = some f) :
    Filled child top s s' root (insert q P) := by
  refine ⟨h.opened.insert_of_some hq, ?_⟩
  rw [missing_insert_of_some hq]
  exact h.takes

end

/-! ## Writing to the tables of an address space -/

section
variable {s : σ} {root f : PhysAddr}

lemma entry_store_of_ne {j : Index} (e : PageTableEntry) (hf : f ∈ live s) (hg : g ∈ live s)
    (hne : (g, j) ≠ (f, i)) :
    entry (store s (f + hhdmOffset σ) i e) g j = entry s g j :=
  load_store_of_ne e hf hg hne

/-- A page that is taken changes no table. -/
lemma entry_alloc : ∀ g ∈ live s, ∀ i, entry (pmmAllocPage s).2 g i = entry s g i :=
  fun _ hg i => load_alloc i hg

lemma entry_store_self (i : Index) (e : PageTableEntry) (hf : f ∈ live s) :
    entry (store s (f + hhdmOffset σ) i e) f i = e :=
  load_store_self i e hf

/-- A write to a table of the last level. -/
lemma TreeIn.writeLeaf {top : Set Index} (h : TreeIn child top s root) (hlen : p.length = 3)
    (hin : Within top p) (hp : tableAt child (entry s) root p = some f) (e : PageTableEntry) :
    GrowsIn child top s (store s (f + hhdmOffset σ) i e) root ∧
      ∀ x ∈ slots child (entry s) root top 4, x ≠ (f, i) →
        entry (store s (f + hhdmOffset σ) i e) x.1 x.2 = entry s x.1 x.2 := by
  have hfmem : f ∈ tables child (entry s) root top 3 := ⟨p, hlen.le, hin, hp⟩
  have hf : f ∈ live s := h.tables_live hfmem
  have hmem : ∀ x ∈ slots child (entry s) root top (3 + 1), x ≠ (f, i) →
      entry (store s (f + hhdmOffset σ) i e) x.1 x.2 = entry s x.1 x.2 :=
    fun x hx hne => entry_store_of_ne e hf (h.tables_live (mem_tables_of_slots hx)) hne
  have hroot : f ≠ root := h.ne_root (by rintro rfl; simp at hlen) hlen.le hin hp
  refine ⟨GrowsIn.of_slots h (live_store i e hf) (h.tree.tableAt_write hp hlen hin hmem) ?_ ?_
    (objects_store i e hf) (Takes.refl.store i e hf), hmem⟩
  · intro g hg hout j
    refine entry_store_of_ne e hf hg fun heq => hout ?_
    rw [(Prod.mk.inj heq).1]
    exact hfmem
  · exact fun j _ => entry_store_of_ne e hf h.root_live fun heq => hroot (Prod.mk.inj heq).1.symm

end

/-! ## Linking tables -/

/-- The entry that links a new table. -/
def linkEntry (g : PhysAddr) : PageTableEntry := g ||| ptePresent ||| pteWritable ||| pteUser

/-- Entries are read such that an empty entry leads nowhere and a link to its table. -/
structure Reads (child : EntryReader) : Prop where
  zero : child 0 = none
  link : ∀ g, pteAddr g = g → child (linkEntry g) = some g

lemma reads_target : Reads target := ⟨target_zero, fun _ hg => target_link hg⟩

section
variable {child : EntryReader} {top : Set Index} {s s₁ : σ}
variable {root f g : PhysAddr} {p : List Index} {i : Index}

/-- A new table, linked into an entry without a table. -/
lemma TreeIn.linked (h : TreeIn child top s root) (hreads : Reads child)
    {value : EntryReader} (hvalue : value 0 = none)
    (hp : tableAt child (entry s) root p = some f) (hlen : p.length < 3)
    (hin : Within top (p ++ [i])) (habsent : child (entry s f i) = none) (hnew : NewTable s s₁ g) :
    let s' := store s₁ (f + hhdmOffset σ) i (linkEntry g)
    Linked child value (entry s) (entry s') root top 3 p f i g ∧
      (∀ x ∈ live s, ∀ j, (x, j) ≠ (f, i) → entry s' x j = entry s x j) ∧
      (∀ j, entry s' g j = 0) ∧ live s' = insert g (live s) ∧ objects s' = objects s := by
  intro s'
  have hf : f ∈ live s := h.tables_live ⟨p, hlen.le, hin.left, hp⟩
  have hlive₁ : ∀ x ∈ live s, x ∈ live s₁ := by
    intro x hx
    rw [hnew.live_eq]
    exact mem_insert_of_mem _ hx
  have hg₁ : g ∈ live s₁ := by
    rw [hnew.live_eq]
    exact mem_insert _ _
  have hfg : g ≠ f := (ne_of_mem_of_not_mem hf hnew.fresh).symm
  have hentry : ∀ x ∈ live s, ∀ j, (x, j) ≠ (f, i) → entry s' x j = entry s x j := by
    intro x hx j hne
    rw [← hnew.others x hx j]
    exact entry_store_of_ne _ (hlive₁ f hf) (hlive₁ x hx) hne
  have hblank : ∀ j, entry s' g j = 0 := by
    intro j
    rw [← hnew.blank j]
    exact entry_store_of_ne _ (hlive₁ f hf) hg₁ fun heq => hfg (Prod.mk.inj heq).1
  refine ⟨⟨hp, hlen, hin, habsent, ?_, fun hg => hnew.fresh (h.tables_live hg), ?_, ?_, ?_⟩,
    hentry, hblank, ?_, ?_⟩
  · rw [entry_store_self _ _ (hlive₁ f hf)]
    exact hreads.link g hnew.frame
  · intro j
    rw [hblank, hreads.zero]
  · intro j
    rw [hblank, hvalue]
  · exact fun x hx hne => hentry x.1 (h.tables_live (mem_tables_of_slots hx)) x.2 hne
  · rw [live_store _ _ (hlive₁ f hf), hnew.live_eq]
  · rw [objects_store _ _ (hlive₁ f hf), hnew.objects_eq]

/-- A link to a new table. -/
lemma TreeIn.link (h : TreeIn child top s root) (hreads : Reads child)
    (hp : tableAt child (entry s) root p = some f) (hlen : p.length < 3)
    (hin : Within top (p ++ [i])) (habsent : child (entry s f i) = none) (hnew : NewTable s s₁ g) :
    GrowsIn child top s (store s₁ (f + hhdmOffset σ) i (linkEntry g)) root := by
  rcases h.linked hreads hreads.zero hp hlen hin habsent hnew with
    ⟨hlink, hentry, -, hlive, hobj⟩
  have htables := hlink.tables_eq h.tree
  have hflive : f ∈ live s₁ := by
    rw [hnew.live_eq]
    exact mem_insert_of_mem _ (h.tables_live ⟨p, hlen.le, hin.left, hp⟩)
  refine ⟨⟨hlink.isTree h.tree, ?_⟩, ?_, ?_, ?_, ?_, ?_, hobj, _, hnew.takes.store i _ hflive⟩
  · rw [htables, hlive]
    exact insert_subset_insert h.tables_live
  · rw [htables, hlive, union_insert, union_eq_left.mpr h.tables_live]
  · rw [htables]
    exact subset_insert _ _
  · intro x hx hxlive
    rw [htables] at hx
    exact hx.resolve_left (ne_of_mem_of_not_mem hxlive hnew.fresh)
  · intro x hx hout j
    refine hentry x hx j fun heq => hout ?_
    rw [(Prod.mk.inj heq).1]
    exact ⟨p, hlen.le, hin.left, hp⟩
  · -- the link is in `top` when it is in the root
    intro j hj
    refine hentry root h.root_live j fun heq => hj ?_
    rw [Prod.mk.injEq] at heq
    have hnil : p = [] := by
      by_contra hne
      exact h.ne_root hne hlen.le hin.left hp heq.1.symm
    rw [hnil] at hin
    rw [heq.2]
    exact within_cons.mp hin

end

/-- One change that a call makes to the tables of the tree at `root`: a new table in an entry that is
not present, or an entry of the last level. -/
inductive Edit (child : EntryReader) (root : PhysAddr) : σ → σ → Prop
  | link {s s₁ : σ} {p : List Index} {f g : PhysAddr} {i : Index} :
    tableAt child (entry s) root p = some f → p.length < 3 → entry s f i &&& ptePresent = 0 →
    child (entry s f i) = none → NewTable s s₁ g →
    Edit child root s (store s₁ (f + hhdmOffset σ) i (linkEntry g))
  | write {s : σ} {p : List Index} {f : PhysAddr} (i : Index) (e : PageTableEntry) :
    tableAt child (entry s) root p = some f → p.length = 3 →
    Edit child root s (store s (f + hhdmOffset σ) i e)
  | fails {s s' : σ} : live s' = live s → (∀ f ∈ live s, ∀ i, entry s' f i = entry s f i) →
    Edit child root s s'

/-! ## Walking -/

/-- A walk that creates nothing follows the tables. -/
lemma walkLevels_lookup (s : σ) (rest : List Index) (f : PhysAddr) :
    walkLevels false rest (f + hhdmOffset σ) s =
      ((tableAt target (entry s) f rest).map (· + hhdmOffset σ), s) := by
  induction rest generalizing f with
  | nil => rfl
  | cons i rest ih =>
    unfold walkLevels
    rw [tableAt_cons]
    by_cases habsent : load s (f + hhdmOffset σ) i &&& ptePresent = 0
    · rw [if_pos habsent, if_neg (by simp), show target (entry s f i) = none from
        target_of_absent habsent]
      rfl
    · rw [if_neg habsent, show target (entry s f i) = some _ from target_of_present habsent]
      exact ih _

lemma pteAddr_linkEntry (hg : pteAddr g = g) : pteAddr (linkEntry g) = g := by
  have htarget : target (linkEntry g) = some g := target_link hg
  unfold target at htarget
  split at htarget
  · cases htarget
  · exact Option.some.inj htarget

/-- On the way along a path from `f` the entries are read as the walk reads them. -/
def CleanWalk (child : EntryReader) (s : σ) (f : PhysAddr) (path : List Index) : Prop :=
  ∀ q j r g, path = q ++ j :: r → tableAt child (entry s) f q = some g →
    child (entry s g j) = target (entry s g j)

lemma cleanWalk_target (s : σ) (f : PhysAddr) (path : List Index) : CleanWalk target s f path :=
  fun _ _ _ _ _ _ => rfl

lemma CleanWalk.tail {f : PhysAddr} {rest : List Index} (h : CleanWalk child s f (i :: rest))
    (hg : child (entry s f i) = some g) : CleanWalk child s g rest := by
  intro q j r x hrest hx
  refine h (i :: q) j r x (by rw [hrest, cons_append]) ?_
  rw [tableAt_cons, hg]
  exact hx

lemma CleanWalk.cons {f : PhysAddr} {rest : List Index}
    (hi : child (entry s f i) = target (entry s f i))
    (hrest : ∀ g, child (entry s f i) = some g → CleanWalk child s g rest) :
    CleanWalk child s f (i :: rest) := by
  intro q j r x hpath hx
  cases q with
  | nil =>
    rw [← Option.some.inj hx, ← (List.cons.inj hpath).1]
    exact hi
  | cons a q =>
    rw [tableAt_cons, ← (List.cons.inj hpath).1] at hx
    rcases Option.bind_eq_some_iff.mp hx with ⟨g, hg, hx⟩
    exact hrest g hg q j r x (List.cons.inj hpath).2 hx

/-- An empty table has a clean walk. -/
lemma cleanWalk_blank (hreads : Reads child) (hblank : ∀ j, entry s g j = 0) (path : List Index) :
    CleanWalk child s g path := by
  intro q j r x _ hx
  cases q with
  | nil =>
    rw [← Option.some.inj hx, hblank, hreads.zero, target_zero]
  | cons a q =>
    rw [tableAt_cons, hblank, hreads.zero] at hx
    cases hx

section
variable {child : EntryReader} {top : Set Index} {s s' s₁ : σ}
variable {root f g : PhysAddr} {path : List Index}

/-- Whether a walk is clean depends on the entries above the last level only. -/
lemma CleanWalk.congr (h : CleanWalk child s root path) (hlen : path.length = 3)
    (hin : Within top path)
    (hslots : ∀ x ∈ slots child (entry s) root top 3, entry s' x.1 x.2 = entry s x.1 x.2) :
    CleanWalk child s' root path := by
  intro q j r x hpath hx
  have hlen' := congrArg List.length hpath
  rw [length_append, length_cons, hlen] at hlen'
  have hin' : Within top (q ++ [j]) := by
    rw [hpath, append_cons] at hin
    exact hin.left
  rw [tableAt_congr hslots (by omega) hin'.left] at hx
  rw [hslots (x, j) ⟨q, by omega, hin', hx⟩]
  exact h q j r x hpath hx

/-- A link to a new table leaves clean walks clean. -/
lemma CleanWalk.link (h : CleanWalk child s root path) (hlen : path.length = 3)
    (hin : Within top path) (ht : TreeIn child top s root) (hreads : Reads child)
    (hp : tableAt child (entry s) root p = some f) (hplen : p.length < 3)
    (hpin : Within top (p ++ [i])) (habsent : child (entry s f i) = none) (hnew : NewTable s s₁ g) :
    CleanWalk child (store s₁ (f + hhdmOffset σ) i (linkEntry g)) root path := by
  rcases ht.linked hreads hreads.zero hp hplen hpin habsent hnew with
    ⟨hlink, hentry, hblank, -, -⟩
  intro q j r x hpath hx
  have hlen' := congrArg List.length hpath
  rw [length_append, length_cons, hlen] at hlen'
  have hin' : Within top (q ++ [j]) := by
    rw [hpath, append_cons] at hin
    exact hin.left
  rcases hlink.tableAt_cases ht.tree (by omega) hin'.left hx with ⟨-, hxg⟩ | hold
  · rw [hxg, hblank, hreads.zero, target_zero]
  · have hxlive : x ∈ live s := ht.tables_live ⟨q, by omega, hin'.left, hold⟩
    by_cases heq : (x, j) = (f, i)
    · -- the entry of the link
      rw [Prod.mk.injEq] at heq
      have hflive : f ∈ live s₁ := by
        rw [hnew.live_eq, ← heq.1]
        exact mem_insert_of_mem _ hxlive
      rw [heq.1, heq.2, entry_store_self _ _ hflive, hreads.link g hnew.frame]
      exact (target_link hnew.frame).symm
    · rw [hentry x hxlive j heq]
      exact h q j r x hpath hold

end

/-- A walk along `path` that creates tables adds tables to the tree and changes no value. In the root
it writes at most an empty entry that it goes through. -/
structure Walked (child : EntryReader) (top : Set Index) (s s' : σ)
    (root : PhysAddr) (path : List Index) : Prop where
  grows : GrowsIn child top s s' root
  edits : Relation.ReflTransGen (Edit child root) s s'
  leaf_eq : ∀ value : EntryReader, value 0 = none → ∀ q j, q.length = 3 →
    Within top (q ++ [j]) →
    leaf child value (entry s') root q j = leaf child value (entry s) root q j
  root_eq : ∀ i, path.head? ≠ some i ∨ child (entry s root i) ≠ none →
    entry s' root i = entry s root i
  clean : ∀ q, q.length = 3 → Within top q → CleanWalk child s root q → CleanWalk child s' root q

section
variable {child : EntryReader} {top : Set Index} {s s' s₁ : σ}
variable {root f g : PhysAddr} {path p rest : List Index} {i : Index}

lemma Walked.refl (h : TreeIn child top s root) : Walked child top s s root path :=
  ⟨GrowsIn.refl h, .refl, fun _ _ _ _ _ _ => rfl, fun _ _ => rfl, fun _ _ _ hclean => hclean⟩

lemma Walked.trans (h : Walked child top s s₁ root path) (h' : Walked child top s₁ s' root path) :
    Walked child top s s' root path := by
  refine ⟨h.grows.trans h'.grows, h.edits.trans h'.edits, fun value hvalue q j hq hin => ?_,
    fun j hj => ?_, fun q hlen hin hold => h'.clean q hlen hin (h.clean q hlen hin hold)⟩
  · rw [h'.leaf_eq value hvalue q j hq hin, h.leaf_eq value hvalue q j hq hin]
  · have hfirst := h.root_eq j hj
    rw [← hfirst] at hj
    rw [h'.root_eq j hj, hfirst]

/-- There is no frame for a table, and the walk ends. -/
lemma walked_same (h : TreeIn child top s root) (hlive : live s₁ = live s)
    (hobj : objects s₁ = objects s) (hsame : ∀ f ∈ live s, ∀ i, entry s₁ f i = entry s f i)
    (htakes : Takes s [] s₁) : Walked child top s s₁ root path := by
  have hslots : ∀ x ∈ slots child (entry s) root top (3 + 1),
      entry s₁ x.1 x.2 = entry s x.1 x.2 :=
    fun x hx => hsame x.1 (h.tables_live (mem_tables_of_slots hx)) x.2
  refine ⟨GrowsIn.of_same h hlive hsame hobj htakes, .single (.fails hlive hsame),
    fun value _ q j hq hqin => leaf_congr hslots hq.le hqin,
    fun j _ => hsame root h.root_live j, fun q hlen hin hold => ?_⟩
  exact hold.congr hlen hin fun x hx => hslots x (slots_mono (by omega) hx)

/-- The walk links a new table. -/
lemma walked_link (hreads : Reads child) (h : TreeIn child top s root)
    (hp : tableAt child (entry s) root p = some f) (hlen : p.length < 3)
    (hin : Within top (p ++ [i])) (habsent : entry s f i &&& ptePresent = 0)
    (hnone : child (entry s f i) = none) (hnew : NewTable s s₁ g) :
    Walked child top s (store s₁ (f + hhdmOffset σ) i (linkEntry g)) root (p ++ [i] ++ rest) := by
  refine ⟨h.link hreads hp hlen hin hnone hnew, .single (.link hp hlen habsent hnone hnew),
    fun value hvalue q j hq hqin => ?_, fun j hj => ?_,
    fun q hqlen hqin hold => hold.link hqlen hqin h hreads hp hlen hin hnone hnew⟩
  · exact (h.linked hreads hvalue hp hlen hin hnone hnew).1.leaf_eq h.tree hq hqin
  · -- the link is in the root only if the walk is there
    have hentry := (h.linked hreads hreads.zero hp hlen hin hnone hnew).2.1
    refine hentry root h.root_live j fun heq => ?_
    rw [Prod.mk.injEq] at heq
    have hnil : p = [] := by
      by_contra hne
      exact h.ne_root hne hlen.le hin.left hp heq.1.symm
    rw [← heq.1] at hnone
    rw [hnil, heq.2, hnone] at hj
    simp at hj

/-- The link is the only new table. -/
lemma filled_link (hreads : Reads child) (h : TreeIn child top s root)
    (hp : tableAt child (entry s) root p = some f) (hlen : p.length < 3)
    (hin : Within top (p ++ [i])) (hnone : child (entry s f i) = none) (hnew : NewTable s s₁ g) :
    Filled child top s (store s₁ (f + hhdmOffset σ) i (linkEntry g)) root {p ++ [i]} := by
  have hlink := (h.linked hreads hreads.zero hp hlen hin hnone hnew).1
  have hflive : f ∈ live s₁ := by
    rw [hnew.live_eq]
    exact mem_insert_of_mem _ (h.tables_live ⟨p, hlen.le, hin.left, hp⟩)
  have hone : missing child (entry s) root {p ++ [i]} = 1 := by
    unfold missing
    rw [Finset.filter_singleton, if_pos, Finset.card_singleton]
    rw [tableAt_concat, hp, Option.bind_some, hnone]
  exact ⟨hlink.opened h.tree, [g], hnew.takes.store i _ hflive, hone.symm⟩

/-- A walk that creates tables, from the table `f` at path `p` on. -/
lemma walkLevels_grows (hreads : Reads child) (h : TreeIn child top s root)
    (hp : tableAt child (entry s) root p = some f)
    (hlen : p.length + rest.length = 3) (hin : Within top (p ++ rest))
    (hclean : CleanWalk child s f rest) {r : Option VirtAddr}
    (hwalk : walkLevels true rest (f + hhdmOffset σ) s = (r, s')) :
    Walked child top s s' root (p ++ rest) ∧
      (r = none → RunsOut s (missing child (entry s) root (wayPaths p rest))) ∧
      ∀ pt, r = some pt → Filled child top s s' root (wayPaths p rest) ∧
        ∃ g, pt = g + hhdmOffset σ ∧ tableAt child (entry s') root (p ++ rest) = some g := by
  induction rest generalizing s p f with
  | nil =>
    rw [walkLevels, Prod.mk.injEq] at hwalk
    rw [← hwalk.2, append_nil]
    refine ⟨Walked.refl h, fun hr => ?_, fun pt hpt =>
      ⟨Filled.of_slots (fun _ _ => rfl) .refl, f, ?_, hp⟩⟩
    · rw [← hwalk.1] at hr
      cases hr
    · rw [← hwalk.1, Option.some.injEq] at hpt
      exact hpt.symm
  | cons i rest ih =>
    rw [length_cons] at hlen
    have hsplit : p ++ i :: rest = p ++ [i] ++ rest := by simp
    rw [hsplit] at hin ⊢
    have hread : child (entry s f i) = target (entry s f i) := hclean [] i rest f rfl rfl
    have hway : wayPaths p (i :: rest) = {p ++ [i]} ∪ wayPaths (p ++ [i]) rest := rfl
    have hinside : ∀ q ∈ wayPaths (p ++ [i]) rest, q.length ≤ 3 ∧ Within top q :=
      fun q hq => inside_of_mem_wayPaths (by simp; omega) hin hq
    unfold walkLevels at hwalk
    by_cases habsent : load s (f + hhdmOffset σ) i &&& ptePresent = 0
    · have hnone : child (entry s f i) = none := hread.trans (target_of_absent habsent)
      rw [if_pos habsent, if_pos rfl] at hwalk
      rcases halloc : vmmAllocPageTable s with ⟨r₁, s₁⟩
      rw [halloc] at hwalk
      cases r₁ with
      | none =>
        rw [Prod.mk.injEq] at hwalk
        rcases vmmAllocPageTable_none halloc with ⟨hfails, hlive, hobj, hsame, htakes⟩
        rw [← hwalk.1, ← hwalk.2]
        refine ⟨walked_same h hlive hobj hsame htakes, fun _ => ?_,
          fun pt hpt => absurd hpt (by simp)⟩
        refine ⟨[], s, .refl, missing_pos (Finset.mem_insert_self _ _) ?_, hfails⟩
        rw [tableAt_concat, hp, Option.bind_some, hnone]
      | some newPt =>
        rcases vmmAllocPageTable_some halloc with ⟨g, hg, hnew⟩
        simp only [hg, BitVec.add_sub_cancel] at hwalk
        have hstep : Walked child top s (store s₁ (f + hhdmOffset σ) i (linkEntry g)) root
            (p ++ [i] ++ rest) :=
          walked_link hreads h hp (by omega) hin.left habsent hnone hnew
        have hfilled := filled_link hreads h hp (by omega) hin.left hnone hnew
        rcases h.linked hreads hreads.zero hp (by omega) hin.left hnone hnew with
          ⟨hlink, -, hblank, -, -⟩
        have hchild : load (store s₁ (f + hhdmOffset σ) i (linkEntry g)) (f + hhdmOffset σ) i =
            linkEntry g := by
          apply load_store_self
          rw [hnew.live_eq]
          exact mem_insert_of_mem _ (h.tables_live ⟨p, by omega, hin.left.left, hp⟩)
        change walkLevels true rest (pteAddr (load (store s₁ (f + hhdmOffset σ) i (linkEntry g))
          (f + hhdmOffset σ) i) + hhdmOffset σ) (store s₁ (f + hhdmOffset σ) i (linkEntry g)) =
          (r, s') at hwalk
        rw [hchild, pteAddr_linkEntry hnew.frame] at hwalk
        rcases ih hstep.grows.inv (hlink.tableAt_new h.tree) (by simp; omega) hin
          (cleanWalk_blank hreads hblank rest) hwalk with ⟨hrest, hfails, hresult⟩
        rw [hway]
        exact ⟨hstep.trans hrest, fun hr => hfilled.runsOut (hfails hr) hinside,
          fun pt hpt => ⟨hfilled.trans (hresult pt hpt).1 hinside, (hresult pt hpt).2⟩⟩
    · have hsome := target_of_present habsent
      rw [if_neg habsent] at hwalk
      have hpi : tableAt child (entry s) root (p ++ [i]) =
          some (pteAddr (load s (f + hhdmOffset σ) i)) := by
        rw [tableAt_concat, hp, Option.bind_some, hread]
        exact hsome
      rcases ih h hpi (by simp; omega) hin (hclean.tail (hread.trans hsome)) hwalk with
        ⟨hrest, hfails, hresult⟩
      refine ⟨hrest, fun hr => ?_, fun pt hpt =>
        ⟨(hresult pt hpt).1.insert_of_some hpi, (hresult pt hpt).2⟩⟩
      exact (hfails hr).mono (missing_mono (Finset.subset_insert _ _))

end

end LunOS.Vmm
