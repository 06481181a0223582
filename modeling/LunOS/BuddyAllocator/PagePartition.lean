import LunOS.BuddyAllocator.Theorems

/-!
# Page conservation and history independence

- `PagePartition`: free and live blocks are aligned, pairwise disjoint and cover exactly the whole
  pages of the arenas; it holds in every reachable state.
- The free blocks of a state are determined by its live pages, so freeing everything in any order
  restores the blocks the arenas were filled with.
-/

namespace LunOS.BuddyAllocator
open LunOS.Dyadic LunOS.Memory BuddyArena

/-- The free blocks on the lists and the live blocks partition the whole pages of the arenas. A
free block is a triple of arena, order and address; `nodes` says that its node in memory carries
that order and address and is chained where the list says. -/
structure PagePartition (b : Buddy) (live : List Block) : Prop where
  free_aligned : ∀ i o, ∀ a ∈ (b.buddyArenas i).freeList o, blockSize o ∣ a
  live_aligned : ∀ x ∈ live, blockSize x.order ∣ x.addr
  free_inside : ∀ i o, ∀ a ∈ (b.buddyArenas i).freeList o,
    Block.span 12 ⟨a, o⟩ ⊆ (b.buddyArenas i).pages
  live_inside : ∀ x ∈ live, ∃ i, i < b.buddyArenaCounter ∧ x.span 12 ⊆ (b.buddyArenas i).pages
  nodes : ∀ i o, NodesOk b o ((b.buddyArenas i).freeList o)
  free_nodup : ∀ i o, ((b.buddyArenas i).freeList o).Nodup
  live_nodup : live.Nodup
  free_free : ∀ i o a j p c, a ∈ (b.buddyArenas i).freeList o → c ∈ (b.buddyArenas j).freeList p →
    (i, o, a) ≠ (j, p, c) → Disjoint (Block.span 12 ⟨a, o⟩) (Block.span 12 ⟨c, p⟩)
  free_live : ∀ i o, ∀ a ∈ (b.buddyArenas i).freeList o, ∀ x ∈ live,
    Disjoint (Block.span 12 ⟨a, o⟩) (x.span 12)
  live_live : ∀ x ∈ live, ∀ y ∈ live, x ≠ y → Disjoint (x.span 12) (y.span 12)
  cover : ∀ i, ∀ z ∈ (b.buddyArenas i).pages,
    (∃ o, ∃ a ∈ (b.buddyArenas i).freeList o, z ∈ Block.span 12 ⟨a, o⟩) ∨
      ∃ x ∈ live, z ∈ x.span 12

variable {b b' : Buddy} {i : ℕ} {x : Block} {live : List Block}

/-- Different blocks of the allocator have disjoint spans. -/
lemma BuddyInv.disjoint_span {H : ℕ → Set Block} (h : BuddyInv b H) {j : ℕ} {y : Block}
    (hx : x ∈ (b.buddyArenas i).freeBlocks ∪ H i) (hy : y ∈ (b.buddyArenas j).freeBlocks ∪ H j)
    (hne : i ≠ j ∨ x ≠ y) :
    Disjoint (x.span 12) (y.span 12) := by
  have hsep := h.sep hx hy hne
  apply Set.disjoint_left.mpr
  intro z hzx hzy
  rw [mem_span] at hzx hzy
  omega

/-- The invariant is a partition of the pages. -/
lemma Inv.pagePartition (h : Inv b live) :
    PagePartition b live where
  free_aligned := by
    intro i o a ha
    rw [blockSize_eq]
    exact (h.buddy.arena i).tiles.aligned ⟨a, o⟩ (Or.inl ha)
  live_aligned := by
    intro x hx
    rcases h.live_arena x hx with ⟨i, _, hxi⟩
    rw [blockSize_eq]
    exact (h.buddy.arena i).tiles.aligned x (Or.inr ⟨hx, hxi⟩)
  free_inside := by
    intro i o a ha
    exact (h.buddy.arena i).tiles.span_subset (Or.inl ha)
  live_inside := by
    intro x hx
    rcases h.live_arena x hx with ⟨i, hi, hxi⟩
    exact ⟨i, hi, (h.buddy.arena i).tiles.span_subset (Or.inr ⟨hx, hxi⟩)⟩
  nodes := h.buddy.nodes
  free_nodup := fun i => (h.buddy.arena i).nodup
  live_nodup := h.live_nodup
  free_free := by
    intro i o a j p c ha hc hne
    apply h.buddy.disjoint_span (Or.inl ha) (Or.inl hc)
    by_cases hij : i = j
    · apply Or.inr
      intro heq
      apply hne
      rw [Block.mk.injEq] at heq
      rw [hij, heq.1, heq.2]
    · exact Or.inl hij
  free_live := by
    intro i o a ha x hx
    rcases h.live_arena x hx with ⟨j, _, hxj⟩
    apply h.buddy.disjoint_span (i := i) (j := j) (Or.inl ha) (Or.inr ⟨hx, hxj⟩)
    by_cases hij : i = j
    · -- a block of one arena that is free and live
      subst hij
      apply Or.inr
      intro heq
      have hlive : (⟨a, o⟩ : Block) ∈ liveIn b live i := by
        rw [heq]
        exact ⟨hx, hxj⟩
      exact Set.disjoint_left.mp (h.buddy.arena i).disjoint ha hlive
    · exact Or.inl hij
  live_live := by
    intro x hx y hy hne
    rcases h.live_arena x hx with ⟨i, _, hxi⟩
    rcases h.live_arena y hy with ⟨j, _, hyj⟩
    exact h.buddy.disjoint_span (i := i) (j := j) (Or.inr ⟨hx, hxi⟩) (Or.inr ⟨hy, hyj⟩)
      (Or.inr hne)
  cover := by
    intro i z hz
    rcases ((h.buddy.arena i).tiles.cover z).mp hz with ⟨x, hx | hx, hzx⟩
    · exact Or.inl ⟨x.order, x.addr, hx, hzx⟩
    · exact Or.inr ⟨x, hx.1, hzx⟩

/-! ## The arenas stay as they were filled -/

/-- The fields of the arenas that no operation changes. -/
def SameShape (b b' : Buddy) : Prop :=
  ∀ i, (b'.buddyArenas i).base = (b.buddyArenas i).base ∧
    (b'.buddyArenas i).length = (b.buddyArenas i).length ∧
    (b'.buddyArenas i).maxArenaOrder = (b.buddyArenas i).maxArenaOrder

lemma SameShape.refl (b : Buddy) : SameShape b b := fun _ => ⟨rfl, rfl, rfl⟩

lemma SameShape.trans {b'' : Buddy} (h : SameShape b b') (h' : SameShape b' b'') :
    SameShape b b'' := fun i =>
  ⟨(h' i).1.trans (h i).1, (h' i).2.1.trans (h i).2.1, (h' i).2.2.trans (h i).2.2⟩

lemma SameShape.pages (h : SameShape b b') (i : ℕ) :
    (b'.buddyArenas i).pages = (b.buddyArenas i).pages := by
  rw [BuddyArena.pages, BuddyArena.pages, (h i).1, (h i).2.1]

lemma OnlyArena.sameShape (h : OnlyArena i b b') : SameShape b b' := by
  intro j
  by_cases hj : j = i
  · rw [hj]
    exact ⟨h.base, h.length, h.max⟩
  · rw [h.other j hj]
    exact ⟨rfl, rfl, rfl⟩

/-- A free keeps base and length. -/
lemma Inv.sameShape_free (h : Inv b live) (hx : x ∈ live) :
    SameShape b (buddyFreePages b x.addr x.order) := by
  rcases h.free_spec hx with ⟨i, _, _, _, htouch⟩
  exact htouch.toOnlyArena.sameShape

/-- So does a step. -/
lemma Inv.sameShape_step {s t : Tracked} (h : Inv s.buddy s.live) (hst : Step s t) :
    SameShape s.buddy t.buddy := by
  cases hst with
  | allocSome hal =>
    rcases h.alloc_spec hal with ⟨i, _, _, _, _, htouch⟩
    exact htouch.toOnlyArena.sameShape
  | allocNone hal =>
    rw [buddyAllocPages_none hal]
    exact SameShape.refl _
  | free hx => exact h.sameShape_free hx
  | write _ _ => exact SameShape.refl _

/-- Runs keep base and length. -/
lemma Reachable.sameShape {specs : List ArenaSpec} (hv : ValidSpecs specs) {hhdm : ℕ} {mem : Mem}
    {counter : ℕ} {s : Tracked} (hs : Reachable specs (Buddy.boot hhdm mem counter) s) :
    SameShape (fillArenas (Buddy.boot hhdm mem counter) specs) s.buddy := by
  have hboth : Inv s.buddy s.live ∧
      SameShape (fillArenas (Buddy.boot hhdm mem counter) specs) s.buddy := by
    refine hs.invariant (fun s hs => ?_) fun s t hinv hst => ?_
    · rw [hs]
      exact ⟨boot_inv hv hhdm mem counter, SameShape.refl _⟩
    · exact ⟨hinv.1.step hst, hinv.2.trans (hinv.1.sameShape_step hst)⟩
  exact hboth.2

/-- In every reachable state the free and the live blocks partition exactly the whole pages of
the arenas that were filled. -/
theorem reachable_pagePartition {specs : List ArenaSpec} (hv : ValidSpecs specs) {hhdm : ℕ}
    {mem : Mem} {counter : ℕ} {s : Tracked}
    (hs : Reachable specs (Buddy.boot hhdm mem counter) s) :
    PagePartition s.buddy s.live ∧
      ∀ i, (s.buddy.buddyArenas i).pages
        = ((fillArenas (Buddy.boot hhdm mem counter) specs).buddyArenas i).pages :=
  ⟨(Reachable.inv hv hs).pagePartition, (Reachable.sameShape hv hs).pages⟩

/-- One arena of seven pages whose base is not aligned to its largest block. -/
def sevenPages : List ArenaSpec := [⟨1, 0x3000, 0x7000⟩]

lemma validSpecs_sevenPages : ValidSpecs sevenPages :=
  ⟨by decide, by decide, by decide⟩

/-- The state after one allocation of a single page from the seven. -/
def sevenPagesRun : Tracked :=
  ⟨(buddyAllocPages (fillArenas (Buddy.boot 0 (fun _ => 0) 2) sevenPages) 0).2, [⟨0x3000, 0⟩]⟩

lemma reachable_sevenPagesRun :
    Reachable sevenPages (Buddy.boot 0 (fun _ => 0) 2) sevenPagesRun := by
  refine Runs.Reachable.step (.init rfl) ?_
  exact Step.allocSome (Prod.ext (by decide) rfl)

theorem reachable_pagePartition_sevenPages :
    PagePartition sevenPagesRun.buddy [⟨0x3000, 0⟩] :=
  (reachable_pagePartition validSpecs_sevenPages reachable_sevenPagesRun).1

/-! ## The live pages determine the free blocks -/

/-- The numbers of the pages of the live blocks. -/
def livePages (live : List Block) : Set ℕ := {p | ∃ x ∈ live, p * pageFrameSize ∈ x.span 12}

/-- An aligned block contains an address exactly if it contains the start of its page. -/
lemma mem_span_iff_page (hx : x.Aligned 12) (z : ℕ) :
    z ∈ x.span 12 ↔ z / pageFrameSize * pageFrameSize ∈ x.span 12 := by
  have hdvd : 4096 ∣ size 12 x.order := size_dvd_size (w := 12) (Nat.zero_le x.order)
  have hx' : 4096 ∣ x.addr := hdvd.trans hx
  rw [mem_span, mem_span]
  unfold pageFrameSize
  omega

/-- The addresses of arena `i` that are in no live block of that arena, from the live pages. -/
lemma Inv.not_live_iff (h : Inv b live) {z : ℕ} (hz : z ∈ (b.buddyArenas i).pages) :
    (∀ x ∈ liveIn b live i, z ∉ x.span 12) ↔ z / pageFrameSize ∉ livePages live := by
  have halign : ∀ x ∈ live, x.Aligned 12 := by
    intro x hx
    rcases h.live_arena x hx with ⟨j, _, hxj⟩
    exact (h.buddy.arena j).tiles.aligned x (Or.inr ⟨hx, hxj⟩)
  constructor
  · intro hall hlive
    rcases hlive with ⟨x, hx, hpage⟩
    rw [← mem_span_iff_page (halign x hx)] at hpage
    -- the block lies in the arena of the address
    rcases h.live_arena x hx with ⟨j, _, hxj⟩
    have hzj := (h.buddy.arena j).tiles.span_subset (Or.inr ⟨hx, hxj⟩) hpage
    have hij := h.buddy.arena_unique (pages_subset_range _ hz) (pages_subset_range _ hzj)
    subst hij
    exact hall x ⟨hx, hxj⟩ hpage
  · intro hpage x hx hzx
    apply hpage
    exact ⟨x, hx.1, (mem_span_iff_page (halign x hx.1) z).mp hzx⟩

/-- Two states with arenas of one shape and the same live pages have the same free blocks. -/
lemma Inv.freeBlocks_eq {live' : List Block} (h : Inv b live) (h' : Inv b' live')
    (hshape : SameShape b b') (hpages : livePages live = livePages live') (i : ℕ) :
    (b'.buddyArenas i).freeBlocks = (b.buddyArenas i).freeBlocks := by
  have ht := (h.buddy.arena i).tiles.left (h.buddy.arena i).disjoint
  have ht' := (h'.buddy.arena i).tiles.left (h'.buddy.arena i).disjoint
  -- both families tile the pages of the arena that are not live
  have hset : {z | z ∈ (b'.buddyArenas i).pages ∧ ∀ x ∈ liveIn b' live' i, z ∉ x.span 12}
      = {z | z ∈ (b.buddyArenas i).pages ∧ ∀ x ∈ liveIn b live i, z ∉ x.span 12} := by
    ext z
    have hp := hshape.pages i
    simp only [Set.mem_ofPred_eq]
    constructor
    · intro hz
      have hzb : z ∈ (b.buddyArenas i).pages := hp ▸ hz.1
      refine ⟨hzb, (h.not_live_iff hzb).mpr ?_⟩
      rw [hpages]
      exact (h'.not_live_iff hz.1).mp hz.2
    · intro hz
      have hzb : z ∈ (b'.buddyArenas i).pages := hp ▸ hz.1
      refine ⟨hzb, (h'.not_live_iff hzb).mpr ?_⟩
      rw [← hpages]
      exact (h.not_live_iff hz.1).mp hz.2
  rw [hset] at ht'
  have hmax := (hshape i).2.2
  apply Tiles.eq_of_coalesced ht' ht (M := (b.buddyArenas i).maxArenaOrder)
  · intro x hx
    rw [← hmax]
    exact (h'.buddy.arena i).order_le x (Or.inl hx)
  · intro x hx
    exact (h.buddy.arena i).order_le x (Or.inl hx)
  · rw [← hmax]
    exact (h'.buddy.arena i).coalesced
  · exact (h.buddy.arena i).coalesced

/-- Hand back the blocks of a list, one after another. -/
def freeAll (b : Buddy) (l : List Block) : Buddy :=
  l.foldl (fun b x => buddyFreePages b x.addr x.order) b

/-- Freeing the live blocks in the order of any rearrangement ends with nothing live. -/
lemma Inv.freeAll : ∀ (l : List Block) {b : Buddy} {live : List Block}, Inv b live →
    l.Perm live → Inv (freeAll b l) [] ∧ SameShape b (BuddyAllocator.freeAll b l) := by
  intro l
  induction l with
  | nil =>
    intro b live h hperm
    rw [List.nil_perm.mp hperm] at h
    exact ⟨h, SameShape.refl b⟩
  | cons x l ih =>
    intro b live h hperm
    have hx : x ∈ live := hperm.mem_iff.mp List.mem_cons_self
    have hrest : l.Perm (live.erase x) := by
      have := hperm.erase x
      rwa [List.erase_cons_head] at this
    have hnext := ih (h.free hx) hrest
    exact ⟨hnext.1, (h.sameShape_free hx).trans hnext.2⟩

/-- Runs from the same filled arenas that end with the same live pages end with the same free
blocks; handing back every live block, in any order, restores the blocks of the filled arenas. -/
theorem freeBlocks_determined {specs : List ArenaSpec} (hv : ValidSpecs specs) {hhdm : ℕ}
    {mem : Mem} {counter : ℕ} {s : Tracked}
    (hs : Reachable specs (Buddy.boot hhdm mem counter) s) :
    (∀ t, Reachable specs (Buddy.boot hhdm mem counter) t →
      livePages s.live = livePages t.live →
      ∀ i, (t.buddy.buddyArenas i).freeBlocks = (s.buddy.buddyArenas i).freeBlocks) ∧
    ∀ l, l.Perm s.live → ∀ i, ((freeAll s.buddy l).buddyArenas i).freeBlocks
      = ((fillArenas (Buddy.boot hhdm mem counter) specs).buddyArenas i).freeBlocks := by
  have hinv := Reachable.inv hv hs
  have hshape := Reachable.sameShape hv hs
  constructor
  · intro t ht hpages
    have hshape' := Reachable.sameShape hv ht
    apply hinv.freeBlocks_eq (Reachable.inv hv ht) _ hpages
    intro i
    rw [(hshape i).1, (hshape i).2.1, (hshape i).2.2]
    exact hshape' i
  · intro l hperm
    have hall := hinv.freeAll l hperm
    exact (boot_inv hv hhdm mem counter).freeBlocks_eq hall.1 (hshape.trans hall.2) rfl

theorem freeBlocks_determined_sevenPages :
    ((freeAll sevenPagesRun.buddy [⟨0x3000, 0⟩]).buddyArenas 1).freeBlocks
      = ((fillArenas (Buddy.boot 0 (fun _ => 0) 2) sevenPages).buddyArenas 1).freeBlocks :=
  (freeBlocks_determined validSpecs_sevenPages reachable_sevenPagesRun).2 _ (List.Perm.refl _) 1

end LunOS.BuddyAllocator
