import LunOS.BuddyAllocator.PagePartition

/-!
# Allocation fails only when there is no run of free pages

`buddy_alloc_pages` looks at the heads of the free lists only. It finds a block whenever an arena
has an aligned run of free pages of the size asked for: the free blocks are coalesced, so the run
lies inside one of them, and this block is on a list that the search visits.

- `MaxFits`: the largest order of an arena is the largest one that fits its length.
- `allocFromArena_eq_none`: when an arena serves nothing.
-/

namespace LunOS.BuddyAllocator
open LunOS.Dyadic LunOS.Memory BuddyArena Function
open List hiding Disjoint

/-! ## The largest order of an arena -/

/-- Every supported order whose blocks fit in the arena is one of its orders. -/
def MaxFits (ar : BuddyArena) : Prop :=
  ∀ o, o ≤ maxSupportedOrder → size 12 o ≤ ar.length → o ≤ ar.maxArenaOrder

lemma maxFits_zero : MaxFits BuddyArena.zero := by
  intro o _ hfit
  have hpos := size_pos 12 o
  have hzero : size 12 o ≤ 0 := hfit
  omega

variable {len i order : ℕ} {b : Buddy}

/-- The search for the largest order stops behind every order that fits. -/
lemma le_maxOrderLoop (hlen : len ≤ 2 ^ 52) : ∀ {fuel k o : ℕ}, 64 ≤ fuel + k →
    size 12 o ≤ len → o ≤ maxOrderLoop len fuel k := by
  intro fuel
  induction fuel with
  | zero =>
    intro k o hk hfit
    have hpow : 2 ^ (12 + o) ≤ 2 ^ 52 := le_trans hfit hlen
    have hle := (Nat.pow_le_pow_iff_right (by norm_num)).mp hpow
    show o ≤ k
    omega
  | succ fuel ih =>
    intro k o hk hfit
    unfold maxOrderLoop
    by_cases hnext : u64 (blockSize (k + 1)) ≤ len
    · rw [if_pos hnext]
      exact ih (by omega) hfit
    · rw [if_neg hnext]
      by_contra hlt
      have hmono : size 12 (k + 1) ≤ size 12 o := size_le_size (by omega)
      have hwrap : u64 (blockSize (k + 1)) ≤ blockSize (k + 1) := Nat.mod_le _ _
      rw [blockSize_eq] at hnext hwrap
      omega

/-- The populate loop leaves the shape of the arena alone. -/
lemma onlyArena_populateLoop (i endAddr : ℕ) : ∀ (fuel cur : ℕ) (b : Buddy),
    OnlyArena i b (populateLoop i endAddr fuel cur b) := by
  intro fuel
  induction fuel with
  | zero => exact fun _ b => OnlyArena.refl i b
  | succ fuel ih =>
    intro cur b
    unfold populateLoop
    split_ifs
    · exact OnlyArena.refl i b
    · split
      · exact ih _ b
      · exact (onlyArena_linkBlock b i _ cur).trans (ih _ _)
    · exact OnlyArena.refl i b

/-- An arena that `add_buddy_arena` fills. -/
def freshArena (base len : ℕ) : BuddyArena :=
  ⟨base, len, min (maxOrderLoop len 64 0) maxSupportedOrder, fun _ => []⟩

/-- The order fits after `add_buddy_arena`. -/
lemma maxFits_freshArena {base : ℕ} (hlen : len ≤ 2 ^ 52) : MaxFits (freshArena base len) := by
  intro o ho hfit
  exact le_min (le_maxOrderLoop hlen (by omega) hfit) ho

lemma MaxFits.congr {ar ar' : BuddyArena} (h : MaxFits ar) (hlength : ar'.length = ar.length)
    (hmax : ar'.maxArenaOrder = ar.maxArenaOrder) : MaxFits ar' := by
  intro o ho hfit
  rw [hmax]
  apply h o ho
  rw [← hlength]
  exact hfit

lemma SameShape.maxFits {b' : Buddy} (hshape : SameShape b b') (h : ∀ j, MaxFits (b.buddyArenas j))
    (j : ℕ) : MaxFits (b'.buddyArenas j) :=
  (h j).congr (hshape j).2.1 (hshape j).2.2

/-- Filling an entry leaves the other ones alone and keeps the shape given. -/
lemma populateBuddyBlocks_setArena (b : Buddy) (i : ℕ) (ar : BuddyArena) :
    SameShape (b.setArena i ar) (populateBuddyBlocks (b.setArena i ar) i) :=
  (onlyArena_populateLoop i _ _ _ _).sameShape

lemma setArena_self (b : Buddy) (i : ℕ) (ar : BuddyArena) :
    (b.setArena i ar).buddyArenas i = ar := by
  unfold Buddy.setArena
  exact update_self _ _ _

lemma setArena_of_ne (b : Buddy) {j : ℕ} (ar : BuddyArena) (hj : j ≠ i) :
    (b.setArena i ar).buddyArenas j = b.buddyArenas j := by
  unfold Buddy.setArena
  exact update_of_ne hj _ _

/-- All arenas keep fitting. -/
lemma addBuddyArena_maxFits (h : ∀ j, MaxFits (b.buddyArenas j)) {base : ℕ}
    (hbelow : base + len ≤ 2 ^ 52) (j : ℕ) :
    MaxFits ((addBuddyArena b i base len).2.buddyArenas j) := by
  unfold addBuddyArena
  simp only
  split_ifs
  · exact h j
  · exact h j
  · exact h j
  · exact h j
  · apply (populateBuddyBlocks_setArena b i _).maxFits
    intro k
    by_cases hk : k = i
    · rw [hk, setArena_self]
      apply maxFits_freshArena
      have hend : u64 (base + len) ≤ base + len := Nat.mod_le _ _
      omega
    · rw [setArena_of_ne b _ hk]
      exact h k

/-- The order fits in all arenas. -/
lemma fillArenas_maxFits : ∀ (specs : List ArenaSpec) {b : Buddy},
    (∀ s ∈ specs, s.base + s.len ≤ 2 ^ 52) → (∀ j, MaxFits (b.buddyArenas j)) →
    ∀ j, MaxFits ((fillArenas b specs).buddyArenas j) := by
  intro specs
  induction specs with
  | nil => exact fun _ h => h
  | cons s specs ih =>
    intro b hbelow h
    exact ih (fun t ht => hbelow t (mem_cons_of_mem s ht))
      (addBuddyArena_maxFits h (hbelow s mem_cons_self))

/-! ## When an arena serves nothing -/

/-- No larger block is free. -/
lemma findSplitOrder_eq_none {ar : BuddyArena} :
    findSplitOrder ar order = none ↔
      ∀ j, order < j → j ≤ ar.maxArenaOrder → ar.freeList j = [] := by
  unfold findSplitOrder
  rw [List.find?_eq_none]
  simp only [mem_range'_1, Bool.not_eq_true, Bool.not_eq_false', List.isEmpty_iff]
  constructor
  · exact fun h j hlt hle => h j (by omega)
  · exact fun h j hj => h j (by omega) (by omega)

/-- An arena serves nothing exactly if all lists that the search visits are empty. -/
lemma allocFromArena_eq_none : allocFromArena b i order = none ↔
    (b.buddyArenas i).freeList order = [] ∧
      ∀ j, order < j → j ≤ (b.buddyArenas i).maxArenaOrder →
        (b.buddyArenas i).freeList j = [] := by
  rw [← findSplitOrder_eq_none]
  unfold allocFromArena
  simp only
  cases hlist : (b.buddyArenas i).freeList order with
  | cons a l => simp
  | nil =>
    cases hfind : findSplitOrder (b.buddyArenas i) order with
    | none => simp
    | some j =>
      have hne := List.find?_some hfind
      cases hj : (b.buddyArenas i).freeList j with
      | nil =>
        rw [hj] at hne
        exact absurd hne (by decide)
      | cons a l =>
        simp only [hj]
        simp

/-- The loop fails in every arena. -/
lemma allocLoop_eq_none : ∀ {is : List ℕ},
    (allocLoop b order is).1 = none ↔ ∀ i ∈ is, allocFromArena b i order = none := by
  intro is
  induction is with
  | nil => simp [allocLoop]
  | cons i is ih =>
    unfold allocLoop
    cases hserve : allocFromArena b i order with
    | none => simp [hserve, ih]
    | some r => simp [hserve]

/-! ## Runs of free pages -/

/-- The page at `p` belongs to arena `i`, and no live block meets it. -/
structure FreePage (s : Tracked) (i p : ℕ) : Prop where
  inside : Set.Ico p (p + pageFrameSize) ⊆ (s.buddy.buddyArenas i).pages
  notLive : ∀ x ∈ s.live, Disjoint (Set.Ico p (p + pageFrameSize)) (x.span 12)

/-- At `a` an arena has `2 ^ order` consecutive free pages, aligned to their size. -/
structure FreeRun (s : Tracked) (order a : ℕ) : Prop where
  aligned : blockSize order ∣ a
  free : ∃ i, i < s.buddy.buddyArenaCounter ∧
    ∀ k, k < 2 ^ order → FreePage s i (a + k * pageFrameSize)

section
variable {s : Tracked} {order a i : ℕ}

lemma size_eq_pages (o : ℕ) : size 12 o = 2 ^ o * 4096 := by
  unfold size
  rw [pow_add]
  omega

/-- The pages of a block are its addresses. -/
lemma mem_page_of_mem_span {z : ℕ} (hz : z ∈ Block.span 12 ⟨a, order⟩) :
    ∃ k, k < 2 ^ order ∧
      z ∈ Set.Ico (a + k * pageFrameSize) (a + k * pageFrameSize + pageFrameSize) := by
  rw [mem_span, size_eq_pages] at hz
  simp only at hz
  refine ⟨(z - a) / 4096, ?_, ?_, ?_⟩
  · omega
  · unfold pageFrameSize
    omega
  · unfold pageFrameSize
    omega

/-- The pages of a block. -/
lemma page_subset_span {k : ℕ} (hk : k < 2 ^ order) :
    Set.Ico (a + k * pageFrameSize) (a + k * pageFrameSize + pageFrameSize) ⊆
      Block.span 12 ⟨a, order⟩ := by
  intro z hz
  unfold pageFrameSize at hz
  rw [mem_span, size_eq_pages]
  rw [Set.mem_Ico] at hz
  simp only
  omega

/-- A block of free pages lies in one free block. -/
lemma Inv.exists_free_block (h : Inv s.buddy s.live)
    (hmax : MaxFits (s.buddy.buddyArenas i)) (ho : order ≤ maxSupportedOrder)
    (hal : blockSize order ∣ a)
    (hfree : ∀ k, k < 2 ^ order → FreePage s i (a + k * pageFrameSize)) :
    ∃ c ∈ (s.buddy.buddyArenas i).freeBlocks, order ≤ c.order ∧
      Block.span 12 ⟨a, order⟩ ⊆ c.span 12 := by
  have harena := h.buddy.arena i
  have hspan : Block.span 12 ⟨a, order⟩ ⊆ {z | z ∈ (s.buddy.buddyArenas i).pages ∧
      ∀ x ∈ liveIn s.buddy s.live i, z ∉ x.span 12} := by
    intro z hz
    rcases mem_page_of_mem_span hz with ⟨k, hk, hzk⟩
    exact ⟨(hfree k hk).inside hzk,
      fun x hx => Set.disjoint_left.mp ((hfree k hk).notLive x hx.1) hzk⟩
  -- a run that fits in the arena has one of its orders
  have hfit : size 12 order ≤ (s.buddy.buddyArenas i).length := by
    have hpos := size_pos 12 order
    have hfirst := (hspan (addr_mem_span ⟨a, order⟩)).1
    have hlast : a + (size 12 order - 1) ∈ Block.span 12 ⟨a, order⟩ := by
      rw [mem_span]
      simp only
      omega
    have hlast := (hspan hlast).1
    have hle := Nat.div_mul_le_self (s.buddy.buddyArenas i).length pageFrameSize
    have hlow : (s.buddy.buddyArenas i).base ≤ a := hfirst.1
    have hhigh := hlast.2
    omega
  rw [blockSize_eq] at hal
  exact (harena.tiles.left harena.disjoint).exists_containing harena.coalesced order a
    (hmax order ho hfit) hal hspan

/-- An arena with a run of free pages serves the request. -/
lemma Inv.allocFromArena_ne_none (h : Inv s.buddy s.live)
    (hmax : MaxFits (s.buddy.buddyArenas i)) (ho : order ≤ maxSupportedOrder)
    (hal : blockSize order ∣ a)
    (hfree : ∀ k, k < 2 ^ order → FreePage s i (a + k * pageFrameSize)) :
    allocFromArena s.buddy i order ≠ none := by
  intro hnone
  rcases h.exists_free_block hmax ho hal hfree with ⟨c, hc, hle, -⟩
  rcases allocFromArena_eq_none.mp hnone with ⟨hempty, habove⟩
  have hmem : c.addr ∈ (s.buddy.buddyArenas i).freeList c.order := hc
  have hcmax := (h.buddy.arena i).order_le c (Or.inl hc)
  rcases Nat.eq_or_lt_of_le hle with heq | hlt
  · rw [← heq, hempty] at hmem
    exact not_mem_nil hmem
  · rw [habove c.order hlt hcmax] at hmem
    exact not_mem_nil hmem

/-- A block that is handed out was a run of free pages. -/
lemma Inv.freeRun_of_alloc {b' : Buddy} (h : Inv s.buddy s.live)
    (hal : buddyAllocPages s.buddy order = (some a, b')) : FreeRun s order a := by
  rcases h.alloc_spec hal with ⟨i, hi, -, hinv, hnot, htouch⟩
  have hpart := (h.alloc_some hal).pagePartition
  have hnew : (⟨a, order⟩ : Block) ∈ (⟨a, order⟩ :: s.live : List Block) := mem_cons_self
  have hnotLive : (⟨a, order⟩ : Block) ∉ s.live := by
    have hnodup := (h.alloc_some hal).live_nodup
    exact (nodup_cons.mp hnodup).1
  have hin : Block.span 12 ⟨a, order⟩ ⊆ (s.buddy.buddyArenas i).pages := by
    rw [← htouch.toOnlyArena.pages i]
    apply (hinv.arena i).tiles.span_subset
    rw [update_self]
    exact Or.inr (Or.inl rfl)
  have haligned : blockSize order ∣ a := hpart.live_aligned ⟨a, order⟩ hnew
  refine ⟨haligned, i, hi, fun k hk => ⟨(page_subset_span hk).trans hin, ?_⟩⟩
  intro x hx
  have hne : (⟨a, order⟩ : Block) ≠ x := (ne_of_mem_of_not_mem hx hnotLive).symm
  exact (hpart.live_live _ hnew x (mem_cons_of_mem _ hx) hne).mono_left
    (page_subset_span hk)

/-- The search fails exactly if there is no run of free pages. -/
lemma Inv.alloc_eq_none (h : Inv s.buddy s.live)
    (hmax : ∀ j, MaxFits (s.buddy.buddyArenas j)) (ho : order ≤ maxSupportedOrder) :
    (buddyAllocPages s.buddy order).1 = none ↔ ¬∃ a, FreeRun s order a := by
  constructor
  · rintro hnone ⟨a, hrun⟩
    rcases hrun.free with ⟨i, hi, hfree⟩
    unfold buddyAllocPages at hnone
    rw [if_neg (by omega), allocLoop_eq_none] at hnone
    exact h.allocFromArena_ne_none (hmax i) ho hrun.aligned hfree
      (hnone i (mem_range.mpr hi))
  · intro hno
    rcases hal : buddyAllocPages s.buddy order with ⟨r, b'⟩
    cases r with
    | none => rfl
    | some a => exact absurd ⟨a, h.freeRun_of_alloc hal⟩ hno

end

/-! ## Whole runs -/

section
variable {specs : List ArenaSpec} {hhdm : ℕ} {mem : Mem} {counter : ℕ} {s : Tracked}

/-- It fits in every state of a run. -/
lemma Reachable.maxFits (hv : ValidSpecs specs)
    (hs : Reachable specs (Buddy.boot hhdm mem counter) s) (j : ℕ) :
    MaxFits (s.buddy.buddyArenas j) :=
  (Reachable.sameShape hv hs).maxFits (fillArenas_maxFits specs hv.below fun _ => maxFits_zero) j

/-- Address 0 is in no arena when no range begins there. -/
lemma Reachable.zero_notMem (hv : ValidSpecs specs) (hpos : ∀ t ∈ specs, 0 < t.base)
    (hs : Reachable specs (Buddy.boot hhdm mem counter) s) (j : ℕ) :
    0 ∉ (s.buddy.buddyArenas j).pages := by
  rw [(Reachable.sameShape hv hs).pages j]
  intro hmem
  refine (boot_fill hv hhdm mem counter).2.2 0 (fun t ht hin => ?_) j (pages_subset_range _ hmem)
  have hbase := hpos t ht
  have hle := hin.1
  omega

end

/-- What `buddy_alloc_pages` returns as an address: 0 when it finds no block. -/
def allocResult (b : Buddy) (order : ℕ) : ℕ := (buddyAllocPages b order).1.getD 0

/-- In every reachable state `buddy_alloc_pages` returns 0 exactly if no arena has an aligned run of
free pages of the order asked for, and otherwise the start of such a run. -/
theorem alloc_complete {specs : List ArenaSpec} (hv : ValidSpecs specs)
    (hpos : ∀ t ∈ specs, 0 < t.base) {hhdm : ℕ} {mem : Mem} {counter : ℕ} {s : Tracked}
    (hs : Reachable specs (Buddy.boot hhdm mem counter) s) {order : ℕ}
    (ho : order ≤ maxSupportedOrder) :
    (allocResult s.buddy order = 0 ↔ ¬∃ a, FreeRun s order a) ∧
      ((∃ a, FreeRun s order a) → FreeRun s order (allocResult s.buddy order)) := by
  have h := Reachable.inv hv hs
  have hnone := h.alloc_eq_none (Reachable.maxFits hv hs) ho
  rcases hal : buddyAllocPages s.buddy order with ⟨r, b'⟩
  rw [hal] at hnone
  unfold allocResult
  rw [hal]
  cases r with
  | none => exact ⟨iff_of_true rfl (hnone.mp rfl), fun hrun => absurd hrun (hnone.mp rfl)⟩
  | some a =>
    have hrun := h.freeRun_of_alloc hal
    have hne : a ≠ 0 := by
      intro heq
      rcases hrun.free with ⟨i, -, hfree⟩
      have hfirst := (hfree 0 (Nat.two_pow_pos order)).inside
      rw [heq] at hfirst
      exact Reachable.zero_notMem hv hpos hs i (hfirst ⟨le_refl 0, by decide⟩)
    exact ⟨iff_of_false hne (not_not.mpr ⟨a, hrun⟩), fun _ => hrun⟩

/-- Two of seven pages are left. -/
theorem alloc_complete_sevenPages :
    FreeRun sevenPagesRun 1 0x8000 ∧
      FreeRun sevenPagesRun 1 (allocResult sevenPagesRun.buddy 1) := by
  have hal : (buddyAllocPages sevenPagesRun.buddy 1).1 = some 0x8000 := by decide
  have hrun : FreeRun sevenPagesRun 1 0x8000 :=
    (Reachable.inv validSpecs_sevenPages reachable_sevenPagesRun).freeRun_of_alloc
      (Prod.ext hal rfl)
  exact ⟨hrun, (alloc_complete validSpecs_sevenPages (by decide) reachable_sevenPagesRun
    (by decide)).2 ⟨_, hrun⟩⟩

end LunOS.BuddyAllocator
