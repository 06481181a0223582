import LunOS.BuddyAllocator.Nodes

/-!
# Filling an arena

`populate_buddy_blocks` cuts the pages of an arena greedily from its base. `Cut` is the loop
invariant: the blocks linked so far tile the part already passed, and each of them is the largest
aligned block that fitted at its place. A greedy cut is coalesced (`Cut.coalesced`), so a freshly
added arena satisfies `ArenaInv`, with its nodes in memory (`addBuddyArena_cases`).
-/

namespace LunOS.BuddyAllocator
open LunOS.Dyadic LunOS.Memory BuddyArena

lemma land_pageFrameMask {x : ℕ} (hx : x < 2 ^ 64) : x &&& pageFrameMask = x / 4096 * 4096 :=
  land_highMask (n := 64) (k := 12) (by norm_num) hx

/-- The alignment test of the scan is divisibility by the block size. -/
lemma land_blockSize_eq_zero (addr o : ℕ) :
    addr &&& (blockSize o - 1) = 0 ↔ size 12 o ∣ addr := by
  rw [blockSize_eq, size, land_lowMask, Nat.dvd_iff_mod_eq_zero]

/-! ## Links and unlinks, arena by arena -/

/-- `b'` differs from `b` at most in the free lists of arena `i` and in memory. -/
structure OnlyArena (i : ℕ) (b b' : Buddy) : Prop where
  other : ∀ j, j ≠ i → b'.buddyArenas j = b.buddyArenas j
  base : (b'.buddyArenas i).base = (b.buddyArenas i).base
  length : (b'.buddyArenas i).length = (b.buddyArenas i).length
  max : (b'.buddyArenas i).maxArenaOrder = (b.buddyArenas i).maxArenaOrder
  counter : b'.buddyArenaCounter = b.buddyArenaCounter
  hhdm : b'.hhdmOffset = b.hhdmOffset

lemma OnlyArena.refl (i : ℕ) (b : Buddy) : OnlyArena i b b :=
  ⟨fun _ _ => rfl, rfl, rfl, rfl, rfl, rfl⟩

lemma OnlyArena.trans {i : ℕ} {b b' b'' : Buddy} (h : OnlyArena i b b')
    (h' : OnlyArena i b' b'') : OnlyArena i b b'' :=
  ⟨fun j hj => (h'.other j hj).trans (h.other j hj), h'.base.trans h.base,
    h'.length.trans h.length, h'.max.trans h.max, h'.counter.trans h.counter,
    h'.hhdm.trans h.hhdm⟩

section Moves

variable (b : Buddy) (i o a : ℕ)

/-- The arena after a list insertion. -/
@[simp] lemma linkBlock_arena :
    (b.linkBlock i o a).buddyArenas i = (b.buddyArenas i).push o a := by
  simp [Buddy.linkBlock, Buddy.setArena, push]

/-- The arena after a removal. -/
@[simp] lemma unlinkBlock_arena :
    (b.unlinkBlock i o a).buddyArenas i = (b.buddyArenas i).remove o a := by
  simp [Buddy.unlinkBlock, Buddy.setArena, remove]

/-- The arena after its head is taken. -/
lemma unlinkHead_arena {l : List ℕ} (h : (b.buddyArenas i).freeList o = a :: l) :
    (b.unlinkHead i o).buddyArenas i = (b.buddyArenas i).remove o a := by
  simp [Buddy.unlinkHead, Buddy.setArena, remove, h]

/-- Other arenas stay. -/
lemma onlyArena_linkBlock : OnlyArena i b (b.linkBlock i o a) := by
  refine ⟨fun j hj => ?_, ?_, ?_, ?_, rfl, rfl⟩
  · simp [Buddy.linkBlock, Buddy.setArena, Buddy.writeFreeBlock, hj]
  all_goals rw [linkBlock_arena]; rfl

lemma onlyArena_unlinkBlock : OnlyArena i b (b.unlinkBlock i o a) := by
  refine ⟨fun j hj => ?_, ?_, ?_, ?_, rfl, rfl⟩
  · simp [Buddy.unlinkBlock, Buddy.setArena, hj]
  all_goals rw [unlinkBlock_arena]; rfl

lemma onlyArena_unlinkHead : OnlyArena i b (b.unlinkHead i o) := by
  refine ⟨fun j hj => ?_, ?_, ?_, ?_, rfl, rfl⟩
  · simp [Buddy.unlinkHead, Buddy.setArena, hj]
  all_goals simp [Buddy.unlinkHead, Buddy.setArena, setFreeList]

end Moves

/-! ## The scan for the best order -/

/-- The scan returns the largest order, not above its start, that fits and is aligned. -/
lemma bestOrder_some {addr rem : ℕ} : ∀ {m o : ℕ}, bestOrder addr rem m = some o →
    o ≤ m ∧ size 12 o ≤ rem ∧ size 12 o ∣ addr ∧
      ∀ q, o < q → q ≤ m → ¬ (size 12 q ≤ rem ∧ size 12 q ∣ addr) := by
  intro m
  induction m with
  | zero =>
    intro o h
    unfold bestOrder at h
    split at h
    · rename_i hc
      rw [land_blockSize_eq_zero, blockSize_eq] at hc
      cases h
      exact ⟨le_refl 0, hc.1, hc.2, fun q hq hq' => by omega⟩
    · cases h
  | succ m ih =>
    intro o h
    unfold bestOrder at h
    split at h
    · rename_i hc
      rw [land_blockSize_eq_zero, blockSize_eq] at hc
      cases h
      exact ⟨le_refl _, hc.1, hc.2, fun q hq hq' => by omega⟩
    · rename_i hc
      rw [land_blockSize_eq_zero, blockSize_eq] at hc
      obtain ⟨hle, hfit, hal, hmax⟩ := ih h
      refine ⟨by omega, hfit, hal, fun q hq hq' => ?_⟩
      by_cases hqm : q = m + 1
      · subst hqm
        exact hc
      · exact hmax q hq (by omega)

/-- A page always qualifies, so the scan succeeds while a whole page is left. -/
lemma bestOrder_ne_none {addr rem : ℕ} (hal : 4096 ∣ addr) (hrem : 4096 ≤ rem) :
    ∀ m, bestOrder addr rem m ≠ none := by
  have hpage : blockSize 0 ≤ rem ∧ addr &&& (blockSize 0 - 1) = 0 := by
    rw [land_blockSize_eq_zero]
    exact ⟨hrem, hal⟩
  intro m
  induction m with
  | zero =>
    unfold bestOrder
    rw [if_pos hpage]
    exact Option.some_ne_none 0
  | succ m ih =>
    unfold bestOrder
    split
    · exact Option.some_ne_none _
    · exact ih

/-! ## The greedy cut -/

/-- The invariant of the populate loop at position `cur`: the blocks linked so far tile what lies
behind, and none of them could have been larger. -/
structure Cut (ar : BuddyArena) (endAddr cur : ℕ) : Prop where
  tiles : Tiles 12 ar.freeBlocks (Set.Ico ar.base cur)
  nodup : ∀ o, (ar.freeList o).Nodup
  order_le : ∀ x ∈ ar.freeBlocks, x.order ≤ ar.maxArenaOrder
  greedy : ∀ x ∈ ar.freeBlocks, ∀ q, x.order < q → q ≤ ar.maxArenaOrder →
    ¬ (size 12 q ≤ endAddr - x.addr ∧ size 12 q ∣ x.addr)
  base_le : ar.base ≤ cur
  le_end : cur ≤ endAddr
  aligned : 4096 ∣ cur

variable {ar : BuddyArena} {cur endAddr : ℕ}

/-- Two free halves would have been cut as one block. -/
lemma Cut.coalesced (h : Cut ar endAddr cur) :
    Coalesced 12 ar.maxArenaOrder ar.freeBlocks := by
  intro a o ho hal hlo hup
  have hs := size_succ 12 o
  have hpos := size_pos 12 o
  have hend : a + size 12 (o + 1) ≤ endAddr := by
    have hlast : a + size 12 o + (size 12 o - 1) ∈ Set.Ico ar.base cur :=
      h.tiles.span_subset hup (by rw [mem_span]; simp only; omega)
    have := hlast.2
    have := h.le_end
    omega
  exact h.greedy _ hlo (o + 1) (Nat.lt_succ_self o) ho ⟨by simp only; omega, hal⟩

/-- Linking the best block at the current position advances the cut. -/
lemma Cut.push {o : ℕ} (h : Cut ar endAddr cur)
    (ho : bestOrder cur (endAddr - cur) ar.maxArenaOrder = some o) :
    Cut (ar.push o cur) endAddr (cur + size 12 o) := by
  obtain ⟨hle, hfit, hal, hbest⟩ := bestOrder_some ho
  have hpos := size_pos 12 o
  have hend := h.le_end
  have hnot : (⟨cur, o⟩ : Block) ∉ ar.freeBlocks := fun hm =>
    absurd (h.tiles.span_subset hm (addr_mem_span _)).2 (lt_irrefl cur)
  refine ⟨?_, ?_, ?_, ?_, ?_, ?_, ?_⟩
  · rw [freeBlocks_push]
    exact h.tiles.extend h.base_le hal
  · intro p
    rw [push_freeList]
    split
    · exact List.nodup_cons.mpr ⟨hnot, h.nodup o⟩
    · exact h.nodup p
  · rw [freeBlocks_push]
    intro x hx
    rcases hx with rfl | hx
    · exact hle
    · exact h.order_le x hx
  · rw [freeBlocks_push]
    intro x hx
    rcases hx with rfl | hx
    · exact hbest
    · exact h.greedy x hx
  · have := h.base_le
    show ar.base ≤ cur + size 12 o
    omega
  · omega
  · exact (Nat.dvd_add_right h.aligned).mpr (size_dvd_size (w := 12) (Nat.zero_le o))

/-- The nodes of a cut end before its position. -/
lemma Cut.node_le {c p : ℕ} (h : Cut ar endAddr cur) (hc : c ∈ ar.freeList p) :
    c + freeBlockSize ≤ cur := by
  have hpage := page_le_size p
  have hlast : c + (size 12 p - 1) ∈ Set.Ico ar.base cur :=
    h.tiles.span_subset (b := ⟨c, p⟩) hc (by rw [mem_span]; simp only; omega)
  have := hlast.2
  unfold freeBlockSize
  omega

/-- The populate loop runs until less than a page is left. The other arenas have their nodes
outside the part that is being cut. -/
lemma populateLoop_cut (i endAddr : ℕ) (hend52 : endAddr ≤ 2 ^ 52) : ∀ (fuel cur : ℕ) (b : Buddy),
    Cut (b.buddyArenas i) endAddr cur → (endAddr - cur) / 4096 < fuel →
    (b.buddyArenas i).maxArenaOrder ≤ maxSupportedOrder →
    (∀ j p, NodesOk b p ((b.buddyArenas j).freeList p)) →
    (∀ j, j ≠ i → ∀ p, ∀ c ∈ (b.buddyArenas j).freeList p,
      c + freeBlockSize ≤ (b.buddyArenas i).base ∨ endAddr ≤ c) →
    ∃ cur', Cut ((populateLoop i endAddr fuel cur b).buddyArenas i) endAddr cur' ∧
      endAddr < cur' + 4096 ∧ OnlyArena i b (populateLoop i endAddr fuel cur b) ∧
      ∀ j p, NodesOk (populateLoop i endAddr fuel cur b) p
        (((populateLoop i endAddr fuel cur b).buddyArenas j).freeList p) := by
  intro fuel
  induction fuel with
  | zero => intro cur b _ hf; omega
  | succ fuel ih =>
    intro cur b hcut hfuel hmax hnodes hclear
    unfold populateLoop
    have hend := hcut.le_end
    by_cases hlt : cur < endAddr
    · rw [if_pos hlt]
      by_cases hrem : endAddr - cur < pageFrameSize
      · rw [if_pos hrem]
        unfold pageFrameSize at hrem
        exact ⟨cur, hcut, by omega, OnlyArena.refl i b, hnodes⟩
      · rw [if_neg hrem]
        unfold pageFrameSize at hrem
        cases hbest : bestOrder cur (endAddr - cur) (b.buddyArenas i).maxArenaOrder with
        | none => exact absurd hbest (bestOrder_ne_none hcut.aligned (by omega) _)
        | some o =>
          have hnext := hcut.push hbest
          rw [← linkBlock_arena] at hnext
          have hpage := page_le_size o
          have hle := hnext.le_end
          have hbase := hcut.base_le
          have ho : o < 256 := by
            have := (bestOrder_some hbest).1
            unfold maxSupportedOrder at hmax
            omega
          have hsep : ∀ j p c, c ∈ (b.buddyArenas j).freeList p → NodeSep c cur := by
            intro j p c hc
            unfold NodeSep
            by_cases hj : j = i
            · subst hj
              exact Or.inl (hcut.node_le hc)
            · have := hclear j hj p c hc
              unfold freeBlockSize at this ⊢
              omega
          have hnodes' := nodesOk_linkBlock (i := i) (o := o) (a := cur) (by omega) ho hsep hnodes
          have honly := onlyArena_linkBlock b i o cur
          have hclear' : ∀ j, j ≠ i → ∀ p, ∀ c ∈ ((b.linkBlock i o cur).buddyArenas j).freeList p,
              c + freeBlockSize ≤ ((b.linkBlock i o cur).buddyArenas i).base ∨ endAddr ≤ c := by
            intro j hj p c hc
            rw [honly.other j hj] at hc
            rw [honly.base]
            exact hclear j hj p c hc
          obtain ⟨cur', hcut', hfin, honly', hnodes''⟩ := ih (cur + size 12 o)
            (b.linkBlock i o cur) hnext (by omega) (by rw [honly.max]; exact hmax) hnodes' hclear'
          simp only [blockSize_eq]
          exact ⟨cur', hcut', hfin, honly.trans honly', hnodes''⟩
    · rw [if_neg hlt]
      exact ⟨cur, hcut, by omega, OnlyArena.refl i b, hnodes⟩

/-! ## Adding an arena -/

/-- The cut starts empty. -/
lemma cut_empty {base len m : ℕ} (hal : 4096 ∣ base) :
    Cut ⟨base, len, m, fun _ => []⟩ (base + len) base := by
  have hfree : (⟨base, len, m, fun _ => []⟩ : BuddyArena).freeBlocks = ∅ := by
    ext x
    simp [freeBlocks]
  refine ⟨⟨?_, ?_, ?_⟩, ?_, ?_, ?_, le_refl _, Nat.le_add_right _ _, hal⟩
  · simp [hfree]
  · intro x
    simp [hfree]
  · simp [hfree]
  · simp
  · simp [hfree]
  · simp [hfree]

/-- A finished cut gives the arena invariant, with nothing held. -/
lemma Cut.arenaInv (h : Cut ar (ar.base + ar.length) cur) (hbase : 4096 ∣ ar.base)
    (hfin : ar.base + ar.length < cur + 4096) (hmax : ar.maxArenaOrder ≤ maxSupportedOrder) :
    ArenaInv ar ∅ := by
  have hcur : cur = ar.base + ar.length / pageFrameSize * pageFrameSize := by
    have := h.le_end
    have := h.base_le
    have := h.aligned
    unfold pageFrameSize
    omega
  have htiles : Tiles 12 (ar.freeBlocks ∪ ∅) ar.pages := by
    rw [Set.union_empty, pages, ← hcur]
    exact h.tiles
  refine ⟨htiles, Set.disjoint_empty _, h.nodup, ?_, h.coalesced, hmax⟩
  rw [Set.union_empty]
  exact h.order_le

/-- The addresses `buddy_free_pages` looks for the arena in. -/
def BuddyArena.range (ar : BuddyArena) : Set ℕ := Set.Ico ar.base (ar.base + ar.length)

lemma pages_subset_range (ar : BuddyArena) : ar.pages ⊆ ar.range := by
  intro x hx
  have := Nat.div_mul_le_self ar.length pageFrameSize
  exact ⟨hx.1, lt_of_lt_of_le hx.2 (by omega)⟩

/-- `add_buddy_arena` either changes nothing or fills entry `i` inside the given range. The nodes
of the other arenas lie outside that range. -/
lemma addBuddyArena_cases (b : Buddy) {i base len : ℕ} (hi : 1 ≤ i)
    (hbelow : base + len ≤ 2 ^ 52) (hnodes : ∀ j p, NodesOk b p ((b.buddyArenas j).freeList p))
    (hclear : 0 < len → ∀ j p, ∀ c ∈ (b.buddyArenas j).freeList p,
      c + freeBlockSize ≤ base ∨ base + len ≤ c) :
    (addBuddyArena b i base len).2 = b ∨ ∃ b' : Buddy, (addBuddyArena b i base len).2 = b' ∧
      ArenaInv (b'.buddyArenas i) ∅ ∧ base ≤ (b'.buddyArenas i).base ∧
      (b'.buddyArenas i).base + (b'.buddyArenas i).length ≤ base + len ∧
      (∀ j, j ≠ i → b'.buddyArenas j = b.buddyArenas j) ∧
      (∀ j p, NodesOk b' p ((b'.buddyArenas j).freeList p)) ∧
      b'.hhdmOffset = b.hhdmOffset := by
  unfold addBuddyArena
  by_cases h32 : maxBuddyArenas ≤ i
  · rw [if_pos h32]
    exact Or.inl rfl
  rw [if_neg h32, if_neg (by omega)]
  have hbig : base + len < 2 ^ 64 := lt_of_le_of_lt hbelow (by norm_num)
  have hend : u64 (base + len) = base + len := Nat.mod_eq_of_lt hbig
  have halign : u64 (base + pageFrameSize - 1) &&& pageFrameMask
      = (base + 4095) / 4096 * 4096 := by
    have hlt : base + 4096 - 1 < 2 ^ 64 := by omega
    rw [show u64 (base + pageFrameSize - 1) = base + 4096 - 1 from Nat.mod_eq_of_lt hlt,
      land_pageFrameMask hlt]
    rfl
  simp only [hend, halign]
  by_cases hsmall : base + len ≤ (base + 4095) / 4096 * 4096
  · rw [if_pos hsmall]
    exact Or.inl rfl
  rw [if_neg hsmall]
  by_cases htiny : base + len - (base + 4095) / 4096 * 4096 < pageFrameSize
  · rw [if_pos htiny]
    exact Or.inl rfl
  rw [if_neg htiny]
  apply Or.inr
  set ab := (base + 4095) / 4096 * 4096 with hab
  set al := base + len - ab with hal
  set mo := min (maxOrderLoop al 64 0) maxSupportedOrder with hmo
  set b₁ := b.setArena i ⟨ab, al, mo, fun _ => []⟩ with hb₁
  have hdvd : 4096 ∣ ab := Dvd.intro_left _ rfl
  have har : b₁.buddyArenas i = ⟨ab, al, mo, fun _ => []⟩ := by simp [hb₁, Buddy.setArena]
  have hoth : ∀ j, j ≠ i → b₁.buddyArenas j = b.buddyArenas j := by
    intro j hj
    simp [hb₁, Buddy.setArena, hj]
  have hwrap : u64 (ab + al) = ab + al := Nat.mod_eq_of_lt (by omega)
  have hcut : Cut (b₁.buddyArenas i) (ab + al) ab := by
    rw [har]
    exact cut_empty hdvd
  -- clearing the entry leaves the nodes of the other arenas
  have hnodes₁ : ∀ j p, NodesOk b₁ p ((b₁.buddyArenas j).freeList p) := by
    intro j p
    by_cases hj : j = i
    · rw [hj, har]
      exact nodesOk_nil b₁ p
    · rw [hoth j hj]
      refine NodesOk.congr ?_ ?_ (hnodes j p)
      · rfl
      · intro _ _ _ _ _
        rfl
  have hclear₁ : ∀ j, j ≠ i → ∀ p, ∀ c ∈ (b₁.buddyArenas j).freeList p,
      c + freeBlockSize ≤ (b₁.buddyArenas i).base ∨ ab + al ≤ c := by
    intro j hj p c hc
    rw [hoth j hj] at hc
    rw [har]
    have := hclear (by omega) j p c hc
    show c + freeBlockSize ≤ ab ∨ _
    omega
  obtain ⟨cur, hcut', hfin, honly, hnodes'⟩ := populateLoop_cut i (ab + al) (by omega)
    (al / pageFrameSize + 1) ab b₁ hcut (by unfold pageFrameSize; omega)
    (by rw [har]; exact min_le_right _ _) hnodes₁ hclear₁
  have hpop : populateBuddyBlocks b₁ i
      = populateLoop i (ab + al) (al / pageFrameSize + 1) ab b₁ := by
    unfold populateBuddyBlocks
    simp only [har, hwrap]
  have hbase := honly.base
  have hlength := honly.length
  have hmax := honly.max
  rw [har] at hbase hlength hmax
  simp only at hbase hlength hmax
  refine ⟨_, hpop, ?_, ?_, ?_, ?_, hnodes', honly.hhdm⟩
  · refine @Cut.arenaInv _ cur ?_ (by rw [hbase]; exact hdvd) ?_ ?_
    · rw [hbase, hlength]
      exact hcut'
    · rw [hbase, hlength]
      exact hfin
    · rw [hmax, hmo]
      exact min_le_right _ _
  · rw [hbase]
    omega
  · rw [hbase, hlength]
    omega
  · intro j hj
    rw [honly.other j hj, hoth j hj]

end LunOS.BuddyAllocator
