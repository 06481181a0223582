import LunOS.BuddyAllocator.Common

/-!
# One arena: the invariant and the four moves that keep it

`ArenaInv ar L` says that the free blocks of an arena together with the blocks `L` held outside
its lists tile the whole pages of the arena, with no two free buddies below the largest order.
Every operation of the allocator is a sequence of four moves: a free block leaves its list
(`ArenaInv.unlink`), a held block is cut in halves (`ArenaInv.split`), two held halves are joined
(`ArenaInv.merge`), a held block without a free buddy goes on its list (`ArenaInv.link`).
-/

namespace LunOS.BuddyAllocator
open LunOS.Dyadic LunOS.Memory Set

/-- Block sizes are the dyadic sizes over a unit of one page frame. -/
lemma blockSize_eq (o : ℕ) : blockSize o = size 12 o := by
  unfold blockSize size pageFrameSize
  rw [Nat.shiftLeft_eq, one_mul, pow_add]
  ring

/-- A block has at least one page. -/
lemma page_le_size (o : ℕ) : 4096 ≤ size 12 o := size_le_size (w := 12) (Nat.zero_le o)

namespace BuddyArena

/-- The blocks on the free lists of an arena. -/
def freeBlocks (ar : BuddyArena) : Set Block := {x | x.addr ∈ ar.freeList x.order}

/-- The addresses of the whole pages of an arena. -/
def pages (ar : BuddyArena) : Set ℕ :=
  Set.Ico ar.base (ar.base + ar.length / pageFrameSize * pageFrameSize)

/-- The arena with a block put at the head of its list. -/
def push (ar : BuddyArena) (o a : ℕ) : BuddyArena := ar.setFreeList o (a :: ar.freeList o)

/-- The arena with a block taken off its list. -/
def remove (ar : BuddyArena) (o a : ℕ) : BuddyArena :=
  ar.setFreeList o ((ar.freeList o).erase a)

@[simp] lemma mem_freeBlocks {ar : BuddyArena} {a o : ℕ} :
    (⟨a, o⟩ : Block) ∈ ar.freeBlocks ↔ a ∈ ar.freeList o := Iff.rfl

section
variable (ar : BuddyArena)

lemma push_freeList (o a p : ℕ) :
    (ar.push o a).freeList p = if p = o then a :: ar.freeList o else ar.freeList p := by
  unfold push setFreeList
  by_cases h : p = o
  · subst h; simp
  · simp [h]

lemma remove_freeList (o a p : ℕ) :
    (ar.remove o a).freeList p = if p = o then (ar.freeList o).erase a else ar.freeList p := by
  unfold remove setFreeList
  by_cases h : p = o
  · subst h; simp
  · simp [h]

/-- A push adds one free block. -/
lemma freeBlocks_push (o a : ℕ) : (ar.push o a).freeBlocks = insert ⟨a, o⟩ ar.freeBlocks := by
  ext ⟨x, p⟩
  rw [mem_freeBlocks, push_freeList, mem_insert_iff, mem_freeBlocks, Block.mk.injEq]
  by_cases h : p = o
  · subst h; simp
  · simp [h]

end

/-- A removal takes one away. -/
lemma freeBlocks_remove {ar : BuddyArena} (hnd : ∀ o, (ar.freeList o).Nodup) (o a : ℕ) :
    (ar.remove o a).freeBlocks = ar.freeBlocks \ {⟨a, o⟩} := by
  ext ⟨x, p⟩
  rw [mem_freeBlocks, remove_freeList, mem_sdiff, mem_freeBlocks, mem_singleton_iff,
    Block.mk.injEq]
  by_cases h : p = o
  · subst h
    simp [(hnd p).mem_erase_iff, and_comm]
  · simp [h]

end BuddyArena

open BuddyArena

/-- The free blocks and the held blocks `L` of an arena tile its pages, and the free blocks are
coalesced. -/
structure ArenaInv (ar : BuddyArena) (L : Set Block) : Prop where
  tiles : Tiles 12 (ar.freeBlocks ∪ L) ar.pages
  disjoint : Disjoint ar.freeBlocks L
  nodup : ∀ o, (ar.freeList o).Nodup
  order_le : ∀ x ∈ ar.freeBlocks ∪ L, x.order ≤ ar.maxArenaOrder
  coalesced : Coalesced 12 ar.maxArenaOrder ar.freeBlocks
  max_le : ar.maxArenaOrder ≤ maxSupportedOrder

namespace ArenaInv

variable {ar : BuddyArena} {L : Set Block} {a o : ℕ}

/-- Two blocks with the same start address, free or held, are the same block. -/
lemma eq_of_addr (h : ArenaInv ar L) {x y : Block} (hx : x ∈ ar.freeBlocks ∪ L)
    (hy : y ∈ ar.freeBlocks ∪ L) (hxy : x.addr = y.addr) : x = y :=
  h.tiles.unique x hx y hy x.addr (addr_mem_span x) (hxy ▸ addr_mem_span y)

/-- A free block leaves its list and is held. -/
lemma unlink (h : ArenaInv ar L) (ha : a ∈ ar.freeList o) :
    ArenaInv (ar.remove o a) (insert ⟨a, o⟩ L) := by
  have hfree := freeBlocks_remove h.nodup o a
  have hmem : (⟨a, o⟩ : Block) ∈ ar.freeBlocks := ha
  have hunion : (ar.remove o a).freeBlocks ∪ insert ⟨a, o⟩ L = ar.freeBlocks ∪ L := by
    rw [hfree, union_insert, ← insert_union, insert_sdiff_singleton,
      insert_eq_of_mem hmem]
  refine ⟨?_, ?_, ?_, ?_, ?_, h.max_le⟩
  · rw [hunion]
    exact h.tiles
  · rw [hfree, disjoint_insert_right]
    exact ⟨fun hx => hx.2 rfl, h.disjoint.mono_left sdiff_subset⟩
  · intro p
    rw [remove_freeList]
    split
    · exact (h.nodup o).erase a
    · exact h.nodup p
  · rw [hunion]
    exact h.order_le
  · rw [hfree]
    exact fun c p hp hc hlo hup => h.coalesced c p hp hc hlo.1 hup.1

/-- A held block whose buddy is not free goes on its list. -/
lemma link (h : ArenaInv ar (insert ⟨a, o⟩ L)) (hx : (⟨a, o⟩ : Block) ∉ L)
    (hbuddy : o < ar.maxArenaOrder → a ^^^ size 12 o ∉ ar.freeList o) :
    ArenaInv (ar.push o a) L := by
  have hfree := freeBlocks_push ar o a
  have hnot : (⟨a, o⟩ : Block) ∉ ar.freeBlocks := fun hm =>
    disjoint_left.mp h.disjoint hm (mem_insert _ _)
  have hunion : (ar.push o a).freeBlocks ∪ L = ar.freeBlocks ∪ insert ⟨a, o⟩ L := by
    rw [hfree, insert_union, union_insert]
  refine ⟨?_, ?_, ?_, ?_, ?_, h.max_le⟩
  · rw [hunion]
    exact h.tiles
  · rw [hfree, disjoint_insert_left]
    exact ⟨hx, h.disjoint.mono_right (subset_insert _ _)⟩
  · intro p
    rw [push_freeList]
    split
    · exact List.nodup_cons.mpr ⟨hnot, h.nodup o⟩
    · exact h.nodup p
  · rw [hunion]
    exact h.order_le
  · rw [hfree]
    intro c p hp hc hlo hup
    -- the new block is one of the two halves, and the other one is its buddy
    rcases hlo with hlo | hlo <;> rcases hup with hup | hup
    · have hsz := size_pos 12 p
      simp only [Block.mk.injEq] at hlo hup
      omega
    · simp only [Block.mk.injEq] at hlo
      obtain ⟨rfl, rfl⟩ := hlo
      exact hbuddy hp (by rw [xor_size_of_lower hc]; exact hup)
    · simp only [Block.mk.injEq] at hup
      obtain ⟨rfl, rfl⟩ := hup
      exact hbuddy hp (by rw [xor_size_upper_eq hc]; exact hlo)
    · exact h.coalesced c p hp hc hlo hup

/-- A held block is cut in two held halves. -/
lemma split (h : ArenaInv ar (insert ⟨a, o + 1⟩ L)) (hx : (⟨a, o + 1⟩ : Block) ∉ L) :
    ArenaInv ar (insert ⟨a + size 12 o, o⟩ (insert ⟨a, o⟩ L)) ∧ (⟨a, o⟩ : Block) ∉ L ∧
      (⟨a + size 12 o, o⟩ : Block) ∉ insert ⟨a, o⟩ L := by
  have hmem : (⟨a, o + 1⟩ : Block) ∈ ar.freeBlocks ∪ insert ⟨a, o + 1⟩ L :=
    Or.inr (mem_insert _ _)
  have hs := size_succ 12 o
  have hpos := size_pos 12 o
  have hnot : (⟨a, o + 1⟩ : Block) ∉ ar.freeBlocks := fun hm =>
    disjoint_left.mp h.disjoint hm (mem_insert _ _)
  -- no other block starts inside the block that is cut
  have hother : ∀ c, (⟨c, o⟩ : Block) ∈ ar.freeBlocks ∪ insert ⟨a, o + 1⟩ L →
      a ≤ c → c < a + size 12 (o + 1) → False := by
    intro c hc hac hca
    have heq := h.tiles.unique _ hc _ hmem c (addr_mem_span ⟨c, o⟩) ⟨hac, hca⟩
    simp at heq
  have hlo : (⟨a, o⟩ : Block) ∉ ar.freeBlocks ∪ L := fun hm =>
    hother a (hm.imp id (Or.inr ·)) (le_refl a) (by omega)
  have hup : (⟨a + size 12 o, o⟩ : Block) ∉ ar.freeBlocks ∪ L := fun hm =>
    hother (a + size 12 o) (hm.imp id (Or.inr ·)) (by omega) (by omega)
  have hset : (ar.freeBlocks ∪ insert ⟨a, o + 1⟩ L) \ {⟨a, o + 1⟩} ∪ {⟨a, o⟩, ⟨a + size 12 o, o⟩}
      = ar.freeBlocks ∪ insert ⟨a + size 12 o, o⟩ (insert ⟨a, o⟩ L) := by
    ext x
    have hxne : x ∈ ar.freeBlocks ∨ x ∈ L → x ≠ ⟨a, o + 1⟩ := by
      rintro (hm | hm) rfl
      · exact hnot hm
      · exact hx hm
    simp only [mem_union, mem_insert_iff, mem_singleton_iff, mem_sdiff]
    tauto
  refine ⟨⟨?_, ?_, h.nodup, ?_, h.coalesced, h.max_le⟩, fun hm => hlo (Or.inr hm), ?_⟩
  · rw [← hset]
    exact h.tiles.split hmem
  · rw [disjoint_insert_right, disjoint_insert_right]
    exact ⟨fun hm => hup (Or.inl hm), fun hm => hlo (Or.inl hm),
      h.disjoint.mono_right (subset_insert _ _)⟩
  · have hle : o + 1 ≤ ar.maxArenaOrder := h.order_le _ hmem
    rintro x (hxf | rfl | rfl | hxL)
    · exact h.order_le x (Or.inl hxf)
    · exact (Nat.le_succ o).trans hle
    · exact (Nat.le_succ o).trans hle
    · exact h.order_le x (Or.inr (Or.inr hxL))
  · rintro (heq | hm)
    · simp only [Block.mk.injEq] at heq
      omega
    · exact hup (Or.inr hm)

/-- Two held halves are joined to one held block. -/
lemma merge (h : ArenaInv ar (insert ⟨a + size 12 o, o⟩ (insert ⟨a, o⟩ L)))
    (hal : size 12 (o + 1) ∣ a) (hlo : (⟨a, o⟩ : Block) ∉ L)
    (hup : (⟨a + size 12 o, o⟩ : Block) ∉ L) (hmax : o < ar.maxArenaOrder) :
    ArenaInv ar (insert ⟨a, o + 1⟩ L) ∧ (⟨a, o + 1⟩ : Block) ∉ L := by
  have hmlo : (⟨a, o⟩ : Block) ∈ ar.freeBlocks ∪ insert ⟨a + size 12 o, o⟩ (insert ⟨a, o⟩ L) :=
    Or.inr (Or.inr (Or.inl rfl))
  have hmup : (⟨a + size 12 o, o⟩ : Block) ∈
      ar.freeBlocks ∪ insert ⟨a + size 12 o, o⟩ (insert ⟨a, o⟩ L) := Or.inr (Or.inl rfl)
  -- a block of order `o + 1` at `a` would meet the lower half
  have hnew : (⟨a, o + 1⟩ : Block) ∉ ar.freeBlocks ∪ L := by
    intro hm
    have heq := h.eq_of_addr (hm.imp id (fun hL => Or.inr (Or.inr hL))) hmlo rfl
    simp at heq
  have hflo : (⟨a, o⟩ : Block) ∉ ar.freeBlocks := fun hm =>
    disjoint_left.mp h.disjoint hm (Or.inr (Or.inl rfl))
  have hfup : (⟨a + size 12 o, o⟩ : Block) ∉ ar.freeBlocks := fun hm =>
    disjoint_left.mp h.disjoint hm (Or.inl rfl)
  have hset : (ar.freeBlocks ∪ insert ⟨a + size 12 o, o⟩ (insert ⟨a, o⟩ L)) \
        {⟨a, o⟩, ⟨a + size 12 o, o⟩} ∪ {⟨a, o + 1⟩}
      = ar.freeBlocks ∪ insert ⟨a, o + 1⟩ L := by
    ext x
    simp only [mem_union, mem_insert_iff, mem_singleton_iff, mem_sdiff]
    constructor
    · tauto
    · rintro (hx | rfl | hx)
      · refine Or.inl ⟨Or.inl hx, ?_⟩
        rintro (rfl | rfl)
        · exact hflo hx
        · exact hfup hx
      · exact Or.inr rfl
      · refine Or.inl ⟨Or.inr (Or.inr (Or.inr hx)), ?_⟩
        rintro (rfl | rfl)
        · exact hlo hx
        · exact hup hx
  refine ⟨⟨?_, ?_, h.nodup, ?_, h.coalesced, h.max_le⟩, fun hm => hnew (Or.inr hm)⟩
  · rw [← hset]
    exact h.tiles.merge hal hmlo hmup
  · rw [disjoint_insert_right]
    exact ⟨fun hm => hnew (Or.inl hm), h.disjoint.mono_right
      ((subset_insert _ _).trans (subset_insert _ _))⟩
  · rintro x (hxf | rfl | hxL)
    · exact h.order_le x (Or.inl hxf)
    · exact hmax
    · exact h.order_le x (Or.inr (Or.inr (Or.inr hxL)))

end ArenaInv

/-- An arena without pages and without blocks. -/
lemma arenaInv_zero : ArenaInv BuddyArena.zero ∅ := by
  have hfree : BuddyArena.zero.freeBlocks = ∅ := by
    ext x
    simp [freeBlocks, BuddyArena.zero]
  have hpages : BuddyArena.zero.pages = ∅ := by simp [pages, BuddyArena.zero]
  refine ⟨⟨?_, ?_, ?_⟩, ?_, ?_, ?_, ?_, ?_⟩
  · simp [hfree]
  · intro x
    simp [hfree, hpages]
  · simp [hfree]
  · simp
  · simp [BuddyArena.zero]
  · simp [hfree]
  · intro a o h
    simp [BuddyArena.zero] at h
  · simp [BuddyArena.zero]

end LunOS.BuddyAllocator
