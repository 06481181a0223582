import LunOS.BuddyAllocator.Populate

/-!
# The loops of allocation and freeing

`BuddyInv b H` is the invariant of the whole allocator with the blocks `H i` of arena `i` held
outside its lists: the invariant of every arena, arenas that do not overlap, and all free lists
in memory. The splitting and the coalescing loop keep it while they change the held block, and
touch no byte of a block that stays held (`Touches`).
-/

namespace LunOS.BuddyAllocator
open LunOS.Dyadic LunOS.Memory BuddyArena Function Set

/-- The invariant of the allocator, with the blocks `H i` of arena `i` held. -/
structure BuddyInv (b : Buddy) (H : ℕ → Set Block) : Prop where
  arena : ∀ i, ArenaInv (b.buddyArenas i) (H i)
  disjoint : ∀ i j, i ≠ j → Disjoint (b.buddyArenas i).range (b.buddyArenas j).range
  below : ∀ i, (b.buddyArenas i).base + (b.buddyArenas i).length ≤ 2 ^ 52
  nodes : ∀ i o, NodesOk b o ((b.buddyArenas i).freeList o)

/-- `b'` differs from `b` in the free lists of arena `i` and in bytes of the arena outside the
blocks `L`. -/
structure Touches (i : ℕ) (L : Set Block) (b b' : Buddy) : Prop extends OnlyArena i b b' where
  frame : ∀ z, (z ∉ (b.buddyArenas i).pages ∨ ∃ y ∈ L, z ∈ y.span 12) → b'.mem z = b.mem z

variable {b' b : Buddy} {i j order : ℕ} {L : Set Block} {H : ℕ → Set Block}

lemma OnlyArena.pages (h : OnlyArena i b b') (j : ℕ) :
    (b'.buddyArenas j).pages = (b.buddyArenas j).pages := by
  by_cases hj : j = i
  · subst hj
    rw [BuddyArena.pages, BuddyArena.pages, h.base, h.length]
  · rw [h.other j hj]

lemma OnlyArena.range (h : OnlyArena i b b') (j : ℕ) :
    (b'.buddyArenas j).range = (b.buddyArenas j).range := by
  by_cases hj : j = i
  · subst hj
    rw [BuddyArena.range, BuddyArena.range, h.base, h.length]
  · rw [h.other j hj]

lemma Touches.refl (i : ℕ) (L : Set Block) (b : Buddy) : Touches i L b b :=
  ⟨OnlyArena.refl i b, fun _ _ => rfl⟩

/-- One move after another. -/
lemma Touches.trans {b'' : Buddy} (h : Touches i L b b') (h' : Touches i L b' b'') :
    Touches i L b b'' := by
  refine ⟨h.toOnlyArena.trans h'.toOnlyArena, fun z hz => ?_⟩
  rw [h'.frame z (by rw [h.toOnlyArena.pages i]; exact hz), h.frame z hz]

lemma Touches.mono {L' : Set Block} (h : Touches i L b b') (hL : L' ⊆ L) : Touches i L' b b' := by
  refine ⟨h.toOnlyArena, fun z hz => h.frame z ?_⟩
  rcases hz with hz | ⟨y, hy, hz⟩
  · exact Or.inl hz
  · exact Or.inr ⟨y, hL hy, hz⟩

namespace BuddyInv

variable {b : Buddy} {H : ℕ → Set Block} {i o a : ℕ} {L : Set Block}

section
variable (h : BuddyInv b H)
include h

/-- Two blocks of the allocator lie one after the other, unless they are the same. -/
lemma sep {x y : Block} (hx : x ∈ (b.buddyArenas i).freeBlocks ∪ H i)
    (hy : y ∈ (b.buddyArenas j).freeBlocks ∪ H j) (hne : i ≠ j ∨ x ≠ y) :
    x.addr + size 12 x.order ≤ y.addr ∨ y.addr + size 12 y.order ≤ x.addr := by
  apply Block.sep_of_disjoint
  intro z hzx hzy
  have hzi := pages_subset_range _ ((h.arena i).tiles.span_subset hx hzx)
  have hzj := pages_subset_range _ ((h.arena j).tiles.span_subset hy hzy)
  by_cases hij : i = j
  · subst hij
    have heq := (h.arena i).tiles.unique x hx y hy z hzx hzy
    rcases hne with hne | hne
    · exact hne rfl
    · exact hne heq
  · exact disjoint_left.mp (h.disjoint i j hij) hzi hzj

/-- The node of a free block does not overlap the node of another block. -/
lemma nodeSep {c d p q : ℕ} (hc : c ∈ (b.buddyArenas i).freeList p)
    (hd : (⟨d, q⟩ : Block) ∈ (b.buddyArenas j).freeBlocks ∪ H j)
    (hne : i ≠ j ∨ (⟨c, p⟩ : Block) ≠ ⟨d, q⟩) : NodeSep c d := by
  have hsep := h.sep (i := i) (j := j) (x := ⟨c, p⟩) (y := ⟨d, q⟩) (Or.inl hc) hd hne
  have h₁ := page_le_size p
  have h₂ := page_le_size q
  unfold NodeSep freeBlockSize
  simp only at hsep
  omega

/-- Every block of the allocator lies below `2 ^ 52` and has an order below 21. -/
lemma bounds {x : Block} (hx : x ∈ (b.buddyArenas i).freeBlocks ∪ H i) :
    x.addr + size 12 x.order ≤ 2 ^ 52 ∧ x.order ≤ maxSupportedOrder := by
  have hpos := size_pos 12 x.order
  have hlast := pages_subset_range _ ((h.arena i).tiles.span_subset hx
    (show x.addr + (size 12 x.order - 1) ∈ x.span 12 by rw [mem_span]; omega))
  have h₁ := hlast.2
  have h₂ := h.below i
  have h₃ := (h.arena i).order_le x hx
  have h₄ := (h.arena i).max_le
  omega

/-- A change of arena `i` alone, with its new invariant and the nodes given. -/
lemma of_onlyArena (honly : OnlyArena i b b') (hi : ArenaInv (b'.buddyArenas i) L)
    (hnodes : ∀ j p, NodesOk b' p ((b'.buddyArenas j).freeList p)) :
    BuddyInv b' (update H i L) := by
  refine ⟨fun j => ?_, fun j k hjk => ?_, fun j => ?_, hnodes⟩
  · by_cases hj : j = i
    · subst hj
      rw [update_self]
      exact hi
    · rw [update_of_ne hj, honly.other j hj]
      exact h.arena j
  · rw [honly.range j, honly.range k]
    exact h.disjoint j k hjk
  · by_cases hj : j = i
    · subst hj
      rw [honly.base, honly.length]
      exact h.below j
    · rw [honly.other j hj]
      exact h.below j

/-- The head of a list is unlinked and held. -/
lemma unlinkHead {l : List ℕ} (hl : (b.buddyArenas i).freeList o = a :: l) :
    BuddyInv (b.unlinkHead i o) (update H i (insert ⟨a, o⟩ (H i))) ∧
      (⟨a, o⟩ : Block) ∉ H i ∧ Touches i (H i) b (b.unlinkHead i o) := by
  have hmem : a ∈ (b.buddyArenas i).freeList o := by rw [hl]; exact List.mem_cons_self
  have honly := onlyArena_unlinkHead b i o
  refine ⟨h.of_onlyArena honly ?_ (nodesOk_unlinkHead h.nodes), ?_, honly, fun _ _ => rfl⟩
  · rw [unlinkHead_arena b i o a hl]
    exact (h.arena i).unlink hmem
  · exact disjoint_left.mp (h.arena i).disjoint hmem

/-- A block anywhere on a list is unlinked and held. -/
lemma unlinkBlock (ha : a ∈ (b.buddyArenas i).freeList o) :
    BuddyInv (b.unlinkBlock i o a) (update H i (insert ⟨a, o⟩ (H i))) ∧
      (⟨a, o⟩ : Block) ∉ H i ∧ Touches i (H i) b (b.unlinkBlock i o a) := by
  have honly := onlyArena_unlinkBlock b i o a
  have hpair : ((b.buddyArenas i).freeList o).Pairwise NodeSep := by
    refine List.Pairwise.imp_of_mem ?_ ((h.arena i).nodup o)
    intro c d hc hd hne
    exact h.nodeSep hc (Or.inl hd) (Or.inr (by simpa using hne))
  have hsep : ∀ j p, (j ≠ i ∨ p ≠ o) → ∀ c ∈ (b.buddyArenas j).freeList p,
      ∀ d ∈ (b.buddyArenas i).freeList o, NodeSep c d := by
    intro j p hjp c hc d hd
    refine h.nodeSep hc (Or.inl hd) ?_
    rcases hjp with hjp | hjp
    · exact Or.inl hjp
    · exact Or.inr (by simp [hjp])
  refine ⟨h.of_onlyArena honly ?_ (nodesOk_unlinkBlock hpair hsep h.nodes), ?_, honly, ?_⟩
  · rw [unlinkBlock_arena]
    exact (h.arena i).unlink ha
  · exact disjoint_left.mp (h.arena i).disjoint ha
  · -- the store falls in a node of a free block, away from held blocks and other memory
    intro z hz
    apply Chain.unlinkNext_outside
    intro c hc
    by_contra hcon
    have hsize := page_le_size o
    have hzc : z ∈ Block.span 12 ⟨c, o⟩ := by
      rw [mem_span]
      simp only
      omega
    rcases hz with hz | ⟨y, hy, hzy⟩
    · exact hz ((h.arena i).tiles.span_subset (Or.inl hc) hzc)
    · have heq := (h.arena i).tiles.unique _ (Or.inl hc) y (Or.inr hy) z hzc hzy
      exact disjoint_left.mp (h.arena i).disjoint hc (heq ▸ hy)

end

/-- A held block without a free buddy is linked. -/
lemma link (h : BuddyInv b (update H i (insert ⟨a, o⟩ L)))
    (hx : (⟨a, o⟩ : Block) ∉ L)
    (hbuddy : o < (b.buddyArenas i).maxArenaOrder →
      a ^^^ size 12 o ∉ (b.buddyArenas i).freeList o) :
    BuddyInv (b.linkBlock i o a) (update H i L) ∧
      Touches i L b (b.linkBlock i o a) := by
  have honly := onlyArena_linkBlock b i o a
  have hi := h.arena i
  rw [update_self] at hi
  have hheld : (⟨a, o⟩ : Block) ∈ (b.buddyArenas i).freeBlocks ∪
      update H i (insert ⟨a, o⟩ L) i := by
    rw [update_self]
    exact Or.inr (Or.inl rfl)
  have hbounds := h.bounds hheld
  have hpos := size_pos 12 o
  unfold maxSupportedOrder at hbounds
  simp only at hbounds
  have hsep : ∀ j p c, c ∈ (b.buddyArenas j).freeList p → NodeSep c a := by
    intro j p c hc
    refine h.nodeSep hc hheld ?_
    by_cases hj : j = i
    · subst hj
      refine Or.inr fun heq => ?_
      exact disjoint_left.mp hi.disjoint (heq ▸ hc) (Or.inl rfl)
    · exact Or.inl hj
  have hnodes := nodesOk_linkBlock (i := i) (o := o) (a := a) (by omega) (by omega) hsep h.nodes
  refine ⟨?_, honly, ?_⟩
  · have hinv := h.of_onlyArena honly (L := L) ?_ hnodes
    · rwa [update_idem] at hinv
    · rw [linkBlock_arena]
      exact hi.link hx hbuddy
  · intro z hz
    rw [linkBlock_mem]
    apply writeFreeBlock_mem_outside
    by_contra hcon
    have hsize := page_le_size o
    unfold freeBlockSize at hcon
    have hza : z ∈ Block.span 12 ⟨a, o⟩ := by
      rw [mem_span]
      simp only
      omega
    rcases hz with hz | ⟨y, hy, hzy⟩
    · exact hz (hi.tiles.span_subset (Or.inr (Or.inl rfl)) hza)
    · have heq := hi.tiles.unique _ (Or.inr (Or.inl rfl)) y (Or.inr (Or.inr hy)) z hza hzy
      exact hx (heq ▸ hy)

/-- Cutting or joining held blocks only changes the bookkeeping. -/
lemma rehold (h : BuddyInv b H) (hi : ArenaInv (b.buddyArenas i) L) :
    BuddyInv b (update H i L) :=
  h.of_onlyArena (OnlyArena.refl i b) hi h.nodes

end BuddyInv

/-! ## The loops -/

/-- The splitting loop takes a held block of order `order + n` down to order `order`. -/
lemma splitLoop_inv (i order a : ℕ) :
    ∀ (n : ℕ) (b : Buddy), BuddyInv b (update H i (insert ⟨a, order + n⟩ L)) →
    (⟨a, order + n⟩ : Block) ∉ L →
    BuddyInv (splitLoop i order a n b) (update H i (insert ⟨a, order⟩ L)) ∧
      (⟨a, order⟩ : Block) ∉ L ∧ Touches i L b (splitLoop i order a n b) := by
  intro n
  induction n with
  | zero =>
    intro b h hx
    exact ⟨h, hx, Touches.refl i L b⟩
  | succ n ih =>
    intro b h hx
    have hi := h.arena i
    rw [update_self] at hi
    obtain ⟨hsplit, hlo, hup⟩ := ArenaInv.split (o := order + n) hi hx
    have h' := h.rehold hsplit
    rw [update_idem] at h'
    -- the right half goes on the list; its buddy is the left half, which is held
    obtain ⟨hlink, htouch⟩ := h'.link hup (by
      intro _ hfree
      have hal : size 12 (order + n + 1) ∣ a := hi.tiles.aligned _ (Or.inr (Or.inl rfl))
      rw [xor_size_upper_eq hal] at hfree
      exact disjoint_left.mp hsplit.disjoint hfree (Or.inr (Or.inl rfl)))
    obtain ⟨hinv, hnot, htouch'⟩ := ih _ hlink hlo
    unfold splitLoop
    rw [blockSize_eq]
    exact ⟨hinv, hnot, (htouch.mono (subset_insert _ _)).trans htouch'⟩

/-- The block to split is larger. -/
lemma findSplitOrder_some {ar : BuddyArena} (h : findSplitOrder ar order = some j) : order < j := by
  have hmem := List.mem_of_find?_eq_some h
  rw [List.mem_range'_1] at hmem
  omega

/-- A turn of the arena loop that returns a block takes it out of the free blocks. -/
lemma allocFromArena_inv {a : ℕ} (h : BuddyInv b H) (hal : allocFromArena b i order = some (a, b')) :
    
    BuddyInv b' (update H i (insert ⟨a, order⟩ (H i))) ∧
      (⟨a, order⟩ : Block) ∉ H i ∧ Touches i (H i) b b' := by
  unfold allocFromArena at hal
  simp only at hal
  split at hal
  · rename_i x l hl
    cases hal
    exact h.unlinkHead hl
  · split at hal
    · cases hal
    · rename_i j hj
      split at hal
      · cases hal
      · rename_i x l hl
        simp only [Option.some.injEq, Prod.mk.injEq] at hal
        obtain ⟨rfl, rfl⟩ := hal
        have hlt := findSplitOrder_some hj
        obtain ⟨hinv, hnot, htouch⟩ := h.unlinkHead hl
        have hj' : order + (j - order) = j := by omega
        obtain ⟨hinv', hnot', htouch'⟩ := splitLoop_inv i order x (j - order) (b.unlinkHead i j)
          (by rw [hj']; exact hinv) (by rw [hj']; exact hnot)
        exact ⟨hinv', hnot', htouch.trans htouch'⟩

/-- The arena that serves a request. -/
lemma allocLoop_some {a : ℕ} : ∀ {is : List ℕ},
    allocLoop b order is = (some a, b') → ∃ i ∈ is, allocFromArena b i order = some (a, b') := by
  intro is
  induction is with
  | nil => intro h; simp [allocLoop] at h
  | cons i is ih =>
    intro h
    unfold allocLoop at h
    split at h
    · rename_i a' b'' heq
      cases h
      exact ⟨i, List.mem_cons_self, heq⟩
    · obtain ⟨j, hj, hj'⟩ := ih h
      exact ⟨j, List.mem_cons_of_mem i hj, hj'⟩

/-- A failed search changes nothing. -/
lemma allocLoop_none : ∀ {is : List ℕ},
    allocLoop b order is = (none, b') → b' = b := by
  intro is
  induction is with
  | nil => intro h; simpa [allocLoop] using h.symm
  | cons i is ih =>
    intro h
    unfold allocLoop at h
    split at h
    · simp at h
    · exact ih h

/-- The coalescing loop joins a held block with free buddies until none is left. -/
lemma coalesceLoop_inv (i : ℕ) :
    ∀ (n : ℕ) (b : Buddy) (a o : ℕ), n = (b.buddyArenas i).maxArenaOrder - o →
    BuddyInv b (update H i (insert ⟨a, o⟩ L)) → (⟨a, o⟩ : Block) ∉ L →
    ∃ b' a' o', coalesceLoop i n b a o = (b', a', o') ∧
      BuddyInv b' (update H i (insert ⟨a', o'⟩ L)) ∧ (⟨a', o'⟩ : Block) ∉ L ∧
      (o' < (b'.buddyArenas i).maxArenaOrder →
        a' ^^^ size 12 o' ∉ (b'.buddyArenas i).freeList o') ∧ Touches i L b b' := by
  intro n
  induction n with
  | zero =>
    intro b a o hn h hx
    exact ⟨b, a, o, rfl, h, hx, fun hlt => by omega, Touches.refl i L b⟩
  | succ n ih =>
    intro b a o hn h hx
    unfold coalesceLoop
    rw [blockSize_eq]
    simp only
    have hmax : o < (b.buddyArenas i).maxArenaOrder := by omega
    by_cases hfree : a ^^^ size 12 o ∈ (b.buddyArenas i).freeList o
    · rw [if_pos hfree]
      have hal : size 12 o ∣ a := (h.arena i).tiles.aligned ⟨a, o⟩
        (by rw [update_self]; exact Or.inr (Or.inl rfl))
      obtain ⟨hheld, hbud, htouch⟩ := h.unlinkBlock hfree
      rw [update_idem, update_self] at hheld
      rw [update_self] at hbud htouch
      have hpos := size_pos 12 o
      have hi := hheld.arena i
      rw [update_self] at hi
      rw [← htouch.max] at hmax
      -- the joined block, whichever of the two halves was being freed
      have hjoin : ArenaInv ((b.unlinkBlock i o (a ^^^ size 12 o)).buddyArenas i)
          (insert ⟨if a ^^^ size 12 o < a then a ^^^ size 12 o else a, o + 1⟩ L) ∧
          (⟨if a ^^^ size 12 o < a then a ^^^ size 12 o else a, o + 1⟩ : Block) ∉ L := by
        by_cases hlow : size 12 (o + 1) ∣ a
        · rw [xor_size_of_lower hlow] at hi hbud hmax ⊢
          rw [if_neg (by omega)]
          exact hi.merge hlow hx (fun hm => hbud (Or.inr hm)) hmax
        · obtain ⟨hadd, hdvd⟩ := xor_size_of_upper hal hlow
          rw [if_pos (by omega)]
          generalize a ^^^ size 12 o = c at hi hbud hadd hdvd hmax ⊢
          subst hadd
          rw [insert_comm] at hi
          exact hi.merge hdvd (fun hm => hbud (Or.inr hm)) hx hmax
      have h' := hheld.rehold hjoin.1
      rw [update_idem] at h'
      obtain ⟨b', a', o', heq, hinv, hnot, hstop, htouch'⟩ := ih _ _ (o + 1)
        (by rw [htouch.max]; omega) h' hjoin.2
      exact ⟨b', a', o', heq, hinv, hnot, hstop,
        (htouch.mono (subset_insert _ _)).trans htouch'⟩
    · rw [if_neg hfree]
      exact ⟨b, a, o, rfl, h, hx, fun _ => hfree, Touches.refl i L b⟩

end LunOS.BuddyAllocator
