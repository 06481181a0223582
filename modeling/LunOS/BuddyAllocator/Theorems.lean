import LunOS.BuddyAllocator.Moves

/-!
# The buddy allocator over whole runs

`Inv b live` is the invariant of the allocator with the live blocks as the held ones. Allocation,
freeing and the writes of the owners keep it, so it holds in every reachable state. Two results
are read off it: the free and live blocks partition the pages of the arenas, and the free blocks
are determined by the set of live pages.
-/

namespace LunOS.BuddyAllocator
open LunOS.Dyadic LunOS.Memory BuddyArena Function Set
open List hiding Disjoint

/-- The live blocks that lie in arena `i`. -/
def liveIn (b : Buddy) (live : List Block) (i : ℕ) : Set Block :=
  {x | x ∈ live ∧ x.addr ∈ (b.buddyArenas i).range}

/-- The invariant of the allocator and its clients. -/
structure Inv (b : Buddy) (live : List Block) : Prop where
  buddy : BuddyInv b (liveIn b live)
  live_nodup : live.Nodup
  live_arena : ∀ x ∈ live, ∃ i, i < b.buddyArenaCounter ∧ x.addr ∈ (b.buddyArenas i).range

variable {b b' : Buddy} {live : List Block} {i order a z : ℕ} {x : Block} {specs : List ArenaSpec}

@[simp] lemma mem_liveIn :
    x ∈ liveIn b live i ↔ x ∈ live ∧ x.addr ∈ (b.buddyArenas i).range := Iff.rfl

lemma OnlyArena.liveIn (h : OnlyArena i b b') (live : List Block) :
    liveIn b' live = liveIn b live := by
  funext j
  ext x
  rw [mem_liveIn, mem_liveIn, h.range j]

/-- The order in which the live blocks are listed does not matter. -/
lemma Inv.perm {live' : List Block} (h : Inv b live) (hp : live.Perm live') :
    Inv b live' := by
  have hlive : BuddyAllocator.liveIn b live' = BuddyAllocator.liveIn b live := by
    funext i
    ext x
    rw [mem_liveIn, mem_liveIn, hp.mem_iff]
  refine ⟨?_, hp.nodup_iff.mp h.live_nodup, fun x hx => h.live_arena x (hp.mem_iff.mpr hx)⟩
  rw [hlive]
  exact h.buddy

/-- A block that starts in arena `i` starts in no other arena. -/
lemma BuddyInv.arena_unique {H : ℕ → Set Block} (h : BuddyInv b H) {j x : ℕ}
    (hi : x ∈ (b.buddyArenas i).range) (hj : x ∈ (b.buddyArenas j).range) : i = j := by
  by_contra hne
  exact disjoint_left.mp (h.disjoint i j hne) hi hj

/-- An operation on arena `i` keeps the invariant when the new live blocks of that arena are the
blocks it leaves held, and the live blocks elsewhere stay. -/
lemma Inv.of_touches {live' : List Block} {L : Set Block} (h : Inv b live)
    (honly : OnlyArena i b b')
    (hinv : BuddyInv b' (update (BuddyAllocator.liveIn b live) i L))
    (hi : ∀ x, x ∈ L ↔ x ∈ live' ∧ x.addr ∈ (b.buddyArenas i).range)
    (hother : ∀ x, x.addr ∉ (b.buddyArenas i).range → (x ∈ live' ↔ x ∈ live)) (hnd : live'.Nodup)
    (harena : ∀ x ∈ live', ∃ j, j < b.buddyArenaCounter ∧ x.addr ∈ (b.buddyArenas j).range) :
    Inv b' live' := by
  have hset : BuddyAllocator.liveIn b' live'
      = update (BuddyAllocator.liveIn b live) i L := by
    rw [honly.liveIn]
    funext j
    ext x
    by_cases hj : j = i
    · subst hj
      rw [update_self, hi x, mem_liveIn]
    · rw [update_of_ne hj, mem_liveIn, mem_liveIn]
      by_cases hxi : x.addr ∈ (b.buddyArenas i).range
      · have hxj : x.addr ∉ (b.buddyArenas j).range := fun hxj =>
          hj (h.buddy.arena_unique hxj hxi)
        simp [hxj]
      · rw [hother x hxi]
  refine ⟨?_, hnd, fun x hx => ?_⟩
  · rw [hset]
    exact hinv
  · obtain ⟨j, hj, hxj⟩ := harena x hx
    exact ⟨j, by rw [honly.counter]; exact hj, by rw [honly.range j]; exact hxj⟩

/-! ## Allocation -/

/-- What a successful allocation does: the block comes from one arena, was not live, and no byte
of a live block or outside the arena changes. -/
lemma Inv.alloc_spec (h : Inv b live) (hal : buddyAllocPages b order = (some a, b')) :
    ∃ i, i < b.buddyArenaCounter ∧ a ∈ (b.buddyArenas i).range ∧
      BuddyInv b' (update (liveIn b live) i (insert ⟨a, order⟩ (liveIn b live i))) ∧
      (⟨a, order⟩ : Block) ∉ liveIn b live i ∧ Touches i (liveIn b live i) b b' := by
  unfold buddyAllocPages at hal
  split at hal
  · simp at hal
  obtain ⟨i, hi, hai⟩ := allocLoop_some hal
  rw [List.mem_range] at hi
  obtain ⟨hinv, hnot, htouch⟩ := allocFromArena_inv h.buddy hai
  refine ⟨i, hi, ?_, hinv, hnot, htouch⟩
  rw [← htouch.toOnlyArena.range i]
  apply pages_subset_range
  refine (hinv.arena i).tiles.span_subset ?_ (addr_mem_span ⟨a, order⟩)
  rw [update_self]
  exact Or.inr (Or.inl rfl)

/-- Splitting writes nothing to the start of the block that is split. -/
lemma splitLoop_mem_start (i order a : ℕ) : ∀ (n : ℕ) (b : Buddy),
    (splitLoop i order a n b).mem a = b.mem a := by
  intro n
  induction n with
  | zero => exact fun _ => rfl
  | succ n ih =>
    intro b
    have hpos : 0 < blockSize (order + n) := by
      rw [blockSize_eq]
      exact size_pos 12 _
    rw [splitLoop, ih]
    show writeLE (writeLE (writeLE b.mem (a + blockSize (order + n)) 1 _)
      (a + blockSize (order + n) + 8) 8 _) (a + blockSize (order + n) + 16) 8 _ a = b.mem a
    rw [writeLE_of_outside (by omega), writeLE_of_outside (by omega),
      writeLE_of_outside (by omega)]

/-- A block that is handed out still begins with the order its node had. -/
lemma Inv.alloc_order_byte (h : Inv b live) (hal : buddyAllocPages b order = (some a, b')) :
    (b'.mem a).toNat ≤ maxSupportedOrder := by
  -- the byte at the start of any free block
  have hnode : ∀ i o, a ∈ (b.buddyArenas i).freeList o → (b.mem a).toNat ≤ maxSupportedOrder := by
    intro i o ha
    have hbyte := ((h.buddy.nodes i o).fields a ha).1
    have hle := (h.buddy.arena i).order_le ⟨a, o⟩ (Or.inl ha)
    have hmax := (h.buddy.arena i).max_le
    rw [readLE, readLE] at hbyte
    simp only at hle
    omega
  unfold buddyAllocPages at hal
  split at hal
  · simp at hal
  obtain ⟨i, _, hai⟩ := allocLoop_some hal
  unfold allocFromArena at hai
  simp only at hai
  split at hai
  · rename_i x l hl
    simp only [Option.some.injEq, Prod.mk.injEq] at hai
    rw [← hai.2]
    apply hnode i order
    rw [hl, ← hai.1]
    exact mem_cons_self
  · split at hai
    · simp at hai
    · rename_i j _
      split at hai
      · simp at hai
      · rename_i x l hl
        simp only [Option.some.injEq, Prod.mk.injEq] at hai
        rw [← hai.2, ← hai.1, splitLoop_mem_start, hai.1]
        apply hnode i j
        rw [hl, ← hai.1]
        exact mem_cons_self

/-- A successful allocation adds the block it returns to the live ones. -/
lemma Inv.alloc_some (h : Inv b live) (hal : buddyAllocPages b order = (some a, b')) :
    Inv b' (⟨a, order⟩ :: live) := by
  obtain ⟨i, hi, hrange, hinv, hnot, htouch⟩ := h.alloc_spec hal
  refine h.of_touches htouch.toOnlyArena hinv ?_ ?_ ?_ ?_
  · intro x
    rw [mem_insert_iff, mem_liveIn, mem_cons]
    constructor
    · intro hx
      rcases hx with rfl | hx
      · exact ⟨Or.inl rfl, hrange⟩
      · exact ⟨Or.inr hx.1, hx.2⟩
    · tauto
  · intro x hx
    rw [mem_cons]
    constructor
    · intro hxl
      rcases hxl with rfl | hxl
      · exact absurd hrange hx
      · exact hxl
    · exact Or.inr
  · exact nodup_cons.mpr ⟨fun hm => hnot ⟨hm, hrange⟩, h.live_nodup⟩
  · intro x hx
    rcases mem_cons.mp hx with rfl | hx
    · exact ⟨i, hi, hrange⟩
    · exact h.live_arena x hx

/-- A failed allocation changes nothing. -/
lemma buddyAllocPages_none (hal : buddyAllocPages b order = (none, b')) : b' = b := by
  unfold buddyAllocPages at hal
  split at hal
  · simpa using hal.symm
  · exact allocLoop_none hal

/-! ## Freeing -/

/-- The arena search of `buddy_free_pages` finds the arena of a live block. -/
lemma findArena_eq {H : ℕ → Set Block} (h : BuddyInv b H) {x : ℕ} (hi : i < b.buddyArenaCounter)
    (hx : x ∈ (b.buddyArenas i).range) :
    findArena b x = some i := by
  unfold findArena
  cases hf : (List.range b.buddyArenaCounter).find? fun i =>
      (b.buddyArenas i).base ≤ x && x < (b.buddyArenas i).base + (b.buddyArenas i).length with
  | none =>
    have := List.find?_eq_none.mp hf i (mem_range.mpr hi)
    simp only [Bool.and_eq_true, decide_eq_true_eq] at this
    exact absurd hx this
  | some j =>
    have hj := List.find?_some hf
    simp only [Bool.and_eq_true, decide_eq_true_eq] at hj
    rw [h.arena_unique hj hx]

section
variable (h : Inv b live)
include h

/-- What freeing a live block does: the block goes back to its arena, and no byte of the other
live blocks or outside the arena changes. -/
lemma Inv.free_spec (hx : x ∈ live) :
    ∃ i, i < b.buddyArenaCounter ∧ x.addr ∈ (b.buddyArenas i).range ∧
      BuddyInv (buddyFreePages b x.addr x.order)
        (update (liveIn b live) i (liveIn b live i \ {x})) ∧
      Touches i (liveIn b live i \ {x}) b (buddyFreePages b x.addr x.order) := by
  obtain ⟨i, hi, hrange⟩ := h.live_arena x hx
  refine ⟨i, hi, hrange, ?_⟩
  have hin : x ∈ liveIn b live i := ⟨hx, hrange⟩
  have hord : ¬ maxSupportedOrder < x.order := by
    have := (h.buddy.bounds (i := i) (Or.inr hin)).2
    omega
  have hinv : BuddyInv b (update (liveIn b live) i
      (insert ⟨x.addr, x.order⟩ (liveIn b live i \ {x}))) := by
    rw [show (⟨x.addr, x.order⟩ : Block) = x from rfl, insert_sdiff_singleton,
      insert_eq_of_mem hin, update_eq_self]
    exact h.buddy
  obtain ⟨b', a', o', heq, hinv', hnot, hstop, htouch⟩ := coalesceLoop_inv i _ b x.addr x.order
    rfl hinv (fun hm => hm.2 rfl)
  have hfree : buddyFreePages b x.addr x.order = b'.linkBlock i o' a' := by
    unfold buddyFreePages
    rw [if_neg hord, findArena_eq h.buddy hi hrange]
    simp only [heq]
  obtain ⟨hlink, htouch'⟩ := hinv'.link hnot hstop
  rw [hfree]
  exact ⟨hlink, htouch.trans htouch'⟩

/-- Freeing a live block removes it from the live ones. -/
lemma Inv.free (hx : x ∈ live) : Inv (buddyFreePages b x.addr x.order) (live.erase x) := by
  obtain ⟨i, hi, hrange, hinv, htouch⟩ := h.free_spec hx
  have hmem : ∀ y, y ∈ live.erase x ↔ y ≠ x ∧ y ∈ live := fun y => h.live_nodup.mem_erase_iff
  refine h.of_touches htouch.toOnlyArena hinv ?_ ?_ ?_ ?_
  · intro y
    rw [mem_sdiff, mem_singleton_iff, mem_liveIn, hmem]
    tauto
  · intro y hy
    rw [hmem]
    constructor
    · exact And.right
    · intro hyl
      refine ⟨fun hyx => ?_, hyl⟩
      rw [hyx] at hy
      exact hy hrange
  · exact h.live_nodup.erase x
  · intro y hy
    exact h.live_arena y ((hmem y).mp hy).2

/-! ## What the operations do to memory -/

/-- An operation on arena `i` that spares the blocks `L` spares the live blocks `K` whose part in
arena `i` is in `L`, and all memory outside the arenas. -/
lemma Inv.frame_of_touches {L K : Set Block} (ht : Touches i L b b') (hK : ∀ y ∈ K, y ∈ live)
    (hL : ∀ y ∈ K, y.addr ∈ (b.buddyArenas i).range → y ∈ L)
    (hz : (∃ y ∈ K, z ∈ y.span 12) ∨ ∀ j, z ∉ (b.buddyArenas j).pages) : b'.mem z = b.mem z := by
  apply ht.frame
  rcases hz with ⟨y, hy, hzy⟩ | hz
  · by_cases hyi : y.addr ∈ (b.buddyArenas i).range
    · exact Or.inr ⟨y, hL y hy hyi, hzy⟩
    · -- a block of another arena has no byte in this one
      apply Or.inl
      intro hzi
      rcases h.live_arena y (hK y hy) with ⟨j, _, hyj⟩
      have hzj := (h.buddy.arena j).tiles.span_subset (Or.inr ⟨hK y hy, hyj⟩) hzy
      have hij := h.buddy.arena_unique (pages_subset_range _ hzi) (pages_subset_range _ hzj)
      subst hij
      exact hyi hyj
  · exact Or.inl (hz i)

/-- Allocation writes no byte of a live block or outside the arenas. -/
lemma Inv.alloc_frame (hal : buddyAllocPages b order = (some a, b'))
    (hz : (∃ y ∈ live, z ∈ y.span 12) ∨ ∀ j, z ∉ (b.buddyArenas j).pages) : b'.mem z = b.mem z := by
  rcases h.alloc_spec hal with ⟨i, _, _, _, _, htouch⟩
  exact h.frame_of_touches (K := {y | y ∈ live}) htouch (fun _ hy => hy)
    (fun _ hy hyi => ⟨hy, hyi⟩) hz

/-- Freeing writes no byte of the other live blocks or outside the arenas. -/
lemma Inv.free_frame (hx : x ∈ live)
    (hz : (∃ y ∈ live, y ≠ x ∧ z ∈ y.span 12) ∨ ∀ j, z ∉ (b.buddyArenas j).pages) :
    (buddyFreePages b x.addr x.order).mem z = b.mem z := by
  rcases h.free_spec hx with ⟨i, _, _, _, htouch⟩
  apply h.frame_of_touches (K := {y | y ∈ live ∧ y ≠ x}) htouch
  · exact fun _ hy => hy.1
  · exact fun _ hy hyi => ⟨⟨hy.1, hyi⟩, hy.2⟩
  · rcases hz with ⟨y, hy, hyx, hzy⟩ | hz
    · exact Or.inl ⟨y, ⟨hy, hyx⟩, hzy⟩
    · exact Or.inr hz

/-! ## Writes of the owners -/

/-- Bytes of live blocks are no part of any node. -/
lemma Inv.write (harenas : b'.buddyArenas = b.buddyArenas)
    (hcounter : b'.buddyArenaCounter = b.buddyArenaCounter) (hhdm : b'.hhdmOffset = b.hhdmOffset)
    (hmem : ∀ z, (∀ x ∈ live, z ∉ x.span 12) → b'.mem z = b.mem z) : Inv b' live := by
  have hlive : liveIn b' live = liveIn b live := by
    funext j
    ext x
    rw [mem_liveIn, mem_liveIn, harenas]
  refine ⟨⟨?_, ?_, ?_, ?_⟩, h.live_nodup, ?_⟩
  · rw [hlive, harenas]
    exact h.buddy.arena
  · rw [harenas]
    exact h.buddy.disjoint
  · rw [harenas]
    exact h.buddy.below
  · intro i o
    rw [harenas]
    refine NodesOk.congr hhdm ?_ (h.buddy.nodes i o)
    intro a ha z hz hz'
    apply hmem
    intro x hx hzx
    have hsize := page_le_size o
    unfold freeBlockSize at hz'
    obtain ⟨j, -, hxj⟩ := h.live_arena x hx
    -- a node byte of a live block would make the live block free
    have hsep := h.buddy.sep (i := i) (j := j) (x := ⟨a, o⟩) (y := x) (Or.inl ha)
      (Or.inr ⟨hx, hxj⟩) (by
        by_cases hij : i = j
        · subst hij
          refine Or.inr fun heq => ?_
          have hlive : (⟨a, o⟩ : Block) ∈ liveIn b live i := by
            rw [heq]
            exact ⟨hx, hxj⟩
          exact disjoint_left.mp (h.buddy.arena i).disjoint ha hlive
        · exact Or.inl hij)
    rw [mem_span] at hzx
    simp only at hsep
    omega
  · rw [hcounter, harenas]
    exact h.live_arena

end

/-- One step keeps the invariant. -/
lemma Inv.step {s t : Tracked} (h : Inv s.buddy s.live) (hst : Step s t) :
    Inv t.buddy t.live := by
  cases hst with
  | allocSome hal => exact h.alloc_some hal
  | allocNone hal => rw [buddyAllocPages_none hal]; exact h
  | free hx => exact h.free hx
  | @write x p v hx hp =>
    refine h.write rfl rfl rfl fun z hz => ?_
    have hzp : z ≠ p := by
      intro heq
      subst heq
      refine hz x hx ?_
      rw [mem_span, ← blockSize_eq]
      exact hp
    exact update_of_ne hzp _ _

/-! ## Filled arenas -/

lemma liveIn_nil (b : Buddy) : liveIn b [] = fun _ => ∅ := by
  funext j
  ext x
  simp

/-- The nodes of arenas that are clear of a range lie outside it. -/
lemma BuddyInv.nodes_clear (h : BuddyInv b fun _ => ∅) {base len : ℕ}
    (hclear : ∀ j, Disjoint (b.buddyArenas j).range (Set.Ico base (base + len))) (hlen : 0 < len)
    (j p : ℕ) : ∀ c ∈ (b.buddyArenas j).freeList p, c + freeBlockSize ≤ base ∨ base + len ≤ c := by
  intro c hc
  by_contra hcon
  have hsize := page_le_size p
  unfold freeBlockSize at hcon
  have hin : max c base ∈ Block.span 12 ⟨c, p⟩ := by
    rw [mem_span]
    simp only
    omega
  have hrange := pages_subset_range _ ((h.arena j).tiles.span_subset (Or.inl hc) hin)
  exact disjoint_left.mp (hclear j) hrange ⟨by omega, by omega⟩

/-- One more arena, in a range that is clear of the arenas already there. -/
lemma BuddyInv.addArena (h : BuddyInv b fun _ => ∅) {base len : ℕ} (hi : 1 ≤ i)
    (hbelow : base + len ≤ 2 ^ 52)
    (hclear : ∀ j, Disjoint (b.buddyArenas j).range (Set.Ico base (base + len))) :
    BuddyInv (addBuddyArena b i base len).2 (fun _ => ∅) ∧
      (addBuddyArena b i base len).2.hhdmOffset = b.hhdmOffset ∧
      ∀ j, ((addBuddyArena b i base len).2.buddyArenas j).range ⊆
        (b.buddyArenas j).range ∪ Set.Ico base (base + len) := by
  rcases addBuddyArena_cases b hi hbelow h.nodes (h.nodes_clear hclear) with
    hsame | ⟨b', heq, hinv, hbase, hend, hother, hnodes, hhdm⟩
  · rw [hsame]
    exact ⟨h, rfl, fun j => subset_union_left⟩
  · rw [heq]
    have hnew : (b'.buddyArenas i).range ⊆ Set.Ico base (base + len) := by
      intro x hx
      exact ⟨hbase.trans hx.1, lt_of_lt_of_le hx.2 hend⟩
    -- an old arena is clear of the new one
    have hold : ∀ j, j ≠ i → Disjoint (b'.buddyArenas j).range (b'.buddyArenas i).range := by
      intro j hj
      rw [hother j hj]
      exact (hclear j).mono_right hnew
    refine ⟨⟨fun j => ?_, fun j k hjk => ?_, fun j => ?_, hnodes⟩, hhdm, fun j => ?_⟩
    · by_cases hj : j = i
      · rw [hj]
        exact hinv
      · rw [hother j hj]
        exact h.arena j
    · by_cases hj : j = i
      · subst hj
        exact (hold k (Ne.symm hjk)).symm
      · by_cases hk : k = i
        · subst hk
          exact hold j hj
        · rw [hother j hj, hother k hk]
          exact h.disjoint j k hjk
    · by_cases hj : j = i
      · rw [hj]
        exact hend.trans hbelow
      · rw [hother j hj]
        exact h.below j
    · by_cases hj : j = i
      · rw [hj]
        exact hnew.trans subset_union_right
      · rw [hother j hj]
        exact subset_union_left

/-- Adding the arenas one after another. The arenas already there stay clear of the ranges still
to come. -/
lemma fillArenas_inv : ∀ (specs : List ArenaSpec) (b : Buddy), ValidSpecs specs →
    BuddyInv b (fun _ => ∅) →
    (∀ s ∈ specs, ∀ j, Disjoint (b.buddyArenas j).range (Set.Ico s.base (s.base + s.len))) →
    BuddyInv (fillArenas b specs) (fun _ => ∅) ∧
      (fillArenas b specs).hhdmOffset = b.hhdmOffset ∧
      ∀ z, (∀ j, z ∉ (b.buddyArenas j).range) →
        (∀ s ∈ specs, z ∉ Set.Ico s.base (s.base + s.len)) →
        ∀ j, z ∉ ((fillArenas b specs).buddyArenas j).range := by
  intro specs
  induction specs with
  | nil => intro b _ h _; exact ⟨h, rfl, fun z hz _ => hz⟩
  | cons s specs ih =>
    intro b hv h hclear
    have hv' : ValidSpecs specs := ⟨fun t ht => hv.idx_pos t (mem_cons_of_mem s ht),
      fun t ht => hv.below t (mem_cons_of_mem s ht), (pairwise_cons.mp hv.disjoint).2⟩
    obtain ⟨hnext, hhdm, hranges⟩ := h.addArena (hv.idx_pos s mem_cons_self)
      (hv.below s mem_cons_self) (hclear s mem_cons_self)
    have hclear' : ∀ t ∈ specs, ∀ j, Disjoint
        ((addBuddyArena b s.idx s.base s.len).2.buddyArenas j).range
        (Set.Ico t.base (t.base + t.len)) := by
      intro t ht j
      refine (Disjoint.sup_left (hclear t (mem_cons_of_mem s ht) j) ?_).mono_left (hranges j)
      refine disjoint_left.mpr fun x hx hx' => ?_
      have hsep := (pairwise_cons.mp hv.disjoint).1 t ht
      rw [mem_Ico] at hx hx'
      omega
    obtain ⟨hinv, hoffset, hout⟩ := ih _ hv' hnext hclear'
    refine ⟨hinv, hoffset.trans hhdm, fun z hz hs => hout z (fun j hzj => ?_)
      fun t ht => hs t (mem_cons_of_mem s ht)⟩
    obtain hold | hnew := hranges j hzj
    · exact hz j hold
    · exact hs s mem_cons_self hnew

/-- Arenas before any is filled. -/
lemma boot_buddyInv (hhdm : ℕ) (mem : Mem) (counter : ℕ) :
    BuddyInv (Buddy.boot hhdm mem counter) (fun _ => ∅) ∧
      ∀ j, ((Buddy.boot hhdm mem counter).buddyArenas j).range = ∅ := by
  have hrange : BuddyArena.zero.range = ∅ := by simp [BuddyArena.range, BuddyArena.zero]
  refine ⟨⟨fun i => arenaInv_zero, fun i j _ => ?_, fun i => ?_, fun i o => nodesOk_nil _ o⟩,
    fun _ => hrange⟩
  · show Disjoint BuddyArena.zero.range _
    rw [hrange]
    exact empty_disjoint _
  · show 0 + 0 ≤ 2 ^ 52
    norm_num

/-- Freshly filled arenas, with nothing live; an address in no range given is in no arena. -/
lemma boot_fill (hv : ValidSpecs specs) (hhdm : ℕ) (mem : Mem) (counter : ℕ) :
    Inv (fillArenas (Buddy.boot hhdm mem counter) specs) [] ∧
      (fillArenas (Buddy.boot hhdm mem counter) specs).hhdmOffset = hhdm ∧
      ∀ z, (∀ s ∈ specs, z ∉ Set.Ico s.base (s.base + s.len)) →
        ∀ j, z ∉ ((fillArenas (Buddy.boot hhdm mem counter) specs).buddyArenas j).range := by
  rcases boot_buddyInv hhdm mem counter with ⟨hinv, hrange⟩
  rcases fillArenas_inv specs _ hv hinv (by
    intro s _ j
    rw [hrange j]
    exact empty_disjoint _) with ⟨h₁, h₂, h₃⟩
  refine ⟨⟨?_, nodup_nil, fun x hx => absurd hx not_mem_nil⟩, h₂, fun z hz => ?_⟩
  · rw [liveIn_nil]
    exact h₁
  · apply h₃ z _ hz
    intro j
    rw [hrange j]
    exact notMem_empty z

/-- The invariant holds at the start. -/
lemma boot_inv (hv : ValidSpecs specs) (hhdm : ℕ) (mem : Mem) (counter : ℕ) :
    Inv (fillArenas (Buddy.boot hhdm mem counter) specs) [] :=
  (boot_fill hv hhdm mem counter).1

/-- The invariant holds in every reachable state. -/
lemma Reachable.inv (hv : ValidSpecs specs) {hhdm : ℕ} {mem : Mem} {counter : ℕ} {s : Tracked}
    (hs : Reachable specs (Buddy.boot hhdm mem counter) s) :
    Inv s.buddy s.live := by
  refine hs.invariant (fun s hs => ?_) fun _ _ hinv hst => hinv.step hst
  rw [hs]
  exact boot_inv hv hhdm mem counter

end LunOS.BuddyAllocator
