import LunOS.BuddyAllocator.PagePartition

/-!
# What freeing leaves in the first words of pages

The node of a free block lies over whatever the block held. `buddy_free_pages` unlinks the buddies
it merges and writes one node, that of the merged block. So of the first words of all pages only one
changes: its low byte becomes the order of the merged block. `MergesDown` says when that is not the
first word of the block that is freed.
-/

namespace LunOS.BuddyAllocator
open LunOS.Dyadic LunOS.Memory

/-- The buddies of a block from its order up to some order are free, and the last of them is below
the block. -/
def MergesDown (ar : BuddyArena) (addr order : ℕ) : Prop :=
  ∃ k, order ≤ k ∧ k < ar.maxArenaOrder ∧
    (∀ j, order ≤ j → j ≤ k → addr ^^^ blockSize j ∈ ar.freeList j) ∧ addr ^^^ blockSize k < addr

/-! ## The coalescing loop -/

/-- Merging never moves up. -/
lemma coalesceLoop_addr_le (i : ℕ) : ∀ (n : ℕ) (b : Buddy) (a o : ℕ),
    (coalesceLoop i n b a o).2.1 ≤ a := by
  intro n
  induction n with
  | zero => exact fun _ _ _ => le_rfl
  | succ n ih =>
    intro b a o
    unfold coalesceLoop
    simp only
    split
    · refine (ih _ _ _).trans ?_
      split
      · next hlt => exact hlt.le
      · exact le_rfl
    · exact le_rfl

/-- One order more for each turn. -/
lemma coalesceLoop_order_le (i : ℕ) : ∀ (n : ℕ) (b : Buddy) (a o : ℕ),
    (coalesceLoop i n b a o).2.2 ≤ o + n := by
  intro n
  induction n with
  | zero => exact fun _ _ _ => le_rfl
  | succ n ih =>
    intro b a o
    unfold coalesceLoop
    simp only
    split
    · have hle := ih (b.unlinkBlock i o (a ^^^ blockSize o))
        (if a ^^^ blockSize o < a then a ^^^ blockSize o else a) (o + 1)
      omega
    · exact Nat.le_add_right _ _

/-- The merged block starts below `a` exactly when the buddies of `a` are free up to one that is
below. -/
lemma coalesceLoop_moves_iff (i : ℕ) : ∀ (n : ℕ) (b : Buddy) (a o : ℕ),
    (coalesceLoop i n b a o).2.1 ≠ a ↔ ∃ k, o ≤ k ∧ k < o + n ∧
      (∀ j, o ≤ j → j ≤ k → a ^^^ blockSize j ∈ (b.buddyArenas i).freeList j) ∧
      a ^^^ blockSize k < a := by
  intro n
  induction n with
  | zero =>
    intro b a o
    refine iff_of_false (fun hne => hne rfl) ?_
    rintro ⟨k, hk, hlt, _⟩
    omega
  | succ n ih =>
    intro b a o
    unfold coalesceLoop
    simp only
    split
    · next hfree =>
      split
      · -- the first buddy is below, and from there it goes down only
        next hlt =>
        have hle := coalesceLoop_addr_le i n (b.unlinkBlock i o (a ^^^ blockSize o))
          (a ^^^ blockSize o) (o + 1)
        refine iff_of_true (by omega) ⟨o, le_rfl, by omega, fun j hj hj' => ?_, hlt⟩
        rw [Nat.le_antisymm hj' hj]
        exact hfree
      · -- the block stays where it is, and the lists of higher orders are untouched
        next hge =>
        rw [ih]
        have hlists : ∀ j, o + 1 ≤ j →
            ((b.unlinkBlock i o (a ^^^ blockSize o)).buddyArenas i).freeList j =
              (b.buddyArenas i).freeList j := by
          intro j hj
          rw [unlinkBlock_arena, BuddyArena.remove_freeList, if_neg (by omega)]
        constructor
        · rintro ⟨k, hk, hlt, hall, hbelow⟩
          refine ⟨k, by omega, by omega, fun j hj hj' => ?_, hbelow⟩
          by_cases hjo : j = o
          · rw [hjo]
            exact hfree
          · have hmem := hall j (by omega) hj'
            rw [hlists j (by omega)] at hmem
            exact hmem
        · rintro ⟨k, hk, hlt, hall, hbelow⟩
          have hko : k ≠ o := by
            intro heq
            rw [heq] at hbelow
            exact hge hbelow
          refine ⟨k, by omega, by omega, fun j hj hj' => ?_, hbelow⟩
          rw [hlists j hj]
          exact hall j (by omega) hj'
    · next hfree =>
      refine iff_of_false (fun hne => hne rfl) ?_
      rintro ⟨k, hk, _, hall, _⟩
      exact hfree (hall o le_rfl hk)

/-- The nodes of an arena are at the starts of pages. -/
def PageNodes (ar : BuddyArena) : Prop := ∀ o, ∀ c ∈ ar.freeList o, 4096 ∣ c

/-- Unlinking writes `next` fields, which are not in the first 16 bytes of a page. -/
lemma coalesceLoop_pages (i : ℕ) : ∀ (n : ℕ) (b : Buddy) (a o : ℕ), PageNodes (b.buddyArenas i) →
    4096 ∣ a → 4096 ∣ (coalesceLoop i n b a o).2.1 ∧
      ∀ z, z % 4096 < 16 → (coalesceLoop i n b a o).1.mem z = b.mem z := by
  intro n
  induction n with
  | zero => exact fun _ _ _ _ ha => ⟨ha, fun _ _ => rfl⟩
  | succ n ih =>
    intro b a o hnodes ha
    unfold coalesceLoop
    simp only
    split
    · next hfree =>
      have hnodes' : PageNodes ((b.unlinkBlock i o (a ^^^ blockSize o)).buddyArenas i) := by
        intro p c hc
        rw [unlinkBlock_arena, BuddyArena.remove_freeList] at hc
        split at hc
        · exact hnodes o c (List.mem_of_mem_erase hc)
        · exact hnodes p c hc
      have hstart : 4096 ∣ if a ^^^ blockSize o < a then a ^^^ blockSize o else a := by
        split
        · exact hnodes o _ hfree
        · exact ha
      rcases ih _ _ (o + 1) hnodes' hstart with ⟨haddr, hmem⟩
      refine ⟨haddr, fun z hz => (hmem z hz).trans ?_⟩
      apply Chain.unlinkNext_outside
      intro c hc
      have hdvd := hnodes o c hc
      omega
    · exact ⟨ha, fun _ _ => rfl⟩

/-! ## Freeing -/

/-- The node of a block changes one byte of the first words of pages. -/
lemma linkBlock_pages (b : Buddy) (i : ℕ) {o a : ℕ} (ha : 4096 ∣ a) (ho : o < 256) :
    ((b.linkBlock i o a).mem a).toNat = o ∧
      ∀ z, z % 4096 < 8 → z ≠ a → (b.linkBlock i o a).mem z = b.mem z := by
  rw [linkBlock_mem]
  constructor
  · show (writeLE (writeLE (writeLE b.mem a 1 o) (a + 8) 8 a) (a + 16) 8 _ a).toNat = o
    rw [writeLE_of_outside (by omega), writeLE_of_outside (by omega)]
    unfold writeLE
    simp
    omega
  · intro z hz hne
    show writeLE (writeLE (writeLE b.mem a 1 o) (a + 8) 8 a) (a + 16) 8 _ z = b.mem z
    rw [writeLE_of_outside (by omega), writeLE_of_outside (by omega),
      writeLE_of_outside (by omega)]

/-- Of the first words of all pages one changes, and its low byte is an order. It is the first word
of the block itself unless the block is merged with one below. -/
lemma Inv.free_words {b : Buddy} {live : List Block} {x : Block} (h : Inv b live) (hx : x ∈ live) :
    ∃ i start, findArena b x.addr = some i ∧
      (start ≠ x.addr ↔ MergesDown (b.buddyArenas i) x.addr x.order) ∧
      ∀ p, 4096 ∣ p →
        if p = start then
          readLE (buddyFreePages b x.addr x.order).mem p 8 % 256 ≤ maxSupportedOrder
        else readLE (buddyFreePages b x.addr x.order).mem p 8 = readLE b.mem p 8 := by
  obtain ⟨i, hi, hrange⟩ := h.live_arena x hx
  have harena := findArena_eq h.buddy hi hrange
  have hpart := h.pagePartition
  have hpage : ∀ o, 4096 ∣ blockSize o := by
    intro o
    rw [blockSize_eq]
    exact size_dvd_size (w := 12) (Nat.zero_le o)
  have hbounds := (h.buddy.bounds (i := i) (Or.inr ⟨hx, hrange⟩)).2
  have hmax := (h.buddy.arena i).max_le
  have hle := (h.buddy.arena i).order_le x (Or.inr ⟨hx, hrange⟩)
  obtain ⟨hdvd, hmem⟩ := coalesceLoop_pages i ((b.buddyArenas i).maxArenaOrder - x.order) b x.addr
    x.order (fun o c hc => (hpage o).trans (hpart.free_aligned i o c hc))
    ((hpage x.order).trans (hpart.live_aligned x hx))
  have hmoves := coalesceLoop_moves_iff i ((b.buddyArenas i).maxArenaOrder - x.order) b x.addr
    x.order
  have horder := coalesceLoop_order_le i ((b.buddyArenas i).maxArenaOrder - x.order) b x.addr
    x.order
  rw [Nat.add_sub_cancel' hle] at hmoves horder
  have hfree : buddyFreePages b x.addr x.order =
      (coalesceLoop i ((b.buddyArenas i).maxArenaOrder - x.order) b x.addr x.order).1.linkBlock i
        (coalesceLoop i ((b.buddyArenas i).maxArenaOrder - x.order) b x.addr x.order).2.2
        (coalesceLoop i ((b.buddyArenas i).maxArenaOrder - x.order) b x.addr x.order).2.1 := by
    unfold buddyFreePages
    rw [if_neg (Nat.not_lt.mpr hbounds), harena]
  generalize coalesceLoop i ((b.buddyArenas i).maxArenaOrder - x.order) b x.addr x.order = r
    at hdvd hmem hmoves horder hfree
  unfold maxSupportedOrder at hmax
  have hlink := linkBlock_pages r.1 i (o := r.2.2) hdvd (by omega)
  rw [hfree]
  refine ⟨i, r.2.1, harena, hmoves, fun p hp => ?_⟩
  split
  · next heq =>
    rw [heq, readLE_mod, hlink.1]
    unfold maxSupportedOrder
    omega
  · next hne =>
    apply readLE_congr
    intro z hz hz'
    rw [hlink.2 z (by omega) (by omega), hmem z (by omega)]

end LunOS.BuddyAllocator
