import LunOS.MemMgr.Ownership
import LunOS.Vmm.Ram

/-!
# Blocks of pages on the machine with a list of free frames

A block is allocated when all its frames are on the list.
-/

namespace LunOS.Vmm.FreeList
open List
variable {α : Type*} {ok : α → Prop} [DecidableEq α] {l : FreeList ok}

/-- Some items are taken out. -/
def remove (l : FreeList ok) (xs : List α) : FreeList ok where
  items := l.items.filter (· ∉ xs)
  nodup := l.nodup.filter _
  all_ok x hx := l.all_ok x (mem_of_mem_filter hx)

lemma used_remove {xs : List α} (h : ∀ x ∈ xs, x ∈ l.items) :
    (l.remove xs).used = l.used ∪ {x | x ∈ xs} := by
  ext x
  show ok x ∧ x ∉ l.items.filter (· ∉ xs) ↔ ok x ∧ x ∉ l.items ∨ x ∈ xs
  by_cases hx : x ∈ xs
  · simp [hx, l.all_ok x (h x hx)]
  · simp [hx]

lemma used_put_any [DecidablePred ok] (l : FreeList ok) (x : α) :
    (l.put x).used = l.used \ {x} := by
  by_cases hx : x ∈ l.used
  · exact used_put hx
  · have hput : l.put x = l := by
      unfold put
      exact dif_neg hx
    rw [hput]
    exact (Set.sdiff_singleton_eq_self hx).symm

end LunOS.Vmm.FreeList

namespace LunOS.MemMgr
open LunOS.Vmm PageMachine LawfulPageMachine BuddyMachine List

/-- The frames of a block in order. -/
def blockFrames (p : PhysAddr) (n : ℕ) : List PhysAddr :=
  (List.range (2 ^ n)).map fun i => p + BitVec.ofNat 64 (4096 * i)

lemma mem_blockFrames {p f : PhysAddr} {n : ℕ} : f ∈ blockFrames p n ↔ f ∈ block p n := by
  unfold blockFrames block
  simp only [mem_map, mem_range, Set.mem_ofPred_eq]
  exact exists_congr fun i => and_congr_right fun _ => eq_comm

/-- Orders go up to 20, as in `buddy_allocator.c`. -/
instance : BuddyMachine Ram where
  buddyAllocPages s n :=
    match s.pool.items.find? fun p => n ≤ 20 ∧ (blockFrames p n).all (· ∈ s.pool.items) with
    | none => (0, s)
    | some p => (p, { s with pool := s.pool.remove (blockFrames p n) })
  buddyFreePages s p n := (blockFrames p n).foldl pmmFreePage s

/-- Either nothing happens, or a block of free frames is taken. -/
lemma ram_buddyAllocPages (s : Ram) (n : ℕ) :
    buddyAllocPages s n = (0, s) ∨
      ∃ p, IsFrame p ∧ n ≤ 20 ∧ (∀ f ∈ blockFrames p n, f ∈ s.pool.items) ∧
        buddyAllocPages s n = (p, { s with pool := s.pool.remove (blockFrames p n) }) := by
  cases hfind : s.pool.items.find? fun p =>
      n ≤ 20 ∧ (blockFrames p n).all (· ∈ s.pool.items) with
  | none =>
    left
    show (match s.pool.items.find? _ with | none => _ | some p => _) = _
    rw [hfind]
  | some p =>
    right
    have hp := List.find?_some hfind
    rw [decide_eq_true_eq, all_eq_true] at hp
    refine ⟨p, s.pool.all_ok p (mem_of_find?_eq_some hfind), hp.1,
      fun f hf => of_decide_eq_true (hp.2 f hf), ?_⟩
    show (match s.pool.items.find? _ with | none => _ | some p => _) = _
    rw [hfind]

lemma ram_freePages (l : List PhysAddr) (s : Ram) :
    live (l.foldl pmmFreePage s) = live s \ {f | f ∈ l} ∧
      (l.foldl pmmFreePage s).frames = s.frames ∧ (l.foldl pmmFreePage s).heap = s.heap := by
  induction l generalizing s with
  | nil => simp
  | cons f l ih =>
    rw [foldl_cons]
    rcases ih (pmmFreePage s f) with ⟨hlive, hframes, hheap⟩
    refine ⟨?_, hframes, hheap⟩
    have hput : live (pmmFreePage s f) = live s \ {f} := s.pool.used_put_any f
    rw [hlive, hput]
    ext g
    simp only [Set.mem_sdiff, Set.mem_singleton_iff, Set.mem_ofPred_eq, mem_cons, not_or,
      and_assoc]

/-- The last frame of a block is below 2^52. -/
lemma block_range {p : PhysAddr} {n : ℕ} (hp : IsFrame p) (hn : n ≤ 20)
    (hframes : ∀ f ∈ blockFrames p n, IsFrame f) : page p + 2 ^ n ≤ 2 ^ 40 := by
  have hpow : 2 ^ n ≤ 2 ^ 20 := Nat.pow_le_pow_right (by decide) hn
  have hpos : 0 < 2 ^ n := Nat.two_pow_pos n
  have hlast : p + BitVec.ofNat 64 (4096 * (2 ^ n - 1)) ∈ blockFrames p n :=
    mem_blockFrames.mpr ⟨2 ^ n - 1, by omega, rfl⟩
  have hlt := frame_lt (hframes _ hlast).1
  have hp' := frame_lt hp.1
  rw [BitVec.toNat_add, BitVec.toNat_ofNat] at hlt
  unfold page
  omega

instance : LawfulBuddyMachine Ram where
  buddy_fails {s n} hzero := by
    rcases ram_buddyAllocPages s n with heq | ⟨p, hp, -, -, heq⟩
    · rw [heq]
    · rw [heq] at hzero
      exact absurd hzero hp.2.1
  buddy_fresh {s n} hne := by
    rcases ram_buddyAllocPages s n with heq | ⟨p, -, -, hitems, heq⟩
    · rw [heq] at hne
      exact absurd rfl hne
    · rw [heq]
      exact Set.disjoint_left.mpr fun f hf hlive => hlive.2 (hitems f (mem_blockFrames.mpr hf))
  buddy_range {s n} hne := by
    rcases ram_buddyAllocPages s n with heq | ⟨p, hp, hn, hitems, heq⟩
    · rw [heq] at hne
      exact absurd rfl hne
    · rw [heq]
      exact block_range hp hn fun f hf => s.pool.all_ok f (hitems f hf)
  live_buddy {s n} hne := by
    rcases ram_buddyAllocPages s n with heq | ⟨p, -, -, hitems, heq⟩
    · rw [heq] at hne
      exact absurd rfl hne
    · rw [heq]
      show (s.pool.remove (blockFrames p n)).used = s.pool.used ∪ block p n
      rw [FreeList.used_remove hitems]
      congr 1
      exact Set.ext fun f => mem_blockFrames
  load_buddy {s n f} i _ := by
    rcases ram_buddyAllocPages s n with heq | ⟨p, -, -, -, heq⟩
    · rw [heq]
    · rw [heq]
      rfl
  objects_buddy {s n} := by
    rcases ram_buddyAllocPages s n with heq | ⟨p, -, -, -, heq⟩
    · rw [heq]
    · rw [heq]
      rfl
  live_buddyFree {s p n} _ := by
    show live ((blockFrames p n).foldl pmmFreePage s) = _
    rw [(ram_freePages _ s).1]
    congr 1
    exact Set.ext fun f => mem_blockFrames
  load_buddyFree {s p n f} i _ _ _ := by
    show ((blockFrames p n).foldl pmmFreePage s).frames _ i = _
    rw [(ram_freePages _ s).2.1]
    rfl
  objects_buddyFree {s p n} _ := by
    show ((blockFrames p n).foldl pmmFreePage s).heap.used = _
    rw [(ram_freePages _ s).2.2]
    rfl

end LunOS.MemMgr
