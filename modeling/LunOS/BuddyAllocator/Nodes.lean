import LunOS.BuddyAllocator.ArenaTheorems

/-!
# The free lists in memory

The model keeps a free list as a list of addresses. `NodesOk` says that memory holds the same
list: the node of every block carries its order and its address, and its `next` field points to
the node after it. Linking and unlinking keep this for all lists, because the nodes of two blocks
never overlap.
-/

namespace LunOS.BuddyAllocator
open LunOS.Dyadic LunOS.Memory BuddyArena

/-- `sizeof(struct free_block)`. -/
def freeBlockSize : ℕ := 24

/-- The nodes of a list of blocks of one order: every node carries the order and its address, and
they are chained in memory. -/
structure NodesOk (b : Buddy) (order : ℕ) (l : List ℕ) : Prop where
  fields : ∀ a ∈ l, readLE b.mem a 1 = order ∧ readLE b.mem (a + 8) 8 = a
  linked : Chain.Linked b.mem b.physToVirt 16 l

/-- Two nodes do not overlap. -/
def NodeSep (a c : ℕ) : Prop := a + freeBlockSize ≤ c ∨ c + freeBlockSize ≤ a

instance : Std.Symm NodeSep := ⟨fun _ _ => Or.symm⟩

variable {b : Buddy} {order i o : ℕ}

lemma physToVirt_congr {b' : Buddy} (h : b'.hhdmOffset = b.hhdmOffset) :
    b'.physToVirt = b.physToVirt := by
  funext a
  rw [Buddy.physToVirt, Buddy.physToVirt, h]

lemma physToVirt_lt (b : Buddy) (a : ℕ) : b.physToVirt a < 256 ^ 8 :=
  Nat.mod_lt _ (by norm_num)

lemma nodesOk_nil (b : Buddy) (order : ℕ) : NodesOk b order [] :=
  ⟨fun _ ha => absurd ha List.not_mem_nil, trivial⟩

/-- The nodes of a list depend only on their own bytes. -/
lemma NodesOk.congr {b' : Buddy} {l : List ℕ} (hh : b'.hhdmOffset = b.hhdmOffset)
    (hmem : ∀ a ∈ l, ∀ x, a ≤ x → x < a + freeBlockSize → b'.mem x = b.mem x)
    (h : NodesOk b order l) : NodesOk b' order l := by
  unfold freeBlockSize at hmem
  refine ⟨fun a ha => ?_, ?_⟩
  · have hfield : ∀ k n, k + n ≤ 24 → readLE b'.mem (a + k) n = readLE b.mem (a + k) n :=
      fun k n hkn => readLE_congr fun x hx hx' => hmem a ha x (by omega) (by omega)
    exact ⟨(hfield 0 1 (by omega)).trans (h.fields a ha).1,
      (hfield 8 8 (by omega)).trans (h.fields a ha).2⟩
  · rw [physToVirt_congr hh]
    exact h.linked.congr fun a ha x hx hx' => hmem a ha x (by omega) (by omega)

/-! ## Linking -/

/-- `writeFreeBlock` stays inside the node. -/
lemma writeFreeBlock_mem_outside {addr next x : ℕ} (hx : x < addr ∨ addr + freeBlockSize ≤ x) :
    (b.writeFreeBlock addr order next).mem x = b.mem x := by
  unfold freeBlockSize at hx
  show writeLE (writeLE (writeLE b.mem addr 1 order) (addr + 8) 8 addr) (addr + 16) 8 next x = _
  rw [writeLE_of_outside (by omega), writeLE_of_outside (by omega), writeLE_of_outside (by omega)]

lemma linkBlock_mem (b : Buddy) (i o a : ℕ) : (b.linkBlock i o a).mem
    = (b.writeFreeBlock a o (b.listPtr ((b.buddyArenas i).freeList o))).mem := rfl

/-- The node just written holds its three fields. -/
lemma writeFreeBlock_fields (b : Buddy) {addr next : ℕ} (ha : addr < 256 ^ 8) (ho : order < 256)
    (hn : next < 256 ^ 8) :
    readLE (b.writeFreeBlock addr order next).mem addr 1 = order ∧
    readLE (b.writeFreeBlock addr order next).mem (addr + 8) 8 = addr ∧
    readLE (b.writeFreeBlock addr order next).mem (addr + 16) 8 = next := by
  unfold Buddy.writeFreeBlock
  refine ⟨?_, ?_, ?_⟩
  · rw [readLE_writeLE_of_disjoint (by omega), readLE_writeLE_of_disjoint (by omega)]
    exact readLE_writeLE_same (by omega)
  · rw [readLE_writeLE_of_disjoint (by omega)]
    exact readLE_writeLE_same ha
  · exact readLE_writeLE_same hn

/-- Linking a block whose node overlaps no other keeps all lists. -/
lemma nodesOk_linkBlock {a : ℕ} (ha : a < 256 ^ 8) (ho : o < 256)
    (hsep : ∀ j p c, c ∈ (b.buddyArenas j).freeList p → NodeSep c a)
    (h : ∀ j p, NodesOk b p ((b.buddyArenas j).freeList p)) (j p : ℕ) :
    NodesOk (b.linkBlock i o a) p (((b.linkBlock i o a).buddyArenas j).freeList p) := by
  -- every old list survives
  have hold : ∀ k q, NodesOk (b.linkBlock i o a) q ((b.buddyArenas k).freeList q) := by
    intro k q
    refine NodesOk.congr ?_ ?_ (h k q)
    · rfl
    intro c hc x hx hx'
    have hca := hsep k q c hc
    unfold NodeSep at hca
    rw [linkBlock_mem]
    exact writeFreeBlock_mem_outside (by omega)
  have hlists : ((b.linkBlock i o a).buddyArenas j).freeList p
      = if j = i ∧ p = o then a :: (b.buddyArenas i).freeList o
        else (b.buddyArenas j).freeList p := by
    by_cases hj : j = i
    · subst hj
      by_cases hp : p = o
      · subst hp
        simp [Buddy.linkBlock, Buddy.setArena, setFreeList]
      · simp [Buddy.linkBlock, Buddy.setArena, setFreeList, hp]
    · simp [Buddy.linkBlock, Buddy.setArena, Buddy.writeFreeBlock, hj]
  rw [hlists]
  split
  · rename_i hjp
    rw [hjp.2]
    obtain ⟨h₁, h₂, h₃⟩ := writeFreeBlock_fields b ha ho
      (Chain.headPtr_lt (physToVirt_lt b) ((b.buddyArenas i).freeList o))
    refine ⟨fun c hc => ?_, h₃, (hold i o).linked⟩
    rcases List.mem_cons.mp hc with hca | hc
    · rw [hca]
      exact ⟨h₁, h₂⟩
    · exact (hold i o).fields c hc
  · exact hold j p

/-! ## Unlinking -/

/-- Unlinking a block keeps all lists, when no two nodes overlap. -/
lemma nodesOk_unlinkBlock {a : ℕ} (hpair : ((b.buddyArenas i).freeList o).Pairwise NodeSep)
    (hsep : ∀ j p, (j ≠ i ∨ p ≠ o) → ∀ c ∈ (b.buddyArenas j).freeList p,
      ∀ d ∈ (b.buddyArenas i).freeList o, NodeSep c d)
    (h : ∀ j p, NodesOk b p ((b.buddyArenas j).freeList p)) (j p : ℕ) :
    NodesOk (b.unlinkBlock i o a) p (((b.unlinkBlock i o a).buddyArenas j).freeList p) := by
  have hlists : ((b.unlinkBlock i o a).buddyArenas j).freeList p
      = if j = i ∧ p = o then ((b.buddyArenas i).freeList o).erase a
        else (b.buddyArenas j).freeList p := by
    by_cases hj : j = i
    · subst hj
      by_cases hp : p = o
      · subst hp
        simp [Buddy.unlinkBlock, Buddy.setArena, setFreeList]
      · simp [Buddy.unlinkBlock, Buddy.setArena, setFreeList, hp]
    · simp [Buddy.unlinkBlock, Buddy.setArena, hj]
  rw [hlists]
  split
  · rename_i hjp
    rw [hjp.2]
    refine ⟨fun c hc => ?_, ?_⟩
    · -- the store is in the `next` field of a node, none of whose other fields overlap it
      have hc' := List.mem_of_mem_erase hc
      have hout : ∀ z, c ≤ z → z < c + 16 → (b.unlinkBlock i o a).mem z = b.mem z := by
        intro z hz hz'
        apply Chain.unlinkNext_outside
        intro d hd
        by_cases hcd : c = d
        · omega
        · have hsep' := hpair.forall hc' hd hcd
          unfold NodeSep freeBlockSize at hsep'
          omega
      have hfields := (h i o).fields c hc'
      exact ⟨(readLE_congr fun z hz hz' => hout z hz (by omega)).trans hfields.1,
        (readLE_congr fun z hz hz' => hout z (by omega) (by omega)).trans hfields.2⟩
    · refine Chain.Linked.unlinkNext (physToVirt_lt b) a ?_ (h i o).linked
      refine hpair.imp fun hcd => ?_
      unfold NodeSep freeBlockSize at hcd
      omega
  · rename_i hjp
    refine NodesOk.congr ?_ ?_ (h j p)
    · rfl
    intro c hc x hx hx'
    apply Chain.unlinkNext_outside
    intro d hd
    have hcd := hsep j p (by tauto) c hc d hd
    unfold NodeSep freeBlockSize at hcd
    unfold freeBlockSize at hx'
    omega

/-- Unlinking the head writes no node. -/
lemma nodesOk_unlinkHead (h : ∀ j p, NodesOk b p ((b.buddyArenas j).freeList p)) (j p : ℕ) :
    NodesOk (b.unlinkHead i o) p (((b.unlinkHead i o).buddyArenas j).freeList p) := by
  have hsame : ∀ l, NodesOk b p l → NodesOk (b.unlinkHead i o) p l := by
    intro l hl
    refine NodesOk.congr ?_ ?_ hl
    · rfl
    · intro _ _ _ _ _
      rfl
  apply hsame
  by_cases hj : j = i
  · subst hj
    by_cases hp : p = o
    · subst hp
      have hl := h j p
      simp only [Buddy.unlinkHead, Buddy.setArena, setFreeList, Function.update_self]
      cases hlist : (b.buddyArenas j).freeList p with
      | nil => exact nodesOk_nil b p
      | cons a l =>
        rw [hlist] at hl
        exact ⟨fun c hc => hl.fields c (List.mem_cons_of_mem a hc), hl.linked.tail⟩
    · have hl := h j p
      simpa [Buddy.unlinkHead, Buddy.setArena, setFreeList, hp] using hl
  · have hl := h j p
    simpa [Buddy.unlinkHead, Buddy.setArena, hj] using hl

end LunOS.BuddyAllocator
