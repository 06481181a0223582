import LunOS.Utils.Memory

/-!
# Singly linked lists in memory

A list of node addresses is chained in memory when the 8-byte `next` field of every node holds the
pointer to the node after it, and 0 at the end. Nodes are named by physical addresses; `ptr` is
the pointer a program uses for one. `unlinkNext` is the store that takes a node out of the list
by the `next` field of its predecessor.
-/

namespace LunOS.Chain
open LunOS.Memory List

/-- The pointer to the first node of a list. -/
def headPtr (ptr : ℕ → ℕ) : List ℕ → ℕ
  | [] => 0
  | a :: _ => ptr a

/-- The nodes of the list are chained through their fields at offset `off`. -/
def Linked (m : Mem) (ptr : ℕ → ℕ) (off : ℕ) : List ℕ → Prop
  | [] => True
  | a :: l => readLE m (a + off) 8 = headPtr ptr l ∧ Linked m ptr off l

/-- The store of `*current = node->next` when `current` is the `next` field of a node: the
predecessor of `addr` on the list gets the pointer to what follows `addr`. -/
def unlinkNext (ptr : ℕ → ℕ) (off addr : ℕ) : List ℕ → Mem → Mem
  | p :: q :: rest, m =>
    if p = addr then m
    else if q = addr then writeLE m (p + off) 8 (headPtr ptr rest)
    else unlinkNext ptr off addr (q :: rest) m
  | _, m => m

variable {m m' : Mem} {ptr : ℕ → ℕ} {off : ℕ}

lemma headPtr_lt (hptr : ∀ a, ptr a < 256 ^ 8) (l : List ℕ) : headPtr ptr l < 256 ^ 8 := by
  cases l with
  | nil => norm_num [headPtr]
  | cons a l => exact hptr a

/-- A chain depends only on the `next` fields of its nodes. -/
lemma Linked.congr : ∀ {l : List ℕ},
    (∀ a ∈ l, ∀ z, a + off ≤ z → z < a + off + 8 → m' z = m z) →
    Linked m ptr off l → Linked m' ptr off l := by
  intro l
  induction l with
  | nil => intro _ _; trivial
  | cons a l ih =>
    intro hm h
    refine ⟨?_, ih (fun c hc => hm c (mem_cons_of_mem a hc)) h.2⟩
    refine Eq.trans ?_ h.1
    exact readLE_congr (hm a mem_cons_self)

lemma Linked.tail {a : ℕ} {l : List ℕ} (h : Linked m ptr off (a :: l)) : Linked m ptr off l :=
  h.2

/-- The store of an unlink falls in the `next` field of a node of the list. -/
lemma unlinkNext_outside (ptr : ℕ → ℕ) (off a : ℕ) {x : ℕ} : ∀ (l : List ℕ) (m : Mem),
    (∀ c ∈ l, x < c + off ∨ c + off + 8 ≤ x) → unlinkNext ptr off a l m x = m x := by
  intro l
  induction l with
  | nil => intro m _; rfl
  | cons p l ih =>
    intro m hx
    cases l with
    | nil => rfl
    | cons q rest =>
      unfold unlinkNext
      split
      · rfl
      · split
        · have hp := hx p mem_cons_self
          exact writeLE_of_outside (by omega)
        · exact ih m fun c hc => hx c (mem_cons_of_mem p hc)

/-- Taking a node out of a chain of fields that do not overlap. The induction follows the search
for the predecessor. -/
lemma Linked.unlinkNext (hptr : ∀ a, ptr a < 256 ^ 8) (a : ℕ) : ∀ {l : List ℕ},
    l.Pairwise (fun c d => c + 8 ≤ d ∨ d + 8 ≤ c) → Linked m ptr off l →
    Linked (Chain.unlinkNext ptr off a l m) ptr off (l.erase a) := by
  intro l
  induction l with
  | nil => intro _ _; trivial
  | cons p l ih =>
    intro hsep h
    have hp := (pairwise_cons.mp hsep).1
    have hsep' := (pairwise_cons.mp hsep).2
    cases l with
    | nil =>
      by_cases hpa : p = a
      · simp [hpa, Linked]
      · rw [erase_cons_tail (by simpa using hpa)]
        exact h
    | cons q rest =>
      by_cases hpa : p = a
      · -- the head leaves; memory is as it was
        rw [hpa, erase_cons_head, Chain.unlinkNext, if_pos rfl]
        exact h.2
      rw [erase_cons_tail (by simpa using hpa), Chain.unlinkNext, if_neg hpa]
      by_cases hqa : q = a
      · -- `p` is the predecessor and gets the pointer to `rest`
        rw [if_pos hqa, hqa, erase_cons_head]
        refine ⟨readLE_writeLE_same (headPtr_lt hptr rest), ?_⟩
        refine Linked.congr ?_ h.2.2
        intro c hc z hz hz'
        have hpc := hp c (mem_cons_of_mem q hc)
        exact writeLE_of_outside (by omega)
      · -- the search goes on behind `p`, whose field stays
        rw [if_neg hqa]
        have hih := ih hsep' h.2
        rw [erase_cons_tail (by simpa using hqa)] at hih ⊢
        refine ⟨?_, hih⟩
        refine Eq.trans ?_ h.1
        apply readLE_congr
        intro z hz hz'
        apply unlinkNext_outside
        intro c hc
        have hpc := hp c hc
        omega

end LunOS.Chain
