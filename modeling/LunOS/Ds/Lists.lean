import Mathlib.Data.List.Basic
import Mathlib.Data.List.Nodup
import Mathlib.Logic.Function.Basic

/-!
# Intrusive circular lists (`ds/lists.h`)

A heap gives every `struct list_node` its two pointers. The functions below make the source's
writes in the source's order.

- `Seg h a l b`: from `a` the nodes of `l` follow in order, then `b`, with matching back pointers.
- `Circular h head l`: the list with this head has exactly the nodes `l`.
- What `list_add_tail` and `list_del` do to a circular list, and that lists they do not touch stay
  (`Circular.congr`).
-/

namespace LunOS.Ds
open Function List

variable {α : Type*}

/-- The two pointers of every `struct list_head`. -/
structure ListHeap (α : Type*) where
  next : α → α
  prev : α → α

section Model

variable [DecidableEq α]

def ListHeap.setNext (h : ListHeap α) (a b : α) : ListHeap α :=
  { h with next := update h.next a b }

def ListHeap.setPrev (h : ListHeap α) (a b : α) : ListHeap α :=
  { h with prev := update h.prev a b }

/-- `list_init` -/
def listInit (h : ListHeap α) (list : α) : ListHeap α :=
  (h.setNext list list).setPrev list list

/-- `list_add`, between two nodes. -/
def listAdd (h : ListHeap α) (newNode prev next : α) : ListHeap α :=
  let h := h.setPrev next newNode
  let h := h.setNext newNode next
  let h := h.setPrev newNode prev
  h.setNext prev newNode

/-- `list_add_head` -/
def listAddHead (h : ListHeap α) (newNode head : α) : ListHeap α :=
  listAdd h newNode head (h.next head)

/-- `list_add_tail` -/
def listAddTail (h : ListHeap α) (newNode head : α) : ListHeap α :=
  listAdd h newNode (h.prev head) head

/-- The second line of `list_del` reads `entry->next` after the first has written. -/
def listDel (h : ListHeap α) (entry : α) : ListHeap α :=
  let h := h.setNext (h.prev entry) (h.next entry)
  let h := h.setPrev (h.next entry) (h.prev entry)
  let h := h.setNext entry entry
  h.setPrev entry entry

/-- Each line reads the pointers that the lines before have written. -/
def listReplace (h : ListHeap α) (old newNode : α) : ListHeap α :=
  let h := h.setNext newNode (h.next old)
  let h := h.setPrev (h.next newNode) newNode
  let h := h.setPrev newNode (h.prev old)
  h.setNext (h.prev newNode) newNode

/-- `list_empty` -/
def listEmpty (h : ListHeap α) (head : α) : Bool := h.next head = head

end Model

/-! ## Segments -/

/-- The path from `a` to `b` through `l`. -/
def Seg (h : ListHeap α) (a : α) : List α → α → Prop
  | [], b => h.next a = b ∧ h.prev b = a
  | x :: l, b => (h.next a = x ∧ h.prev x = a) ∧ Seg h x l b

variable {h h' : ListHeap α}

variable {l : List α} {a b x head : α}

/-- A path can be cut at any of its nodes. -/
lemma seg_append {l' : List α} :
    Seg h a (l ++ x :: l') b ↔ Seg h a l x ∧ Seg h x l' b := by
  induction l generalizing a with
  | nil => rfl
  | cons y l ih =>
    show (h.next a = y ∧ h.prev y = a) ∧ Seg h y (l ++ x :: l') b ↔
      ((h.next a = y ∧ h.prev y = a) ∧ Seg h y l x) ∧ Seg h x l' b
    rw [ih, and_assoc (c := Seg h x l' b)]

/-- Only the nodes of a segment matter. -/
lemma Seg.congr (hs : Seg h a l b) (hn : ∀ z ∈ a :: l, h'.next z = h.next z)
    (hp : ∀ z ∈ l ++ [b], h'.prev z = h.prev z) : Seg h' a l b := by
  induction l generalizing a with
  | nil =>
    show h'.next a = b ∧ h'.prev b = a
    rw [hn a mem_cons_self, hp b mem_cons_self]
    exact hs
  | cons x l ih =>
    refine ⟨?_, ih hs.2 (fun z hz => hn z (mem_cons_of_mem _ hz)) fun z hz =>
      hp z (mem_cons_of_mem _ hz)⟩
    rw [hn a mem_cons_self, hp x mem_cons_self]
    exact hs.1

/-- The node before the end of a path is on it. -/
lemma Seg.prev_mem (hs : Seg h a l b) : h.prev b ∈ a :: l := by
  induction l generalizing a with
  | nil =>
    rw [hs.2]
    exact mem_cons_self
  | cons x l ih => exact mem_cons_of_mem _ (ih hs.2)

/-- The node after the start of a path is on it. -/
lemma Seg.next_prev (hs : Seg h a l b) : h.next (h.prev b) = b := by
  induction l generalizing a with
  | nil =>
    rw [hs.2]
    exact hs.1
  | cons x l ih => exact ih hs.2

lemma Seg.next_mem (hs : Seg h a l b) : h.next a ∈ l ++ [b] := by
  cases l with
  | nil =>
    rw [hs.1]
    exact mem_cons_self
  | cons x l =>
    rw [hs.1.1]
    exact mem_cons_self

/-- The last link of a path is turned to another node `y`. -/
lemma Seg.retarget {y : α} (hs : Seg h a l b) (hnd : (a :: l).Nodup)
    (hn : ∀ z ∈ a :: l, z ≠ h.prev b → h'.next z = h.next z) (hp : ∀ z ∈ l, h'.prev z = h.prev z)
    (hlast : h'.next (h.prev b) = y) (hback : h'.prev y = h.prev b) : Seg h' a l y := by
  induction l generalizing a with
  | nil =>
    rw [hs.2] at hlast hback
    exact ⟨hlast, hback⟩
  | cons x l ih =>
    have hne : a ≠ h.prev b := by
      intro heq
      have hmem := hs.2.prev_mem
      rw [← heq] at hmem
      exact (nodup_cons.mp hnd).1 hmem
    refine ⟨?_, ih hs.2 (nodup_cons.mp hnd).2 (fun z hz => hn z (mem_cons_of_mem _ hz))
      fun z hz => hp z (mem_cons_of_mem _ hz)⟩
    rw [hn a mem_cons_self hne, hp x mem_cons_self]
    exact hs.1

/-! ## Circular lists -/

/-- The list at `head` has the nodes `l`, in this order. -/
structure Circular (h : ListHeap α) (head : α) (l : List α) : Prop where
  nodup : (head :: l).Nodup
  seg : Seg h head l head

section
variable (hc : Circular h head l)
include hc

lemma Circular.congr (hsame : ∀ z ∈ head :: l, h'.next z = h.next z ∧ h'.prev z = h.prev z) :
    Circular h' head l := by
  refine ⟨hc.nodup, hc.seg.congr (fun z hz => (hsame z hz).1) fun z hz => (hsame z ?_).2⟩
  rcases mem_append.mp hz with hz | hz
  · exact mem_cons_of_mem _ hz
  · rw [mem_singleton.mp hz]
    exact mem_cons_self

/-- A list is read off its heap in one way only. -/
lemma Circular.unique {l' : List α} (hc' : Circular h head l') : l = l' := by
  -- both paths follow `next` from the same node, and stop at `head`, which is on neither
  have hgen : ∀ (l l' : List α) (a : α), head ∉ l → head ∉ l' → Seg h a l head →
      Seg h a l' head → l = l' := by
    intro l
    induction l with
    | nil =>
      intro l' a _ hmem' hs hs'
      cases l' with
      | nil => rfl
      | cons y l' =>
        have heq : head = y := hs.1.symm.trans hs'.1.1
        rw [heq] at hmem'
        exact absurd mem_cons_self hmem'
    | cons x l ih =>
      intro l' a hmem hmem' hs hs'
      cases l' with
      | nil =>
        have heq : head = x := hs'.1.symm.trans hs.1.1
        rw [heq] at hmem
        exact absurd mem_cons_self hmem
      | cons y l' =>
        have heq : x = y := hs.1.1.symm.trans hs'.1.1
        rw [heq] at hs ⊢
        rw [ih l' y (fun hm => hmem (mem_cons_of_mem _ hm))
          (fun hm => hmem' (mem_cons_of_mem _ hm)) hs.2 hs'.2]
  exact hgen l l' head (nodup_cons.mp hc.nodup).1 (nodup_cons.mp hc'.nodup).1 hc.seg
    hc'.seg

/-- The node after a member is a member or the head. -/
lemma Circular.next_mem (hx : x ∈ l) : h.next x ∈ l ∨ h.next x = head := by
  rcases append_of_mem hx with ⟨l₁, l₂, heq⟩
  have hseg := hc.seg
  rw [heq, seg_append] at hseg
  rcases mem_append.mp hseg.2.next_mem with hmem | hmem
  · apply Or.inl
    rw [heq]
    exact mem_append_right _ (mem_cons_of_mem _ hmem)
  · exact Or.inr (mem_singleton.mp hmem)

/-- The node before a member is a member or the head. -/
lemma Circular.prev_mem (hx : x ∈ l) : h.prev x ∈ head :: l := by
  rcases append_of_mem hx with ⟨l₁, l₂, heq⟩
  have hseg := hc.seg
  rw [heq, seg_append] at hseg
  have hmem := hseg.1.prev_mem
  rw [heq]
  rcases mem_cons.mp hmem with hmem | hmem
  · rw [hmem]
    exact mem_cons_self
  · exact mem_cons_of_mem _ (mem_append_left _ hmem)

/-- A member is not its own neighbour. -/
lemma Circular.prev_ne (hx : x ∈ l) : h.prev x ≠ x := by
  rcases append_of_mem hx with ⟨l₁, l₂, heq⟩
  rw [heq] at hc
  have hnd : ((head :: l₁) ++ x :: l₂).Nodup := hc.nodup
  intro hself
  have hmem := (seg_append.mp hc.seg).1.prev_mem
  rw [hself] at hmem
  exact (nodup_append.mp hnd).2.2 x hmem x mem_cons_self rfl

/-- A member is not linked to itself. -/
lemma Circular.next_ne (hx : x ∈ l) : h.next x ≠ x := by
  rcases append_of_mem hx with ⟨l₁, l₂, heq⟩
  rw [heq] at hc
  have hnd : ((head :: l₁) ++ x :: l₂).Nodup := hc.nodup
  have hapart := nodup_append.mp hnd
  intro hself
  have hmem := (seg_append.mp hc.seg).2.next_mem
  rw [hself] at hmem
  rcases mem_append.mp hmem with hmem | hmem
  · exact (nodup_cons.mp hapart.2.1).1 hmem
  · exact hapart.2.2 head mem_cons_self x mem_cons_self (mem_singleton.mp hmem).symm

end

/-- The first node comes after the head. -/
lemma Circular.next_head (hc : Circular h head (x :: l)) :
    h.next head = x := hc.seg.1.1

section Operations

variable [DecidableEq α] {head x : α} {l : List α}

/-- `list_init` makes an empty list. -/
lemma circular_listInit (h : ListHeap α) (head : α) : Circular (listInit h head) head [] := by
  refine ⟨nodup_singleton head, ?_, ?_⟩
  · exact update_self head head h.next
  · exact update_self head head h.prev

/-- `list_empty` looks at the right thing. -/
lemma Circular.listEmpty_iff (hc : Circular h head l) : listEmpty h head = true ↔ l = [] := by
  unfold listEmpty
  rw [decide_eq_true_eq]
  cases l with
  | nil => exact ⟨fun _ => rfl, fun _ => hc.seg.1⟩
  | cons y l =>
    refine ⟨fun heq => ?_, fun heq => absurd heq (cons_ne_nil y l)⟩
    have hy : y = head := hc.seg.1.1.symm.trans heq
    rw [hy] at hc
    exact absurd mem_cons_self (nodup_cons.mp hc.nodup).1

variable {z : α}

lemma listInit_of_ne (hz : z ≠ head) :
    (listInit h head).next z = h.next z ∧ (listInit h head).prev z = h.prev z :=
  ⟨update_of_ne hz _ _, update_of_ne hz _ _⟩

/-- `list_add_tail` writes to the new node and to nodes of the list. -/
lemma Circular.listAddTail_frame (hc : Circular h head l) (hx : z ≠ x) (hz : z ∉ head :: l) :
    (listAddTail h x head).next z = h.next z ∧ (listAddTail h x head).prev z = h.prev z := by
  have hhead : z ≠ head := (ne_of_mem_of_not_mem mem_cons_self hz).symm
  have hlast : z ≠ h.prev head := (ne_of_mem_of_not_mem hc.seg.prev_mem hz).symm
  simp [Ds.listAddTail, listAdd, ListHeap.setNext, ListHeap.setPrev, update_of_ne, hx,
    hhead, hlast]

/-- `list_add_tail` of a node that is not on the list. -/
lemma Circular.listAddTail (hc : Circular h head l) (hx : x ∉ head :: l) :
    Circular (listAddTail h x head) head (l ++ [x]) := by
  have hlast := hc.seg.prev_mem
  have hxhead : x ≠ head := (ne_of_mem_of_not_mem mem_cons_self hx).symm
  have hxlast : h.prev head ≠ x := ne_of_mem_of_not_mem hlast hx
  have hnd := nodup_cons.mp hc.nodup
  refine ⟨?_, seg_append.mpr ⟨hc.seg.retarget hc.nodup ?_ ?_ ?_ ?_, ?_, ?_⟩⟩
  · rw [← cons_append, nodup_append]
    refine ⟨hc.nodup, nodup_singleton x, fun a ha b hb heq => ?_⟩
    rw [heq, mem_singleton.mp hb] at ha
    exact hx ha
  · intro z hz hne
    have hzx : z ≠ x := ne_of_mem_of_not_mem hz hx
    simp [Ds.listAddTail, listAdd, ListHeap.setNext, ListHeap.setPrev, update_of_ne, hne,
      hzx]
  · intro z hz
    have hzx : z ≠ x := ne_of_mem_of_not_mem (mem_cons_of_mem _ hz) hx
    have hzhead : z ≠ head := ne_of_mem_of_not_mem hz hnd.1
    simp [Ds.listAddTail, listAdd, ListHeap.setNext, ListHeap.setPrev, update_of_ne, hzx,
      hzhead]
  · simp [Ds.listAddTail, listAdd, ListHeap.setNext, ListHeap.setPrev]
  · simp [Ds.listAddTail, listAdd, ListHeap.setNext, ListHeap.setPrev]
  · simp [Ds.listAddTail, listAdd, ListHeap.setNext, ListHeap.setPrev, update_of_ne,
      hxlast.symm]
  · simp [Ds.listAddTail, listAdd, ListHeap.setNext, ListHeap.setPrev, update_of_ne,
      hxhead.symm]

/-- The links after `list_del`. -/
lemma listDel_next (h : ListHeap α) (x z : α) : (listDel h x).next z =
    if z = x then x else if z = h.prev x then h.next x else h.next z := by
  simp only [listDel, ListHeap.setNext, ListHeap.setPrev, update_apply]

lemma listDel_prev (hp : h.prev x ≠ x) (z : α) : (listDel h x).prev z =
    if z = x then x else if z = h.next x then h.prev x else h.prev z := by
  simp only [listDel, ListHeap.setNext, ListHeap.setPrev, update_apply, hp.symm, if_false]

/-- `list_del` of a node that is linked to itself does nothing. -/
lemma listDel_self (hn : h.next x = x) (hp : h.prev x = x) : listDel h x = h := by
  have hnext : update h.next x x = h.next := by
    rw [update_eq_self_iff, hn]
  have hprev : update h.prev x x = h.prev := by
    rw [update_eq_self_iff, hp]
  simp only [listDel, ListHeap.setNext, ListHeap.setPrev, hn, hp, hnext, hprev]

/-- `list_del` of a member takes it off the list. -/
lemma Circular.listDel_append {l₁ l₂ : List α} (hc : Circular h head (l₁ ++ x :: l₂)) :
    Circular (listDel h x) head (l₁ ++ l₂) := by
  have hseg := seg_append.mp hc.seg
  have hnd : ((head :: l₁) ++ x :: l₂).Nodup := hc.nodup
  have hapart := nodup_append.mp hnd
  have hx₁ : x ∉ head :: l₁ := fun hmem => hapart.2.2 x hmem x mem_cons_self rfl
  have hx₂ : x ∉ l₂ := (nodup_cons.mp hapart.2.1).1
  have hprev := hseg.1.prev_mem
  have hp : h.prev x ≠ x := ne_of_mem_of_not_mem hprev hx₁
  have hnext := listDel_next h x
  have hback := listDel_prev hp
  -- up to the node before `x` only the last link changes
  have hstart : ∀ y, y ∉ l₁ → y ≠ x → h.next x = y → Seg (Ds.listDel h x) head l₁ y := by
    intro y hy hyx hxy
    apply hseg.1.retarget hapart.1
    · intro z hz hne
      rw [hnext, if_neg (ne_of_mem_of_not_mem hz hx₁), if_neg hne]
    · intro z hz
      rw [hback, if_neg (ne_of_mem_of_not_mem (mem_cons_of_mem _ hz) hx₁), hxy,
        if_neg (ne_of_mem_of_not_mem hz hy)]
    · rw [hnext, if_neg hp, if_pos rfl, hxy]
    · rw [hback, if_neg hyx, if_pos hxy.symm]
  refine ⟨?_, ?_⟩
  · show ((head :: l₁) ++ l₂).Nodup
    exact hnd.sublist (List.Sublist.append_left (sublist_cons_self x l₂) _)
  cases l₂ with
  | nil =>
    rw [append_nil]
    apply hstart head (nodup_cons.mp hapart.1).1
    · exact ne_of_mem_of_not_mem mem_cons_self hx₁
    · exact hseg.2.1
  | cons y l₂ =>
    have hyx : y ≠ x := ne_of_mem_of_not_mem mem_cons_self hx₂
    have hxy : h.next x = y := hseg.2.1.1
    have hnd₂ := nodup_cons.mp (nodup_cons.mp hapart.2.1).2
    have hout : ∀ z ∈ head :: l₁, z ∉ y :: l₂ := fun z hz hz' =>
      hapart.2.2 z hz z (mem_cons_of_mem _ hz') rfl
    apply seg_append.mpr
    refine ⟨hstart y (fun hy => hout y (mem_cons_of_mem _ hy) mem_cons_self) hyx hxy,
      hseg.2.2.congr (fun z hz => ?_) fun z hz => ?_⟩
    · rw [hnext, if_neg (ne_of_mem_of_not_mem hz hx₂),
        if_neg (ne_of_mem_of_not_mem hz (hout _ hprev))]
    · rw [hback, hxy]
      rcases mem_append.mp hz with hz | hz
      · rw [if_neg (ne_of_mem_of_not_mem (mem_cons_of_mem _ hz) hx₂),
          if_neg (ne_of_mem_of_not_mem hz hnd₂.1)]
      · rw [mem_singleton.mp hz, if_neg (ne_of_mem_of_not_mem mem_cons_self hx₁),
          if_neg (ne_of_mem_of_not_mem mem_cons_self (hout head mem_cons_self)).symm]

/-- `list_del` erases the node. -/
lemma Circular.listDel (hc : Circular h head l) (hx : x ∈ l) :
    Circular (listDel h x) head (l.erase x) := by
  rcases append_of_mem hx with ⟨l₁, l₂, heq⟩
  rw [heq] at hc ⊢
  have hx₁ : x ∉ l₁ := by
    intro hmem
    have hapart := (nodup_append.mp (nodup_cons.mp hc.nodup).2).2.2
    exact hapart x hmem x mem_cons_self rfl
  rw [erase_append_right _ hx₁, erase_cons_head]
  exact hc.listDel_append

/-- `list_del` of a member writes to nodes of the list. -/
lemma Circular.listDel_frame (hc : Circular h head l) (hx : x ∈ l) (hz : z ∉ head :: l) :
    (Ds.listDel h x).next z = h.next z ∧ (Ds.listDel h x).prev z = h.prev z := by
  have hzx : z ≠ x := (ne_of_mem_of_not_mem (mem_cons_of_mem head hx) hz).symm
  have hprev : z ≠ h.prev x := (ne_of_mem_of_not_mem (hc.prev_mem hx) hz).symm
  have hnext : z ≠ h.next x := by
    intro heq
    rcases hc.next_mem hx with hmem | hmem
    · exact hz (mem_cons_of_mem _ (heq ▸ hmem))
    · exact hz (heq.trans hmem ▸ mem_cons_self)
  rw [listDel_next, listDel_prev (hc.prev_ne hx), if_neg hzx, if_neg hprev, if_neg hzx,
    if_neg hnext]
  exact ⟨rfl, rfl⟩

/-- A node that was taken off is linked to itself. -/
lemma Circular.listDel_self_linked (hc : Circular h head l) (hx : x ∈ l) :
    (Ds.listDel h x).next x = x ∧ (Ds.listDel h x).prev x = x := by
  rw [listDel_next, listDel_prev (hc.prev_ne hx), if_pos rfl, if_pos rfl]
  exact ⟨rfl, rfl⟩

/-- `list_del` undoes `list_add_tail` on every other node. -/
lemma Circular.listDel_listAddTail (hc : Circular h head l) (hx : x ∉ head :: l) (hz : z ≠ x) :
    (Ds.listDel (Ds.listAddTail h x head) x).next z = h.next z ∧
      (Ds.listDel (Ds.listAddTail h x head) x).prev z = h.prev z := by
  have hxhead : x ≠ head := (ne_of_mem_of_not_mem mem_cons_self hx).symm
  have hxlast : h.prev head ≠ x := ne_of_mem_of_not_mem hc.seg.prev_mem hx
  have hnext : ∀ y, (Ds.listAddTail h x head).next y =
      if y = h.prev head then x else if y = x then head else h.next y := by
    intro y
    simp only [Ds.listAddTail, listAdd, ListHeap.setNext, ListHeap.setPrev, update_apply]
  have hprev : ∀ y, (Ds.listAddTail h x head).prev y =
      if y = x then h.prev head else if y = head then x else h.prev y := by
    intro y
    simp only [Ds.listAddTail, listAdd, ListHeap.setNext, ListHeap.setPrev, update_apply]
  have hxprev : (Ds.listAddTail h x head).prev x = h.prev head := by rw [hprev, if_pos rfl]
  have hxnext : (Ds.listAddTail h x head).next x = head := by
    rw [hnext, if_neg hxlast.symm, if_pos rfl]
  have hne : (Ds.listAddTail h x head).prev x ≠ x := by
    rw [hxprev]
    exact hxlast
  rw [listDel_next, listDel_prev hne, if_neg hz, if_neg hz, hxprev, hxnext, hnext, hprev]
  constructor
  · by_cases hlast : z = h.prev head
    · rw [if_pos hlast, hlast]
      exact hc.seg.next_prev.symm
    · rw [if_neg hlast, if_neg hlast, if_neg hz]
  · by_cases hhead : z = head
    · rw [if_pos hhead, hhead]
    · rw [if_neg hhead, if_neg hz, if_neg hhead]

/-! ## Many heads -/

lemma foldl_listInit_of_notMem {ns : List α} (hz : z ∉ ns) (h : ListHeap α) :
    (ns.foldl listInit h).next z = h.next z ∧ (ns.foldl listInit h).prev z = h.prev z := by
  induction ns generalizing h with
  | nil => exact ⟨rfl, rfl⟩
  | cons n ns ih =>
    have hrest := ih (fun hmem => hz (mem_cons_of_mem n hmem)) (listInit h n)
    have hn := listInit_of_ne (h := h) (ne_of_mem_of_not_mem mem_cons_self hz).symm
    exact ⟨hrest.1.trans hn.1, hrest.2.trans hn.2⟩

/-- Each node is a list of its own. -/
lemma foldl_listInit_of_mem {ns : List α} (hz : z ∈ ns) (h : ListHeap α) :
    Circular (ns.foldl listInit h) z [] := by
  induction ns generalizing h with
  | nil => exact absurd hz not_mem_nil
  | cons n ns ih =>
    by_cases hmem : z ∈ ns
    · exact ih hmem _
    · have hzn : z = n := (mem_cons.mp hz).resolve_right hmem
      apply Circular.congr (h := listInit h z) (circular_listInit h z)
      intro y hy
      rw [mem_singleton.mp hy, foldl_cons, ← hzn]
      exact foldl_listInit_of_notMem hmem _

end Operations

end LunOS.Ds
