import LunOS.Ds.Rings
import Mathlib.Logic.Relation

/-!
# Intrusive lists as sequences

A heap of list nodes holds any number of lists that have no node in common. The functions of
`ds/lists.h` do to it what their names say of sequences.

- `Sequences`: heads and members of the lists, without pointers.
- `Represents h S`: the pointers of `h` are those of the lists `S`.
- `ListStep`: one call, on the heap and on the sequences.
- `listStep_represents`, `listRun_represents`: one call, and any number of calls.
-/

namespace LunOS.Ds
open Function List

variable {α ι : Type*}

/-- Lists without pointers: the head and the members of each. -/
structure Sequences (ι α : Type*) where
  head : ι → α
  members : ι → List α

/-- The nodes of a list. -/
def Sequences.nodes (S : Sequences ι α) (i : ι) : List α := S.head i :: S.members i

/-- A node that is on no list. -/
def Sequences.OnNone (S : Sequences ι α) (x : α) : Prop := ∀ i, x ∉ S.nodes i

/-- The heap holds these lists, and no node is on two of them. -/
structure Represents (h : ListHeap α) (S : Sequences ι α) : Prop where
  circular : ∀ i, Circular h (S.head i) (S.members i)
  apart : ∀ i j, i ≠ j → ∀ z ∈ S.nodes i, z ∉ S.nodes j

section Steps

variable [DecidableEq α] [DecidableEq ι]

/-- One sequence gets other members. -/
def Sequences.setMembers (S : Sequences ι α) (i : ι) (l : List α) : Sequences ι α :=
  { S with members := update S.members i l }

/-- One sequence gets another head. -/
def Sequences.setHead (S : Sequences ι α) (i : ι) (x : α) : Sequences ι α :=
  { S with head := update S.head i x }

/-- `newNode` in the place of `old`. -/
def substitute (old newNode z : α) : α := if z = old then newNode else z

/-- The calls, with what they do to the sequences. -/
inductive ListStep : ListHeap α × Sequences ι α → ListHeap α × Sequences ι α → Prop
  | addHead {h : ListHeap α} {S : Sequences ι α} (i : ι) (x : α) (hx : S.OnNone x) :
    ListStep (h, S) (listAddHead h x (S.head i), S.setMembers i (x :: S.members i))
  | addTail {h : ListHeap α} {S : Sequences ι α} (i : ι) (x : α) (hx : S.OnNone x) :
    ListStep (h, S) (listAddTail h x (S.head i), S.setMembers i (S.members i ++ [x]))
  | del {h : ListHeap α} {S : Sequences ι α} (i : ι) (x : α) (hx : x ∈ S.members i) :
    ListStep (h, S) (listDel h x, S.setMembers i ((S.members i).erase x))
  | delSelf {h : ListHeap α} {S : Sequences ι α} (x : α) (hnext : h.next x = x)
      (hprev : h.prev x = x) : ListStep (h, S) (listDel h x, S)
  | replace {h : ListHeap α} {S : Sequences ι α} (i : ι) (old newNode : α)
      (hold : old ∈ S.members i) (hnew : S.OnNone newNode) :
    ListStep (h, S) (listReplace h old newNode,
      S.setMembers i ((S.members i).map (substitute old newNode)))
  | replaceHead {h : ListHeap α} {S : Sequences ι α} (i : ι) (newNode : α)
      (hnew : S.OnNone newNode) :
    ListStep (h, S) (listReplace h (S.head i) newNode, S.setHead i newNode)

end Steps

variable {h h' : ListHeap α} {S S' : Sequences ι α}

/-! ## Neighbours -/

variable {l : List α} {z head : α} {i : ι}

lemma Seg.prev_next {a b : α} (hs : Seg h a l b) : h.prev (h.next a) = a := by
  cases l with
  | nil =>
    rw [hs.1]
    exact hs.2
  | cons x l =>
    rw [hs.1.1]
    exact hs.1.2

section
variable (hc : Circular h head l)
include hc

/-- Forwards and back again is the same node. -/
lemma Circular.prev_next (hz : z ∈ head :: l) : h.prev (h.next z) = z := by
  rcases mem_cons.mp hz with heq | hmem
  · rw [heq]
    exact hc.seg.prev_next
  · rcases append_of_mem hmem with ⟨l₁, l₂, heq⟩
    have hseg := hc.seg
    rw [heq, seg_append] at hseg
    exact hseg.2.prev_next

/-- Back and forth. -/
lemma Circular.next_prev (hz : z ∈ head :: l) : h.next (h.prev z) = z := by
  rcases mem_cons.mp hz with heq | hmem
  · rw [heq]
    exact hc.seg.next_prev
  · rcases append_of_mem hmem with ⟨l₁, l₂, heq⟩
    have hseg := hc.seg
    rw [heq, seg_append] at hseg
    exact hseg.1.next_prev

/-- The list is closed under `next`. -/
lemma Circular.next_mem_nodes (hz : z ∈ head :: l) : h.next z ∈ head :: l := by
  rcases mem_cons.mp hz with heq | hmem
  · rw [heq]
    rcases mem_append.mp hc.seg.next_mem with hmem | hmem
    · exact mem_cons_of_mem _ hmem
    · rw [mem_singleton.mp hmem]
      exact mem_cons_self
  · rcases hc.next_mem hmem with hmem | hmem
    · exact mem_cons_of_mem _ hmem
    · rw [hmem]
      exact mem_cons_self

lemma Circular.prev_mem_nodes (hz : z ∈ head :: l) : h.prev z ∈ head :: l := by
  rcases mem_cons.mp hz with heq | hmem
  · rw [heq]
    exact hc.seg.prev_mem
  · exact hc.prev_mem hmem

lemma Circular.next_eq_iff {y : α} (hy : y ∈ head :: l) (hz : z ∈ head :: l) :
    h.next z = y ↔ z = h.prev y := by
  constructor
  · intro heq
    rw [← heq, hc.prev_next hz]
  · intro heq
    rw [heq, hc.next_prev hy]

lemma Circular.next_self_iff (hz : z ∈ head :: l) : h.next z = z ↔ h.prev z = z :=
  (hc.next_eq_iff hz hz).trans eq_comm

end

/-- A path whose nodes get other names. -/
lemma Seg.map {a b : α} (f : α → α) (hs : Seg h a l b)
    (hn : ∀ z ∈ a :: l, h'.next (f z) = f (h.next z))
    (hp : ∀ z ∈ l ++ [b], h'.prev (f z) = f (h.prev z)) : Seg h' (f a) (l.map f) (f b) := by
  induction l generalizing a with
  | nil =>
    refine ⟨?_, ?_⟩
    · rw [hn a mem_cons_self, hs.1]
    · rw [hp b mem_cons_self, hs.2]
  | cons x l ih =>
    refine ⟨⟨?_, ?_⟩, ih hs.2 (fun z hz => hn z (mem_cons_of_mem _ hz)) fun z hz =>
      hp z (mem_cons_of_mem _ hz)⟩
    · rw [hn a mem_cons_self, hs.1.1]
    · rw [hp x mem_cons_self, hs.1.2]

/-! ## The operations on one list -/

section Operations

variable [DecidableEq α] {head x old newNode : α} {l : List α}

/-- The links after `list_add_head`. -/
lemma listAddHead_next (h : ListHeap α) (x head z : α) : (listAddHead h x head).next z =
    if z = head then x else if z = x then h.next head else h.next z := by
  simp only [listAddHead, listAdd, ListHeap.setNext, ListHeap.setPrev, update_apply]

/-- Its links backwards. -/
lemma listAddHead_prev (h : ListHeap α) (x head z : α) : (listAddHead h x head).prev z =
    if z = x then head else if z = h.next head then x else h.prev z := by
  simp only [listAddHead, listAdd, ListHeap.setNext, ListHeap.setPrev, update_apply]

/-- `list_add_head` writes to the new node and to nodes of the list. -/
lemma Circular.listAddHead_frame (hc : Circular h head l) (hx : z ≠ x) (hz : z ∉ head :: l) :
    SameAt h (listAddHead h x head) z := by
  have hhead : z ≠ head := (ne_of_mem_of_not_mem mem_cons_self hz).symm
  have hfirst : z ≠ h.next head :=
    (ne_of_mem_of_not_mem (hc.next_mem_nodes mem_cons_self) hz).symm
  constructor
  · rw [listAddHead_next, if_neg hhead, if_neg hx]
  · rw [listAddHead_prev, if_neg hx, if_neg hfirst]

/-- `list_add_head` of a node that is not on the list. -/
lemma Circular.listAddHead (hc : Circular h head l) (hx : x ∉ head :: l) :
    Circular (listAddHead h x head) head (x :: l) := by
  have hxhead : x ≠ head := (ne_of_mem_of_not_mem mem_cons_self hx).symm
  have hnd := nodup_cons.mp hc.nodup
  have hnext := listAddHead_next h x head
  have hprev := listAddHead_prev h x head
  refine ⟨?_, ⟨?_, ?_⟩, ?_⟩
  · refine nodup_cons.mpr ⟨fun hmem => ?_, nodup_cons.mpr ⟨fun hmem => ?_, hnd.2⟩⟩
    · exact (mem_cons.mp hmem).elim (fun heq => hxhead heq.symm) hnd.1
    · exact hx (mem_cons_of_mem _ hmem)
  · rw [hnext, if_pos rfl]
  · rw [hprev, if_pos rfl]
  -- behind the new node the list goes on as it did behind the head
  cases l with
  | nil =>
    have hself : h.next head = head := hc.seg.1
    refine ⟨?_, ?_⟩
    · rw [hnext, if_neg hxhead, if_pos rfl, hself]
    · rw [hprev, if_neg hxhead.symm, hself, if_pos rfl]
  | cons y l =>
    have hy : h.next head = y := hc.seg.1.1
    have hxy : x ≠ y := fun heq => hx (heq ▸ mem_cons_of_mem _ mem_cons_self)
    have hout : ∀ z ∈ y :: l, z ≠ x := fun z hz =>
      ne_of_mem_of_not_mem (mem_cons_of_mem _ hz) hx
    refine ⟨⟨?_, ?_⟩, hc.seg.2.congr (fun z hz => ?_) fun z hz => ?_⟩
    · rw [hnext, if_neg hxhead, if_pos rfl, hy]
    · rw [hprev, if_neg hxy.symm, hy, if_pos rfl]
    · rw [hnext, if_neg (ne_of_mem_of_not_mem hz hnd.1), if_neg (hout z hz)]
    · rw [hprev, hy]
      rcases mem_append.mp hz with hz | hz
      · rw [if_neg (hout z (mem_cons_of_mem _ hz)),
          if_neg (ne_of_mem_of_not_mem hz (nodup_cons.mp hnd.2).1)]
      · rw [mem_singleton.mp hz, if_neg hxhead.symm,
          if_neg (ne_of_mem_of_not_mem mem_cons_self hnd.1).symm]

/-- The links after `list_replace`. -/
lemma listReplace_next (h : ListHeap α) (old newNode z : α) :
    (listReplace h old newNode).next z =
      if z = (if old = h.next old then newNode else h.prev old) then newNode
      else if z = newNode then h.next old else h.next z := by
  simp only [listReplace, ListHeap.setNext, ListHeap.setPrev, update_apply, if_true]

/-- The links backwards. -/
lemma listReplace_prev (h : ListHeap α) (old newNode z : α) :
    (listReplace h old newNode).prev z =
      if z = newNode then (if old = h.next old then newNode else h.prev old)
      else if z = h.next old then newNode else h.prev z := by
  simp only [listReplace, ListHeap.setNext, ListHeap.setPrev, update_apply, if_true]

lemma substitute_self (old newNode : α) : substitute old newNode old = newNode := if_pos rfl

lemma substitute_of_ne (hz : z ≠ old) : substitute old newNode z = z := if_neg hz

/-- The third line of `list_replace` reads what the second has written when `old` is alone. -/
lemma Circular.replaced_prev (hc : Circular h head l) (hold : old ∈ head :: l) (newNode : α) :
    (if old = h.next old then newNode else h.prev old) = substitute old newNode (h.prev old) := by
  have hself := hc.next_self_iff hold
  by_cases halone : h.prev old = old
  · rw [if_pos (hself.mpr halone).symm, halone, substitute_self]
  · rw [if_neg fun heq => halone (hself.mp heq.symm), substitute_of_ne halone]

/-- Renaming `old` takes no two nodes of the list to one. -/
lemma substitute_inj {nodes : List α} (hnew : newNode ∉ nodes) {y : α} (hy : y ∈ nodes)
    (hz : z ∈ nodes) (heq : substitute old newNode y = substitute old newNode z) : y = z := by
  have hname : ∀ z ∈ nodes, newNode ≠ z := fun z hz => (ne_of_mem_of_not_mem hz hnew).symm
  by_cases hyo : y = old
  · by_cases hzo : z = old
    · rw [hyo, hzo]
    · rw [hyo, substitute_self, substitute_of_ne hzo] at heq
      exact absurd heq (hname z hz)
  · by_cases hzo : z = old
    · rw [hzo, substitute_self, substitute_of_ne hyo] at heq
      exact absurd heq.symm (hname y hy)
    · rwa [substitute_of_ne hyo, substitute_of_ne hzo] at heq

/-- A renamed node leads to the renamed node that it led to. -/
lemma Circular.listReplace_next_substitute (hc : Circular h head l) (hold : old ∈ head :: l)
    (hnew : newNode ∉ head :: l) (hz : z ∈ head :: l) :
    (Ds.listReplace h old newNode).next (substitute old newNode z) =
      substitute old newNode (h.next z) := by
  have hprev := hc.prev_mem_nodes hold
  have hlast := hc.next_eq_iff hold hz
  rw [listReplace_next, hc.replaced_prev hold]
  by_cases hbefore : z = h.prev old
  · rw [if_pos (congrArg _ hbefore), hlast.mpr hbefore, substitute_self]
  · rw [if_neg fun heq => hbefore (substitute_inj hnew hz hprev heq),
      substitute_of_ne (mt hlast.mp hbefore)]
    by_cases hzo : z = old
    · rw [hzo, substitute_self, if_pos rfl]
    · rw [substitute_of_ne hzo, if_neg (ne_of_mem_of_not_mem hz hnew)]

lemma Circular.listReplace_prev_substitute (hc : Circular h head l) (hold : old ∈ head :: l)
    (hnew : newNode ∉ head :: l) (hz : z ∈ head :: l) :
    (Ds.listReplace h old newNode).prev (substitute old newNode z) =
      substitute old newNode (h.prev z) := by
  have hfirst : h.next old = z ↔ old = h.prev z := hc.next_eq_iff hz hold
  rw [listReplace_prev, hc.replaced_prev hold]
  by_cases hzo : z = old
  · rw [hzo, substitute_self, if_pos rfl]
  · rw [substitute_of_ne hzo, if_neg (ne_of_mem_of_not_mem hz hnew)]
    by_cases hbehind : z = h.next old
    · rw [if_pos hbehind, ← hfirst.mp hbehind.symm, substitute_self]
    · rw [if_neg hbehind, substitute_of_ne fun heq => hbehind (hfirst.mpr heq.symm).symm]

/-- `list_replace` of a node, the head included, by one that is not on the list. -/
lemma Circular.listReplace (hc : Circular h head l) (hold : old ∈ head :: l)
    (hnew : newNode ∉ head :: l) :
    Circular (listReplace h old newNode) (substitute old newNode head)
      (l.map (substitute old newNode)) := by
  refine ⟨?_, hc.seg.map _ (fun z hz => ?_) fun z hz => ?_⟩
  · exact List.Nodup.map_on (fun y hy z hz => substitute_inj hnew hy hz) hc.nodup
  · exact hc.listReplace_next_substitute hold hnew hz
  · refine hc.listReplace_prev_substitute hold hnew ?_
    rcases mem_append.mp hz with hz | hz
    · exact mem_cons_of_mem _ hz
    · rw [mem_singleton.mp hz]
      exact mem_cons_self

/-- `list_replace` writes to the new node and to nodes of the list. -/
lemma Circular.listReplace_frame (hc : Circular h head l) (hold : old ∈ head :: l)
    (hx : z ≠ newNode) (hz : z ∉ head :: l) : SameAt h (Ds.listReplace h old newNode) z := by
  have hlast : z ≠ h.prev old := (ne_of_mem_of_not_mem (hc.prev_mem_nodes hold) hz).symm
  have hfirst : z ≠ h.next old := (ne_of_mem_of_not_mem (hc.next_mem_nodes hold) hz).symm
  constructor
  · rw [listReplace_next, if_neg hx, if_neg]
    split_ifs
    · exact hx
    · exact hlast
  · rw [listReplace_prev, if_neg hx, if_neg hfirst]

/-- A node is linked to itself after `list_del`, so a second call does nothing. -/
lemma listDel_listDel (h : ListHeap α) (x : α) : listDel (listDel h x) x = listDel h x := by
  apply listDel_self
  · rw [listDel_next, if_pos rfl]
  · exact update_self _ _ _

end Operations

/-! ## All lists -/

/-- Other lists keep their links. -/
lemma Represents.unchanged (hr : Represents h S) {j : ι} (hij : j ≠ i)
    (hframe : ∀ z, z ∉ S.nodes i → ¬ S.OnNone z → SameAt h h' z) :
    ∀ z ∈ S.nodes j, SameAt h h' z := by
  intro z hz
  exact hframe z (hr.apart j i hij z hz) fun hnone => hnone j hz

/-- A call that changes the list `i`, with nodes of this list and nodes that were on none. -/
lemma Represents.change (hr : Represents h S) (i : ι)
    (hc : Circular h' (S'.head i) (S'.members i))
    (hnodes : ∀ z ∈ S'.nodes i, z ∈ S.nodes i ∨ S.OnNone z)
    (hother : ∀ j, j ≠ i → S'.head j = S.head j ∧ S'.members j = S.members j)
    (hframe : ∀ z, z ∉ S.nodes i → ¬ S.OnNone z → SameAt h h' z) : Represents h' S' := by
  have hsame : ∀ j, j ≠ i → S'.nodes j = S.nodes j := by
    intro j hj
    unfold Sequences.nodes
    rw [(hother j hj).1, (hother j hj).2]
  have hout : ∀ j, j ≠ i → ∀ z ∈ S'.nodes i, z ∉ S.nodes j := by
    intro j hj z hz hz'
    rcases hnodes z hz with hmem | hnone
    · exact hr.apart i j hj.symm z hmem hz'
    · exact hnone j hz'
  refine ⟨fun j => ?_, fun j k hjk z hz hz' => ?_⟩
  · by_cases hj : j = i
    · rw [hj]
      exact hc
    · rw [(hother j hj).1, (hother j hj).2]
      exact (hr.circular j).congr (hr.unchanged hj hframe)
  · by_cases hj : j = i
    · rw [hj] at hz hjk
      rw [hsame k hjk.symm] at hz'
      exact hout k hjk.symm z hz hz'
    · rw [hsame j hj] at hz
      by_cases hk : k = i
      · rw [hk] at hz'
        exact hout j hj z hz' hz
      · rw [hsame k hk] at hz'
        exact hr.apart j k hjk z hz hz'

/-- A call that writes to one list and to a node that was on none. -/
lemma Sequences.OnNone.frame {x : α} (hx : S.OnNone x)
    (hlist : ∀ {z}, z ≠ x → z ∉ S.head i :: S.members i → SameAt h h' z) :
    ∀ z, z ∉ S.nodes i → ¬ S.OnNone z → SameAt h h' z :=
  fun _ hz hnone => hlist (fun heq => hnone (heq ▸ hx)) hz

section Steps

variable [DecidableEq ι]

lemma Sequences.setMembers_self (S : Sequences ι α) (i : ι) (l : List α) :
    (S.setMembers i l).members i = l := update_self _ _ _

lemma Sequences.setMembers_of_ne (S : Sequences ι α) {j : ι} (l : List α) (hj : j ≠ i) :
    (S.setMembers i l).members j = S.members j := update_of_ne hj _ _

/-- A call that gives the list `i` other members. -/
lemma Represents.setMembers (hr : Represents h S) (i : ι) (hc : Circular h' (S.head i) l)
    (hnew : l ≠ S.members i) (hnodes : ∀ z ∈ l, z ∈ S.nodes i ∨ S.OnNone z)
    (hframe : ∀ z, z ∉ S.nodes i → ¬ S.OnNone z → SameAt h h' z) :
    Represents h' (S.setMembers i l) ∧
      ∀ j, (S.setMembers i l).nodes j = S.nodes j → ∀ z ∈ S.nodes j, SameAt h h' z := by
  constructor
  · refine hr.change i ?_ (fun z hz => ?_) (fun j hj => ⟨rfl, S.setMembers_of_ne l hj⟩) hframe
    · rw [S.setMembers_self]
      exact hc
    · unfold Sequences.nodes at hz
      rw [S.setMembers_self] at hz
      rcases mem_cons.mp hz with heq | hmem
      · rw [heq]
        exact Or.inl mem_cons_self
      · exact hnodes z hmem
  · intro j hj
    refine hr.unchanged (fun heq => hnew ?_) hframe
    have hmembers := (List.cons.inj hj).2
    rw [heq, S.setMembers_self] at hmembers
    exact hmembers

variable [DecidableEq α]

/-- `list_replace` of a member. -/
lemma Represents.replace (hr : Represents h S) {old newNode : α} (hold : old ∈ S.members i)
    (hnew : S.OnNone newNode) :
    Represents (listReplace h old newNode)
        (S.setMembers i ((S.members i).map (substitute old newNode))) ∧
      ∀ j, (S.setMembers i ((S.members i).map (substitute old newNode))).nodes j = S.nodes j →
        ∀ z ∈ S.nodes j, SameAt h (listReplace h old newNode) z := by
  have hc := hr.circular i
  have hmem := mem_cons_of_mem (S.head i) hold
  have hhead : S.head i ≠ old := (ne_of_mem_of_not_mem hold (nodup_cons.mp hc.nodup).1).symm
  have hreplaced := hc.listReplace hmem (hnew i)
  rw [substitute_of_ne hhead] at hreplaced
  refine hr.setMembers i hreplaced (fun heq => ?_) (fun z hz => ?_)
    (hnew.frame (hc.listReplace_frame hmem))
  · -- `newNode` is a member now
    have hin : newNode ∈ (S.members i).map (substitute old newNode) :=
      mem_map.mpr ⟨old, hold, substitute_self _ _⟩
    rw [heq] at hin
    exact hnew i (mem_cons_of_mem _ hin)
  · obtain ⟨y, hy, hyz⟩ := mem_map.mp hz
    by_cases hyo : y = old
    · rw [hyo, substitute_self] at hyz
      exact Or.inr (hyz ▸ hnew)
    · rw [substitute_of_ne hyo] at hyz
      exact Or.inl (hyz ▸ mem_cons_of_mem _ hy)

/-- `list_replace` of a head. -/
lemma Represents.replaceHead (hr : Represents h S) {newNode : α} (hnew : S.OnNone newNode) :
    Represents (listReplace h (S.head i) newNode) (S.setHead i newNode) ∧
      ∀ j, (S.setHead i newNode).nodes j = S.nodes j →
        ∀ z ∈ S.nodes j, SameAt h (listReplace h (S.head i) newNode) z := by
  have hc := hr.circular i
  have hframe : ∀ z, z ∉ S.nodes i → ¬ S.OnNone z →
      SameAt h (listReplace h (S.head i) newNode) z :=
    hnew.frame (hc.listReplace_frame mem_cons_self)
  have hkeep : (S.members i).map (substitute (S.head i) newNode) = S.members i := by
    refine (map_congr_left fun z hz => ?_).trans (map_id _)
    exact substitute_of_ne (ne_of_mem_of_not_mem hz (nodup_cons.mp hc.nodup).1)
  have hreplaced := hc.listReplace mem_cons_self (hnew i)
  rw [substitute_self, hkeep] at hreplaced
  have hset : (S.setHead i newNode).head i = newNode := update_self _ _ _
  constructor
  · refine hr.change i ?_ (fun z hz => ?_)
      (fun j hj => ⟨update_of_ne hj _ _, rfl⟩) hframe
    · rw [hset]
      exact hreplaced
    · unfold Sequences.nodes at hz
      rw [hset] at hz
      rcases mem_cons.mp hz with heq | hmem
      · rw [heq]
        exact Or.inr hnew
      · exact Or.inl (mem_cons_of_mem _ hmem)
  · intro j hj
    refine hr.unchanged (fun heq => ?_) hframe
    have hhead := (List.cons.inj hj).1
    rw [heq, hset] at hhead
    exact hnew i (hhead ▸ mem_cons_self)

/-- One call keeps the sequences. -/
lemma ListStep.represents (hr : Represents h S) (hstep : ListStep (h, S) (h', S')) :
    Represents h' S' ∧ ∀ j, S'.nodes j = S.nodes j → ∀ z ∈ S.nodes j, SameAt h h' z := by
  cases hstep with
  | addHead i x hx =>
    have hc := hr.circular i
    refine hr.setMembers i (hc.listAddHead (hx i)) (cons_ne_self _ _) (fun z hz => ?_)
      (hx.frame hc.listAddHead_frame)
    rcases mem_cons.mp hz with heq | hmem
    · rw [heq]
      exact Or.inr hx
    · exact Or.inl (mem_cons_of_mem _ hmem)
  | addTail i x hx =>
    have hc := hr.circular i
    refine hr.setMembers i (hc.listAddTail (hx i)) (by simp) (fun z hz => ?_)
      (hx.frame hc.listAddTail_frame)
    rcases mem_append.mp hz with hmem | hmem
    · exact Or.inl (mem_cons_of_mem _ hmem)
    · rw [mem_singleton.mp hmem]
      exact Or.inr hx
  | del i x hx =>
    have hc := hr.circular i
    refine hr.setMembers i (hc.listDel hx) (fun heq => ?_)
      (fun z hz => Or.inl (mem_cons_of_mem _ (mem_of_mem_erase hz)))
      fun z hz _ => hc.listDel_frame hx hz
    have hlength := length_erase_of_mem hx
    rw [heq] at hlength
    have hpos := length_pos_of_mem hx
    omega
  | delSelf x hnext hprev =>
    rw [listDel_self hnext hprev]
    exact ⟨hr, fun _ _ _ _ => ⟨rfl, rfl⟩⟩
  | replace i old newNode hold hnew => exact hr.replace hold hnew
  | replaceHead i newNode hnew => exact hr.replaceHead hnew

/-- Any number of calls. -/
lemma listRun_represents (hr : Represents h S)
    (hrun : Relation.ReflTransGen ListStep (h, S) (h', S')) : Represents h' S' := by
  generalize hp : (h', S') = p at hrun
  induction hrun generalizing h' S' with
  | refl =>
    rw [(Prod.mk.inj hp).1, (Prod.mk.inj hp).2]
    exact hr
  | @tail p q _ hstep ih =>
    rw [← hp] at hstep
    exact (ListStep.represents (ih rfl) hstep).1

/-- Every call gives lists that represent the changed sequences, the lists whose sequence does not
change keep their pointers, and a second `list_del` does nothing. -/
theorem listStep_refines (hr : Represents h S) :
    (∀ h' S', ListStep (h, S) (h', S') →
      Represents h' S' ∧ ∀ j, S'.nodes j = S.nodes j → ∀ z ∈ S.nodes j, SameAt h h' z) ∧
    ∀ x, listDel (listDel h x) x = listDel h x :=
  ⟨fun _ _ hstep => hstep.represents hr, listDel_listDel h⟩

end Steps

/-! ## Two lists -/

/-- The nodes 1 and 2 on the list at 0, no node on the list at 3. -/
def twoLists : ListHeap ℕ where
  next z := if z = 0 then 1 else if z = 1 then 2 else if z = 2 then 0 else z
  prev z := if z = 0 then 2 else if z = 1 then 0 else if z = 2 then 1 else z

def twoSequences : Sequences Bool ℕ where
  head b := if b then 3 else 0
  members b := if b then [] else [1, 2]

lemma twoLists_represents : Represents twoLists twoSequences := by
  refine ⟨fun b => ?_, by decide⟩
  cases b with
  | false => exact ⟨by decide, ⟨rfl, rfl⟩, ⟨rfl, rfl⟩, rfl, rfl⟩
  | true => exact ⟨by decide, rfl, rfl⟩

/-- The node 4 in the place of 1. -/
theorem listStep_refines_twoLists :
    Represents (listReplace twoLists 1 4) (twoSequences.setMembers false [4, 2]) ∧
      listDel (listDel twoLists 2) 2 = listDel twoLists 2 := by
  obtain ⟨hstep, htwice⟩ := listStep_refines twoLists_represents
  have hnone : twoSequences.OnNone 4 := by
    unfold Sequences.OnNone
    decide
  exact ⟨(hstep _ _ (.replace false 1 4 (by decide) hnone)).1, htwice 2⟩

end LunOS.Ds
