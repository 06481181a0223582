import LunOS.Ds.Lists

/-!
# Many lists of one kind

Objects that lie on several intrusive lists have one list node for each kind of list. Of one kind
there are many heads, and an object's node of that kind is on at most one of the lists, or linked
to itself.

- `Kind`: which nodes are the heads and the objects' nodes of a kind.
- `Rings K h H N q`: the heads in `H` lead to the lists `q`, made of nodes of objects in `N`.
- `Rings.add`, `Rings.del`, `Rings.extend`, `Rings.restrict`: appending, deleting, making and
  forgetting objects; a change stays inside the nodes of its kind.
-/

namespace LunOS.Ds
open Function List

variable {α β γ : Type*}

/-- The heads and the nodes of one kind of list. -/
structure Kind (α β γ : Type*) where
  head : β → α
  node : γ → α
  head_inj : Injective head
  node_inj : Injective node
  apart : ∀ b t, head b ≠ node t

/-- A node of the kind: a head, or the node of an object. -/
def Kind.Covers (K : Kind α β γ) (z : α) : Prop := (∃ b, z = K.head b) ∨ ∃ t, z = K.node t

/-- Both pointers of a node are as before. -/
def SameAt (h h' : ListHeap α) (z : α) : Prop := h'.next z = h.next z ∧ h'.prev z = h.prev z

/-- The lists of one kind in a heap. -/
structure Rings (K : Kind α β γ) (h : ListHeap α) (H : β → Prop) (N : γ → Prop)
    (q : β → List γ) : Prop where
  ring : ∀ b, H b → Circular h (K.head b) ((q b).map K.node)
  mem : ∀ b, H b → ∀ t ∈ q b, N t
  one : ∀ b b' t, H b → H b' → t ∈ q b → t ∈ q b' → b = b'
  loose : ∀ t, N t → (∀ b, H b → t ∉ q b) → Circular h (K.node t) []

variable {K : Kind α β γ} {h h' : ListHeap α} {H : β → Prop} {N : γ → Prop} {q : β → List γ}
  {b : β} {t : γ}

lemma Kind.node_mem_map {l : List γ} : K.node t ∈ l.map K.node ↔ t ∈ l :=
  mem_map_of_injective K.node_inj

lemma Kind.node_mem_ring {l : List γ} : K.node t ∈ K.head b :: l.map K.node ↔ t ∈ l := by
  rw [mem_cons, K.node_mem_map]
  exact or_iff_right (K.apart b t).symm

/-- A list of the kind consists of nodes of the kind. -/
lemma Kind.covers_of_mem {l : List γ} {z : α} (hz : z ∈ K.head b :: l.map K.node) : K.Covers z := by
  rcases mem_cons.mp hz with heq | hmem
  · exact Or.inl ⟨b, heq⟩
  · rcases mem_map.mp hmem with ⟨t, _, heq⟩
    exact Or.inr ⟨t, heq.symm⟩

namespace Rings

section
variable (hr : Rings K h H N q)
include hr

/-- A change outside the kind does not matter. -/
lemma congr (hsame : ∀ z, K.Covers z → SameAt h h' z) : Rings K h' H N q := by
  refine ⟨fun b hb => ?_, hr.mem, hr.one, fun t ht hout => ?_⟩
  · exact (hr.ring b hb).congr fun z hz => hsame z (Kind.covers_of_mem hz)
  · apply (hr.loose t ht hout).congr
    intro z hz
    exact hsame z (Or.inr ⟨t, mem_singleton.mp hz⟩)

/-- Nor does a change to nodes of another kind, when a label tells the kinds apart. -/
lemma congr_of_ne {κ : Type*} {label : α → κ} {k k' : κ} (hK : ∀ {z}, K.Covers z ↔ label z = k)
    (hne : k ≠ k') (hframe : ∀ z, label z ≠ k' → SameAt h h' z) : Rings K h' H N q := by
  apply hr.congr
  intro z hz
  apply hframe
  rw [hK.mp hz]
  exact hne

/-- Only the lists of the heads in `H` count. -/
lemma of_eq {q' : β → List γ} (heq : ∀ b, H b → q' b = q b) : Rings K h H N q' := by
  refine ⟨fun b hb => ?_, fun b hb => ?_, fun b b' t hb hb' => ?_, fun t ht hout => ?_⟩
  · rw [heq b hb]
    exact hr.ring b hb
  · rw [heq b hb]
    exact hr.mem b hb
  · rw [heq b hb, heq b' hb']
    exact hr.one b b' t hb hb'
  · apply hr.loose t ht
    intro b hb
    rw [← heq b hb]
    exact hout b hb

lemma nodup (hb : H b) : (q b).Nodup :=
  (nodup_cons.mp (hr.ring b hb).nodup).2.of_map _

/-- Two lists have no node in common. -/
lemma rings_apart {b' : β} (hb : H b) (hb' : H b') (hne : b ≠ b') {z : α}
    (hz : z ∈ K.head b :: (q b).map K.node) : z ∉ K.head b' :: (q b').map K.node := by
  intro hz'
  rcases mem_cons.mp hz with heq | hmem
  · rw [heq] at hz'
    rcases mem_cons.mp hz' with hhead | hnode
    · exact hne (K.head_inj hhead)
    · rcases mem_map.mp hnode with ⟨t, _, ht⟩
      exact K.apart b t ht.symm
  · rcases mem_map.mp hmem with ⟨t, ht, heq⟩
    rw [← heq] at hz'
    exact hne (hr.one b b' t hb hb' ht (Kind.node_mem_ring.mp hz'))

/-- The lists are what the pointers say. -/
lemma on_ring_iff (hb : H b) : (∃ l, Circular h (K.head b) l ∧ K.node t ∈ l) ↔ t ∈ q b := by
  constructor
  · rintro ⟨l, hl, hin⟩
    rw [hl.unique (hr.ring b hb)] at hin
    exact Kind.node_mem_map.mp hin
  · intro ht
    exact ⟨_, hr.ring b hb, Kind.node_mem_map.mpr ht⟩

/-- A node linked to itself is on no list. -/
lemma not_mem_of_next_self (hself : h.next (K.node t) = K.node t) (hb : H b) : t ∉ q b :=
  fun ht => (hr.ring b hb).next_ne (Kind.node_mem_map.mpr ht) hself

/-- Objects and heads are added; the old ones keep their lists. -/
lemma extend {H' : β → Prop} {N' : γ → Prop} {q' : β → List γ}
    (hheads : ∀ b, H' b → (H b ∧ q' b = q b) ∨ (q' b = [] ∧ Circular h' (K.head b) []))
    (hold : ∀ b, H b → H' b ∧ q' b = q b) (hobjects : ∀ t, N' t → N t ∨ Circular h' (K.node t) [])
    (hmono : ∀ t, N t → N' t) (hhead : ∀ b, H b → SameAt h h' (K.head b))
    (hnode : ∀ t, N t → SameAt h h' (K.node t)) : Rings K h' H' N' q' := by
  -- the lists of new heads are empty
  have hof : ∀ b, H' b → ∀ t ∈ q' b, H b ∧ t ∈ q b := by
    intro b hb t ht
    rcases hheads b hb with ⟨hb', heq⟩ | ⟨hnil, _⟩
    · rw [heq] at ht
      exact ⟨hb', ht⟩
    · rw [hnil] at ht
      exact absurd ht not_mem_nil
  refine ⟨fun b hb => ?_, fun b hb t ht => ?_, fun b b' t hb hb' ht ht' => ?_, fun t ht hout => ?_⟩
  · rcases hheads b hb with ⟨hb', heq⟩ | ⟨hnil, hc⟩
    · rw [heq]
      apply (hr.ring b hb').congr
      intro z hz
      rcases mem_cons.mp hz with hz | hz
      · rw [hz]
        exact hhead b hb'
      · rcases mem_map.mp hz with ⟨t, ht, hz⟩
        rw [← hz]
        exact hnode t (hr.mem b hb' t ht)
    · rw [hnil]
      exact hc
  · have hbt := hof b hb t ht
    exact hmono t (hr.mem b hbt.1 t hbt.2)
  · have hbt := hof b hb t ht
    have hbt' := hof b' hb' t ht'
    exact hr.one b b' t hbt.1 hbt'.1 hbt.2 hbt'.2
  · rcases hobjects t ht with hold' | hc
    · apply (hr.loose t hold' fun b hb hmem => ?_).congr
      · intro z hz
        rw [mem_singleton.mp hz]
        exact hnode t hold'
      · rw [← (hold b hb).2] at hmem
        exact hout b (hold b hb).1 hmem
    · exact hc

/-- Objects and heads are forgotten. A head that goes has an empty list. -/
lemma restrict {H' : β → Prop} {N' : γ → Prop} (hH : ∀ b, H' b → H b) (hN : ∀ t, N' t → N t)
    (hmem : ∀ b, H' b → ∀ t ∈ q b, N' t) (hgone : ∀ b, H b → ¬ H' b → q b = []) :
    Rings K h H' N' q := by
  refine ⟨fun b hb => hr.ring b (hH b hb), hmem,
    fun b b' t hb hb' => hr.one b b' t (hH b hb) (hH b' hb'), fun t ht hout => ?_⟩
  apply hr.loose t (hN t ht)
  intro b hb hin
  -- an object that stays was on no list of a head that goes
  by_cases hb' : H' b
  · exact hout b hb' hin
  · rw [hgone b hb hb'] at hin
    exact absurd hin not_mem_nil

end

section Operations
variable [DecidableEq α]

/-- Members after an insertion. -/
lemma mem_append_update_iff [DecidableEq β] {c : β} {t' : γ} :
    t' ∈ update q b (q b ++ [t]) c ↔ t' ∈ q c ∨ (c = b ∧ t' = t) := by
  by_cases hc : c = b
  · rw [hc, update_self, mem_append, mem_singleton]
    simp
  · rw [update_of_ne hc]
    simp [hc]

/-- `list_add_tail` of an object on no list, whatever its node held. -/
lemma add_new [DecidableEq β] (hr : Rings K h H N q) (hb : H b) (hout : ∀ b, H b → t ∉ q b) :
    Rings K (listAddTail h (K.node t) (K.head b)) H (fun t' => N t' ∨ t' = t)
      (update q b (q b ++ [t])) := by
  have hnot : K.node t ∉ K.head b :: (q b).map K.node :=
    fun hmem => hout b hb (Kind.node_mem_ring.mp hmem)
  refine ⟨fun b' hb' => ?_, fun b' hb' t' ht' => ?_, fun c c' t' hc hc' hmem hmem' => ?_,
    fun t' ht' hout' => ?_⟩
  · by_cases hbb : b' = b
    · rw [hbb, update_self, map_append]
      exact (hr.ring b hb).listAddTail hnot
    · rw [update_of_ne hbb]
      -- another list has neither the new node nor a node of the list it is added to
      apply (hr.ring b' hb').congr
      intro z hz
      refine (hr.ring b hb).listAddTail_frame ?_ (hr.rings_apart hb' hb hbb hz)
      intro heq
      rw [heq] at hz
      exact hout b' hb' (Kind.node_mem_ring.mp hz)
  · rcases mem_append_update_iff.mp ht' with hmem | ⟨_, heq⟩
    · exact Or.inl (hr.mem b' hb' t' hmem)
    · exact Or.inr heq
  · -- the new object is only on the list of `b`
    rcases mem_append_update_iff.mp hmem with hin | ⟨hcb, heq⟩
    · rcases mem_append_update_iff.mp hmem' with hin' | ⟨_, heq'⟩
      · exact hr.one c c' t' hc hc' hin hin'
      · rw [heq'] at hin
        exact absurd hin (hout c hc)
    · rcases mem_append_update_iff.mp hmem' with hin' | ⟨hcb', _⟩
      · rw [heq] at hin'
        exact absurd hin' (hout c' hc')
      · rw [hcb, hcb']
  · have hne : t' ≠ t := by
      intro heq
      exact hout' b hb (mem_append_update_iff.mpr (Or.inr ⟨rfl, heq⟩))
    have hold : ∀ c, H c → t' ∉ q c :=
      fun c hc hmem => hout' c hc (mem_append_update_iff.mpr (Or.inl hmem))
    apply (hr.loose t' (ht'.resolve_right hne) hold).congr
    intro z hz
    rw [mem_singleton.mp hz]
    apply (hr.ring b hb).listAddTail_frame
    · exact fun heq => hne (K.node_inj heq)
    · exact fun hmem => hold b hb (Kind.node_mem_ring.mp hmem)

/-- `list_add_tail` of an object on no list. -/
lemma add [DecidableEq β] (hr : Rings K h H N q) (hb : H b) (ht : N t)
    (hout : ∀ b, H b → t ∉ q b) :
    Rings K (listAddTail h (K.node t) (K.head b)) H N (update q b (q b ++ [t])) := by
  have hsame : (fun t' => N t' ∨ t' = t) = N := by
    funext t'
    exact propext (or_iff_left_of_imp fun heq => heq ▸ ht)
  have hadd := hr.add_new hb hout
  rw [hsame] at hadd
  exact hadd

/-- `list_add_tail` writes nodes of the kind only. -/
lemma add_frame (hr : Rings K h H N q) (hb : H b) {z : α} (hz : ¬ K.Covers z) :
    SameAt h (listAddTail h (K.node t) (K.head b)) z := by
  apply (hr.ring b hb).listAddTail_frame
  · exact fun heq => hz (Or.inr ⟨t, heq⟩)
  · exact fun hmem => hz (Kind.covers_of_mem hmem)

variable [DecidableEq γ]

omit [DecidableEq γ] in
/-- `list_del` of an object on no list does nothing. -/
lemma del_loose (hr : Rings K h H N q) (ht : N t) (hout : ∀ b, H b → t ∉ q b) :
    listDel h (K.node t) = h := by
  have hself := (hr.loose t ht hout).seg
  exact listDel_self hself.1 hself.2

lemma map_erase_node (l : List γ) : (l.erase t).map K.node = (l.map K.node).erase (K.node t) :=
  map_erase K.node_inj l

/-- `list_del` of an object: it is on no list afterwards. -/
lemma del (hr : Rings K h H N q) (ht : N t) :
    Rings K (listDel h (K.node t)) H N fun b => (q b).erase t := by
  have hmem : ∀ b, H b → ∀ t', t' ∈ (q b).erase t ↔ t' ≠ t ∧ t' ∈ q b :=
    fun b hb t' => (hr.nodup hb).mem_erase_iff
  by_cases hon : ∃ b, H b ∧ t ∈ q b
  · rcases hon with ⟨b, hb, hin⟩
    have hnode : K.node t ∈ (q b).map K.node := Kind.node_mem_map.mpr hin
    refine ⟨fun b' hb' => ?_, fun b' hb' t' ht' => ?_, fun c c' t' hc hc' hm hm' => ?_,
      fun t' ht' hout => ?_⟩
    · by_cases hbb : b' = b
      · rw [hbb, map_erase_node]
        exact (hr.ring b hb).listDel hnode
      · rw [erase_of_not_mem fun hin' => hbb (hr.one b' b t hb' hb hin' hin)]
        apply (hr.ring b' hb').congr
        intro z hz
        exact (hr.ring b hb).listDel_frame hnode (hr.rings_apart hb' hb hbb hz)
    · exact hr.mem b' hb' t' ((hmem b' hb' t').mp ht').2
    · exact hr.one c c' t' hc hc' ((hmem c hc t').mp hm).2 ((hmem c' hc' t').mp hm').2
    · by_cases heq : t' = t
      · -- `list_del` links the node to itself
        rw [heq]
        have hself := (hr.ring b hb).listDel_self_linked hnode
        exact ⟨nodup_singleton _, hself.1, hself.2⟩
      · have hold : ∀ c, H c → t' ∉ q c :=
          fun c hc hm => hout c hc ((hmem c hc t').mpr ⟨heq, hm⟩)
        apply (hr.loose t' ht' hold).congr
        intro z hz
        rw [mem_singleton.mp hz]
        exact (hr.ring b hb).listDel_frame hnode fun hm => hold b hb (Kind.node_mem_ring.mp hm)
  · have hout : ∀ b, H b → t ∉ q b := fun b hb hin => hon ⟨b, hb, hin⟩
    rw [hr.del_loose ht hout]
    exact hr.of_eq fun b hb => erase_of_not_mem (hout b hb)

omit [DecidableEq γ] in
/-- `list_del` writes nodes of the kind only. -/
lemma del_frame (hr : Rings K h H N q) (ht : N t) {z : α} (hz : ¬ K.Covers z) :
    SameAt h (listDel h (K.node t)) z := by
  by_cases hon : ∃ b, H b ∧ t ∈ q b
  · rcases hon with ⟨b, hb, hin⟩
    apply (hr.ring b hb).listDel_frame (Kind.node_mem_map.mpr hin)
    exact fun hmem => hz (Kind.covers_of_mem hmem)
  · rw [hr.del_loose ht fun b hb hin => hon ⟨b, hb, hin⟩]
    exact ⟨rfl, rfl⟩

/-- Deleting the objects of one list, one after the other. -/
lemma clear [DecidableEq β] (hr : Rings K h H N q) (hb : H b) :
    Rings K ((q b).foldl (fun h t => listDel h (K.node t)) h) H N (update q b []) ∧
      ∀ z, ¬ K.Covers z → SameAt h ((q b).foldl (fun h t => listDel h (K.node t)) h) z := by
  -- on the list as it was: the heap and the lists change with every deletion
  generalize hts : q b = ts
  induction ts generalizing h q with
  | nil =>
    refine ⟨hr.of_eq fun b' _ => ?_, fun z _ => ⟨rfl, rfl⟩⟩
    rw [← hts, update_eq_self]
  | cons t ts ih =>
    have hin : t ∈ q b := by
      rw [hts]
      exact mem_cons_self
    have ht : N t := hr.mem b hb t hin
    rcases ih (hr.del ht) (by rw [hts, erase_cons_head]) with ⟨hrest, hframe⟩
    refine ⟨hrest.of_eq fun b' hb' => ?_, fun z hz => ?_⟩
    · by_cases hbb : b' = b
      · rw [hbb, update_self, update_self]
      · rw [update_of_ne hbb, update_of_ne hbb]
        exact (erase_of_not_mem fun hin' => hbb (hr.one b' b t hb' hb hin' hin)).symm
    · have hdel := hr.del_frame ht hz
      have hthen := hframe z hz
      exact ⟨hthen.1.trans hdel.1, hthen.2.trans hdel.2⟩

end Operations

end Rings

end LunOS.Ds
