import Mathlib.Data.List.Basic
import Mathlib.Logic.Function.Basic
import Mathlib.Logic.Relation

/-!
# Hash tables with intrusive chains

Every bucket has a pointer to its first node, and every node a pointer to the next one. The two
kinds of pointers are the links that a node can hang on.

- `Leads next p l`: from the pointer `p` the nodes of `l` follow in order, then the chain ends. Such
  a chain has no node twice (`Leads.nodup`).
- `Chained t chain`: bucket `b` holds the nodes `chain b`, and no node is in two buckets.
- A new node at the head of a bucket (`Chained.push`), and a node taken out by the link it hangs on
  (`Chained.unlink`).
-/

namespace LunOS.Buckets
open Function List

variable {α β : Type*}

/-- Chains of nodes that start at buckets. -/
structure Table (α β : Type*) where
  head : β → Option α
  next : α → Option α

/-- Where a pointer to a node is stored. -/
inductive Link (α β : Type*)
  | head (b : β)
  | next (a : α)

/-- The node that a link points to. -/
def Table.read (t : Table α β) : Link α β → Option α
  | .head b => t.head b
  | .next a => t.next a

/-- A link is set. -/
def Table.write [DecidableEq α] [DecidableEq β] (t : Table α β) (p : Option α) :
    Link α β → Table α β
  | .head b => { t with head := update t.head b p }
  | .next a => { t with next := update t.next a p }

/-- The link that the node behind these nodes hangs on. -/
def linkAfter : Link α β → List α → Link α β
  | cur, [] => cur
  | _, a :: l => linkAfter (.next a) l

/-! ## Chains -/

/-- The `next` pointers lead from `p` through the nodes of the list, then to the end. -/
def Leads (next : α → Option α) : Option α → List α → Prop
  | p, [] => p = none
  | p, a :: l => p = some a ∧ Leads next (next a) l

variable {next next' : α → Option α} {p : Option α} {l l' : List α}

/-- Only the links of the list matter. -/
lemma Leads.congr (h : Leads next p l) (hn : ∀ a ∈ l, next' a = next a) : Leads next' p l := by
  induction l generalizing p with
  | nil => exact h
  | cons a l ih =>
    obtain ⟨hp, hl⟩ := h
    constructor
    · exact hp
    · rw [hn a mem_cons_self]
      exact ih hl fun c hc => hn c (mem_cons_of_mem a hc)

/-- A pointer leads along one list only. -/
lemma Leads.unique (h : Leads next p l) (h' : Leads next p l') : l = l' := by
  induction l generalizing p l' with
  | nil =>
    cases l' with
    | nil => rfl
    | cons a l' => exact absurd (h.symm.trans h'.1) (by simp)
  | cons a l ih =>
    cases l' with
    | nil => exact absurd (h'.symm.trans h.1) (by simp)
    | cons a' l' =>
      have ha : a = a' := Option.some.inj (h.1.symm.trans h'.1)
      rw [← ha] at h' ⊢
      rw [ih h.2 h'.2]

variable {pre post : List α} {a : α}

/-- From a node of the chain the rest follows. -/
lemma Leads.suffix (h : Leads next p (pre ++ a :: post)) :
    Leads next (some a) (a :: post) := by
  induction pre generalizing p with
  | nil => exact ⟨rfl, h.2⟩
  | cons c pre ih => exact ih h.2

/-- A chain that ends has no node twice: behind both places the same list would follow. -/
lemma Leads.nodup (h : Leads next p l) : l.Nodup := by
  induction l generalizing p with
  | nil => exact nodup_nil
  | cons a l ih =>
    apply nodup_cons.mpr
    constructor
    · intro ha
      obtain ⟨pre, post, hl⟩ := append_of_mem ha
      have hfirst : Leads next (some a) (a :: l) := ⟨rfl, h.2⟩
      have hsecond : Leads next (some a) (a :: post) := by
        have hrest : Leads next (next a) (pre ++ a :: post) := hl ▸ h.2
        exact hrest.suffix
      have hlen := congrArg List.length (hfirst.unique hsecond)
      rw [hl] at hlen
      simp only [length_cons, length_append] at hlen
      omega
    · exact ih h.2

/-- A node that points to itself leads nowhere. -/
lemma not_leads_of_self (ha : next a = some a) : ¬Leads next (some a) l := by
  intro h
  induction l with
  | nil => exact absurd h (by simp [Leads])
  | cons c l ih =>
    have hc : a = c := Option.some.inj h.1
    have hl : Leads next (next a) l := hc ▸ h.2
    rw [ha] at hl
    exact ih hl

/-- Every node of the chain can be reached from the first one. -/
lemma Leads.reaches (h : Leads next p l) (ha : a ∈ l) :
    ∃ c, p = some c ∧ Relation.ReflTransGen (fun x y => next x = some y) c a := by
  induction l generalizing p with
  | nil => exact absurd ha not_mem_nil
  | cons c l ih =>
    refine ⟨c, h.1, ?_⟩
    rcases mem_cons.mp ha with rfl | ha
    · exact .refl
    · obtain ⟨c', hc', hreach⟩ := ih h.2 ha
      exact .head hc' hreach

/-! ## Tables -/

/-- The buckets hold these chains, and no node is in two of them. -/
structure Chained (t : Table α β) (chain : β → List α) : Prop where
  leads : ∀ b, Leads t.next (t.head b) (chain b)
  disjoint : ∀ {a b b'}, a ∈ chain b → a ∈ chain b' → b = b'

variable {t t' : Table α β} {chain : β → List α} {a : α} {b : β}

lemma chained_empty (hhead : ∀ b, t.head b = none) : Chained t fun _ => [] :=
  ⟨hhead, fun ha => absurd ha not_mem_nil⟩

/-- Only the heads and the links of nodes in the table matter. -/
lemma Chained.congr (h : Chained t chain) (hhead : ∀ b, t'.head b = t.head b)
    (hnext : ∀ b, ∀ a ∈ chain b, t'.next a = t.next a) : Chained t' chain := by
  constructor
  · intro b
    rw [hhead b]
    exact (h.leads b).congr (hnext b)
  · exact h.disjoint

/-- The link behind some nodes is in one of them, or it is the one before them. -/
lemma linkAfter_cases (cur : Link α β) (l : List α) :
    (l = [] ∧ linkAfter cur l = cur) ∨ ∃ a ∈ l, linkAfter cur l = .next a := by
  induction l generalizing cur with
  | nil => exact Or.inl ⟨rfl, rfl⟩
  | cons c l ih =>
    right
    obtain ⟨_, hcur⟩ | ⟨a, ha, hcur⟩ := ih (.next c)
    · exact ⟨c, mem_cons_self, hcur⟩
    · exact ⟨a, mem_cons_of_mem c ha, hcur⟩

lemma mem_update_chain [DecidableEq β] {c : α} {b' : β} :
    c ∈ update chain b l b' ↔ (b' = b ∧ c ∈ l) ∨ (b' ≠ b ∧ c ∈ chain b') := by
  by_cases hb : b' = b
  · rw [hb, update_self]
    simp
  · rw [update_of_ne hb]
    simp [hb]

variable [DecidableEq α] [DecidableEq β]

/-- A node from outside is linked in at the head of a bucket. -/
lemma Chained.push (h : Chained t chain) (ha : ∀ b, a ∉ chain b) :
    Chained ⟨update t.head b (some a), update t.next a (t.head b)⟩
      (update chain b (a :: chain b)) := by
  -- the chains that were there do not see the new link
  have hold : ∀ b', Leads (update t.next a (t.head b)) (t.head b') (chain b') := by
    intro b'
    apply (h.leads b').congr
    intro c hc
    rw [update_of_ne]
    rintro rfl
    exact ha b' hc
  constructor
  · intro b'
    by_cases hb : b' = b
    · rw [hb, update_self]
      constructor
      · exact update_self b (some a) t.head
      · show Leads _ (update t.next a (t.head b) a) (chain b)
        rw [update_self]
        exact hold b
    · rw [update_of_ne hb]
      show Leads _ (update t.head b (some a) b') (chain b')
      rw [update_of_ne hb]
      exact hold b'
  · intro c b₁ b₂ h₁ h₂
    rw [mem_update_chain, mem_cons] at h₁ h₂
    obtain ⟨hb₁, hc₁⟩ | ⟨hb₁, hc₁⟩ := h₁
    · obtain ⟨hb₂, _⟩ | ⟨hb₂, hc₂⟩ := h₂
      · rw [hb₁, hb₂]
      · obtain hca | hc₁ := hc₁
        · exact absurd (hca ▸ hc₂) (ha b₂)
        · exact absurd (h.disjoint hc₂ hc₁) hb₂
    · obtain ⟨hb₂, hc₂⟩ | ⟨_, hc₂⟩ := h₂
      · obtain hca | hc₂ := hc₂
        · exact absurd (hca ▸ hc₁) (ha b₁)
        · exact absurd (h.disjoint hc₁ hc₂) hb₁
      · exact h.disjoint hc₁ hc₂

/-- Writing the link that a node hangs on takes the node out of the chain. The induction follows
the nodes before it. -/
lemma leads_unlink {cur : Link α β} (h : Leads t.next (t.read cur) (pre ++ a :: post))
    (hcur : ∀ c, cur = .next c → c ∉ pre ++ a :: post) :
    Leads (t.write (t.next a) (linkAfter cur pre)).next
      ((t.write (t.next a) (linkAfter cur pre)).read cur) (pre ++ post) := by
  induction pre generalizing cur with
  | nil =>
    have hread : (t.write (t.next a) cur).read cur = t.next a := by
      cases cur with
      | head b => exact update_self b _ t.head
      | next c => exact update_self c _ t.next
    show Leads (t.write (t.next a) cur).next ((t.write (t.next a) cur).read cur) post
    rw [hread]
    apply h.2.congr
    intro c hc
    cases cur with
    | head b => rfl
    | next x =>
      apply update_of_ne
      rintro rfl
      exact hcur c rfl (mem_cons_of_mem a hc)
  | cons x pre ih =>
    have hnodup := (nodup_cons.mp h.nodup).1
    have hx : ∀ c, (Link.next x : Link α β) = .next c → c ∉ pre ++ a :: post := by
      intro c hc
      rw [← Link.next.inj hc]
      exact hnodup
    -- the link that is written lies behind `cur`
    obtain ⟨y, hy, hlink⟩ : ∃ y ∈ x :: pre, linkAfter (Link.next (β := β) x) pre = .next y := by
      obtain ⟨_, hl⟩ | ⟨y, hy, hl⟩ := linkAfter_cases (Link.next (β := β) x) pre
      · exact ⟨x, mem_cons_self, hl⟩
      · exact ⟨y, mem_cons_of_mem x hy, hl⟩
    constructor
    · show (t.write (t.next a) (linkAfter (.next x) pre)).read cur = some x
      rw [hlink, ← h.1]
      cases cur with
      | head b => rfl
      | next c =>
        apply update_of_ne
        rintro rfl
        exact hcur c rfl (mem_append_left (a :: post) hy)
    · exact ih h.2 hx

/-- A node is taken out of its bucket by the link it hangs on. -/
lemma Chained.unlink (h : Chained t chain) (hb : chain b = pre ++ a :: post) :
    Chained (t.write (t.next a) (linkAfter (.head b) pre))
      (update chain b (pre ++ post)) := by
  have hsub : ∀ {c b'}, c ∈ update chain b (pre ++ post) b' → c ∈ chain b' := by
    intro c b' hc
    rw [mem_update_chain] at hc
    obtain ⟨rfl, hc⟩ | ⟨_, hc⟩ := hc
    · rw [hb]
      exact mem_append.mpr ((mem_append.mp hc).imp_right (mem_cons_of_mem a))
    · exact hc
  constructor
  · intro b'
    by_cases hbb : b' = b
    · rw [hbb, update_self]
      have hread : Leads t.next (t.read (.head b)) (pre ++ a :: post) := hb ▸ h.leads b
      apply leads_unlink hread
      intro c hc
      cases hc
    · -- the other buckets keep their heads and links
      rw [update_of_ne hbb]
      obtain ⟨_, hlink⟩ | ⟨y, hy, hlink⟩ := linkAfter_cases (Link.head (α := α) b) pre
      · rw [hlink]
        show Leads t.next (update t.head b (t.next a) b') (chain b')
        rw [update_of_ne hbb]
        exact h.leads b'
      · rw [hlink]
        apply (h.leads b').congr
        intro c hc
        apply update_of_ne
        rintro rfl
        have hcb : c ∈ chain b := by
          rw [hb]
          exact mem_append_left _ hy
        exact hbb (h.disjoint hc hcb)
  · intro c b₁ b₂ h₁ h₂
    exact h.disjoint (hsub h₁) (hsub h₂)

end LunOS.Buckets
