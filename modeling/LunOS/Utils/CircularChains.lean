import LunOS.Utils.Buckets
import Mathlib.Data.List.Nodup
import Mathlib.Data.Set.Insert

/-!
# Chains that may be circular

A node that is put in front of a chain that has it closes a circle. Such a chain is no list of nodes,
but it still has beginnings, and each of its nodes hangs on a link.

- `Begins t lk l`: from the link `lk` the nodes of `l` follow in order.
- `EndlessOn next S p`: from `p` on the chain never ends, since it stays inside `S`. A node put in
  front again makes such a chain (`Leads.loop`).
- `Reached t b lk`: the link is the head of bucket `b`, or in a node of its chain.
- `TakenOut t t' lk a`: the chain of `t'` is that of `t` without `a`.
- `takenOut_unlink_iff`: unlinking takes the node out if and only if no other link of the chain
  leads to it.
-/

namespace LunOS.Buckets
open Function List

variable {α β : Type*} {t t' : Table α β} {lk lk' : Link α β} {l : List α} {a c : α} {b : β}

/-- The nodes of the list follow from the link. -/
def Begins (t : Table α β) : Link α β → List α → Prop
  | _, [] => True
  | lk, a :: l => t.read lk = some a ∧ Begins t (.next a) l

/-- The links of a bucket. -/
inductive Reached (t : Table α β) (b : β) : Link α β → Prop
  | head : Reached t b (.head b)
  | next {lk : Link α β} {a : α} (h : Reached t b lk) (ha : t.read lk = some a) :
      Reached t b (.next a)

/-- At most one link of the bucket leads to the node. -/
def OneLink (t : Table α β) (b : β) (a : α) : Prop :=
  ∀ lk lk', Reached t b lk → Reached t b lk' → t.read lk = some a → t.read lk' = some a → lk = lk'

/-- The chain from the link is in `t'` what it is in `t` without the node: it has the same beginnings
without the node. -/
def TakenOut [DecidableEq α] (t t' : Table α β) (lk : Link α β) (a : α) : Prop :=
  ∀ l', Begins t' lk l' ↔ ∃ l, Begins t lk l ∧ l.filter (· ≠ a) = l'

/-! ## Beginnings -/

/-- A beginning in two parts. -/
lemma begins_append {l' : List α} :
    Begins t lk (l ++ l') ↔ Begins t lk l ∧ Begins t (linkAfter lk l) l' := by
  induction l generalizing lk with
  | nil => exact ⟨fun h => ⟨trivial, h⟩, fun h => h.2⟩
  | cons c l ih =>
    show _ ∧ Begins t (.next c) (l ++ l') ↔ (_ ∧ Begins t (.next c) l) ∧ _
    rw [ih, and_assoc]
    rfl

/-- The node behind a beginning hangs on the link behind it. -/
lemma begins_snoc : Begins t lk (l ++ [a]) ↔ Begins t lk l ∧ t.read (linkAfter lk l) = some a := by
  rw [begins_append]
  exact and_congr_right fun _ => ⟨fun h => h.1, fun h => ⟨h, trivial⟩⟩

lemma linkAfter_snoc : linkAfter lk (l ++ [a]) = .next a := by
  induction l generalizing lk with
  | nil => rfl
  | cons c l ih => exact ih

lemma Begins.congr_read (h : Begins t lk l) (hread : t.read lk' = t.read lk) : Begins t lk' l := by
  cases l with
  | nil => exact trivial
  | cons c l => exact ⟨hread.trans h.1, h.2⟩

lemma Leads.begins {p : Option α} (h : Leads t.next p l) (hp : t.read lk = p) : Begins t lk l := by
  induction l generalizing lk p with
  | nil => exact trivial
  | cons c l ih => exact ⟨hp.trans h.1, ih h.2 rfl⟩

/-- The links of a beginning belong to the bucket. -/
lemma Begins.reached (h : Begins t lk l) (hlk : Reached t b lk) : Reached t b (linkAfter lk l) := by
  induction l generalizing lk with
  | nil => exact hlk
  | cons c l ih => exact ih h.2 (hlk.next h.1)

lemma Reached.exists_begins (h : Reached t b lk) :
    ∃ l, Begins t (.head b) l ∧ linkAfter (.head b) l = lk := by
  induction h with
  | head => exact ⟨[], trivial, rfl⟩
  | @next lk a _ ha ih =>
    obtain ⟨l, hl, hlk⟩ := ih
    exact ⟨l ++ [a], begins_snoc.mpr ⟨hl, hlk ▸ ha⟩, linkAfter_snoc⟩

/-- The nodes before `a` lead to nodes up to `a`. -/
lemma Begins.next_before {pre : List α} (h : Begins t lk (pre ++ [a])) :
    (∃ x ∈ pre ++ [a], t.read lk = some x) ∧ ∀ x ∈ pre, ∃ y ∈ pre ++ [a], t.next x = some y := by
  induction pre generalizing lk with
  | nil => exact ⟨⟨a, mem_singleton.mpr rfl, h.1⟩, fun x hx => absurd hx not_mem_nil⟩
  | cons z pre ih =>
    obtain ⟨⟨y, hy, hnext⟩, hrest⟩ := ih h.2
    refine ⟨⟨z, mem_cons_self, h.1⟩, fun x hx => ?_⟩
    rcases mem_cons.mp hx with rfl | hx
    · exact ⟨y, mem_cons_of_mem x hy, hnext⟩
    · obtain ⟨y', hy', hnext'⟩ := hrest x hx
      exact ⟨y', mem_cons_of_mem z hy', hnext'⟩

/-- A chain whose node leads to itself has no nodes behind it. -/
lemma mem_of_reached_self {pre : List α} (h : Begins t (.head b) (pre ++ [a]))
    (hself : t.next a = some a) (hlk : Reached t b lk) (hc : t.read lk = some c) :
    c ∈ pre ++ [a] := by
  obtain ⟨⟨x, hx, hhead⟩, hnext⟩ := h.next_before
  have hclosed : ∀ y ∈ pre ++ [a], ∃ z ∈ pre ++ [a], t.next y = some z := by
    intro y hy
    rcases mem_append.mp hy with hy | hy
    · exact hnext y hy
    · rw [mem_singleton.mp hy]
      exact ⟨a, mem_append_right pre mem_cons_self, hself⟩
  induction hlk generalizing c with
  | head =>
    cases hhead.symm.trans hc
    exact hx
  | next _ hy ih =>
    obtain ⟨z, hz, hnext⟩ := hclosed _ (ih hy)
    cases hnext.symm.trans hc
    exact hz

/-- The beginnings of a chain that ends are the beginnings of its list. -/
lemma Leads.begins_initial {m : List α} (h : Leads t.next (t.read lk) l) (hm : Begins t lk m) :
    m <+: l := by
  induction m generalizing lk l with
  | nil => exact nil_prefix
  | cons x m ih =>
    cases l with
    | nil => exact absurd (hm.1.symm.trans h) (by simp)
    | cons y l =>
      have hxy : x = y := Option.some.inj (hm.1.symm.trans h.1)
      rw [hxy] at hm ⊢
      have hrest : Leads t.next (t.read (.next y)) l := h.2
      exact (prefix_cons_inj y).mpr (ih hrest hm.2)

/-- In a chain that ends, one link leads to each node. -/
lemma Leads.oneLink (h : Leads t.next (t.head b) l) : OneLink t b a := by
  intro lk lk' hlk hlk' ha ha'
  obtain ⟨m, hm, rfl⟩ := hlk.exists_begins
  obtain ⟨m', hm', rfl⟩ := hlk'.exists_begins
  have hread : Leads t.next (t.read (.head b)) l := h
  obtain ⟨x, hx⟩ := hread.begins_initial (begins_snoc.mpr ⟨hm, ha⟩)
  obtain ⟨x', hx'⟩ := hread.begins_initial (begins_snoc.mpr ⟨hm', ha'⟩)
  have hnodup := h.nodup
  rw [← hx, append_assoc, singleton_append] at hnodup hx'
  rw [append_assoc, singleton_append] at hx'
  have hbefore : a ∉ m := fun hmem => disjoint_of_nodup_append hnodup hmem mem_cons_self
  have hbehind : a ∉ x := (nodup_cons.mp hnodup.of_append_right).1
  rw [((append_cons_inj_of_notMem hbefore hbehind).mp hx'.symm).1]

/-- The node itself is not among those that it hangs behind. -/
lemma linkAfter_ne_next {pre : List α} (ha : a ∉ pre) : linkAfter (.head b) pre ≠ .next a := by
  intro h
  rcases linkAfter_cases (Link.head b) pre with ⟨-, hl⟩ | ⟨x, hx, hl⟩
  · exact absurd (hl.symm.trans h) (by simp)
  · rw [Link.next.inj (hl.symm.trans h)] at hx
    exact ha hx

/-! ## Chains that do not end -/

/-- From `p` on the `next` pointers stay inside the nodes of `S`. -/
structure EndlessOn (next : α → Option α) (S : Set α) (p : Option α) : Prop where
  start : ∃ a ∈ S, p = some a
  closed : ∀ a ∈ S, ∃ c ∈ S, next a = some c

section
variable [DecidableEq α] {next : α → Option α} {p : Option α} {S : Set α}

/-- A node of a chain that is put in front of the chain again closes a circle. -/
lemma Leads.loop (h : Leads next p l) (ha : a ∈ l) :
    ∃ S ⊆ {x | x ∈ l}, EndlessOn (update next a p) S (some a) := by
  obtain ⟨pre, post, rfl⟩ := append_of_mem ha
  have hbegins : Begins ⟨fun _ : Unit => p, next⟩ (.head ()) (pre ++ a :: post) := h.begins rfl
  rw [append_cons, begins_append] at hbegins
  obtain ⟨hstart, hbefore⟩ := hbegins.1.next_before
  refine ⟨{x | x ∈ pre ++ [a]}, fun x hx => ?_, ⟨a, by simp, rfl⟩, fun x hx => ?_⟩
  · have hx' : x ∈ pre ++ [a] := hx
    rw [mem_append, mem_singleton] at hx'
    show x ∈ pre ++ a :: post
    rw [mem_append, mem_cons]
    exact hx'.imp_right Or.inl
  · by_cases hxa : x = a
    · rw [hxa, update_self]
      exact hstart
    · have hx' : x ∈ pre ++ [a] := hx
      rw [mem_append, mem_singleton] at hx'
      rw [update_of_ne hxa]
      exact hbefore x (hx'.resolve_right hxa)

/-- A node in front of a chain that does not end. -/
lemma EndlessOn.push (h : EndlessOn next S p) :
    EndlessOn (update next a p) (insert a S) (some a) := by
  refine ⟨⟨a, Set.mem_insert a S, rfl⟩, fun x hx => ?_⟩
  by_cases hxa : x = a
  · rw [hxa, update_self]
    obtain ⟨c, hc, hp⟩ := h.start
    exact ⟨c, Set.mem_insert_of_mem a hc, hp⟩
  · rw [update_of_ne hxa]
    obtain ⟨c, hc, hnext⟩ := h.closed x (Set.mem_of_mem_insert_of_ne hx hxa)
    exact ⟨c, Set.mem_insert_of_mem a hc, hnext⟩

end

/-! ## Unlinking -/

variable [DecidableEq α]

/-- A chain that the change does not touch. -/
lemma takenOut_of_same (hread : ∀ lk, Reached t b lk → t'.read lk = t.read lk)
    (ha : ∀ lk, Reached t b lk → t.read lk ≠ some a) : TakenOut t t' (.head b) a := by
  have hsame : ∀ (l : List α) {lk}, Reached t b lk →
      (Begins t' lk l ↔ Begins t lk l) ∧ (Begins t lk l → l.filter (· ≠ a) = l) := by
    intro l
    induction l with
    | nil => exact fun _ => ⟨Iff.rfl, fun _ => rfl⟩
    | cons x l ih =>
      intro lk hlk
      have hiff : Begins t' lk (x :: l) ↔ Begins t lk (x :: l) := by
        show _ ∧ _ ↔ _ ∧ _
        rw [hread lk hlk]
        exact and_congr_right fun hx => (ih (hlk.next hx)).1
      refine ⟨hiff, fun h => ?_⟩
      have hxa : x ≠ a := by
        rintro rfl
        exact ha lk hlk h.1
      rw [filter_cons_of_pos (by simpa using hxa), (ih (hlk.next h.1)).2 h.2]
  intro l'
  constructor
  · intro h
    have hl' := (hsame l' .head).1.mp h
    exact ⟨l', hl', (hsame l' .head).2 hl'⟩
  · rintro ⟨l, hl, rfl⟩
    rw [(hsame l .head).2 hl]
    exact (hsame l .head).1.mpr hl

/-- A node that is taken out is not in the new chain. -/
lemma TakenOut.not_reached (h : TakenOut t t' (.head b) a) (hlk : Reached t' b lk) :
    t'.read lk ≠ some a := by
  intro ha
  obtain ⟨l, hl, hlast⟩ := hlk.exists_begins
  obtain ⟨l₀, -, hfilter⟩ := (h (l ++ [a])).mp (begins_snoc.mpr ⟨hl, hlast ▸ ha⟩)
  have hmem : a ∈ l₀.filter (· ≠ a) := by
    rw [hfilter]
    exact mem_append_right l mem_cons_self
  exact absurd (mem_filter.mp hmem).2 (by simp)

variable [DecidableEq β]

lemma read_write_self {p : Option α} : (t.write p lk).read lk = p := by
  cases lk with
  | head b => exact update_self b p t.head
  | next c => exact update_self c p t.next

lemma read_write_of_ne {p : Option α} (h : lk' ≠ lk) : (t.write p lk).read lk' = t.read lk' := by
  cases lk with
  | head b =>
    cases lk' with
    | head b' => exact update_of_ne (fun hb => h (congrArg Link.head hb)) p t.head
    | next c => rfl
  | next c =>
    cases lk' with
    | head b' => rfl
    | next c' => exact update_of_ne (fun hc => h (congrArg Link.next hc)) p t.next

section
variable {pre : List α}

/-- Where only one link leads to the node, beginnings of the old chain are turned into beginnings of
the new one. -/
lemma OneLink.begins_unlink (hone : OneLink t b a) (h : Begins t (.head b) (pre ++ [a]))
    (ha : a ∉ pre) (hlk : Reached t b lk) (hl : Begins t lk l) :
    Begins (t.write (t.next a) (linkAfter (.head b) pre)) lk (l.filter (· ≠ a)) := by
  obtain ⟨hpre, hread⟩ := begins_snoc.mp h
  have hlink : Reached t b (linkAfter (.head b) pre) := hpre.reached .head
  induction l generalizing lk with
  | nil => exact trivial
  | cons x l ih =>
    have hrest := ih (hlk.next hl.1) hl.2
    by_cases hxa : x = a
    · -- the node is skipped: the link has what the node has
      have heq : lk = linkAfter (.head b) pre := hone _ _ hlk hlink (hxa ▸ hl.1) hread
      rw [filter_cons_of_neg (by simpa using hxa)]
      apply hrest.congr_read
      rw [heq, hxa, read_write_self, read_write_of_ne (linkAfter_ne_next ha).symm]
      rfl
    · have hne : lk ≠ linkAfter (.head b) pre := by
        rintro rfl
        exact hxa (Option.some.inj (hl.1.symm.trans hread))
      rw [filter_cons_of_pos (by simpa using hxa)]
      exact ⟨(read_write_of_ne hne).trans hl.1, hrest⟩

/-- And every beginning of the new chain comes from one of the old chain. -/
lemma OneLink.begins_of_unlink (hone : OneLink t b a) (h : Begins t (.head b) (pre ++ [a]))
    (ha : a ∉ pre) (hlk : Reached t b lk)
    (hl : Begins (t.write (t.next a) (linkAfter (.head b) pre)) lk l) :
    ∃ l₀, Begins t lk l₀ ∧ l₀.filter (· ≠ a) = l := by
  obtain ⟨hpre, hread⟩ := begins_snoc.mp h
  have hlink : Reached t b (linkAfter (.head b) pre) := hpre.reached .head
  induction l generalizing lk with
  | nil => exact ⟨[], trivial, rfl⟩
  | cons x l ih =>
    by_cases heq : lk = linkAfter (.head b) pre
    · have hnext : t.next a = some x := by
        rw [← hl.1, heq, read_write_self]
      have hafter : Reached t b (.next a) := hlink.next hread
      have hxa : x ≠ a := by
        rintro rfl
        exact linkAfter_ne_next ha (hone _ _ hlink hafter hread hnext)
      obtain ⟨l₀, hl₀, hfilter⟩ := ih (hafter.next hnext) hl.2
      refine ⟨a :: x :: l₀, ⟨heq ▸ hread, hnext, hl₀⟩, ?_⟩
      rw [filter_cons_of_neg (by simp), filter_cons_of_pos (by simpa using hxa), hfilter]
    · have hx : t.read lk = some x := (read_write_of_ne heq).symm.trans hl.1
      have hxa : x ≠ a := by
        rintro rfl
        exact heq (hone _ _ hlk hlink hx hread)
      obtain ⟨l₀, hl₀, hfilter⟩ := ih (hlk.next hx) hl.2
      refine ⟨x :: l₀, ⟨hx, hl₀⟩, ?_⟩
      rw [filter_cons_of_pos (by simpa using hxa), hfilter]

lemma filter_eq_self_of_notMem (ha : a ∉ l) : l.filter (· ≠ a) = l := by
  rw [filter_eq_self]
  intro x hx
  have hne : x ≠ a := fun h => ha (h ▸ hx)
  simpa using hne

/-- If the node is taken out, then it hung on the link that was written only. -/
lemma TakenOut.oneLink (hout : TakenOut t (t.write (t.next a) (linkAfter (.head b) pre)) (.head b) a)
    (h : Begins t (.head b) (pre ++ [a])) (ha : a ∉ pre) : OneLink t b a := by
  obtain ⟨-, hread⟩ := begins_snoc.mp h
  have hpre : Begins (t.write (t.next a) (linkAfter (.head b) pre)) (.head b) pre := by
    apply (hout pre).mpr
    refine ⟨pre ++ [a], h, ?_⟩
    rw [filter_append, filter_eq_self_of_notMem ha]
    simp
  have hlink := hpre.reached .head
  -- the links of the old chain are in the new one, but the one in the node
  have hkept : ∀ {lk}, Reached t b lk →
      Reached (t.write (t.next a) (linkAfter (.head b) pre)) b lk ∨ lk = .next a := by
    intro lk hlk
    induction hlk with
    | head => exact Or.inl .head
    | @next lk x _ hx ih =>
      by_cases heq : lk = linkAfter (.head b) pre
      · right
        rw [heq, hread] at hx
        rw [Option.some.inj hx]
      · left
        rcases ih with hlk | rfl
        · exact hlk.next ((read_write_of_ne heq).trans hx)
        · exact hlink.next (read_write_self.trans hx)
  have honly : ∀ {lk}, Reached t b lk → t.read lk = some a → lk = linkAfter (.head b) pre := by
    intro lk hlk hlka
    by_contra hne
    rcases hkept hlk with hlk' | rfl
    · exact hout.not_reached hlk' ((read_write_of_ne hne).trans hlka)
    · exact hout.not_reached hlink (read_write_self.trans hlka)
  intro lk lk' hlk hlk' hlka hlka'
  rw [honly hlk hlka, honly hlk' hlka']

/-- Unlinking a node where it hangs first takes it out of its chain if and only if it hangs on this
link only. -/
lemma takenOut_unlink_iff (h : Begins t (.head b) (pre ++ [a])) (ha : a ∉ pre) :
    TakenOut t (t.write (t.next a) (linkAfter (.head b) pre)) (.head b) a ↔ OneLink t b a := by
  refine ⟨fun hout => hout.oneLink h ha, fun hone l' => ⟨hone.begins_of_unlink h ha .head, ?_⟩⟩
  rintro ⟨l, hl, rfl⟩
  exact hone.begins_unlink h ha .head hl

/-- Unlinking another node that hangs before `a` does not take out `a`. -/
lemma not_takenOut_unlink {d : α} (h : Begins t (.head b) (pre ++ [d])) (ha : a ∉ pre) (hne : d ≠ a)
    (hlk : Reached t b lk) (hlka : t.read lk = some a) :
    ¬TakenOut t (t.write (t.next d) (linkAfter (.head b) pre)) (.head b) a := by
  intro hout
  have hmem : a ∉ pre ++ [d] := by
    rw [mem_append, mem_singleton]
    exact fun h => h.elim ha fun had => hne had.symm
  -- the other node is still at its place, so it leads to itself
  have hstill := (hout (pre ++ [d])).mpr ⟨pre ++ [d], h, filter_eq_self_of_notMem hmem⟩
  have hself : t.next d = some d := by
    have hread := (begins_snoc.mp hstill).2
    rw [read_write_self] at hread
    exact hread
  exact hmem (mem_of_reached_self h hself hlk hlka)

end

end LunOS.Buckets
