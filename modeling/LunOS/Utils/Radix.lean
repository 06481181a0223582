import Mathlib.Data.Finset.Card
import Mathlib.Data.List.Induction
import Mathlib.Data.Set.Lattice
import Mathlib.Order.CompletePartialOrder

/-!
# Radix trees in memory

A table is an array of entries, an entry may point to a further table, and a path of indices leads
from a root to a table. Tables of depth `d` have values for entries. Only the part of the root with
indices in `top` belongs to the tree.

- `IsTree`: different paths lead to different tables.
- `IsTree.tableAt_write`: a write to a table of depth `d` moves no table.
- `Linked`: an empty table linked into an entry without a child becomes the table at that entry's
  path (`Linked.tables_eq`) and changes no value (`Linked.leaf_eq`).
- `missing`: how many paths of a set lead to no table, and `Opened`: they do after a change.
-/

namespace LunOS.Radix
open List Set

variable {F ι E V : Type*}

section
variable (child : E → Option F) (value : E → Option V) (mem : F → ι → E) (root : F)

/-- The table that a path leads to. -/
def tableAt (p : List ι) : Option F := p.foldlM (fun f i => child (mem f i)) root

/-- The value in entry `i` of the table that a path leads to. -/
def leaf (p : List ι) (i : ι) : Option V := (tableAt child mem root p).bind fun f => value (mem f i)

/-- The path starts in the part `top` of the root. -/
def Within (top : Set ι) (p : List ι) : Prop := ∀ i ∈ p.head?, i ∈ top

/-- The tables of the tree down to depth `d`. -/
def tables (top : Set ι) (d : ℕ) : Set F :=
  {f | ∃ p, p.length ≤ d ∧ Within top p ∧ tableAt child mem root p = some f}

/-- The entries of the tables above depth `d`. -/
def slots (top : Set ι) (d : ℕ) : Set (F × ι) :=
  {x | ∃ p, p.length < d ∧ Within top (p ++ [x.2]) ∧ tableAt child mem root p = some x.1}

/-- Different paths lead to different tables. -/
def IsTree (top : Set ι) (d : ℕ) : Prop :=
  ∀ p q f, p.length ≤ d → q.length ≤ d → Within top p → Within top q →
    tableAt child mem root p = some f → tableAt child mem root q = some f → p = q

end

variable {child : E → Option F} {value : E → Option V} {mem mem' : F → ι → E} {root f g : F}
variable {top : Set ι} {d : ℕ} {p q : List ι} {i j : ι}

/-! ## Paths -/

@[simp] lemma tableAt_nil : tableAt child mem root [] = some root := rfl

/-- A path in two parts. -/
lemma tableAt_append (p q : List ι) :
    tableAt child mem root (p ++ q) =
      (tableAt child mem root p).bind fun f => tableAt child mem f q := by
  unfold tableAt
  rw [foldlM_append]
  rfl

@[simp] lemma tableAt_cons (i : ι) (p : List ι) :
    tableAt child mem root (i :: p) = (child (mem root i)).bind fun f => tableAt child mem f p := by
  unfold tableAt
  rw [foldlM_cons]
  rfl

lemma tableAt_concat (p : List ι) (i : ι) :
    tableAt child mem root (p ++ [i]) =
      (tableAt child mem root p).bind fun f => child (mem f i) := by
  rw [tableAt_append]
  simp

lemma Within.left (h : Within top (p ++ q)) : Within top p := by
  intro i hi
  apply h
  rw [Option.mem_def] at hi ⊢
  rw [List.head?_append, hi, Option.some_or]

lemma within_nil : Within top ([] : List ι) := fun _ hi => absurd hi (by simp)

lemma within_cons : Within top (i :: p) ↔ i ∈ top := by
  simp [Within]

lemma root_mem_tables : root ∈ tables child mem root top d :=
  ⟨[], Nat.zero_le _, within_nil, rfl⟩

lemma mem_tables_of_slots {x : F × ι} (h : x ∈ slots child mem root top (d + 1)) :
    x.1 ∈ tables child mem root top d := by
  rcases h with ⟨p, hlen, hin, hp⟩
  exact ⟨p, Nat.lt_succ_iff.mp hlen, hin.left, hp⟩

lemma slots_mono {e : ℕ} (h : d ≤ e) {x : F × ι} (hx : x ∈ slots child mem root top d) :
    x ∈ slots child mem root top e := by
  rcases hx with ⟨p, hlen, hin, hp⟩
  exact ⟨p, lt_of_lt_of_le hlen h, hin, hp⟩

/-! ## Memory that agrees on the tree -/

/-- Only the slots on the way matter. -/
lemma tableAt_congr (h : ∀ x ∈ slots child mem root top d, mem' x.1 x.2 = mem x.1 x.2)
    (hlen : p.length ≤ d) (hin : Within top p) :
    tableAt child mem' root p = tableAt child mem root p := by
  induction p using List.reverseRecOn with
  | nil => rfl
  | append_singleton p i ih =>
    rw [length_append, length_singleton] at hlen
    rw [tableAt_concat, tableAt_concat, ih (by omega) hin.left]
    cases hp : tableAt child mem root p with
    | none => rfl
    | some f =>
      show child (mem' f i) = child (mem f i)
      rw [h (f, i) ⟨p, by omega, hin, hp⟩]

/-- A leaf depends on its way. -/
lemma leaf_congr (h : ∀ x ∈ slots child mem root top (d + 1), mem' x.1 x.2 = mem x.1 x.2)
    (hlen : p.length ≤ d) (hin : Within top (p ++ [i])) :
    leaf child value mem' root p i = leaf child value mem root p i := by
  unfold leaf
  rw [tableAt_congr (fun x hx => h x (slots_mono (Nat.le_succ d) hx)) hlen hin.left]
  cases hp : tableAt child mem root p with
  | none => rfl
  | some f =>
    show value (mem' f i) = value (mem f i)
    rw [h (f, i) ⟨p, by omega, hin, hp⟩]

/-- Only the slots of the tree matter. -/
lemma tables_congr (h : ∀ x ∈ slots child mem root top d, mem' x.1 x.2 = mem x.1 x.2) :
    tables child mem' root top d = tables child mem root top d := by
  ext f
  constructor
  · intro ⟨p, hlen, hin, hp⟩
    exact ⟨p, hlen, hin, by rw [← tableAt_congr h hlen hin, hp]⟩
  · intro ⟨p, hlen, hin, hp⟩
    exact ⟨p, hlen, hin, by rw [tableAt_congr h hlen hin, hp]⟩

/-- The tree depends on its slots. -/
lemma IsTree.congr (ht : IsTree child mem root top d)
    (h : ∀ x ∈ slots child mem root top d, mem' x.1 x.2 = mem x.1 x.2) :
    IsTree child mem' root top d := by
  intro p q f hp hq hin hin' hpf hqf
  rw [tableAt_congr h hp hin] at hpf
  rw [tableAt_congr h hq hin'] at hqf
  exact ht p q f hp hq hin hin' hpf hqf

/-- Memory that agrees where a path passes leads the same way. -/
lemma tableAt_congr_walk (h : ∀ q j r g, p = q ++ j :: r → tableAt child mem root q = some g →
    mem' g j = mem g j) : tableAt child mem' root p = tableAt child mem root p := by
  induction p generalizing root with
  | nil => rfl
  | cons i p ih =>
    rw [tableAt_cons, tableAt_cons, h [] i p root rfl rfl]
    cases hg : child (mem root i) with
    | none => rfl
    | some g =>
      refine ih fun q j r x hp hx => h (i :: q) j r x (by rw [hp, cons_append]) ?_
      rw [tableAt_cons, hg]
      exact hx

lemma leaf_congr_walk (h : ∀ q j r g, p ++ [i] = q ++ j :: r →
    tableAt child mem root q = some g → mem' g j = mem g j) :
    leaf child value mem' root p i = leaf child value mem root p i := by
  unfold leaf
  rw [tableAt_congr_walk fun q j r g hp => h q j (r ++ [i]) g (by simp [hp])]
  cases hp : tableAt child mem root p with
  | none => rfl
  | some f =>
    show value (mem' f i) = value (mem f i)
    rw [h p i [] f rfl hp]

/-! ## The trees below a table -/

lemma within_univ (p : List ι) : Within Set.univ p := fun _ _ => mem_univ _

/-- The tables of a tree are its root and the tables of the trees below it. -/
lemma mem_tables_succ : f ∈ tables child mem root top (d + 1) ↔
    f = root ∨ ∃ i ∈ top, ∃ g, child (mem root i) = some g ∧ f ∈ tables child mem g Set.univ d := by
  constructor
  · intro ⟨p, hlen, hin, hp⟩
    cases p with
    | nil => exact Or.inl (Option.some.inj hp).symm
    | cons i p =>
      rw [tableAt_cons] at hp
      rcases Option.bind_eq_some_iff.mp hp with ⟨g, hg, hpg⟩
      rw [length_cons] at hlen
      exact Or.inr ⟨i, within_cons.mp hin, g, hg, p, by omega, within_univ p, hpg⟩
  · intro hf
    rcases hf with hf | ⟨i, hi, g, hg, p, hlen, -, hp⟩
    · rw [hf]
      exact root_mem_tables
    · refine ⟨i :: p, ?_, within_cons.mpr hi, ?_⟩
      · rw [length_cons]
        omega
      · rw [tableAt_cons, hg]
        exact hp

lemma tables_zero : tables child mem root top 0 = {root} := by
  ext f
  constructor
  · intro ⟨p, hlen, _, hp⟩
    rw [length_eq_zero_iff.mp (Nat.le_zero.mp hlen)] at hp
    exact (Option.some.inj hp).symm
  · intro hf
    rw [mem_singleton_iff.mp hf]
    exact root_mem_tables

lemma IsTree.mono (ht : IsTree child mem root top d) {top' : Set ι} (hsub : top' ⊆ top) :
    IsTree child mem root top' d :=
  fun p q f hp hq hin hin' => ht p q f hp hq (fun i hi => hsub (hin i hi)) fun i hi =>
    hsub (hin' i hi)

section
variable (ht : IsTree child mem root top (d + 1)) (hi : i ∈ top) (hg : child (mem root i) = some g)
include ht hi hg

lemma IsTree.below : IsTree child mem g Set.univ d := by
  intro p q f hp hq _ _ hpf hqf
  have heq : i :: p = i :: q := by
    apply ht (i :: p) (i :: q) f
    · rw [length_cons]
      omega
    · rw [length_cons]
      omega
    · exact within_cons.mpr hi
    · exact within_cons.mpr hi
    · rw [tableAt_cons, hg]
      exact hpf
    · rw [tableAt_cons, hg]
      exact hqf
  exact (List.cons.inj heq).2

/-- A table below one entry is the end of paths through this entry only. -/
lemma IsTree.path_of_below (hf : f ∈ tables child mem g Set.univ d) (hlen : q.length ≤ d + 1)
    (hin : Within top q) (hq : tableAt child mem root q = some f) : ∃ r, q = i :: r := by
  rcases hf with ⟨p, hp, -, hpf⟩
  refine ⟨p, ht q (i :: p) f hlen ?_ hin (within_cons.mpr hi) hq ?_⟩
  · rw [length_cons]
    omega
  · rw [tableAt_cons, hg]
    exact hpf

end

/-- A tree with one more entry of the root, which leads to a subtree. -/
lemma tables_insert (hg : child (mem root i) = some g) :
    tables child mem root (insert i top) (d + 1) =
      tables child mem g Set.univ d ∪ tables child mem root top (d + 1) := by
  ext f
  rw [mem_union, mem_tables_succ, mem_tables_succ]
  constructor
  · rintro (hf | ⟨j, hj, g', hg', hf⟩)
    · exact Or.inr (Or.inl hf)
    · rcases mem_insert_iff.mp hj with hj | hj
      · rw [hj, hg] at hg'
        cases hg'
        exact Or.inl hf
      · exact Or.inr (Or.inr ⟨j, hj, g', hg', hf⟩)
  · rintro (hf | hf | ⟨j, hj, hf⟩)
    · exact Or.inr ⟨i, mem_insert i top, g, hg, hf⟩
    · exact Or.inl hf
    · exact Or.inr ⟨j, mem_insert_of_mem i hj, hf⟩

lemma tables_insert_none (hnone : child (mem root i) = none) :
    tables child mem root (insert i top) (d + 1) = tables child mem root top (d + 1) := by
  ext f
  rw [mem_tables_succ, mem_tables_succ]
  refine or_congr_right ⟨?_, ?_⟩
  · rintro ⟨j, hj, g', hg', hf⟩
    rcases mem_insert_iff.mp hj with hj | hj
    · rw [hj, hnone] at hg'
      cases hg'
    · exact ⟨j, hj, g', hg', hf⟩
  · rintro ⟨j, hj, hf⟩
    exact ⟨j, mem_insert_of_mem i hj, hf⟩

/-- What lies below an entry of the root is not reached through the others. -/
lemma IsTree.notMem_below (ht : IsTree child mem root (insert i top) (d + 1)) (hi : i ∉ top)
    (hg : child (mem root i) = some g) (hf : f ∈ tables child mem root top (d + 1)) :
    f ∉ tables child mem g Set.univ d := by
  intro hbelow
  rcases hf with ⟨q, hlen, hin, hq⟩
  rcases ht.path_of_below (mem_insert i top) hg hbelow hlen
    (fun j hj => mem_insert_of_mem i (hin j hj)) hq with ⟨r, hr⟩
  rw [hr] at hin
  exact hi (within_cons.mp hin)

/-! ## Writing a value -/

/-- A write to a table of depth `d` moves no table. -/
lemma IsTree.tableAt_write (ht : IsTree child mem root top d)
    (hp : tableAt child mem root p = some f) (hlen : p.length = d) (hin : Within top p)
    (hmem : ∀ x ∈ slots child mem root top (d + 1), x ≠ (f, i) → mem' x.1 x.2 = mem x.1 x.2) :
    ∀ x ∈ slots child mem root top d, mem' x.1 x.2 = mem x.1 x.2 := by
  intro x hx
  refine hmem x (slots_mono (Nat.le_succ d) hx) fun heq => ?_
  rcases hx with ⟨q, hq, hqin, hqx⟩
  rw [heq] at hqx
  have hpq : q = p := ht q p f (by omega) (by omega) hqin.left hin hqx hp
  rw [hpq] at hq
  omega

/-- A write to a table of depth `d` changes one value. -/
lemma IsTree.leaf_write (ht : IsTree child mem root top d) (hp : tableAt child mem root p = some f)
    (hlen : p.length = d) (hin : Within top p)
    (hmem : ∀ x ∈ slots child mem root top (d + 1), x ≠ (f, i) → mem' x.1 x.2 = mem x.1 x.2)
    (hq : q.length = d) (hqin : Within top (q ++ [j])) (hne : ¬(q = p ∧ j = i)) :
    leaf child value mem' root q j = leaf child value mem root q j := by
  unfold leaf
  rw [tableAt_congr (ht.tableAt_write hp hlen hin hmem) hq.le hqin.left]
  cases hqf : tableAt child mem root q with
  | none => rfl
  | some g =>
    show value (mem' g j) = value (mem g j)
    rw [hmem (g, j) ⟨q, by omega, hqin, hqf⟩]
    intro heq
    rw [Prod.mk.injEq] at heq
    rw [heq.1] at hqf
    exact hne ⟨ht q p f (by omega) (by omega) hqin.left hin hqf hp, heq.2⟩

/-! ## Linking a table -/

/-- The empty table `g` was linked into entry `i` of the table `f` at path `p`. -/
structure Linked (child : E → Option F) (value : E → Option V) (mem mem' : F → ι → E) (root : F)
    (top : Set ι) (d : ℕ) (p : List ι) (f : F) (i : ι) (g : F) : Prop where
  path : tableAt child mem root p = some f
  length : p.length < d
  within : Within top (p ++ [i])
  absent : child (mem f i) = none
  target : child (mem' f i) = some g
  fresh : g ∉ tables child mem root top d
  empty : ∀ j, child (mem' g j) = none
  blank : ∀ j, value (mem' g j) = none
  same : ∀ x ∈ slots child mem root top (d + 1), x ≠ (f, i) → mem' x.1 x.2 = mem x.1 x.2

namespace Linked

section
variable (h : Linked child value mem mem' root top d p f i g)
include h

/-- Paths that do not go through the new link lead where they led. -/
lemma tableAt_off (ht : IsTree child mem root top d) (hlen : q.length ≤ d) (hin : Within top q)
    (hoff : ¬p ++ [i] <+: q) : tableAt child mem' root q = tableAt child mem root q := by
  induction q using List.reverseRecOn with
  | nil => rfl
  | append_singleton q j ih =>
    rw [length_append, length_singleton] at hlen
    have hoff' : ¬p ++ [i] <+: q := fun hpre => hoff (hpre.trans (prefix_append q [j]))
    rw [tableAt_concat, tableAt_concat, ih (by omega) hin.left hoff']
    cases hq : tableAt child mem root q with
    | none => rfl
    | some k =>
      show child (mem' k j) = child (mem k j)
      rw [h.same (k, j) ⟨q, by omega, hin, hq⟩]
      intro heq
      rw [Prod.mk.injEq] at heq
      rw [heq.1] at hq
      have hqp : q = p := ht q p f (by omega) h.length.le hin.left h.within.left hq h.path
      rw [hqp, heq.2] at hoff
      exact hoff (prefix_refl _)

/-- The new table is found. -/
lemma tableAt_new (ht : IsTree child mem root top d) :
    tableAt child mem' root (p ++ [i]) = some g := by
  have hoff : ¬p ++ [i] <+: p := by
    intro hpre
    have := hpre.length_le
    rw [length_append, length_singleton] at this
    omega
  rw [tableAt_concat, h.tableAt_off ht h.length.le h.within.left hoff, h.path]
  exact h.target

lemma tableAt_below (ht : IsTree child mem root top d) (j : ι) (q : List ι) :
    tableAt child mem' root (p ++ [i] ++ j :: q) = none := by
  rw [tableAt_append, h.tableAt_new ht, Option.bind_some, tableAt_cons, h.empty j]
  rfl

/-- Before the link no path led through the entry. -/
lemma tableAt_before (q : List ι) : tableAt child mem root (p ++ [i] ++ q) = none := by
  rw [tableAt_append, tableAt_concat, h.path, Option.bind_some, h.absent]
  rfl

section
variable (ht : IsTree child mem root top d)
include ht

/-- Where a path leads after the link. -/
lemma tableAt_cases (hlen : q.length ≤ d) (hin : Within top q) {k : F}
    (hq : tableAt child mem' root q = some k) :
    (q = p ++ [i] ∧ k = g) ∨ tableAt child mem root q = some k := by
  by_cases hpre : p ++ [i] <+: q
  · left
    rcases hpre with ⟨r, hr⟩
    cases r with
    | nil =>
      rw [append_nil] at hr
      rw [← hr, h.tableAt_new ht, Option.some.injEq] at hq
      exact ⟨hr.symm, hq.symm⟩
    | cons j r =>
      rw [← hr, h.tableAt_below ht] at hq
      cases hq
  · right
    rw [← h.tableAt_off ht hlen hin hpre]
    exact hq

/-- Old tables stay where they were. -/
lemma tableAt_kept (hlen : q.length ≤ d) (hin : Within top q) {k : F}
    (hq : tableAt child mem root q = some k) : tableAt child mem' root q = some k := by
  rw [h.tableAt_off ht hlen hin, hq]
  intro ⟨r, hr⟩
  rw [← hr, h.tableAt_before r] at hq
  cases hq

/-- A link keeps the tree. -/
lemma isTree : IsTree child mem' root top d := by
  intro q r k hq hr hqin hrin hqk hrk
  rcases h.tableAt_cases ht hq hqin hqk with ⟨heq, hg⟩ | hq'
  · rcases h.tableAt_cases ht hr hrin hrk with ⟨heq', -⟩ | hr'
    · rw [heq, heq']
    · exact absurd ⟨r, hr, hrin, hg ▸ hr'⟩ h.fresh
  · rcases h.tableAt_cases ht hr hrin hrk with ⟨-, hg⟩ | hr'
    · exact absurd ⟨q, hq, hqin, hg ▸ hq'⟩ h.fresh
    · exact ht q r k hq hr hqin hrin hq' hr'

/-- A link adds one table. -/
lemma tables_eq : tables child mem' root top d = insert g (tables child mem root top d) := by
  ext k
  constructor
  · intro ⟨q, hlen, hin, hq⟩
    rcases h.tableAt_cases ht hlen hin hq with ⟨-, hg⟩ | hq'
    · exact Or.inl hg
    · exact Or.inr ⟨q, hlen, hin, hq'⟩
  · intro hk
    rcases hk with hk | ⟨q, hlen, hin, hq⟩
    · refine ⟨p ++ [i], ?_, h.within, by rw [h.tableAt_new ht, hk]⟩
      rw [length_append, length_singleton]
      exact h.length
    · exact ⟨q, hlen, hin, h.tableAt_kept ht hlen hin hq⟩

/-- Linking an empty table changes no value. -/
lemma leaf_eq (hlen : q.length = d) (hin : Within top (q ++ [j])) :
    leaf child value mem' root q j = leaf child value mem root q j := by
  unfold leaf
  by_cases hpre : p ++ [i] <+: q
  · -- the path goes through the new table, which is empty
    rcases hpre with ⟨r, hr⟩
    rw [← hr, h.tableAt_before r]
    cases r with
    | nil =>
      rw [append_nil, h.tableAt_new ht]
      exact h.blank j
    | cons k r =>
      rw [h.tableAt_below ht]
      rfl
  · rw [h.tableAt_off ht hlen.le hin.left hpre]
    cases hq : tableAt child mem root q with
    | none => rfl
    | some k =>
      show value (mem' k j) = value (mem k j)
      rw [h.same (k, j) ⟨q, by omega, hin, hq⟩]
      intro heq
      rw [Prod.mk.injEq] at heq
      rw [heq.1] at hq
      have hqp : q = p := ht q p f hlen.le h.length.le hin.left h.within.left hq h.path
      have := h.length
      rw [hqp] at hlen
      omega

end

end

end Linked

/-! ## Missing tables -/

section
variable {mem'' : F → ι → E} {P Q : Finset (List ι)} {r : List ι}

/-- How many paths of `P` lead to no table. -/
def missing (child : E → Option F) (mem : F → ι → E) (root : F) (P : Finset (List ι)) : ℕ :=
  (P.filter fun q => tableAt child mem root q = none).card

/-- The paths of `P` lead to tables now, and no others that did not. -/
def Opened (child : E → Option F) (mem mem' : F → ι → E) (root : F) (top : Set ι) (d : ℕ)
    (P : Finset (List ι)) : Prop :=
  ∀ q, q.length ≤ d → Within top q →
    (tableAt child mem' root q = none ↔ tableAt child mem root q = none ∧ q ∉ P)

lemma opened_empty (h : ∀ x ∈ slots child mem root top d, mem' x.1 x.2 = mem x.1 x.2) :
    Opened child mem mem' root top d ∅ := by
  intro q hlen hin
  rw [tableAt_congr h hlen hin]
  simp

/-- A link opens one path. -/
lemma Linked.opened (h : Linked child value mem mem' root top d p f i g)
    (ht : IsTree child mem root top d) : Opened child mem mem' root top d {p ++ [i]} := by
  intro q hlen hin
  rw [Finset.mem_singleton]
  constructor
  · intro hnone
    refine ⟨?_, fun heq => ?_⟩
    · by_contra hsome
      rcases Option.ne_none_iff_exists'.mp hsome with ⟨k, hk⟩
      rw [h.tableAt_kept ht hlen hin hk] at hnone
      cases hnone
    · rw [heq, h.tableAt_new ht] at hnone
      cases hnone
  · rintro ⟨hnone, hne⟩
    by_contra hsome
    rcases Option.ne_none_iff_exists'.mp hsome with ⟨k, hk⟩
    rcases h.tableAt_cases ht hlen hin hk with ⟨heq, -⟩ | hold
    · exact hne heq
    · rw [hnone] at hold
      cases hold

/-- More paths, more tables. -/
lemma missing_mono (h : P ⊆ Q) : missing child mem root P ≤ missing child mem root Q :=
  Finset.card_le_card (Finset.filter_subset_filter _ h)

/-- Where memory agrees on the tree, the same tables are missing. -/
lemma missing_congr (h : ∀ x ∈ slots child mem root top d, mem' x.1 x.2 = mem x.1 x.2)
    (hP : ∀ q ∈ P, q.length ≤ d ∧ Within top q) :
    missing child mem' root P = missing child mem root P := by
  unfold missing
  refine congrArg Finset.card (Finset.filter_congr fun q hq => ?_)
  rw [tableAt_congr h (hP q hq).1 (hP q hq).2]

lemma missing_pos (hq : q ∈ P) (hnone : tableAt child mem root q = none) :
    0 < missing child mem root P :=
  Finset.card_pos.mpr ⟨q, Finset.mem_filter.mpr ⟨hq, hnone⟩⟩

variable [DecidableEq ι]

/-- The paths on the way along `r`, from the path `p` on. -/
def wayPaths : List ι → List ι → Finset (List ι)
  | _, [] => ∅
  | p, i :: r => insert (p ++ [i]) (wayPaths (p ++ [i]) r)

lemma prefix_of_mem_wayPaths (h : q ∈ wayPaths p r) : q <+: p ++ r := by
  induction r generalizing p with
  | nil => exact absurd h (Finset.notMem_empty q)
  | cons i r ih =>
    rw [append_cons]
    rcases Finset.mem_insert.mp h with h | h
    · rw [h]
      exact prefix_append _ _
    · exact ih h

/-- A path of the tree has only paths of the tree on its way. -/
lemma inside_of_mem_wayPaths (hlen : p.length + r.length ≤ d) (hin : Within top (p ++ r))
    (h : q ∈ wayPaths p r) : q.length ≤ d ∧ Within top q := by
  have hpre := prefix_of_mem_wayPaths h
  have hle := hpre.length_le
  rw [length_append] at hle
  rcases hpre with ⟨t, ht⟩
  rw [← ht] at hin
  exact ⟨by omega, hin.left⟩

/-- What is missing of `P` and `Q` is missing of `P`, or of `Q` once `P` is there. -/
lemma Opened.missing_union (h : Opened child mem mem' root top d P)
    (hQ : ∀ q ∈ Q, q.length ≤ d ∧ Within top q) :
    missing child mem root (P ∪ Q) = missing child mem root P + missing child mem' root Q := by
  have hrest : Q.filter (fun q => tableAt child mem' root q = none) =
      (Q \ P).filter fun q => tableAt child mem root q = none := by
    ext q
    rw [Finset.mem_filter, Finset.mem_filter, Finset.mem_sdiff, and_assoc]
    refine and_congr_right fun hq => ?_
    rw [h q (hQ q hq).1 (hQ q hq).2, and_comm]
  unfold missing
  rw [hrest, ← Finset.union_sdiff_self_eq_union, Finset.filter_union,
    Finset.card_union_of_disjoint]
  exact Finset.disjoint_filter_filter Finset.disjoint_sdiff

/-- Paths opened one after another. -/
lemma Opened.trans (h : Opened child mem mem' root top d P)
    (h' : Opened child mem' mem'' root top d Q) : Opened child mem mem'' root top d (P ∪ Q) := by
  intro q hlen hin
  rw [h' q hlen hin, h q hlen hin, Finset.mem_union, not_or, and_assoc]

/-- A path that leads to a table does not count. -/
lemma missing_insert_of_some (hq : tableAt child mem root q = some f) :
    missing child mem root (insert q P) = missing child mem root P := by
  unfold missing
  rw [Finset.filter_insert, if_neg (by simp [hq])]

lemma Opened.insert_of_some (h : Opened child mem mem' root top d P)
    (hq : tableAt child mem root q = some f) :
    Opened child mem mem' root top d (insert q P) := by
  intro r hlen hin
  rw [h r hlen hin, Finset.mem_insert, not_or]
  refine and_congr_right fun hnone => (and_iff_right fun heq => ?_).symm
  rw [heq, hq] at hnone
  cases hnone

end

end LunOS.Radix
