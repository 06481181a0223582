import LunOS.Utils.Radix

/-!
# Radix trees that share subtrees

Several trees over one memory. A subtree may hang in more than one of them, at the same place in
all, but never below the part `own` of the roots. A tree grows by links to new tables, and then
every tree grows that shares the place.
-/

namespace LunOS.Radix

variable {ι F E : Type*} {child : E → Option F} {mem mem' : F → ι → E} {roots : Set F}
variable {own : Set ι} {d : ℕ} {p q : List ι} {f g r r₀ : F} {i : ι}

/-- A table that is in two trees is at the same place in both, and not below `own`. -/
def IsForest (child : E → Option F) (mem : F → ι → E) (roots : Set F) (own : Set ι) (d : ℕ) :
    Prop :=
  ∀ r ∈ roots, ∀ r' ∈ roots, ∀ p q f, p.length ≤ d → q.length ≤ d →
    tableAt child mem r p = some f → tableAt child mem r' q = some f →
    p = q ∧ (r ≠ r' → ¬Within own p)

section
variable (h : IsForest child mem roots own d)
include h

/-- Each root has a tree. -/
lemma IsForest.isTree (hr : r ∈ roots) :
    IsTree child mem r Set.univ d := fun p q f hp hq _ _ hpf hqf =>
  (h r hr r hr p q f hp hq hpf hqf).1

/-- The entries above depth `d` are as they were. -/
lemma IsForest.congr
    (hsame : ∀ r ∈ roots, ∀ x ∈ slots child mem r Set.univ d, mem' x.1 x.2 = mem x.1 x.2) :
    IsForest child mem' roots own d := by
  intro r hr r' hr' p q f hp hq hpf hqf
  rw [tableAt_congr (hsame r hr) hp (within_univ p)] at hpf
  rw [tableAt_congr (hsame r' hr') hq (within_univ q)] at hqf
  exact h r hr r' hr' p q f hp hq hpf hqf

/-- A table of one tree is in no other tree below `own`. -/
lemma IsForest.own_ne (hr : r ∈ roots) (hr₀ : r₀ ∈ roots) (hne : r ≠ r₀)
    (hp : tableAt child mem r₀ p = some f) (hlen : p.length ≤ d) {x : F × ι}
    (hx : x ∈ slots child mem r own (d + 1)) : x.1 ≠ f := by
  intro heq
  rcases hx with ⟨q, hq, hin, hqx⟩
  rw [heq] at hqx
  rcases h r hr r₀ hr₀ q p f (by omega) hlen hqx hp with ⟨-, hout⟩
  exact hout hne hin.left

/-- A write to a table of depth `d` moves no table. -/
lemma IsForest.write (hr₀ : r₀ ∈ roots) (hp : tableAt child mem r₀ p = some f) (hlen : p.length = d)
    (hsame : ∀ r ∈ roots, ∀ x ∈ slots child mem r Set.univ (d + 1), x ≠ (f, i) →
      mem' x.1 x.2 = mem x.1 x.2) :
    ∀ r ∈ roots, ∀ x ∈ slots child mem r Set.univ d, mem' x.1 x.2 = mem x.1 x.2 := by
  intro r hr x hx
  refine hsame r hr x (slots_mono (Nat.le_succ d) hx) fun heq => ?_
  rcases hx with ⟨q, hq, -, hqx⟩
  rw [heq] at hqx
  rcases h r hr r₀ hr₀ q p f (by omega) (by omega) hqx hp with ⟨hqp, -⟩
  rw [hqp] at hq
  omega

end

/-! ## Linking a table -/

/-- The empty table `g` was linked into entry `i` of the table `f`, which is at the path `p` of the
tree at `r₀`. -/
structure ForestLinked (child : E → Option F) (mem mem' : F → ι → E) (roots : Set F) (d : ℕ)
    (r₀ : F) (p : List ι) (f : F) (i : ι) (g : F) : Prop where
  root : r₀ ∈ roots
  path : tableAt child mem r₀ p = some f
  length : p.length < d
  absent : child (mem f i) = none
  target : child (mem' f i) = some g
  fresh : ∀ r ∈ roots, g ∉ tables child mem r Set.univ d
  empty : ∀ j, child (mem' g j) = none
  same : ∀ r ∈ roots, ∀ x ∈ slots child mem r Set.univ (d + 1), x ≠ (f, i) →
    mem' x.1 x.2 = mem x.1 x.2

namespace ForestLinked

section
variable (hl : ForestLinked child mem mem' roots d r₀ p f i g)
include hl

/-- Where a path leads after the link, in any of the trees. -/
lemma tableAt_cases (h : IsForest child mem roots own d) (hr : r ∈ roots) (hlen : q.length ≤ d)
    {k : F} (hq : tableAt child mem' r q = some k) :
    (q = p ++ [i] ∧ k = g ∧ tableAt child mem r p = some f) ∨ tableAt child mem r q = some k := by
  by_cases hshares : tableAt child mem r p = some f
  · have hlink : Linked child child mem mem' r Set.univ d p f i g :=
      ⟨hshares, hl.length, within_univ _, hl.absent, hl.target, hl.fresh r hr, hl.empty, hl.empty,
        hl.same r hr⟩
    exact (hlink.tableAt_cases (h.isTree hr) hlen (within_univ q) hq).imp_left
      fun hnew => ⟨hnew.1, hnew.2, hshares⟩
  · -- the tree does not have the table of the link
    right
    rw [← hq]
    refine (tableAt_congr (fun x hx => ?_) hlen (within_univ q)).symm
    refine hl.same r hr x (slots_mono (Nat.le_succ d) hx) fun heq => hshares ?_
    rcases hx with ⟨q', hq', -, hqx⟩
    rw [heq] at hqx
    rcases h r hr r₀ hl.root q' p f hq'.le hl.length.le hqx hl.path with ⟨hqp, -⟩
    rw [← hqp]
    exact hqx

lemma isForest (h : IsForest child mem roots own d) : IsForest child mem' roots own d := by
  intro r hr r' hr' q q' k hq hq' hqk hqk'
  rcases hl.tableAt_cases h hr hq hqk with ⟨hnew, hkg, hshares⟩ | hold
  · rcases hl.tableAt_cases h hr' hq' hqk' with ⟨hnew', -, hshares'⟩ | hold'
    · refine ⟨hnew.trans hnew'.symm, fun hne hin => ?_⟩
      rw [hnew] at hin
      rcases h r hr r' hr' p p f hl.length.le hl.length.le hshares hshares' with ⟨-, hout⟩
      exact hout hne hin.left
    · rw [hkg] at hold'
      exact absurd ⟨q', hq', within_univ q', hold'⟩ (hl.fresh r' hr')
  · rcases hl.tableAt_cases h hr' hq' hqk' with ⟨-, hkg, -⟩ | hold'
    · rw [hkg] at hold
      exact absurd ⟨q, hq, within_univ q, hold⟩ (hl.fresh r hr)
    · exact h r hr r' hr' q q' k hq hq' hold hold'

lemma tables_sub (h : IsForest child mem roots own d) (hr : r ∈ roots) :
    tables child mem' r Set.univ d ⊆ insert g (tables child mem r Set.univ d) := by
  intro k ⟨q, hq, hin, hqk⟩
  rcases hl.tableAt_cases h hr hq hqk with ⟨-, hkg, -⟩ | hold
  · rw [hkg]
    exact Set.mem_insert _ _
  · exact Set.mem_insert_of_mem _ ⟨q, hq, hin, hold⟩

end

end ForestLinked

/-! ## A new root -/

section
variable {r₁ : F}

/-- Paths from a new root `g` with the entries of `r₁` outside `own`. -/
lemma IsForest.tableAt_copy (hr₁ : r₁ ∈ roots)
    (hsame : ∀ r ∈ roots, ∀ x ∈ slots child mem r Set.univ d, mem' x.1 x.2 = mem x.1 x.2)
    (hown : ∀ i ∈ own, child (mem' g i) = none) (hcopy : ∀ i, i ∉ own → mem' g i = mem r₁ i)
    (hlen : q.length ≤ d) {k : F} (hq : tableAt child mem' g q = some k) :
    (q = [] ∧ k = g) ∨ (¬Within own q ∧ tableAt child mem r₁ q = some k) := by
  cases q with
  | nil => exact Or.inl ⟨rfl, (Option.some.inj hq).symm⟩
  | cons i q =>
    right
    by_cases hi : i ∈ own
    · rw [tableAt_cons, hown i hi] at hq
      cases hq
    · have hpos : 0 < d := Nat.lt_of_lt_of_le (Nat.zero_lt_succ _) hlen
      have hroot : mem' r₁ i = mem r₁ i :=
        hsame r₁ hr₁ (r₁, i) ⟨[], hpos, within_univ _, rfl⟩
      refine ⟨fun hin => hi (within_cons.mp hin), ?_⟩
      rw [← tableAt_congr (hsame r₁ hr₁) hlen (within_univ _), tableAt_cons, hroot, ← hcopy i hi,
        ← tableAt_cons]
      exact hq

/-- A copy shares the tables. -/
lemma IsForest.copy (h : IsForest child mem roots own d) (hr₁ : r₁ ∈ roots)
    (hfresh : ∀ r ∈ roots, g ∉ tables child mem r Set.univ d)
    (hsame : ∀ r ∈ roots, ∀ x ∈ slots child mem r Set.univ d, mem' x.1 x.2 = mem x.1 x.2)
    (hown : ∀ i ∈ own, child (mem' g i) = none) (hcopy : ∀ i, i ∉ own → mem' g i = mem r₁ i) :
    IsForest child mem' (insert g roots) own d := by
  have hold := h.congr hsame
  have hfresh' : ∀ r ∈ roots, ∀ q, q.length ≤ d → tableAt child mem' r q ≠ some g := by
    intro r hr q hq hqg
    rw [tableAt_congr (hsame r hr) hq (within_univ q)] at hqg
    exact hfresh r hr ⟨q, hq, within_univ q, hqg⟩
  -- a table below the new root is one of `r₁`
  have hcases : ∀ q k, q.length ≤ d → tableAt child mem' g q = some k →
      (q = [] ∧ k = g) ∨ (¬Within own q ∧ tableAt child mem' r₁ q = some k) := by
    intro q k hq hqk
    rw [tableAt_congr (hsame r₁ hr₁) hq (within_univ q)]
    exact IsForest.tableAt_copy hr₁ hsame hown hcopy hq hqk
  intro r hr r' hr' p q k hp hq hpk hqk
  rcases hr with hr | hr <;> rcases hr' with hr' | hr'
  · rw [hr] at hpk
    rw [hr'] at hqk
    refine ⟨?_, fun hne => absurd (hr.trans hr'.symm) hne⟩
    rcases hcases p k hp hpk with ⟨hpnil, hkg⟩ | ⟨-, hp₁⟩
    · rcases hcases q k hq hqk with ⟨hqnil, -⟩ | ⟨-, hq₁⟩
      · rw [hpnil, hqnil]
      · exact absurd (hkg ▸ hq₁) (hfresh' r₁ hr₁ q hq)
    · rcases hcases q k hq hqk with ⟨-, hkg⟩ | ⟨-, hq₁⟩
      · exact absurd (hkg ▸ hp₁) (hfresh' r₁ hr₁ p hp)
      · exact (hold r₁ hr₁ r₁ hr₁ p q k hp hq hp₁ hq₁).1
  · rw [hr] at hpk
    rcases hcases p k hp hpk with ⟨-, hkg⟩ | ⟨hout, hp₁⟩
    · exact absurd (hkg ▸ hqk) (hfresh' r' hr' q hq)
    · exact ⟨(hold r₁ hr₁ r' hr' p q k hp hq hp₁ hqk).1, fun _ => hout⟩
  · rw [hr'] at hqk
    rcases hcases q k hq hqk with ⟨-, hkg⟩ | ⟨hout, hq₁⟩
    · exact absurd (hkg ▸ hpk) (hfresh' r hr p hp)
    · have hpq := (hold r hr r₁ hr₁ p q k hp hq hpk hq₁).1
      exact ⟨hpq, fun _ => hpq ▸ hout⟩
  · exact hold r hr r' hr' p q k hp hq hpk hqk

end

end LunOS.Radix
