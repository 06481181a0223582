import Mathlib.Data.Nat.Bitwise
import Mathlib.Data.Set.Lattice
import Mathlib.Tactic
import Mathlib.Order.CompletePartialOrder

/-!
# Dyadic blocks and coalesced tilings

The arithmetic behind a buddy system, with no allocator in sight. A block of order `o` over a
unit of `2 ^ w` addresses spans `2 ^ (w + o)` of them and starts at a multiple of its own size.

* two aligned blocks that meet are nested (`Block.le_of_meet`);
* the XOR of an aligned address with the block size is the other half of the block one order
  up (`xor_size_of_lower`, `xor_size_of_upper`);
* `Tiles`: a set of blocks covers a set of addresses exactly once, and stays a tiling when a
  block is cut in halves or two halves are joined;
* `Tiles.eq_of_coalesced`: a set of addresses has at most one tiling in which no two halves of
  a block below the order bound both occur.
-/

namespace LunOS.Dyadic

/-- Number of addresses in a block of order `o` over a unit of `2 ^ w`. -/
def size (w o : ℕ) : ℕ := 2 ^ (w + o)

/-- A block: first address and order. -/
structure Block where
  addr : ℕ
  order : ℕ
deriving DecidableEq, Repr

/-- The block starts at a multiple of its size. -/
def Block.Aligned (w : ℕ) (b : Block) : Prop := size w b.order ∣ b.addr

/-- The addresses of a block. -/
def Block.span (w : ℕ) (b : Block) : Set ℕ := Set.Ico b.addr (b.addr + size w b.order)

instance (w : ℕ) (b : Block) : Decidable (b.Aligned w) :=
  inferInstanceAs (Decidable (size w b.order ∣ b.addr))

variable {w : ℕ}

/-! ## Sizes -/

lemma size_pos (w o : ℕ) : 0 < size w o := Nat.two_pow_pos _

lemma size_succ (w o : ℕ) : size w (o + 1) = size w o + size w o := by
  unfold size
  rw [← Nat.add_assoc, pow_succ]
  omega

variable {o x a M : ℕ} {b c : Block} {F G : Set Block} {X : Set ℕ}

lemma size_dvd_size {p : ℕ} (h : o ≤ p) : size w o ∣ size w p :=
  pow_dvd_pow 2 (by omega)

lemma size_le_size {p : ℕ} (h : o ≤ p) : size w o ≤ size w p :=
  Nat.le_of_dvd (size_pos w p) (size_dvd_size h)

@[simp] lemma mem_span :
    x ∈ b.span w ↔ b.addr ≤ x ∧ x < b.addr + size w b.order := Iff.rfl

lemma addr_mem_span (b : Block) : b.addr ∈ b.span w := by
  have := size_pos w b.order
  rw [mem_span]
  omega

/-! ## Nesting -/

/-- Multiples of `m` and `n`, with `m ∣ n`: a cell of the fine grid that meets a cell of the
coarse grid lies inside it. -/
lemma le_of_grid_meet {m n c : ℕ} (hmn : m ∣ n) (ha : m ∣ a) (hc : n ∣ c) (hax : a ≤ x)
    (hxa : x < a + m) (hcx : c ≤ x) (hxc : x < c + n) :
    c ≤ a ∧ a + m ≤ c + n := by
  obtain ⟨k, rfl⟩ := hmn
  obtain ⟨i, rfl⟩ := ha
  obtain ⟨j, rfl⟩ := hc
  have h₁ : m * (k * j) < m * (i + 1) := by nlinarith
  have h₂ : m * i < m * (k * j + k) := by nlinarith
  have h₁' : k * j < i + 1 := lt_of_mul_lt_mul_left h₁ (Nat.zero_le m)
  have h₂' : i < k * j + k := lt_of_mul_lt_mul_left h₂ (Nat.zero_le m)
  constructor
  · calc m * k * j = m * (k * j) := by ring
      _ ≤ m * i := Nat.mul_le_mul_left m (by omega)
  · calc m * i + m = m * (i + 1) := by ring
      _ ≤ m * (k * j + k) := Nat.mul_le_mul_left m (by omega)
      _ = m * k * j + m * k := by ring

/-- Two aligned blocks that share an address are nested, the smaller in the larger. -/
lemma Block.le_of_meet (hb : b.Aligned w) (hc : c.Aligned w) (ho : b.order ≤ c.order)
    (hxb : x ∈ b.span w) (hxc : x ∈ c.span w) :
    c.addr ≤ b.addr ∧ b.addr + size w b.order ≤ c.addr + size w c.order :=
  le_of_grid_meet (size_dvd_size ho) hb hc hxb.1 hxb.2 hxc.1 hxc.2

/-- Two aligned blocks of one order that share an address are the same block. -/
lemma Block.eq_of_meet (hb : b.Aligned w) (hc : c.Aligned w) (ho : b.order = c.order)
    (hxb : x ∈ b.span w) (hxc : x ∈ c.span w) : b = c := by
  have h₁ := Block.le_of_meet hb hc ho.le hxb hxc
  have h₂ := Block.le_of_meet hc hb ho.ge hxc hxb
  cases b
  cases c
  simp only [Block.mk.injEq]
  exact ⟨le_antisymm h₂.1 h₁.1, ho⟩

/-- Blocks without a common address lie one after the other. -/
lemma Block.sep_of_disjoint (h : ∀ x, x ∈ b.span w → x ∉ c.span w) :
    b.addr + size w b.order ≤ c.addr ∨ c.addr + size w c.order ≤ b.addr := by
  by_contra hcon
  have hb := h (max b.addr c.addr)
  have := size_pos w b.order
  have := size_pos w c.order
  simp only [mem_span] at hb
  omega

/-! ## Buddies -/

/-- The buddy address of a lower half is the upper half. -/
lemma xor_size_of_lower (h : size w (o + 1) ∣ a) : a ^^^ size w o = a + size w o := by
  obtain ⟨k, rfl⟩ := h
  have hl : size w (o + 1) * k = (2 * k) <<< (w + o) := by
    rw [Nat.shiftLeft_eq, size_succ, size]
    ring
  have h1 : size w o = 1 <<< (w + o) := by rw [Nat.shiftLeft_eq, one_mul, size]
  rw [hl, h1, ← Nat.shiftLeft_xor_distrib, Nat.xor_one_of_even (even_two_mul k)]
  simp only [Nat.shiftLeft_eq]
  ring

/-- The buddy address of an upper half is the lower half. -/
lemma xor_size_of_upper (ha : size w o ∣ a) (h : ¬ size w (o + 1) ∣ a) :
    (a ^^^ size w o) + size w o = a ∧ size w (o + 1) ∣ a ^^^ size w o := by
  obtain ⟨k, rfl⟩ := ha
  have hk : Odd k := by
    rw [← Nat.not_even_iff_odd]
    rintro ⟨j, rfl⟩
    exact h ⟨j, by rw [size_succ]; ring⟩
  obtain ⟨j, rfl⟩ := hk
  have hl : size w o * (2 * j + 1) = (2 * j + 1) <<< (w + o) := by
    rw [Nat.shiftLeft_eq, size]
    ring
  have h1 : size w o = 1 <<< (w + o) := by rw [Nat.shiftLeft_eq, one_mul, size]
  have hx : size w o * (2 * j + 1) ^^^ size w o = size w (o + 1) * j := by
    rw [hl, h1, ← Nat.shiftLeft_xor_distrib, Nat.xor_one_of_odd (odd_two_mul_add_one j),
      size_succ, Nat.shiftLeft_eq, size]
    simp only [Nat.add_sub_cancel]
    ring
  rw [hx]
  refine ⟨?_, Dvd.intro j rfl⟩
  rw [size_succ]
  ring

/-- The buddy address of an upper half, written from its lower half. -/
lemma xor_size_upper_eq (h : size w (o + 1) ∣ a) :
    (a + size w o) ^^^ size w o = a := by
  rw [← xor_size_of_lower h, Nat.xor_assoc, Nat.xor_self, Nat.xor_zero]

/-- Lower halves are aligned. -/
lemma aligned_lower (h : size w (o + 1) ∣ a) : size w o ∣ a :=
  (size_dvd_size (Nat.le_succ o)).trans h

/-- Upper halves are aligned. -/
lemma aligned_upper (h : size w (o + 1) ∣ a) : size w o ∣ a + size w o :=
  (Nat.dvd_add_right (aligned_lower h)).mpr dvd_rfl

/-! ## Tilings -/

/-- The aligned blocks `F` cover every address of `X`, each exactly once, and nothing else. -/
structure Tiles (w : ℕ) (F : Set Block) (X : Set ℕ) : Prop where
  aligned : ∀ b ∈ F, b.Aligned w
  cover : ∀ x, x ∈ X ↔ ∃ b ∈ F, x ∈ b.span w
  unique : ∀ b ∈ F, ∀ c ∈ F, ∀ x, x ∈ b.span w → x ∈ c.span w → b = c

lemma Tiles.span_subset (h : Tiles w F X) (hb : b ∈ F) : b.span w ⊆ X :=
  fun x hx => (h.cover x).mpr ⟨b, hb, hx⟩

/-- Replacing a block by its halves keeps a tiling. -/
lemma Tiles.split (h : Tiles w F X) (hb : ⟨a, o + 1⟩ ∈ F) :
    Tiles w ((F \ {⟨a, o + 1⟩}) ∪ {⟨a, o⟩, ⟨a + size w o, o⟩}) X := by
  have hal : size w (o + 1) ∣ a := h.aligned _ hb
  have hs := size_succ w o
  -- an address lies in one of the halves exactly when it lies in the whole
  have hhalf : ∀ x, (x ∈ Block.span w ⟨a, o⟩ ∨ x ∈ Block.span w ⟨a + size w o, o⟩) ↔
      x ∈ Block.span w ⟨a, o + 1⟩ := by
    intro x
    simp only [mem_span]
    omega
  refine ⟨?_, ?_, ?_⟩
  · rintro b (⟨hbF, -⟩ | rfl | rfl)
    · exact h.aligned b hbF
    · exact aligned_lower hal
    · exact aligned_upper hal
  · intro x
    rw [h.cover x]
    constructor
    · rintro ⟨b, hbF, hx⟩
      by_cases hba : b = ⟨a, o + 1⟩
      · subst hba
        rcases (hhalf x).mpr hx with hx | hx
        · exact ⟨_, Or.inr (Or.inl rfl), hx⟩
        · exact ⟨_, Or.inr (Or.inr rfl), hx⟩
      · exact ⟨b, Or.inl ⟨hbF, hba⟩, hx⟩
    · rintro ⟨b, (⟨hbF, -⟩ | rfl | rfl), hx⟩
      · exact ⟨b, hbF, hx⟩
      · exact ⟨_, hb, (hhalf x).mp (Or.inl hx)⟩
      · exact ⟨_, hb, (hhalf x).mp (Or.inr hx)⟩
  · -- a remaining block that met a half would meet the whole
    have hrest : ∀ b, b ∈ F \ {⟨a, o + 1⟩} → ∀ x, x ∈ b.span w →
        ¬ (x ∈ Block.span w ⟨a, o⟩ ∨ x ∈ Block.span w ⟨a + size w o, o⟩) := by
      rintro b ⟨hbF, hba⟩ x hx hor
      exact hba (h.unique b hbF _ hb x hx ((hhalf x).mp hor))
    rintro b (hbF | rfl | rfl) c (hcF | rfl | rfl) x hxb hxc
    · exact h.unique b hbF.1 c hcF.1 x hxb hxc
    · exact absurd (Or.inl hxc) (hrest b hbF x hxb)
    · exact absurd (Or.inr hxc) (hrest b hbF x hxb)
    · exact absurd (Or.inl hxb) (hrest c hcF x hxc)
    · rfl
    · simp only [mem_span] at hxb hxc
      omega
    · exact absurd (Or.inr hxb) (hrest c hcF x hxc)
    · simp only [mem_span] at hxb hxc
      omega
    · rfl

/-- Replacing two halves by the block they form keeps a tiling. -/
lemma Tiles.merge (h : Tiles w F X) (hal : size w (o + 1) ∣ a) (hlo : ⟨a, o⟩ ∈ F)
    (hup : ⟨a + size w o, o⟩ ∈ F) :
    Tiles w ((F \ {⟨a, o⟩, ⟨a + size w o, o⟩}) ∪ {⟨a, o + 1⟩}) X := by
  have hs := size_succ w o
  have hhalf : ∀ x, x ∈ Block.span w ⟨a, o + 1⟩ ↔
      (x ∈ Block.span w ⟨a, o⟩ ∨ x ∈ Block.span w ⟨a + size w o, o⟩) := by
    intro x
    simp only [mem_span]
    omega
  refine ⟨?_, ?_, ?_⟩
  · rintro b (⟨hbF, -⟩ | rfl)
    · exact h.aligned b hbF
    · exact hal
  · intro x
    rw [h.cover x]
    constructor
    · rintro ⟨b, hbF, hx⟩
      by_cases hba : b ∈ ({⟨a, o⟩, ⟨a + size w o, o⟩} : Set Block)
      · refine ⟨_, Or.inr rfl, (hhalf x).mpr ?_⟩
        rcases hba with rfl | rfl
        · exact Or.inl hx
        · exact Or.inr hx
      · exact ⟨b, Or.inl ⟨hbF, hba⟩, hx⟩
    · rintro ⟨b, (⟨hbF, -⟩ | rfl), hx⟩
      · exact ⟨b, hbF, hx⟩
      · rcases (hhalf x).mp hx with hx | hx
        · exact ⟨_, hlo, hx⟩
        · exact ⟨_, hup, hx⟩
  · have hrest : ∀ b, b ∈ F \ {⟨a, o⟩, ⟨a + size w o, o⟩} → ∀ x, x ∈ b.span w →
        x ∉ Block.span w ⟨a, o + 1⟩ := by
      rintro b ⟨hbF, hba⟩ x hx hx'
      rcases (hhalf x).mp hx' with hx' | hx'
      · exact hba (Or.inl (h.unique b hbF _ hlo x hx hx'))
      · exact hba (Or.inr (h.unique b hbF _ hup x hx hx'))
    rintro b (hbF | rfl) c (hcF | rfl) x hxb hxc
    · exact h.unique b hbF.1 c hcF.1 x hxb hxc
    · exact absurd hxc (hrest b hbF x hxb)
    · exact absurd hxb (hrest c hcF x hxc)
    · rfl

/-- Appending an aligned block at the end of a tiled interval. -/
lemma Tiles.extend {l c : ℕ} (h : Tiles w F (Set.Ico l c)) (hlc : l ≤ c) (hal : size w o ∣ c) :
    Tiles w (insert ⟨c, o⟩ F) (Set.Ico l (c + size w o)) := by
  have hpos := size_pos w o
  have hbelow : ∀ b ∈ F, ∀ x, x ∈ b.span w → x < c := fun b hb x hx =>
    (h.span_subset hb hx).2
  refine ⟨?_, ?_, ?_⟩
  · intro b hb
    rcases hb with rfl | hb
    · exact hal
    · exact h.aligned b hb
  · intro x
    constructor
    · intro hx
      by_cases hxc : x < c
      · obtain ⟨b, hb, hxb⟩ := (h.cover x).mp ⟨hx.1, hxc⟩
        exact ⟨b, Or.inr hb, hxb⟩
      · exact ⟨_, Or.inl rfl, Nat.le_of_not_lt hxc, hx.2⟩
    · intro hx
      obtain ⟨b, hb, hxb⟩ := hx
      rcases hb with rfl | hb
      · exact ⟨hlc.trans hxb.1, hxb.2⟩
      · have hxX := h.span_subset hb hxb
        exact ⟨hxX.1, by have := hxX.2; omega⟩
  · intro b hb c' hc' x hxb hxc
    rcases hb with rfl | hb <;> rcases hc' with rfl | hc'
    · rfl
    · have := hbelow c' hc' x hxc
      have := hxb.1
      simp only at this
      omega
    · have := hbelow b hb x hxb
      have := hxc.1
      simp only at this
      omega
    · exact h.unique b hb c' hc' x hxb hxc

/-- The first part of a tiling by two disjoint families tiles what the second leaves. -/
lemma Tiles.left (h : Tiles w (F ∪ G) X) (hd : Disjoint F G) :
    Tiles w F {x | x ∈ X ∧ ∀ b ∈ G, x ∉ b.span w} := by
  refine ⟨fun b hb => h.aligned b (Or.inl hb), ?_, ?_⟩
  · intro x
    constructor
    · intro hx
      obtain ⟨b, hb, hxb⟩ := (h.cover x).mp hx.1
      rcases hb with hb | hb
      · exact ⟨b, hb, hxb⟩
      · exact absurd hxb (hx.2 b hb)
    · intro hx
      obtain ⟨b, hb, hxb⟩ := hx
      refine ⟨(h.cover x).mpr ⟨b, Or.inl hb, hxb⟩, fun c hc hxc => ?_⟩
      have heq := h.unique b (Or.inl hb) c (Or.inr hc) x hxb hxc
      exact Set.disjoint_left.mp hd hb (heq ▸ hc)
  · intro b hb c hc
    exact h.unique b (Or.inl hb) c (Or.inl hc)

/-! ## Coalesced tilings are unique -/

/-- No two halves of a block of order at most `M` both belong to `F`. -/
def Coalesced (w M : ℕ) (F : Set Block) : Prop :=
  ∀ a o, o < M → size w (o + 1) ∣ a → ⟨a, o⟩ ∈ F → ⟨a + size w o, o⟩ ∈ F → False

/-- In a coalesced tiling every aligned block of covered addresses lies inside one tile.
The induction is on the order of the block: its halves lie inside tiles, and if neither of
those tiles contains the whole block then they are the two halves. -/
lemma Tiles.exists_containing (h : Tiles w F X) (hco : Coalesced w M F) :
    ∀ (o a : ℕ), o ≤ M → size w o ∣ a →
      Block.span w ⟨a, o⟩ ⊆ X →
      ∃ c ∈ F, o ≤ c.order ∧ Block.span w ⟨a, o⟩ ⊆ c.span w := by
  intro o
  induction o with
  | zero =>
    intro a _ hal hsub
    obtain ⟨c, hcF, hc⟩ := (h.cover a).mp (hsub (addr_mem_span ⟨a, 0⟩))
    have hin := Block.le_of_meet (b := ⟨a, 0⟩) hal (h.aligned c hcF) (Nat.zero_le _)
      (addr_mem_span ⟨a, 0⟩) hc
    refine ⟨c, hcF, Nat.zero_le _, fun x hx => ?_⟩
    simp only [mem_span] at hx hin ⊢
    omega
  | succ o ih =>
    intro a hoM hal hsub
    have hs := size_succ w o
    have hlo_sub : Block.span w ⟨a, o⟩ ⊆ X := fun x hx => hsub (by
      simp only [mem_span] at hx ⊢
      omega)
    have hup_sub : Block.span w ⟨a + size w o, o⟩ ⊆ X := fun x hx => hsub (by
      simp only [mem_span] at hx ⊢
      omega)
    obtain ⟨c, hcF, hco', hcs⟩ := ih a (by omega) (aligned_lower hal) hlo_sub
    obtain ⟨d, hdF, hdo, hds⟩ := ih (a + size w o) (by omega) (aligned_upper hal) hup_sub
    -- a tile of order above `o` around a half contains the whole block
    have hwhole : ∀ e ∈ F, o + 1 ≤ e.order → ∀ x, x ∈ e.span w →
        x ∈ Block.span w ⟨a, o + 1⟩ → Block.span w ⟨a, o + 1⟩ ⊆ e.span w := by
      intro e heF heo x hxe hxa y hy
      have hin := Block.le_of_meet (b := ⟨a, o + 1⟩) hal (h.aligned e heF) heo hxa hxe
      simp only [mem_span] at hy hin ⊢
      omega
    rcases Nat.lt_or_ge o c.order with hlt | hge
    · refine ⟨c, hcF, hlt, hwhole c hcF hlt a (hcs (addr_mem_span ⟨a, o⟩)) ?_⟩
      exact addr_mem_span ⟨a, o + 1⟩
    rcases Nat.lt_or_ge o d.order with hlt' | hge'
    · refine ⟨d, hdF, hlt', hwhole d hdF hlt' (a + size w o) ?_ ?_⟩
      · exact hds (addr_mem_span ⟨a + size w o, o⟩)
      · have := size_pos w o
        simp only [mem_span]
        omega
    -- both tiles have order `o`: they are the two halves, against `Coalesced`
    have hca : (⟨a, o⟩ : Block) = c := Block.eq_of_meet (aligned_lower hal)
      (h.aligned c hcF) (le_antisymm hco' hge) (addr_mem_span _) (hcs (addr_mem_span ⟨a, o⟩))
    have hda : (⟨a + size w o, o⟩ : Block) = d := Block.eq_of_meet (aligned_upper hal)
      (h.aligned d hdF) (le_antisymm hdo hge') (addr_mem_span _)
      (hds (addr_mem_span ⟨a + size w o, o⟩))
    exact absurd (hda ▸ hdF) (fun hd => hco a o (by omega) hal (hca ▸ hcF) hd)

/-- One inclusion of `Tiles.eq_of_coalesced`. -/
lemma Tiles.subset_of_coalesced (hF : Tiles w F X) (hG : Tiles w G X) (hFM : ∀ b ∈ F, b.order ≤ M)
    (hGM : ∀ b ∈ G, b.order ≤ M) (hFc : Coalesced w M F) (hGc : Coalesced w M G) : F ⊆ G := by
  intro b hb
  obtain ⟨c, hcG, hbc, hsub⟩ := hG.exists_containing hGc b.order b.addr (hFM b hb)
    (hF.aligned b hb) (hF.span_subset hb)
  obtain ⟨d, hdF, hcd, hsub'⟩ := hF.exists_containing hFc c.order c.addr (hGM c hcG)
    (hG.aligned c hcG) (hG.span_subset hcG)
  -- `b ⊆ c ⊆ d` with `b` and `d` tiles of `F`, so all three agree
  have hmem : b.addr ∈ b.span w := addr_mem_span b
  have hbd : b = d := hF.unique b hb d hdF b.addr hmem (hsub' (hsub hmem))
  have hord : b.order = c.order := le_antisymm hbc (hbd ▸ hcd)
  rw [Block.eq_of_meet (hF.aligned b hb) (hG.aligned c hcG) hord hmem (hsub hmem)]
  exact hcG

/-- A set of addresses has at most one coalesced tiling of bounded order. -/
theorem Tiles.eq_of_coalesced (hF : Tiles w F X) (hG : Tiles w G X) (hFM : ∀ b ∈ F, b.order ≤ M)
    (hGM : ∀ b ∈ G, b.order ≤ M) (hFc : Coalesced w M F) (hGc : Coalesced w M G) : F = G :=
  (hF.subset_of_coalesced hG hFM hGM hFc hGc).antisymm
    (hG.subset_of_coalesced hF hGM hFM hGc hFc)

end LunOS.Dyadic
