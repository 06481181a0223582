import LunOS.Vmm.Entries
import Mathlib.Data.Set.Card

/-!
# What an address space is for

An address space is a partial map from pages to frames. `PageMap.Step` says what each call may do
to it and what it may return; a map call may also fail without an effect when there is no memory
for page tables.
-/

namespace LunOS.Vmm
open Function

/-- The frames of the pages. -/
abbrev PageMap := ℕ → Option PhysAddr

/-- The calls on one address space. -/
inductive Op
  | mapPage (vaddr : VirtAddr) (paddr : PhysAddr) (flags : BitVec 64)
  | unmapPage (vaddr : VirtAddr)
  | mapRange (vaddr : VirtAddr) (paddr : PhysAddr) (size flags : BitVec 64)
  | unmapRange (vaddr : VirtAddr) (size : BitVec 64)

/-- The number of pages that meet `[vaddr, vaddr + size)`. -/
def rangeCount (vaddr : VirtAddr) (size : BitVec 64) : ℕ :=
  (vaddr.toNat + size.toNat + 4095) / 4096 - page vaddr

/-- The virtual addresses lie in the lower half, the physical ones below 2^52, and the flags do not
meet the bits of the frame. -/
def Op.Valid : Op → Prop
  | .mapPage v p flags => v.toNat < 2 ^ 47 ∧ p.toNat < 2 ^ 52 ∧ pteAddr flags = 0
  | .unmapPage v => v.toNat < 2 ^ 47
  | .mapRange v p size flags =>
    v.toNat + size.toNat ≤ 2 ^ 47 ∧ page p + rangeCount v size ≤ 2 ^ 40 ∧ pteAddr flags = 0
  | .unmapRange v size => v.toNat + size.toNat ≤ 2 ^ 47

instance : DecidablePred Op.Valid
  | .mapPage v p flags =>
    inferInstanceAs (Decidable (v.toNat < 2 ^ 47 ∧ p.toNat < 2 ^ 52 ∧ pteAddr flags = 0))
  | .unmapPage v => inferInstanceAs (Decidable (v.toNat < 2 ^ 47))
  | .mapRange v p size flags => inferInstanceAs (Decidable (v.toNat + size.toNat ≤ 2 ^ 47 ∧
      page p + rangeCount v size ≤ 2 ^ 40 ∧ pteAddr flags = 0))
  | .unmapRange v size => inferInstanceAs (Decidable (v.toNat + size.toNat ≤ 2 ^ 47))

namespace PageMap

/-- Nothing is mapped. -/
def empty : PageMap := fun _ => none

/-- Page `first + i` is mapped to frame `frame + i`, for `i < n`. -/
def mapPages (m : PageMap) (first n : ℕ) (frame : PhysAddr) : PageMap := fun k =>
  if first ≤ k ∧ k < first + n then some (frame + BitVec.ofNat 64 (4096 * (k - first))) else m k

/-- Page `first + i` is mapped to `frame i`, for `i < n`. -/
def fill (m : PageMap) (first n : ℕ) (frame : ℕ → PhysAddr) : PageMap := fun k =>
  if first ≤ k ∧ k < first + n then some (frame (k - first)) else m k

/-- Pages `first, …, first + n - 1` are not mapped. -/
def unmapPages (m : PageMap) (first n : ℕ) : PageMap := fun k =>
  if first ≤ k ∧ k < first + n then none else m k

/-- What `vmm_virt_to_phys` returns. -/
def translate (m : PageMap) (v : VirtAddr) : PhysAddr :=
  match m (page v) with
  | none => 0
  | some frame => frame ||| pageOffset v

/-- The number of mapped pages. -/
noncomputable def count (m : PageMap) : ℕ := Set.ncard {k | m k ≠ none}

/-- `Step oom m op r m'`: on the map `m` the call `op` may return `r` and leave `m'`, where `oom` says
whether the pages run out for its tables. -/
inductive Step (oom : Prop) (m : PageMap) : Op → ℤ → PageMap → Prop
  | mapPage {v p flags} : m (page v) = none →
    Step oom m (.mapPage v p flags) 0 (m.mapPages (page v) 1 (vmmPageAlignDown p))
  | mapPageFails {v p flags} : m (page v) ≠ none ∨ oom → Step oom m (.mapPage v p flags) (-1) m
  | unmapPage {v} : m (page v) ≠ none → Step oom m (.unmapPage v) 0 (m.unmapPages (page v) 1)
  | unmapPageFails {v} : m (page v) = none → Step oom m (.unmapPage v) (-1) m
  | mapRange {v p size flags} : size ≠ 0 →
    (∀ i < rangeCount v size, m (page v + i) = none) →
    Step oom m (.mapRange v p size flags) 0
      (m.mapPages (page v) (rangeCount v size) (vmmPageAlignDown p))
  | mapRangeFails {v p size flags} :
    size = 0 ∨ (∃ i < rangeCount v size, m (page v + i) ≠ none) ∨ oom →
    Step oom m (.mapRange v p size flags) (-1) m
  | unmapRange {v size} : size ≠ 0 →
    Step oom m (.unmapRange v size) 0 (m.unmapPages (page v) (rangeCount v size))
  | unmapRangeFails {v} : Step oom m (.unmapRange v 0) (-1) m

/-- A run of calls with their return values, given for each call whether the pages run out. -/
inductive Run : PageMap → List Prop → List (Op × ℤ) → PageMap → Prop
  | nil (m) : Run m [] [] m
  | cons {m m' m'' oom ooms op r calls} : Step oom m op r m' → Run m' ooms calls m'' →
    Run m (oom :: ooms) ((op, r) :: calls) m''

/-! ## Properties of maps -/

variable {m : PageMap} {first n k : ℕ} {frame : PhysAddr}

@[simp] lemma unmapPages_zero : m.unmapPages first 0 = m := by
  funext k
  exact if_neg (by omega)

lemma mapPages_one : m.mapPages k 1 frame = update m k (some frame) := by
  funext j
  unfold mapPages
  by_cases hj : j = k
  · rw [hj, if_pos (by omega), update_self, Nat.sub_self]
    simp
  · rw [if_neg (by omega), update_of_ne hj]

lemma unmapPages_one : m.unmapPages k 1 = update m k none := by
  funext j
  unfold unmapPages
  by_cases hj : j = k
  · rw [hj, if_pos (by omega), update_self]
  · rw [if_neg (by omega), update_of_ne hj]

lemma unmapPages_succ : m.unmapPages first (n + 1) =
    update (m.unmapPages first n) (first + n) none := by
  funext j
  by_cases hj : j = first + n
  · rw [hj, update_self]
    unfold unmapPages
    exact if_pos (by omega)
  · rw [update_of_ne hj]
    unfold unmapPages
    by_cases hin : first ≤ j ∧ j < first + n
    · rw [if_pos (by omega), if_pos hin]
    · rw [if_neg (by omega), if_neg hin]

/-- Only pages of the lower half are mapped. -/
def Lower (m : PageMap) : Prop := ∀ k, 2 ^ 35 ≤ k → m k = none

lemma Lower.finite (h : m.Lower) : {k | m k ≠ none}.Finite := by
  apply (Set.finite_Iio (2 ^ 35)).subset
  intro k hk
  by_contra hle
  exact hk (h k (Nat.le_of_not_lt hle))

lemma Lower.count_le (h : m.Lower) : m.count ≤ 2 ^ 35 := by
  have hsub : {k | m k ≠ none} ⊆ Set.Iio (2 ^ 35) := by
    intro k hk
    by_contra hle
    exact hk (h k (Nat.le_of_not_lt hle))
  calc m.count ≤ (Set.Iio (2 ^ 35)).ncard := Set.ncard_le_ncard hsub (Set.finite_Iio _)
    _ = 2 ^ 35 := by rw [Set.ncard_eq_toFinset_card' (Set.Iio (2 ^ 35))]; simp

lemma Lower.count_map (h : m.Lower) (hk : m k = none) :
    count (update m k (some frame)) = m.count + 1 := by
  have hset : {j | update m k (some frame) j ≠ none} = insert k {j | m j ≠ none} := by
    ext j
    by_cases hj : j = k
    · simp [hj]
    · simp [hj]
  have hout : k ∉ {j | m j ≠ none} := fun hmem => hmem hk
  unfold count
  rw [hset, Set.ncard_insert_of_notMem hout h.finite]

lemma Lower.count_unmap (h : m.Lower) (hk : m k ≠ none) :
    count (update m k none) + 1 = m.count := by
  have hset : {j | update m k none j ≠ none} = {j | m j ≠ none} \ {k} := by
    ext j
    by_cases hj : j = k
    · simp [hj]
    · simp [hj]
  unfold count
  rw [hset]
  exact Set.ncard_sdiff_singleton_add_one hk h.finite

lemma fill_zero (frame : ℕ → PhysAddr) : m.fill first 0 frame = m := by
  funext j
  exact if_neg (by omega)

/-- One more page is mapped. -/
lemma fill_succ (frame : ℕ → PhysAddr) : m.fill first (n + 1) frame =
    update (m.fill first n frame) (first + n) (some (frame n)) := by
  funext j
  by_cases hj : j = first + n
  · rw [hj, update_self]
    unfold fill
    rw [if_pos (by omega), Nat.add_sub_cancel_left]
  · rw [update_of_ne hj]
    unfold fill
    by_cases hin : first ≤ j ∧ j < first + n
    · rw [if_pos (by omega), if_pos hin]
    · rw [if_neg (by omega), if_neg hin]

lemma Lower.fill (h : m.Lower) (hn : first + n ≤ 2 ^ 35) (frame : ℕ → PhysAddr) :
    (m.fill first n frame).Lower := by
  intro j hj
  unfold PageMap.fill
  rw [if_neg (by omega)]
  exact h j hj

/-- Mapping free pages adds their number. -/
lemma Lower.count_fill (h : m.Lower) (hn : first + n ≤ 2 ^ 35) (frame : ℕ → PhysAddr)
    (hfree : ∀ i < n, m (first + i) = none) :
    (m.fill first n frame).count = m.count + n := by
  induction n with
  | zero => rw [fill_zero, Nat.add_zero]
  | succ n ih =>
    have hnext : m.fill first n frame (first + n) = none := by
      unfold PageMap.fill
      rw [if_neg (by omega)]
      exact hfree n (by omega)
    rw [fill_succ, (h.fill (by omega) frame).count_map hnext,
      ih (by omega) fun i hi => hfree i (by omega), Nat.add_assoc]

end PageMap

end LunOS.Vmm
