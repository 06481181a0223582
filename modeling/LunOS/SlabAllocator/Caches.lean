import LunOS.SlabAllocator.Common

/-!
# The lists and counts of one cache

`CacheInv` ties the lists of a cache, the free lists of its slabs, its statistics and the live
objects together. Moving a slab to the list its new free count asks for (`CacheInv.relocate`)
covers allocation and freeing; `CacheInv.add` and `CacheInv.drop` are the creation of a slab and
its return to the buddy allocator.
-/

namespace LunOS.SlabAllocator
open LunOS.BuddyAllocator Function List

/-- The list a slab with `n` free objects out of `ops` belongs on. -/
def home (ops n : ℕ) : SlabList :=
  if n = 0 then .fullSlabs else if n = ops then .emptySlabs else .partialSlabs

/-- No object is free. -/
lemma home_zero (ops : ℕ) : home ops 0 = .fullSlabs := rfl

variable {ops n a p : ℕ} {k : SlabCache} {c : CacheIdx} {r : Slab} {w' w : SlabList}
  {f : SlabList → List ℕ}

/-- All objects are free. -/
lemma home_self (h : 0 < ops) : home ops ops = .emptySlabs := by
  unfold home
  rw [if_neg (by omega), if_pos rfl]

lemma home_between (h : 0 < n) (hn : n < ops) : home ops n = .partialSlabs := by
  unfold home
  rw [if_neg (by omega), if_neg (by omega)]

lemma eq_zero_of_home (h : SlabList.fullSlabs = home ops n) : n = 0 := by
  unfold home at h
  split at h
  · assumption
  · split at h
    · cases h
    · cases h

lemma eq_self_of_home (h : SlabList.emptySlabs = home ops n) : n = ops := by
  unfold home at h
  split at h
  · cases h
  · split at h
    · assumption
    · cases h

lemma between_of_home (h : SlabList.partialSlabs = home ops n) (hn : n ≤ ops) :
    0 < n ∧ n < ops := by
  unfold home at h
  split at h
  · cases h
  · split at h
    · cases h
    · omega

/-- `p` is one of the object slots of the slab at `a`. -/
def IsSlot (k : SlabCache) (a p : ℕ) : Prop :=
  ∃ i, i < k.objectsPerSlab ∧ p = objectAddr a k.objectSize i

/-- The slab an object lies in: slabs are aligned to their 8 KiB. -/
def slabOf (p : ℕ) : ℕ := p / 8192 * 8192

/-- A cache with the sizes it was initialised with. -/
def Shaped (c : CacheIdx) (k : SlabCache) : Prop :=
  k.objectSize = slabSizes.get c ∧ k.objectsPerSlab = calculateObjectsPerSlab k.objectSize

/-- The header of a slab of cache `c`. -/
structure SlabOk (k : SlabCache) (c : CacheIdx) (a : ℕ) (r : Slab) : Prop where
  cache : r.cache = c
  phys : r.physAddr = a
  aligned : 8192 ∣ a
  nodup : r.freeList.Nodup
  count : r.freeCount = r.freeList.length
  slots : ∀ p ∈ r.freeList, IsSlot k a p

/-- The invariant of a cache with live objects `l`. -/
structure CacheInv (k : SlabCache) (slabs : ℕ → Slab) (c : CacheIdx) (l : List ℕ) : Prop where
  shaped : Shaped c k
  nodup : ∀ w, (k.lists w).Nodup
  home : ∀ w, ∀ a ∈ k.lists w, w = home k.objectsPerSlab (slabs a).freeCount
  slab : ∀ w, ∀ a ∈ k.lists w, SlabOk k c a (slabs a)
  live_nodup : l.Nodup
  live : ∀ p, p ∈ l ↔ ∃ w, ∃ a ∈ k.lists w, IsSlot k a p ∧ p ∉ (slabs a).freeList
  totalSlabs : k.totalSlabs = (k.lists .fullSlabs).length + (k.lists .partialSlabs).length +
    (k.lists .emptySlabs).length
  totalObjects : k.totalObjects = k.totalSlabs * k.objectsPerSlab
  allocated : k.allocatedObjects = l.length

/-! ## Slots -/

/-- A slab holds three objects or more. -/
lemma Shaped.ops_ge (h : Shaped c k) : 3 ≤ k.objectsPerSlab := by
  have hall : ∀ c : CacheIdx, 3 ≤ calculateObjectsPerSlab (slabSizes.get c) := by decide
  rw [h.2, h.1]
  exact hall c

/-- There is room for a `free_object`. -/
lemma Shaped.size_ge (h : Shaped c k) : 16 ≤ k.objectSize := by
  have hall : ∀ c : CacheIdx, 16 ≤ slabSizes.get c := by decide
  rw [h.1]
  exact hall c

/-- The objects fit behind the header. -/
lemma Shaped.fits (h : Shaped c k) :
    k.objectsPerSlab * k.objectSize ≤ 8144 := by
  rw [h.2]
  exact Nat.div_mul_le_self _ _

/-- A slot lies inside the slab, behind the header. -/
lemma IsSlot.bounds (h : IsSlot k a p) (hk : Shaped c k) :
    a + 48 ≤ p ∧ p + k.objectSize ≤ a + 8192 := by
  rcases h with ⟨i, hi, hp⟩
  have hfit := hk.fits
  have hnext : (i + 1) * k.objectSize ≤ k.objectsPerSlab * k.objectSize :=
    Nat.mul_le_mul_right _ hi
  rw [Nat.add_mul] at hnext
  unfold objectAddr slabHeaderSize at hp
  omega

/-- The slab that an object lies in. -/
lemma IsSlot.slabOf_eq (h : IsSlot k a p) (hk : Shaped c k) (ha : 8192 ∣ a) : slabOf p = a := by
  have hb := h.bounds hk
  have hs := hk.size_ge
  unfold slabOf
  omega

/-- Two slots of a slab lie one after the other, unless they are the same. -/
lemma IsSlot.sep {q : ℕ} (hp : IsSlot k a p) (hq : IsSlot k a q) (hne : p ≠ q) :
    p + k.objectSize ≤ q ∨ q + k.objectSize ≤ p := by
  rcases hp with ⟨i, _, hp⟩
  rcases hq with ⟨j, _, hq⟩
  unfold objectAddr at hp hq
  have hij : i ≠ j := fun heq => hne (by rw [hp, hq, heq])
  rcases Nat.lt_or_gt_of_ne hij with hlt | hlt
  · have : (i + 1) * k.objectSize ≤ j * k.objectSize := Nat.mul_le_mul_right _ hlt
    rw [Nat.add_mul] at this
    omega
  · have : (j + 1) * k.objectSize ≤ i * k.objectSize := Nat.mul_le_mul_right _ hlt
    rw [Nat.add_mul] at this
    omega

/-- Free objects are objects of the slab. -/
lemma SlabOk.subset_slots (h : SlabOk k c a r) : r.freeList.toFinset ⊆
      (Finset.range k.objectsPerSlab).image (objectAddr a k.objectSize) := by
  intro q hq
  rcases h.slots q (mem_toFinset.mp hq) with ⟨i, hi, hqi⟩
  exact Finset.mem_image.mpr ⟨i, Finset.mem_range.mpr hi, hqi.symm⟩

/-- A slab has at most as many free objects as slots. -/
lemma SlabOk.count_le (h : SlabOk k c a r) :
    r.freeCount ≤ k.objectsPerSlab := by
  rw [h.count, ← toFinset_card_of_nodup h.nodup]
  calc r.freeList.toFinset.card
      ≤ ((Finset.range k.objectsPerSlab).image (objectAddr a k.objectSize)).card :=
        Finset.card_le_card h.subset_slots
    _ ≤ (Finset.range k.objectsPerSlab).card := Finset.card_image_le
    _ = k.objectsPerSlab := Finset.card_range _

/-! ## Lists and homes -/

namespace CacheInv

variable {k : SlabCache} {slabs : ℕ → Slab} {c : CacheIdx} {l : List ℕ} {w : SlabList} {a : ℕ}

/-- A listed slab is on one list only. -/
lemma eq_of_mem (h : CacheInv k slabs c l) (ha : a ∈ k.lists w) (ha' : a ∈ k.lists w') :
    w = w' := by
  rw [h.home w a ha, h.home w' a ha']

/-- The slab of a live object is listed, and the object is not on its free list. -/
lemma slab_of_live (h : CacheInv k slabs c l) (hp : p ∈ l) :
    ∃ w, slabOf p ∈ k.lists w ∧ IsSlot k (slabOf p) p ∧ p ∉ (slabs (slabOf p)).freeList := by
  rcases (h.live p).mp hp with ⟨w, a, ha, hslot, hfree⟩
  rw [hslot.slabOf_eq h.shaped (h.slab w a ha).aligned]
  exact ⟨w, ha, hslot, hfree⟩

/-- The free list of a slab that is not on the full list has a head. -/
lemma freeList_ne_nil (h : CacheInv k slabs c l) (ha : a ∈ k.lists w) (hw : w ≠ .fullSlabs) :
    (slabs a).freeList ≠ [] := by
  intro hnil
  apply hw
  rw [h.home w a ha, (h.slab w a ha).count, hnil]
  rfl

end CacheInv

/-- The lists after slab `a` moves from list `w` to list `w'`. -/
def moveLists (f : SlabList → List ℕ) (w w' : SlabList) (a : ℕ) : SlabList → List ℕ :=
  if w = w' then f
  else update (update f w ((f w).erase a)) w' (a :: f w')

/-- Where a slab is after a move. -/
lemma mem_moveLists {v : SlabList} {x : ℕ} (hnd : (f w).Nodup) (ha : ∀ u, a ∈ f u ↔ u = w) :
    x ∈ moveLists f w w' a v ↔ (x = a ∧ v = w') ∨ (x ≠ a ∧ x ∈ f v) := by
  have hax : ∀ u, x = a → (x ∈ f u ↔ u = w) := fun u hxa => by rw [hxa]; exact ha u
  unfold moveLists
  by_cases hww : w = w'
  · rw [if_pos hww]
    have := hax v
    subst hww
    tauto
  · rw [if_neg hww]
    by_cases hv' : v = w'
    · subst hv'
      rw [update_self, mem_cons]
      have hne : ¬ v = w := fun heq => hww heq.symm
      have := hax v
      tauto
    · rw [update_of_ne hv']
      by_cases hv : v = w
      · subst hv
        rw [update_self, hnd.mem_erase_iff]
        tauto
      · rw [update_of_ne hv]
        have := hax v
        tauto

/-- A move repeats no slab. -/
lemma nodup_moveLists (hnd : ∀ v, (f v).Nodup) (ha : ∀ u, a ∈ f u ↔ u = w) (v : SlabList) :
    (moveLists f w w' a v).Nodup := by
  unfold moveLists
  by_cases hww : w = w'
  · rw [if_pos hww]
    exact hnd v
  · rw [if_neg hww]
    by_cases hv' : v = w'
    · subst hv'
      rw [update_self, nodup_cons]
      exact ⟨fun hm => hww ((ha v).mp hm).symm, hnd v⟩
    · rw [update_of_ne hv']
      by_cases hv : v = w
      · subst hv
        rw [update_self]
        exact (hnd v).erase a
      · rw [update_of_ne hv]
        exact hnd v

/-- Moving a slab keeps the number of listed slabs. -/
lemma length_moveLists (ha : a ∈ f w) :
    (moveLists f w w' a .fullSlabs).length + (moveLists f w w' a .partialSlabs).length +
      (moveLists f w w' a .emptySlabs).length
      = (f .fullSlabs).length + (f .partialSlabs).length + (f .emptySlabs).length := by
  have hlen := length_erase_of_mem ha
  have hpos := length_pos_of_mem ha
  unfold moveLists
  cases w <;> cases w' <;> simp [update] <;> omega

namespace CacheInv

variable {k k' : SlabCache} {slabs : ℕ → Slab} {c : CacheIdx} {l l' : List ℕ} {w : SlabList}
  {a : ℕ}

section
variable (h : CacheInv k slabs c l)
include h

/-- The slabs other than `a` stay as they are, and the live objects change in the slots of `a`
only. -/
lemma change {slabs' : ℕ → Slab} (hsize : k'.objectSize = k.objectSize)
    (hops : k'.objectsPerSlab = k.objectsPerSlab) (haligned : 8192 ∣ a)
    (hnodup : ∀ v, (k'.lists v).Nodup) (hmem : ∀ v x, x ≠ a → (x ∈ k'.lists v ↔ x ∈ k.lists v))
    (hslabs : ∀ x ≠ a, slabs' x = slabs x)
    (hself : ∀ v, a ∈ k'.lists v →
      v = SlabAllocator.home k.objectsPerSlab (slabs' a).freeCount ∧ SlabOk k c a (slabs' a))
    (hnd : l'.Nodup)
    (hin : ∀ p, IsSlot k a p → (p ∈ l' ↔ (∃ v, a ∈ k'.lists v) ∧ p ∉ (slabs' a).freeList))
    (hout : ∀ p, ¬IsSlot k a p → (p ∈ l' ↔ p ∈ l))
    (htotal : k'.totalSlabs = (k'.lists .fullSlabs).length + (k'.lists .partialSlabs).length +
      (k'.lists .emptySlabs).length)
    (hobjects : k'.totalObjects = k'.totalSlabs * k.objectsPerSlab)
    (halloc : k'.allocatedObjects = l'.length) : CacheInv k' slabs' c l' := by
  have hslot : ∀ x p, IsSlot k' x p ↔ IsSlot k x p := by
    intro x p
    unfold IsSlot
    rw [hsize, hops]
  have hok : ∀ {x : ℕ} {q : Slab}, SlabOk k c x q → SlabOk k' c x q := fun hx =>
    ⟨hx.cache, hx.phys, hx.aligned, hx.nodup, hx.count, fun p hp => (hslot _ p).mpr (hx.slots p hp)⟩
  refine ⟨?_, hnodup, fun v x hx => ?_, fun v x hx => ?_, hnd, fun p => ?_, htotal, ?_, halloc⟩
  · unfold Shaped
    rw [hsize, hops]
    exact h.shaped
  · rw [hops]
    by_cases hxa : x = a
    · rw [hxa] at hx ⊢
      exact (hself v hx).1
    · rw [hslabs x hxa]
      exact h.home v x ((hmem v x hxa).mp hx)
  · by_cases hxa : x = a
    · rw [hxa] at hx ⊢
      exact hok (hself v hx).2
    · rw [hslabs x hxa]
      exact hok (h.slab v x ((hmem v x hxa).mp hx))
  · by_cases hp : IsSlot k a p
    · -- an object of the slab itself
      rw [hin p hp]
      constructor
      · rintro ⟨⟨v, hv⟩, hfree⟩
        exact ⟨v, a, hv, (hslot a p).mpr hp, hfree⟩
      · rintro ⟨v, x, hx, hxp, hfree⟩
        have hxa : x = a := by
          by_contra hxa
          have hal := (h.slab v x ((hmem v x hxa).mp hx)).aligned
          exact hxa ((((hslot x p).mp hxp).slabOf_eq h.shaped hal).symm.trans
            (hp.slabOf_eq h.shaped haligned))
        rw [hxa] at hx hfree
        exact ⟨⟨v, hx⟩, hfree⟩
    · -- an object of another slab
      rw [hout p hp, h.live p]
      constructor
      · rintro ⟨v, x, hx, hxp, hfree⟩
        have hxa : x ≠ a := fun heq => hp (heq ▸ hxp)
        exact ⟨v, x, (hmem v x hxa).mpr hx, (hslot x p).mpr hxp, by rw [hslabs x hxa]; exact hfree⟩
      · rintro ⟨v, x, hx, hxp, hfree⟩
        have hxp' := (hslot x p).mp hxp
        have hxa : x ≠ a := fun heq => hp (heq ▸ hxp')
        rw [hslabs x hxa] at hfree
        exact ⟨v, x, (hmem v x hxa).mp hx, hxp', hfree⟩
  · rw [hops]
    exact hobjects

/-- The header of a slab becomes `r`, and the slab moves to the list its free count asks for. -/
lemma relocate (ha : a ∈ k.lists w) (hr : SlabOk k c a r)
    (hk : k' = { k with
      allocatedObjects := l'.length
      lists := moveLists k.lists w (SlabAllocator.home k.objectsPerSlab r.freeCount) a })
    (hnd : l'.Nodup) (hin : ∀ p, IsSlot k a p → (p ∈ l' ↔ p ∉ r.freeList))
    (hout : ∀ p, ¬IsSlot k a p → (p ∈ l' ↔ p ∈ l)) :
    CacheInv k' (update slabs a r) c l' := by
  have honly : ∀ u, a ∈ k.lists u ↔ u = w :=
    fun u => ⟨fun hu => h.eq_of_mem hu ha, fun hu => hu ▸ ha⟩
  have hmem : ∀ v x, x ∈ k'.lists v ↔
      (x = a ∧ v = SlabAllocator.home k.objectsPerSlab r.freeCount) ∨ (x ≠ a ∧ x ∈ k.lists v) := by
    intro v x
    rw [hk]
    exact mem_moveLists (h.nodup w) honly
  have hself : update slabs a r a = r := update_self _ _ _
  refine h.change (by rw [hk]) (by rw [hk]) hr.aligned (fun v => ?_) (fun v x hxa => ?_)
    (fun x hxa => update_of_ne hxa _ _) (fun v hv => ?_) hnd (fun p hp => ?_) hout ?_ ?_
    (by rw [hk])
  · rw [hk]
    exact nodup_moveLists h.nodup honly v
  · rw [hmem]
    tauto
  · rw [hself]
    have hv' := (hmem v a).mp hv
    exact ⟨by tauto, hr⟩
  · rw [hin p hp, hself, and_iff_right ⟨_, (hmem _ a).mpr (Or.inl ⟨rfl, rfl⟩)⟩]
  · rw [hk]
    exact h.totalSlabs.trans (length_moveLists ha).symm
  · rw [hk]
    exact h.totalObjects

/-- A change of the headers of slabs that are not listed does not matter. -/
lemma congr_slabs {slabs' : ℕ → Slab} (heq : ∀ v, ∀ x ∈ k.lists v, slabs' x = slabs x) :
    CacheInv k slabs' c l := by
  refine ⟨h.shaped, h.nodup, ?_, ?_, h.live_nodup, ?_, h.totalSlabs, h.totalObjects, h.allocated⟩
  · intro v x hx
    rw [heq v x hx]
    exact h.home v x hx
  · intro v x hx
    rw [heq v x hx]
    exact h.slab v x hx
  · intro p
    rw [h.live p]
    constructor
    · intro hex
      rcases hex with ⟨v, x, hx, hxp, hfree⟩
      exact ⟨v, x, hx, hxp, by rw [heq v x hx]; exact hfree⟩
    · intro hex
      rcases hex with ⟨v, x, hx, hxp, hfree⟩
      exact ⟨v, x, hx, hxp, by rw [heq v x hx] at hfree; exact hfree⟩

/-- The first free object of a slab becomes live. -/
lemma alloc (ha : a ∈ k.lists w) {rest : List ℕ} (hfl : (slabs a).freeList = p :: rest)
    (hr : r = { slabs a with freeList := rest, freeCount := sizeSub (slabs a).freeCount 1 })
    (hk : k' = { k with
      allocatedObjects := k.allocatedObjects + 1
      lists := moveLists k.lists w (SlabAllocator.home k.objectsPerSlab r.freeCount) a }) :
    CacheInv k' (update slabs a r) c (p :: l) ∧ p ∉ l := by
  have hok := h.slab w a ha
  have hnd := hok.nodup
  rw [hfl, nodup_cons] at hnd
  have hslots := hok.slots
  rw [hfl] at hslots
  have hp : IsSlot k a p := hslots p mem_cons_self
  have hslab : slabOf p = a := hp.slabOf_eq h.shaped hok.aligned
  have hpl : p ∉ l := by
    intro hmem
    rcases h.slab_of_live hmem with ⟨_, _, _, hfree⟩
    apply hfree
    rw [hslab, hfl]
    exact mem_cons_self
  have hrl : r.freeList = rest := by rw [hr]
  have hcount := hok.count
  rw [hfl, length_cons] at hcount
  refine ⟨?_, hpl⟩
  apply h.relocate ha (r := r)
  · refine ⟨by rw [hr]; exact hok.cache, by rw [hr]; exact hok.phys, hok.aligned, ?_, ?_, ?_⟩
    · rw [hrl]
      exact hnd.2
    · rw [hr]
      show sizeSub (slabs a).freeCount 1 = rest.length
      rw [sizeSub_of_le (by omega), hcount, Nat.add_sub_cancel]
    · intro q hq
      rw [hrl] at hq
      exact hslots q (mem_cons_of_mem p hq)
  · rw [hk, h.allocated, length_cons]
  · exact nodup_cons.mpr ⟨hpl, h.live_nodup⟩
  · intro q hq
    rw [mem_cons, hrl, h.live q]
    constructor
    · intro hmem hrest
      rcases hmem with rfl | ⟨v, x, hx, hxq, hfree⟩
      · exact hnd.1 hrest
      · have hxa : x = a := by
          rw [← hq.slabOf_eq h.shaped hok.aligned, hxq.slabOf_eq h.shaped (h.slab v x hx).aligned]
        apply hfree
        rw [hxa, hfl]
        exact mem_cons_of_mem p hrest
    · intro hrest
      by_cases hqp : q = p
      · exact Or.inl hqp
      · refine Or.inr ⟨w, a, ha, hq, ?_⟩
        rw [hfl, mem_cons]
        tauto
  · intro q hq
    have hqp : q ≠ p := fun heq => hq (heq ▸ hp)
    rw [mem_cons]
    tauto

/-- A live object goes back to the head of its slab's free list. -/
lemma free (hp : p ∈ l) (ha : slabOf p ∈ k.lists w)
    (hr : r = { slabs (slabOf p) with
      freeList := p :: (slabs (slabOf p)).freeList
      freeCount := (slabs (slabOf p)).freeCount + 1 })
    (hk : k' = { k with
      allocatedObjects := sizeSub k.allocatedObjects 1
      lists := moveLists k.lists w (SlabAllocator.home k.objectsPerSlab r.freeCount)
        (slabOf p) }) :
    CacheInv k' (update slabs (slabOf p) r) c (l.erase p) := by
  rcases h.slab_of_live hp with ⟨_, _, hslot, hfree⟩
  have hok := h.slab w _ ha
  have hrl : r.freeList = p :: (slabs (slabOf p)).freeList := by rw [hr]
  have hmem : ∀ q, q ∈ l.erase p ↔ q ≠ p ∧ q ∈ l := fun q => h.live_nodup.mem_erase_iff
  apply h.relocate ha (r := r)
  · refine ⟨by rw [hr]; exact hok.cache, by rw [hr]; exact hok.phys, hok.aligned, ?_, ?_, ?_⟩
    · rw [hrl]
      exact nodup_cons.mpr ⟨hfree, hok.nodup⟩
    · rw [hr]
      show (slabs (slabOf p)).freeCount + 1 = _
      rw [hok.count, length_cons]
    · intro q hq
      rw [hrl] at hq
      rcases mem_cons.mp hq with rfl | hq
      · exact hslot
      · exact hok.slots q hq
  · have hpos := length_pos_of_mem hp
    rw [hk, length_erase_of_mem hp, ← h.allocated, sizeSub_of_le (by rw [h.allocated]; exact hpos)]
  · exact h.live_nodup.erase p
  · intro q hq
    rw [hmem, hrl, mem_cons, h.live q]
    constructor
    · intro hex hor
      rcases hex with ⟨hqp, v, x, hx, hxq, hnot⟩
      have hxa : x = slabOf p := by
        rw [← hq.slabOf_eq h.shaped hok.aligned, hxq.slabOf_eq h.shaped (h.slab v x hx).aligned]
      rw [hxa] at hnot
      tauto
    · intro hnor
      exact ⟨fun hqp => hnor (Or.inl hqp), w, _, ha, hq, fun hqf => hnor (Or.inr hqf)⟩
  · intro q hq
    have hqp : q ≠ p := by
      intro heq
      rw [heq] at hq
      exact hq hslot
    rw [hmem]
    tauto

/-- On the empty list every slot of a slab is free. -/
lemma empty_free (ha : a ∈ k.lists .emptySlabs) (hp : IsSlot k a p) : p ∈ (slabs a).freeList := by
  have hok := h.slab _ a ha
  -- the free list has no duplicates and is as long as there are slots
  have heq := Finset.eq_of_subset_of_card_le hok.subset_slots (by
    rw [toFinset_card_of_nodup hok.nodup, ← hok.count, eq_self_of_home (h.home _ a ha)]
    exact Finset.card_image_le.trans (Finset.card_range _).le)
  rcases hp with ⟨i, hi, hpi⟩
  rw [← mem_toFinset, heq]
  exact Finset.mem_image.mpr ⟨i, Finset.mem_range.mpr hi, hpi.symm⟩

/-- A slab with every slot free joins the empty list. -/
lemma add (ha : ∀ v, a ∉ k.lists v) (hr : SlabOk k c a r)
    (hall : ∀ p, IsSlot k a p → p ∈ r.freeList) (hcount : r.freeCount = k.objectsPerSlab)
    (hk : k' = { k with
      lists := update k.lists .emptySlabs (a :: k.lists .emptySlabs)
      totalSlabs := k.totalSlabs + 1
      totalObjects := k.totalObjects + k.objectsPerSlab }) :
    CacheInv k' (update slabs a r) c l := by
  have hself : update slabs a r a = r := update_self _ _ _
  refine h.change (by rw [hk]) (by rw [hk]) hr.aligned (fun v => ?_) (fun v x hxa => ?_)
    (fun x hxa => update_of_ne hxa _ _) (fun v hv => ?_) h.live_nodup (fun p hp => ?_)
    (fun _ _ => Iff.rfl) ?_ ?_ ?_
  · rw [hk]
    show (update k.lists _ _ v).Nodup
    by_cases hv : v = .emptySlabs
    · subst hv
      rw [update_self]
      exact nodup_cons.mpr ⟨ha _, h.nodup _⟩
    · rw [update_of_ne hv]
      exact h.nodup v
  · rw [hk]
    by_cases hv : v = .emptySlabs
    · subst hv
      simp only [update_self, mem_cons, or_iff_right hxa]
    · simp only [update_of_ne hv]
  · rw [hself, hcount, home_self (by have := h.shaped.ops_ge; omega)]
    refine ⟨by_contra fun hne => ha v ?_, hr⟩
    rw [hk] at hv
    simpa only [update_of_ne hne] using hv
  · -- every slot of the new slab is free
    refine iff_of_false (fun hpl => ?_) fun hfree => hfree.2 ?_
    · rcases h.slab_of_live hpl with ⟨v, hv, -, -⟩
      exact ha v (hp.slabOf_eq h.shaped hr.aligned ▸ hv)
    · rw [hself]
      exact hall p hp
  · have htotal := h.totalSlabs
    rw [hk]
    simp only [update_self, update_of_ne, ne_eq, reduceCtorEq,
      not_false_eq_true, length_cons]
    omega
  · rw [hk]
    show k.totalObjects + k.objectsPerSlab = (k.totalSlabs + 1) * k.objectsPerSlab
    rw [h.totalObjects, Nat.add_mul, Nat.one_mul]
  · rw [hk]
    exact h.allocated

/-- A slab leaves the empty list and the statistics. -/
lemma drop (ha : a ∈ k.lists .emptySlabs) (hk : k' = { k with
      lists := update k.lists .emptySlabs ((k.lists .emptySlabs).erase a)
      totalSlabs := sizeSub k.totalSlabs 1
      totalObjects := sizeSub k.totalObjects k.objectsPerSlab }) : CacheInv k' slabs c l := by
  have hout : ∀ v, a ∉ k'.lists v := by
    intro v hv
    rw [hk] at hv
    by_cases hve : v = .emptySlabs
    · subst hve
      simp only [update_self] at hv
      exact (h.nodup _).not_mem_erase hv
    · simp only [update_of_ne hve] at hv
      exact hve (h.eq_of_mem hv ha)
  have hal := (h.slab _ a ha).aligned
  have htotal := h.totalSlabs
  have hpos := length_pos_of_mem ha
  refine h.change (by rw [hk]) (by rw [hk]) hal (fun v => ?_) (fun v x hxa => ?_)
    (fun _ _ => rfl) (fun v hv => absurd hv (hout v)) h.live_nodup (fun p hp => ?_)
    (fun _ _ => Iff.rfl) ?_ ?_ ?_
  · rw [hk]
    show (update k.lists _ _ v).Nodup
    by_cases hv : v = .emptySlabs
    · subst hv
      rw [update_self]
      exact (h.nodup _).erase a
    · rw [update_of_ne hv]
      exact h.nodup v
  · rw [hk]
    by_cases hv : v = .emptySlabs
    · subst hv
      simp only [update_self, mem_erase_of_ne hxa]
    · simp only [update_of_ne hv]
  · -- the slab that leaves has no live object
    refine iff_of_false (fun hpl => ?_) fun hlisted => hout _ hlisted.1.choose_spec
    rcases h.slab_of_live hpl with ⟨-, -, -, hfree⟩
    rw [hp.slabOf_eq h.shaped hal] at hfree
    exact hfree (h.empty_free ha hp)
  · have hlen := length_erase_of_mem ha
    rw [hk]
    simp only [update_self, update_of_ne, ne_eq, reduceCtorEq,
      not_false_eq_true]
    rw [sizeSub_of_le (by omega)]
    omega
  · rw [hk]
    show sizeSub k.totalObjects k.objectsPerSlab = sizeSub k.totalSlabs 1 * k.objectsPerSlab
    have hle : k.objectsPerSlab ≤ k.totalSlabs * k.objectsPerSlab :=
      Nat.le_mul_of_pos_left _ (by omega)
    rw [h.totalObjects, sizeSub_of_le hle, sizeSub_of_le (by omega), Nat.sub_mul, Nat.one_mul]
  · rw [hk]
    exact h.allocated

end

end CacheInv

end LunOS.SlabAllocator
