import LunOS.SlabAllocator.Caches
import LunOS.BuddyAllocator.Nodes

/-!
# Slabs in memory

`SlabImage s a` says that the header and the free objects of the slab at `a` lie in memory as the
model has them, `Chained s` the same for the lists of the caches. The stores of the operations are
followed one by one: stores to the header and the free objects of a slab rebuild its image, and
moving a slab between lists (`relocateSlab`) only writes `next` fields.
-/

namespace LunOS.SlabAllocator
open LunOS.Dyadic LunOS.Memory LunOS.BuddyAllocator Function

/-- Pointers are computed the same way. -/
structure SamePtrs (s s' : SlabState) : Prop where
  hhdm : s'.buddy.hhdmOffset = s.buddy.hhdmOffset
  addr : s'.slabCachesAddr = s.slabCachesAddr

lemma SamePtrs.refl (s : SlabState) : SamePtrs s s := ⟨rfl, rfl⟩

variable {s s' s'' : SlabState} {a n : ℕ} {c : CacheIdx} {w : SlabList}

lemma SamePtrs.trans (h : SamePtrs s s') (h' : SamePtrs s' s'') :
    SamePtrs s s'' := ⟨h'.hhdm.trans h.hhdm, h'.addr.trans h.addr⟩

/-- Nothing but memory, slab headers and caches differs. -/
structure Quiet (s s' : SlabState) : Prop extends SamePtrs s s' where
  arenas : s'.buddy.buddyArenas = s.buddy.buddyArenas
  counter : s'.buddy.buddyArenaCounter = s.buddy.buddyArenaCounter
  held : s'.held = s.held

lemma Quiet.refl (s : SlabState) : Quiet s s := ⟨SamePtrs.refl s, rfl, rfl, rfl⟩

lemma Quiet.trans (h : Quiet s s') (h' : Quiet s' s'') : Quiet s s'' :=
  ⟨h.toSamePtrs.trans h'.toSamePtrs, h'.arenas.trans h.arenas, h'.counter.trans h.counter,
    h'.held.trans h.held⟩

/-- Memory changes inside `W` only. -/
def Writes (W : Set ℕ) (s s' : SlabState) : Prop :=
  ∀ z, z ∉ W → s'.buddy.mem z = s.buddy.mem z

lemma Writes.refl (W : Set ℕ) (s : SlabState) : Writes W s s := fun _ _ => rfl

/-- Writes in a row. -/
lemma Writes.trans {W : Set ℕ} (h : Writes W s s') (h' : Writes W s' s'') :
    Writes W s s'' := fun z hz => (h' z hz).trans (h z hz)

lemma Writes.mono {W W' : Set ℕ} (h : Writes W s s') (hW : W ⊆ W') :
    Writes W' s s' := fun z hz => h z fun hz' => hz (hW hz')

/-- A store changes only memory. -/
lemma quiet_store (s : SlabState) (a n v : ℕ) : Quiet s (s.store a n v) :=
  ⟨⟨rfl, rfl⟩, rfl, rfl, rfl⟩

/-! ## The image of a slab -/

/-- The header and the free objects of a slab as they are stored. -/
structure SlabImage (s : SlabState) (a : ℕ) : Prop where
  magic : readLE s.buddy.mem a 8 = slabMagic
  cache : readLE s.buddy.mem (a + 8) 8 = s.cachePtr (s.slabs a).cache
  phys : readLE s.buddy.mem (a + 16) 8 = (s.slabs a).physAddr
  count : readLE s.buddy.mem (a + 24) 8 = (s.slabs a).freeCount
  head : readLE s.buddy.mem (a + 32) 8 = s.buddy.listPtr (s.slabs a).freeList
  objects : Chain.Linked s.buddy.mem s.buddy.physToVirt 8 (s.slabs a).freeList

lemma SamePtrs.physToVirt (h : SamePtrs s s') :
    s'.buddy.physToVirt = s.buddy.physToVirt := physToVirt_congr h.hhdm

lemma SamePtrs.listPtr (h : SamePtrs s s') (l : List ℕ) :
    s'.buddy.listPtr l = s.buddy.listPtr l := by
  rw [Buddy.listPtr, Buddy.listPtr, h.physToVirt]

lemma SamePtrs.cachePtr (h : SamePtrs s s') (c : CacheIdx) :
    s'.cachePtr c = s.cachePtr c := by
  rw [SlabState.cachePtr, SlabState.cachePtr, h.addr]

/-- The image depends on the first 40 bytes of the header and the `next` fields of the free
objects. -/
lemma SlabImage.congr (h : SlabImage s a) (hq : SamePtrs s s') (hr : s'.slabs a = s.slabs a)
    (hm : ∀ z, a ≤ z → z < a + 40 → s'.buddy.mem z = s.buddy.mem z)
    (ho : ∀ p ∈ (s.slabs a).freeList, ∀ z, p + 8 ≤ z → z < p + 16 →
      s'.buddy.mem z = s.buddy.mem z) : SlabImage s' a := by
  have hfield : ∀ k, k + 8 ≤ 40 → readLE s'.buddy.mem (a + k) 8 = readLE s.buddy.mem (a + k) 8 :=
    fun k hk => readLE_congr fun z hz hz' => hm z (by omega) (by omega)
  refine ⟨?_, ?_, ?_, ?_, ?_, ?_⟩
  · exact (hfield 0 (by omega)).trans h.magic
  · rw [hr, hq.cachePtr]
    exact (hfield 8 (by omega)).trans h.cache
  · rw [hr]
    exact (hfield 16 (by omega)).trans h.phys
  · rw [hr]
    exact (hfield 24 (by omega)).trans h.count
  · rw [hr, hq.listPtr]
    exact (hfield 32 (by omega)).trans h.head
  · rw [hr, hq.physToVirt]
    exact h.objects.congr ho

/-- Stores to `free_count`. -/
lemma SlabImage.setFreeCount (h : SlabImage s a) (hn : n < 256 ^ 8)
    (hb : ∀ p ∈ (s.slabs a).freeList, a + 48 ≤ p) : SlabImage (s.setFreeCount a n) a := by
  have hslab : (s.setFreeCount a n).slabs a = { s.slabs a with freeCount := n } := by
    simp [SlabState.setFreeCount, SlabState.setSlab, SlabState.store]
  have hmem : (s.setFreeCount a n).buddy.mem = writeLE s.buddy.mem (a + 24) 8 n := rfl
  refine ⟨?_, ?_, ?_, ?_, ?_, ?_⟩
  · rw [hmem, readLE_writeLE_of_disjoint (by omega)]
    exact h.magic
  · rw [hmem, hslab, readLE_writeLE_of_disjoint (by omega)]
    exact h.cache
  · rw [hmem, hslab, readLE_writeLE_of_disjoint (by omega)]
    exact h.phys
  · rw [hmem, hslab]
    exact readLE_writeLE_same hn
  · rw [hmem, hslab, readLE_writeLE_of_disjoint (by omega)]
    exact h.head
  · rw [hmem, hslab]
    refine h.objects.congr fun p hp z hz hz' => ?_
    have := hb p hp
    exact writeLE_of_outside (by omega)

/-- Stores to `free_list`, of a list that is chained. -/
lemma SlabImage.setFreeList {l : List ℕ} (h : SlabImage s a)
    (hl : Chain.Linked s.buddy.mem s.buddy.physToVirt 8 l) (hb : ∀ p ∈ l, a + 48 ≤ p) :
    SlabImage (s.setFreeList a l) a := by
  have hslab : (s.setFreeList a l).slabs a = { s.slabs a with freeList := l } := by
    simp [SlabState.setFreeList, SlabState.setSlab, SlabState.store]
  have hmem : (s.setFreeList a l).buddy.mem
      = writeLE s.buddy.mem (a + 32) 8 (s.buddy.listPtr l) := rfl
  refine ⟨?_, ?_, ?_, ?_, ?_, ?_⟩
  · rw [hmem, readLE_writeLE_of_disjoint (by omega)]
    exact h.magic
  · rw [hmem, hslab, readLE_writeLE_of_disjoint (by omega)]
    exact h.cache
  · rw [hmem, hslab, readLE_writeLE_of_disjoint (by omega)]
    exact h.phys
  · rw [hmem, hslab, readLE_writeLE_of_disjoint (by omega)]
    exact h.count
  · rw [hmem, hslab]
    exact readLE_writeLE_same (Chain.headPtr_lt (physToVirt_lt s.buddy) l)
  · rw [hmem, hslab]
    refine hl.congr fun p hp z hz hz' => ?_
    have := hb p hp
    exact writeLE_of_outside (by omega)

/-- An object away from the free ones goes on the free list. -/
lemma SlabImage.linkObject {obj : ℕ} (h : SlabImage s a) (hobj : a + 48 ≤ obj)
    (hb : ∀ p ∈ (s.slabs a).freeList, a + 48 ≤ p)
    (hsep : ∀ p ∈ (s.slabs a).freeList, p + 16 ≤ obj ∨ obj + 16 ≤ p) :
    SlabImage (s.linkObject a obj) a := by
  -- the `next` field of the object first
  have hstore : SlabImage (s.store (obj + 8) 8 (s.buddy.listPtr (s.slabs a).freeList)) a := by
    refine h.congr (quiet_store _ _ _ _).toSamePtrs rfl ?_ ?_
    · intro z hz hz'
      exact writeLE_of_outside (by omega)
    · intro p hp z hz hz'
      have := hsep p hp
      exact writeLE_of_outside (by omega)
  apply hstore.setFreeList
  · refine ⟨?_, hstore.objects⟩
    exact readLE_writeLE_same (Chain.headPtr_lt (physToVirt_lt s.buddy) _)
  · intro p hp
    rcases List.mem_cons.mp hp with hp | hp
    · rw [hp]
      exact hobj
    · exact hb p hp

/-! ## The lists in memory -/

/-- The slabs of every list are chained through their `next` fields. -/
def Chained (s : SlabState) : Prop :=
  ∀ c w, Chain.Linked s.buddy.mem s.buddy.physToVirt 40 ((s.slabCaches c).lists w)

/-- The lists of all caches share no slab and have no duplicates; slabs are aligned. -/
structure ListsApart (s : SlabState) : Prop where
  nodup : ∀ c w, ((s.slabCaches c).lists w).Nodup
  unique : ∀ c w c' w' a, a ∈ (s.slabCaches c).lists w → a ∈ (s.slabCaches c').lists w' →
    c = c' ∧ w = w'
  aligned : ∀ c w, ∀ a ∈ (s.slabCaches c).lists w, 8192 ∣ a

/-- The slab is on some list. -/
def Listed (s : SlabState) (a : ℕ) : Prop := ∃ c w, a ∈ (s.slabCaches c).lists w

lemma listed_of_lists (hlists : ∀ c, (s'.slabCaches c).lists = (s.slabCaches c).lists) (x : ℕ) :
    Listed s' x ↔ Listed s x := by
  unfold Listed
  simp only [hlists]

lemma ListsApart.of_lists (h : ListsApart s)
    (hlists : ∀ c, (s'.slabCaches c).lists = (s.slabCaches c).lists) : ListsApart s' := by
  refine ⟨fun c w => ?_, fun c w c' w' x hx hx' => ?_, fun c w x hx => ?_⟩
  · rw [hlists]
    exact h.nodup c w
  · rw [hlists] at hx hx'
    exact h.unique c w c' w' x hx hx'
  · rw [hlists] at hx
    exact h.aligned c w x hx

/-- The `next` fields of the listed slabs. -/
def nextCells (s : SlabState) : Set ℕ := {z | ∃ a, Listed s a ∧ a + 40 ≤ z ∧ z < a + 48}

/-- The slab is taken off the one list it is on. -/
lemma slabRemoveFromList_eq (h : ListsApart s) (ha : a ∈ (s.slabCaches c).lists w) :
    slabRemoveFromList s a c = s.unlinkSlab c w a := by
  have honly : ∀ v, a ∈ (s.slabCaches c).lists v ↔ v = w :=
    fun v => ⟨fun hv => (h.unique c v c w a hv ha).2, fun hv => hv ▸ ha⟩
  unfold slabRemoveFromList
  cases w <;> simp [honly]

/-- A slab on no list is left alone. -/
lemma slabRemoveFromList_of_not_mem (ha : ∀ w, a ∉ (s.slabCaches c).lists w) :
    slabRemoveFromList s a c = s := by
  unfold slabRemoveFromList
  rw [if_neg (ha _), if_neg (ha _), if_neg (ha _)]

/-- The slab leaves its list. -/
lemma bypassSlab_lists (s : SlabState) (c : CacheIdx) (w : SlabList) (a : ℕ) (c' : CacheIdx)
    (w' : SlabList) : ((s.bypassSlab c w a).slabCaches c').lists w'
      = if c' = c ∧ w' = w then ((s.slabCaches c).lists w).erase a
        else (s.slabCaches c').lists w' := by
  by_cases hc : c' = c
  · subst hc
    by_cases hw : w' = w
    · subst hw
      simp [SlabState.bypassSlab, SlabState.setCache, SlabCache.setList]
    · simp [SlabState.bypassSlab, SlabState.setCache, SlabCache.setList, hw]
  · simp [SlabState.bypassSlab, SlabState.setCache, hc]

/-- The slabs still listed when `a` has left its list are away from it. -/
lemma ListsApart.far_of_bypassSlab (h : ListsApart s) {x : ℕ} (ha : a ∈ (s.slabCaches c).lists w)
    (hx : Listed (s.bypassSlab c w a) x) :
    Listed s x ∧ (x + 8192 ≤ a ∨ a + 8192 ≤ x) := by
  rcases hx with ⟨c', w', hx⟩
  rw [bypassSlab_lists] at hx
  have hdvd := h.aligned c w a ha
  split at hx
  · have hxa := (h.nodup c w).mem_erase_iff.mp hx
    have := h.aligned c w x hxa.2
    exact ⟨⟨c, w, hxa.2⟩, by omega⟩
  · rename_i hne
    have := h.aligned c' w' x hx
    have hxa : x ≠ a := by
      intro heq
      subst heq
      exact hne (h.unique c' w' c w x hx ha)
    exact ⟨⟨c', w', hx⟩, by omega⟩

/-- The link around a slab keeps all lists chained. -/
lemma chained_bypassSlab (h : ListsApart s) (hch : Chained s) : Chained (s.bypassSlab c w a) := by
  -- two slabs with different addresses are 8 KiB apart
  have hfar : ∀ {c₁ w₁ x c₂ w₂ y}, x ∈ (s.slabCaches c₁).lists w₁ →
      y ∈ (s.slabCaches c₂).lists w₂ → x ≠ y → x + 8192 ≤ y ∨ y + 8192 ≤ x := by
    intro c₁ w₁ x c₂ w₂ y hx hy hne
    have := h.aligned c₁ w₁ x hx
    have := h.aligned c₂ w₂ y hy
    omega
  intro c' w'
  rw [bypassSlab_lists]
  split
  · have hpair : ((s.slabCaches c).lists w).Pairwise fun x y => x + 8 ≤ y ∨ y + 8 ≤ x := by
      refine List.Pairwise.imp_of_mem ?_ (h.nodup c w)
      intro x y hx hy hne
      have := hfar hx hy hne
      omega
    exact (hch c w).unlinkNext (physToVirt_lt s.buddy) a hpair
  · rename_i hne
    refine (hch c' w').congr fun x hx z hz hz' => ?_
    apply Chain.unlinkNext_outside
    intro y hy
    have hxy : x ≠ y := by
      intro heq
      subst heq
      exact hne (h.unique c' w' c w x hx hy)
    have := hfar hx hy hxy
    omega

/-- A store to the header of a slab that is not listed keeps all lists chained. -/
lemma chained_store (hch : Chained s) {b v : ℕ}
    (hfar : ∀ x, Listed s x → x + 48 ≤ b ∨ b + n ≤ x + 40) : Chained (s.store b n v) := by
  intro c w
  refine (hch c w).congr fun x hx z hz hz' => ?_
  have := hfar x ⟨c, w, hx⟩
  exact writeLE_of_outside (by omega)

/-- The lists stay chained. -/
lemma chained_unlinkSlab (h : ListsApart s) (hch : Chained s) (ha : a ∈ (s.slabCaches c).lists w) :
    Chained (s.unlinkSlab c w a) := by
  apply chained_store (chained_bypassSlab h hch)
  intro x hx
  have := (h.far_of_bypassSlab ha hx).2
  omega

/-- The slab goes to the front. -/
lemma linkSlab_lists (s : SlabState) (c : CacheIdx) (w : SlabList) (a : ℕ) (c' : CacheIdx)
    (w' : SlabList) : ((s.linkSlab c w a).slabCaches c').lists w'
      = if c' = c ∧ w' = w then a :: (s.slabCaches c).lists w
        else (s.slabCaches c').lists w' := by
  by_cases hc : c' = c
  · subst hc
    by_cases hw : w' = w
    · subst hw
      simp [SlabState.linkSlab, SlabState.setCache, SlabCache.setList]
    · simp [SlabState.linkSlab, SlabState.setCache, SlabCache.setList, hw]
  · simp [SlabState.linkSlab, SlabState.setCache, SlabState.store, hc]

/-- Linking a slab whose header is away from the listed ones keeps all lists chained. -/
lemma chained_linkSlab (hch : Chained s) (hfar : ∀ x, Listed s x → x + 8192 ≤ a ∨ a + 8192 ≤ x) :
    Chained (s.linkSlab c w a) := by
  have hold : ∀ c' w', Chain.Linked (s.linkSlab c w a).buddy.mem s.buddy.physToVirt 40
      ((s.slabCaches c').lists w') := by
    intro c' w'
    refine (hch c' w').congr fun x hx z hz hz' => ?_
    have := hfar x ⟨c', w', hx⟩
    exact writeLE_of_outside (by omega)
  intro c' w'
  rw [linkSlab_lists]
  split
  · exact ⟨readLE_writeLE_same (Chain.headPtr_lt (physToVirt_lt s.buddy) _), hold c w⟩
  · exact hold c' w'

/-! ## Moving a slab between lists -/

/-- The end of `slab_alloc` and `slab_free`: the slab goes from list `w` to list `w'`. -/
def relocateSlab (s : SlabState) (c : CacheIdx) (a : ℕ) (w w' : SlabList) : SlabState :=
  if w = w' then s else (slabRemoveFromList s a c).linkSlab c w' a

/-- Moving a slab does not write its header. -/
lemma relocateSlab_slabs (s : SlabState) (c : CacheIdx) (a : ℕ) (w w' : SlabList) :
    (relocateSlab s c a w w').slabs = s.slabs := by
  have hremove : (slabRemoveFromList s a c).slabs = s.slabs := by
    unfold slabRemoveFromList
    split
    · rfl
    · split
      · rfl
      · split
        · rfl
        · rfl
  unfold relocateSlab
  split
  · rfl
  · exact hremove

/-- The placement of `slab_alloc`, `n` being the free objects left. -/
lemma relocateSlab_alloc (s : SlabState) (c : CacheIdx) (a : ℕ) {ops : ℕ} (hops : 3 ≤ ops)
    (hn : n + 1 ≤ ops) :
    (if n = 0 then (slabRemoveFromList s a c).linkSlab c .fullSlabs a
      else if n = sizeSub ops 1 then (slabRemoveFromList s a c).linkSlab c .partialSlabs a
      else s) = relocateSlab s c a (home ops (n + 1)) (home ops n) := by
  rw [sizeSub_of_le (by omega)]
  by_cases h₀ : n = 0
  · subst h₀
    rw [if_pos rfl, home_between (by omega) (by omega), home_zero]
    rfl
  rw [if_neg h₀]
  by_cases h₁ : n + 1 = ops
  · rw [if_pos (by omega), h₁, home_self (by omega), home_between (by omega) (by omega)]
    rfl
  · rw [if_neg (by omega), home_between (by omega) (by omega), home_between (by omega) (by omega)]
    rfl

/-- The placement of `slab_free`, `n` being the free objects before. -/
lemma relocateSlab_free (s : SlabState) (c : CacheIdx) (a : ℕ) {ops : ℕ} (hops : 3 ≤ ops)
    (hn : n + 1 ≤ ops) :
    (if n + 1 = 1 then (slabRemoveFromList s a c).linkSlab c .partialSlabs a
      else if n + 1 = ops then (slabRemoveFromList s a c).linkSlab c .emptySlabs a
      else s) = relocateSlab s c a (home ops n) (home ops (n + 1)) := by
  by_cases h₀ : n = 0
  · subst h₀
    rw [if_pos rfl, home_zero, home_between (by omega) (by omega)]
    rfl
  rw [if_neg (by omega)]
  by_cases h₁ : n + 1 = ops
  · rw [if_pos h₁, h₁, home_self (by omega), home_between (by omega) (by omega)]
    rfl
  · rw [if_neg h₁, home_between (by omega) (by omega), home_between (by omega) (by omega)]
    rfl

/-- What moving a slab does: one cache gets the moved lists, and `next` fields are written. -/
lemma relocateSlab_spec (h : ListsApart s) (hch : Chained s) (w' : SlabList)
    (ha : a ∈ (s.slabCaches c).lists w) :
    (relocateSlab s c a w w').slabCaches = update s.slabCaches c
      { s.slabCaches c with lists := moveLists (s.slabCaches c).lists w w' a } ∧
    Quiet s (relocateSlab s c a w w') ∧
    Writes (nextCells s) s (relocateSlab s c a w w') ∧
    Chained (relocateSlab s c a w w') := by
  unfold relocateSlab moveLists
  by_cases hww : w = w'
  · rw [if_pos hww, if_pos hww, update_eq_self]
    exact ⟨rfl, Quiet.refl s, Writes.refl _ s, hch⟩
  rw [if_neg hww, if_neg hww, slabRemoveFromList_eq h ha]
  have hw' : ((s.unlinkSlab c w a).slabCaches c).lists w' = (s.slabCaches c).lists w' := by
    show ((s.bypassSlab c w a).slabCaches c).lists w' = _
    rw [bypassSlab_lists, if_neg (fun hc => hww hc.2.symm)]
  refine ⟨?_, ⟨⟨rfl, rfl⟩, rfl, rfl, rfl⟩, ?_, ?_⟩
  · simp [SlabState.linkSlab, SlabState.setCache, SlabState.unlinkSlab, SlabState.bypassSlab,
      SlabState.store, SlabCache.setList, update_of_ne (Ne.symm hww)]
  · intro z hz
    have hza : ¬ (a + 40 ≤ z ∧ z < a + 40 + 8) := fun hcon => hz ⟨a, ⟨c, w, ha⟩, hcon⟩
    refine Eq.trans (writeLE_of_outside (by omega)) ?_
    refine Eq.trans (writeLE_of_outside (by omega)) ?_
    apply Chain.unlinkNext_outside
    intro x hx
    have hzx : ¬ (x + 40 ≤ z ∧ z < x + 40 + 8) := fun hcon => hz ⟨x, ⟨c, w, hx⟩, hcon⟩
    omega
  · apply chained_linkSlab (chained_unlinkSlab h hch ha)
    intro x hx
    exact (h.far_of_bypassSlab ha hx).2

/-- Moving a slab does not change which slabs are listed. -/
lemma listed_relocateSlab (h : ListsApart s) (hch : Chained s) (w' : SlabList)
    (ha : a ∈ (s.slabCaches c).lists w) (x : ℕ) :
    Listed (relocateSlab s c a w w') x ↔ Listed s x := by
  have honly : ∀ u, a ∈ (s.slabCaches c).lists u ↔ u = w :=
    fun u => ⟨fun hu => (h.unique c u c w a hu ha).2, fun hu => hu ▸ ha⟩
  have hcaches := (relocateSlab_spec h hch w' ha).1
  have hmem : ∀ v, x ∈ ((relocateSlab s c a w w').slabCaches c).lists v ↔
      (x = a ∧ v = w') ∨ (x ≠ a ∧ x ∈ (s.slabCaches c).lists v) := by
    intro v
    rw [hcaches, update_self]
    exact mem_moveLists (h.nodup c w) honly
  have hoth : ∀ c', c' ≠ c →
      (relocateSlab s c a w w').slabCaches c' = s.slabCaches c' := by
    intro c' hc'
    rw [hcaches, update_of_ne hc']
  constructor
  · intro hx
    rcases hx with ⟨c', v, hx⟩
    by_cases hc' : c' = c
    · subst hc'
      rcases (hmem v).mp hx with ⟨hxa, _⟩ | ⟨_, hxv⟩
      · rw [hxa]
        exact ⟨c', w, ha⟩
      · exact ⟨c', v, hxv⟩
    · rw [hoth c' hc'] at hx
      exact ⟨c', v, hx⟩
  · intro hx
    rcases hx with ⟨c', v, hx⟩
    by_cases hc' : c' = c
    · subst hc'
      by_cases hxa : x = a
      · exact ⟨c', w', (hmem w').mpr (Or.inl ⟨hxa, rfl⟩)⟩
      · exact ⟨c', v, (hmem v).mpr (Or.inr ⟨hxa, hx⟩)⟩
    · refine ⟨c', v, ?_⟩
      rw [hoth c' hc']
      exact hx

end LunOS.SlabAllocator
