import LunOS.SlabAllocator.Images
import LunOS.BuddyAllocator.PagePartition

/-!
# The operations keep the slab invariant

`SlabInv s env live` is the invariant of the slab allocator on top of the buddy allocator, with
live objects `live` and blocks `env` held by others. Every operation keeps it, and writes no byte
of a live object, of a block of the others, or outside the arenas.
-/

namespace LunOS.SlabAllocator
open LunOS.Dyadic LunOS.Memory LunOS.BuddyAllocator Function List Set

/-- The invariant of the slab allocator. -/
structure SlabInv (s : SlabState) (env : List Block) (live : CacheIdx → List ℕ) : Prop where
  buddy : BuddyAllocator.Inv s.buddy (s.held ++ env)
  nonzero : ∀ i, 0 ∉ (s.buddy.buddyArenas i).range
  caches : ∀ c, CacheInv (s.slabCaches c) s.slabs c (live c)
  held : ∀ x, x ∈ s.held ↔ ∃ a, Listed s a ∧ x = ⟨a, 1⟩
  images : ∀ a, Listed s a → SlabImage s a
  chained : Chained s

/-- The bytes that belong to the clients: blocks of others, live objects, and all memory outside
the arenas. -/
def clientBytes (s : SlabState) (env : List Block) (live : CacheIdx → List ℕ) : Set ℕ :=
  {z | (∃ x ∈ env, z ∈ x.span 12) ∨ (∃ c, ∃ p ∈ live c, p ≤ z ∧ z < p + slabSizes.get c) ∨
    ∀ i, z ∉ (s.buddy.buddyArenas i).pages}

/-- The fields an operation on slab `a` writes: its counters and `next` fields. -/
def opCells (s : SlabState) (a : ℕ) : Set ℕ := Set.Ico (a + 24) (a + 40) ∪ nextCells s

/-- An operation that leaves the arenas in place and the clients' bytes alone. -/
structure Keeps (s s' : SlabState) (env : List Block) (live : CacheIdx → List ℕ) : Prop where
  ptrs : SamePtrs s s'
  shape : SameShape s.buddy s'.buddy
  frame : ∀ z ∈ clientBytes s env live, s'.buddy.mem z = s.buddy.mem z

variable {s s' : SlabState} {a z p : ℕ}

lemma SameShape.clientBytes (h : SameShape s.buddy s'.buddy) (env : List Block)
    (live : CacheIdx → List ℕ) :
    clientBytes s' env live = clientBytes s env live := by
  unfold SlabAllocator.clientBytes
  simp only [h.pages]

lemma Keeps.trans {s'' : SlabState} {env : List Block} {live : CacheIdx → List ℕ}
    (h : Keeps s s' env live) (h' : Keeps s' s'' env live) : Keeps s s'' env live := by
  refine ⟨h.ptrs.trans h'.ptrs, h.shape.trans h'.shape, fun z hz => ?_⟩
  rw [h'.frame z (by rw [SameShape.clientBytes h.shape]; exact hz), h.frame z hz]

lemma Keeps.refl (s : SlabState) (env : List Block) (live : CacheIdx → List ℕ) :
    Keeps s s env live := ⟨SamePtrs.refl s, SameShape.refl _, fun _ _ => rfl⟩

lemma Quiet.sameShape (h : Quiet s s') : SameShape s.buddy s'.buddy := by
  intro i
  rw [h.arenas]
  exact ⟨rfl, rfl, rfl⟩

lemma mem_span_one : z ∈ Block.span 12 ⟨a, 1⟩ ↔ a ≤ z ∧ z < a + 8192 := by
  rw [mem_span]
  show a ≤ z ∧ z < a + 2 ^ (12 + 1) ↔ _
  norm_num

/-! ## The state before a slab is placed -/

/-- The state when `slab_alloc` has taken the first object off the free list of a slab, whose other
objects are `rest`, before the slab is placed. -/
def takeObject (s : SlabState) (c : CacheIdx) (a : ℕ) (rest : List ℕ) : SlabState :=
  ((s.setFreeList a rest).setFreeCount a (sizeSub (s.slabs a).freeCount 1)).setCache c
    { s.slabCaches c with allocatedObjects := (s.slabCaches c).allocatedObjects + 1 }

/-- The record after an allocation. -/
lemma takeObject_slabs (s : SlabState) (c : CacheIdx) (a : ℕ) (rest : List ℕ) :
    (takeObject s c a rest).slabs = update s.slabs a
      { s.slabs a with freeList := rest, freeCount := sizeSub (s.slabs a).freeCount 1 } := by
  simp [takeObject, SlabState.setFreeList, SlabState.setFreeCount, SlabState.setCache,
    SlabState.setSlab, SlabState.store]

/-- An allocation writes to the header. -/
lemma takeObject_writes (s : SlabState) (c : CacheIdx) (a : ℕ) (rest : List ℕ) :
    Writes (Set.Ico (a + 24) (a + 40)) s (takeObject s c a rest) := by
  intro z hz
  rw [mem_Ico] at hz
  refine Eq.trans (writeLE_of_outside (by omega)) ?_
  exact writeLE_of_outside (by omega)

/-- The source decides by the new count where the slab goes. -/
lemma slabAllocFrom_eq (s : SlabState) (c : CacheIdx) {rest : List ℕ}
    (hfl : (s.slabs a).freeList = p :: rest) :
    slabAllocFrom s c a = (.object p,
      if sizeSub (s.slabs a).freeCount 1 = 0 then
        (slabRemoveFromList (takeObject s c a rest) a c).linkSlab c .fullSlabs a
      else if sizeSub (s.slabs a).freeCount 1 = sizeSub (s.slabCaches c).objectsPerSlab 1 then
        (slabRemoveFromList (takeObject s c a rest) a c).linkSlab c .partialSlabs a
      else takeObject s c a rest) := by
  have hmid : ((s.setFreeList a rest).slabs a).freeCount = (s.slabs a).freeCount := by
    simp [SlabState.setFreeList, SlabState.setSlab, SlabState.store]
  have hcount : ((takeObject s c a rest).slabs a).freeCount = sizeSub (s.slabs a).freeCount 1 := by
    rw [takeObject_slabs, update_self]
  rw [← hcount]
  unfold slabAllocFrom
  rw [hfl]
  simp only [hmid]
  rfl

/-- The state when `slab_free` has put an object in front of the free list of a slab, before the
slab is placed. -/
def putObject (s : SlabState) (c : CacheIdx) (a p : ℕ) : SlabState :=
  (((s.store p 8 objectPoison).linkObject a p).setFreeCount a ((s.slabs a).freeCount + 1)).setCache
    c { s.slabCaches c with allocatedObjects := sizeSub (s.slabCaches c).allocatedObjects 1 }

/-- The record after a free. -/
lemma putObject_slabs (s : SlabState) (c : CacheIdx) (a p : ℕ) :
    (putObject s c a p).slabs = update s.slabs a
      { s.slabs a with
        freeList := p :: (s.slabs a).freeList
        freeCount := (s.slabs a).freeCount + 1 } := by
  simp [putObject, SlabState.linkObject, SlabState.setFreeList, SlabState.setFreeCount,
    SlabState.setCache, SlabState.setSlab, SlabState.store]

/-- A free also writes to the object. -/
lemma putObject_writes (s : SlabState) (c : CacheIdx) (a p : ℕ) :
    Writes (Set.Ico (a + 24) (a + 40) ∪ Set.Ico p (p + 16)) s (putObject s c a p) := by
  intro z hz
  rw [mem_union, mem_Ico, mem_Ico] at hz
  refine Eq.trans (writeLE_of_outside (by omega)) ?_
  refine Eq.trans (writeLE_of_outside (by omega)) ?_
  refine Eq.trans (writeLE_of_outside (by omega)) ?_
  exact writeLE_of_outside (by omega)

/-- Links and counters are not written over the poison. -/
lemma putObject_poison (s : SlabState) (c : CacheIdx) (hp : a + 48 ≤ p) :
    readLE (putObject s c a p).buddy.mem p 8 = objectPoison := by
  refine Eq.trans (readLE_congr fun z hz hz' => ?_)
    (readLE_writeLE_same (m := s.buddy.mem) (a := p) (show objectPoison < 256 ^ 8 by decide))
  refine Eq.trans (writeLE_of_outside (by omega)) ?_
  refine Eq.trans (writeLE_of_outside (by omega)) ?_
  exact writeLE_of_outside (by omega)

/-- `slab_free` by the new count. -/
lemma slabFree_eq (s : SlabState) (c : CacheIdx) (hc : (s.slabs a).cache = c) :
    slabFree s a p =
      if (s.slabs a).freeCount + 1 = 1 then
        (slabRemoveFromList (putObject s c a p) a c).linkSlab c .partialSlabs a
      else if (s.slabs a).freeCount + 1 = (s.slabCaches c).objectsPerSlab then
        (slabRemoveFromList (putObject s c a p) a c).linkSlab c .emptySlabs a
      else putObject s c a p := by
  have hmid : (((s.store p 8 objectPoison).linkObject a p).slabs a).freeCount
      = (s.slabs a).freeCount := by
    simp [SlabState.linkObject, SlabState.setFreeList, SlabState.setSlab, SlabState.store]
  have hcount : ((putObject s c a p).slabs a).freeCount = (s.slabs a).freeCount + 1 := by
    rw [putObject_slabs, update_self]
  rw [← hcount]
  unfold slabFree
  simp only [hmid, hc]
  rfl

/-! ## The operations -/

namespace SlabInv

variable {s s' : SlabState} {env : List Block} {live : CacheIdx → List ℕ} {c : CacheIdx}
  {w : SlabList} {a : ℕ}

section
variable (h : SlabInv s env live)
include h

/-- The lists of the caches share no slab. -/
lemma listsApart : ListsApart s := by
  refine ⟨fun c => (h.caches c).nodup, ?_, fun c w a ha => ((h.caches c).slab w a ha).aligned⟩
  intro c w c' w' a ha ha'
  have hc : c = c' := by
    rw [← ((h.caches c).slab w a ha).cache, ((h.caches c').slab w' a ha').cache]
  subst hc
  exact ⟨rfl, (h.caches c).eq_of_mem ha ha'⟩

lemma aligned (ha : Listed s a) : 8192 ∣ a := by
  rcases ha with ⟨c, w, ha⟩
  exact ((h.caches c).slab w a ha).aligned

/-- The block of a slab is held. -/
lemma held_of_listed (ha : Listed s a) : (⟨a, 1⟩ : Block) ∈ s.held :=
  (h.held _).mpr ⟨a, ha, rfl⟩

/-- The bytes of a listed slab are pages of an arena and belong to no block of the others. -/
lemma not_env (ha : Listed s a) (hz : a ≤ z) (hz' : z < a + 8192) :
    (∀ x ∈ env, z ∉ x.span 12) ∧ ∃ i, z ∈ (s.buddy.buddyArenas i).pages := by
  have hmem : (⟨a, 1⟩ : Block) ∈ s.held ++ env := mem_append_left _ (h.held_of_listed ha)
  have hza : z ∈ Block.span 12 ⟨a, 1⟩ := mem_span_one.mpr ⟨hz, hz'⟩
  have hpart := h.buddy.pagePartition
  refine ⟨fun x hx hzx => ?_, ?_⟩
  · have hne : (⟨a, 1⟩ : Block) ≠ x := by
      intro heq
      have hdis := disjoint_of_nodup_append h.buddy.live_nodup
      exact hdis (h.held_of_listed ha) (heq ▸ hx)
    exact disjoint_left.mp
      (hpart.live_live _ hmem x (mem_append_right _ hx) hne) hza hzx
  · rcases hpart.live_inside _ hmem with ⟨i, _, hi⟩
    exact ⟨i, hi hza⟩

/-- A live object lies in a listed slab, in the slots that are not free. -/
lemma live_slot (hp : p ∈ live c) :
    Listed s (slabOf p) ∧ IsSlot (s.slabCaches c) (slabOf p) p ∧
      p ∉ (s.slabs (slabOf p)).freeList := by
  rcases (h.caches c).slab_of_live hp with ⟨w, ha, hslot, hfree⟩
  exact ⟨⟨c, w, ha⟩, hslot, hfree⟩

/-- Objects lie behind the header. -/
lemma slot_bounds (hp : IsSlot (s.slabCaches c) a p) :
    a + 48 ≤ p ∧ p + slabSizes.get c ≤ a + 8192 := by
  have hb := hp.bounds (h.caches c).shaped
  rw [(h.caches c).shaped.1] at hb
  exact hb

/-- A listed slab keeps its image when its header up to the `next` field and the links of its free
objects are not written. -/
lemma image_congr (ha : Listed s a) (hptrs : SamePtrs s s') (hslab : s'.slabs a = s.slabs a)
    (hmem : ∀ z, a ≤ z → z < a + 8192 → (z < a + 40 ∨ a + 48 ≤ z ∧
      ∃ p ∈ (s.slabs a).freeList, p + 8 ≤ z ∧ z < p + 16) → s'.buddy.mem z = s.buddy.mem z) :
    SlabImage s' a := by
  refine (h.images a ha).congr hptrs hslab (fun z hz hz' => ?_) fun p hp z hz hz' => ?_
  · exact hmem z hz (by omega) (Or.inl hz')
  · rcases ha with ⟨c, w, haw⟩
    have hb := h.slot_bounds (((h.caches c).slab w a haw).slots p hp)
    have hsize := (h.caches c).shaped.size_ge
    rw [(h.caches c).shaped.1] at hsize
    exact hmem z (by omega) (by omega) (Or.inr ⟨by omega, p, hp, hz, hz'⟩)

/-- The cells an operation writes hold no byte of a client. -/
lemma client_not_op (ha : Listed s a) (hz : z ∈ clientBytes s env live) : z ∉ opCells s a := by
  intro hcell
  -- the cell lies in the header of a listed slab
  have hex : ∃ x, Listed s x ∧ x + 24 ≤ z ∧ z < x + 48 := by
    rcases hcell with hcell | ⟨x, hx, hzx⟩
    · exact ⟨a, ha, hcell.1, by have := hcell.2; omega⟩
    · exact ⟨x, hx, by omega, hzx.2⟩
  rcases hex with ⟨x, hx, hzx, hzx'⟩
  have hout := h.not_env hx (z := z) (by omega) (by omega)
  rcases hz with ⟨y, hy, hzy⟩ | ⟨c', p, hp, hzp, hzp'⟩ | hz
  · exact hout.1 y hy hzy
  · have hslot := h.live_slot hp
    have hb := h.slot_bounds hslot.2.1
    have := h.aligned hx
    have := h.aligned hslot.1
    omega
  · rcases hout.2 with ⟨i, hi⟩
    exact hz i hi

/-- The bytes of a slot that is not live belong to no client. -/
lemma client_not_object (ha : a ∈ (s.slabCaches c).lists w) (hp : IsSlot (s.slabCaches c) a p)
    {live' : CacheIdx → List ℕ} (hsub : ∀ c', ∀ q ∈ live' c', q ∈ live c') (hnot : p ∉ live' c)
    (hz : z ∈ clientBytes s env live') : z ∉ Set.Ico p (p + 16) := by
  intro hzp
  have hal : Listed s a := ⟨c, w, ha⟩
  have hb := h.slot_bounds hp
  have hsize := (h.caches c).shaped.size_ge
  rw [(h.caches c).shaped.1] at hsize
  have hzp₁ := hzp.1
  have hzp₂ := hzp.2
  have hout := h.not_env hal (z := z) (by omega) (by omega)
  rcases hz with ⟨y, hy, hzy⟩ | ⟨c', q, hq, hzq, hzq'⟩ | hz
  · exact hout.1 y hy hzy
  · have hqslot := h.live_slot (hsub c' q hq)
    have hqb := h.slot_bounds hqslot.2.1
    have hda := h.aligned hal
    have hdq := h.aligned hqslot.1
    have hsame : slabOf q = a := by omega
    -- a slab belongs to one cache
    rcases (h.caches c').slab_of_live (hsub c' q hq) with ⟨v, hv, _⟩
    rw [hsame] at hv hqslot
    have hc' := (h.listsApart.unique c' v c w a hv ha).1
    subst hc'
    have hne : q ≠ p := by
      intro heq
      rw [heq] at hq
      exact hnot hq
    have hsep := hqslot.2.1.sep hp hne
    rw [(h.caches c').shaped.1] at hsep
    omega
  · rcases hout.2 with ⟨i, hi⟩
    exact hz i hi

/-- An operation on slab `a` of cache `c` that writes its own cells and an object slot of the slab
keeps the invariant, when it does so for the cache, the image of the slab and the chains. -/
lemma of_quiet (ha : a ∈ (s.slabCaches c).lists w) (hp : IsSlot (s.slabCaches c) a p)
    (hq : Quiet s s') (hw : Writes (opCells s a ∪ Set.Ico p (p + 16)) s s') {l : List ℕ}
    (hc : CacheInv (s'.slabCaches c) s'.slabs c l)
    (hother : ∀ c', c' ≠ c → s'.slabCaches c' = s.slabCaches c')
    (hslabs : ∀ x, x ≠ a → s'.slabs x = s.slabs x) (hlisted : ∀ x, Listed s' x ↔ Listed s x)
    (himage : SlabImage s' a) (hch : Chained s') : SlabInv s' env (update live c l) := by
  have hal : Listed s a := ⟨c, w, ha⟩
  have hb := h.slot_bounds hp
  have hsize := (h.caches c).shaped.size_ge
  rw [(h.caches c).shaped.1] at hsize
  refine ⟨?_, ?_, ?_, ?_, ?_, hch⟩
  · -- the buddy allocator: every byte written lies in a block the slabs hold
    rw [hq.held]
    apply h.buddy.write hq.arenas hq.counter hq.hhdm
    intro z hz
    apply hw
    intro hcell
    have hex : ∃ x, Listed s x ∧ x ≤ z ∧ z < x + 8192 := by
      rcases hcell with (hcell | ⟨x, hx, hzx⟩) | hcell
      · exact ⟨a, hal, by have := hcell.1; omega, by have := hcell.2; omega⟩
      · exact ⟨x, hx, by omega, by omega⟩
      · exact ⟨a, hal, by have := hcell.1; omega, by have := hcell.2; omega⟩
    rcases hex with ⟨x, hx, hzx⟩
    exact hz ⟨x, 1⟩ (mem_append_left _ (h.held_of_listed hx)) (mem_span_one.mpr hzx)
  · rw [hq.arenas]
    exact h.nonzero
  · intro c'
    by_cases hc' : c' = c
    · subst hc'
      rw [update_self]
      exact hc
    · rw [update_of_ne hc', hother c' hc']
      refine (h.caches c').congr_slabs fun v x hx => hslabs x fun heq => ?_
      subst heq
      exact hc' (h.listsApart.unique c' v c w x hx ha).1
  · intro x
    rw [hq.held, h.held x]
    simp only [hlisted]
  · intro x hx
    by_cases hxa : x = a
    · rw [hxa]
      exact himage
    have hx' := (hlisted x).mp hx
    have hdx := h.aligned hx'
    have hda := h.aligned hal
    -- the cells written are away from another slab's header and objects
    apply h.image_congr hx' hq.toSamePtrs (hslabs x hxa)
    intro z hz hz' hgap
    have hnext : z < x + 40 ∨ x + 48 ≤ z := hgap.imp_right And.left
    apply hw
    rintro ((hcell | ⟨y, hy, hzy⟩) | hcell)
    · rw [mem_Ico] at hcell
      omega
    · have := h.aligned hy
      omega
    · rw [mem_Ico] at hcell
      omega

/-- The counters of a slab and an object are no `next` fields. -/
lemma chained_of_writes (ha : Listed s a) (hb : a + 48 ≤ p ∧ p + 16 ≤ a + 8192) (hq : Quiet s s')
    (hw : Writes (Set.Ico (a + 24) (a + 40) ∪ Set.Ico p (p + 16)) s s')
    (hlists : ∀ c', (s'.slabCaches c').lists = (s.slabCaches c').lists) : Chained s' := by
  intro c' v
  rw [hlists, hq.physToVirt]
  refine (h.chained c' v).congr fun x hx z hz hz' => hw z ?_
  have hdx := h.aligned ⟨c', v, hx⟩
  have hda := h.aligned ha
  rintro (hcell | hcell)
  · rw [mem_Ico] at hcell
    omega
  · rw [mem_Ico] at hcell
    omega

section
variable (ha : a ∈ (s.slabCaches c).lists w)
include ha

/-- An operation that updates the header of slab `a`, the statistics of its cache and an object
slot, and then places the slab. -/
lemma relocate {n : ℕ} (hp : IsSlot (s.slabCaches c) a p) {s₁ : SlabState} {r : Slab}
    {w' : SlabList} {l : List ℕ} (hq : Quiet s s₁)
    (hw : Writes (Set.Ico (a + 24) (a + 40) ∪ Set.Ico p (p + 16)) s s₁)
    (hslabs : s₁.slabs = update s.slabs a r) (hcaches : s₁.slabCaches
      = update s.slabCaches c { s.slabCaches c with allocatedObjects := n })
    (himage : SlabImage s₁ a) (hc : CacheInv { s.slabCaches c with
      allocatedObjects := n
      lists := moveLists (s.slabCaches c).lists w w' a } (update s.slabs a r) c l) :
    SlabInv (relocateSlab s₁ c a w w') env (update live c l) ∧
      Writes (opCells s a ∪ Set.Ico p (p + 16)) s (relocateSlab s₁ c a w w') ∧
      Quiet s (relocateSlab s₁ c a w w') ∧ (∀ x, Listed (relocateSlab s₁ c a w w') x ↔ Listed s x) ∧
      Writes (nextCells s) s₁ (relocateSlab s₁ c a w w') := by
  have hal : Listed s a := ⟨c, w, ha⟩
  have hb := h.slot_bounds hp
  have hsize := (h.caches c).shaped.size_ge
  rw [(h.caches c).shaped.1] at hsize
  -- before the move the lists are the old ones
  have hlists : ∀ c', (s₁.slabCaches c').lists = (s.slabCaches c').lists := by
    intro c'
    rw [hcaches]
    by_cases hc' : c' = c
    · rw [hc', update_self]
    · rw [update_of_ne hc']
  have hapart : ListsApart s₁ := h.listsApart.of_lists hlists
  have hlisted₁ : ∀ x, Listed s₁ x ↔ Listed s x := listed_of_lists hlists
  have hch : Chained s₁ := h.chained_of_writes hal ⟨hb.1, by omega⟩ hq hw hlists
  have ha₁ : a ∈ (s₁.slabCaches c).lists w := by
    rw [hlists]
    exact ha
  rcases relocateSlab_spec hapart hch w' ha₁ with ⟨hc₂, hq₂, hw₂, hch₂⟩
  have hs₂ := relocateSlab_slabs s₁ c a w w'
  have hnext : nextCells s₁ = nextCells s := by
    unfold nextCells
    simp only [hlisted₁]
  rw [hnext] at hw₂
  have hquiet := hq.trans hq₂
  have hlisted : ∀ x, Listed (relocateSlab s₁ c a w w') x ↔ Listed s x := by
    intro x
    rw [listed_relocateSlab hapart hch w' ha₁, hlisted₁]
  have hwrites : Writes (opCells s a ∪ Set.Ico p (p + 16)) s (relocateSlab s₁ c a w w') := by
    refine (hw.mono ?_).trans (hw₂.mono ?_)
    · intro z hz
      rcases hz with hz | hz
      · exact Or.inl (Or.inl hz)
      · exact Or.inr hz
    · intro z hz
      exact Or.inl (Or.inr hz)
  refine ⟨?_, hwrites, hquiet, hlisted, hw₂⟩
  apply h.of_quiet ha hp hquiet hwrites
  · rw [hc₂, update_self, hs₂, hslabs, hcaches, update_self]
    exact hc
  · intro c' hc'
    rw [hc₂, update_of_ne hc', hcaches, update_of_ne hc']
  · intro x hx
    rw [hs₂, hslabs, update_of_ne hx]
  · exact hlisted
  · -- the image of the slab: only `next` fields were written since
    refine himage.congr hq₂.toSamePtrs (by rw [hs₂]) ?_ ?_
    · intro z hz hz'
      apply hw₂
      intro hcell
      rcases hcell with ⟨x, hx, hzx⟩
      have hdx := h.aligned hx
      have hda := h.aligned hal
      omega
    · intro q hq' z hz hz'
      apply hw₂
      intro hcell
      rcases hcell with ⟨x, hx, hzx⟩
      have hdx := h.aligned hx
      have hda := h.aligned hal
      have hslot : IsSlot (s.slabCaches c) a q := by
        have hmem : a ∈ moveLists (s.slabCaches c).lists w w' a w' := by
          refine (mem_moveLists (h.listsApart.nodup c w) fun u => ?_).mpr (Or.inl ⟨rfl, rfl⟩)
          exact ⟨fun hu => (h.caches c).eq_of_mem hu ha, fun hu => hu ▸ ha⟩
        have hok := hc.slab w' a hmem
        rw [update_self] at hok
        rw [hslabs, update_self] at hq'
        exact hok.slots q hq'
      have hqb := h.slot_bounds hslot
      omega
  · exact hch₂

/-- A slab has fewer objects than bytes. -/
lemma count_lt :
    (s.slabs a).freeCount ≤ (s.slabCaches c).objectsPerSlab ∧
      (s.slabCaches c).objectsPerSlab ≤ 8144 := by
  have hfits := (h.caches c).shaped.fits
  have hsize := (h.caches c).shaped.size_ge
  refine ⟨((h.caches c).slab w a ha).count_le, ?_⟩
  calc (s.slabCaches c).objectsPerSlab
      = (s.slabCaches c).objectsPerSlab * 1 := (Nat.mul_one _).symm
    _ ≤ (s.slabCaches c).objectsPerSlab * (s.slabCaches c).objectSize :=
        Nat.mul_le_mul_left _ (by omega)
    _ ≤ 8144 := hfits

/-- The free objects of a slab are behind its header. -/
lemma free_bound {q : ℕ} (hq : q ∈ (s.slabs a).freeList) : a + 48 ≤ q :=
  (h.slot_bounds (((h.caches c).slab w a ha).slots q hq)).1

/-- Memory shows the allocation. -/
lemma takeObject_image {rest : List ℕ} (hfl : (s.slabs a).freeList = p :: rest) :
    SlabImage (takeObject s c a rest) a := by
  have himage := h.images a ⟨c, w, ha⟩
  have hcount := h.count_lt ha
  have hlen := ((h.caches c).slab w a ha).count
  rw [hfl, length_cons] at hlen
  have hbound : ∀ q ∈ rest, a + 48 ≤ q := by
    intro q hq
    apply h.free_bound ha
    rw [hfl]
    exact mem_cons_of_mem p hq
  have hobjects := himage.objects
  rw [hfl] at hobjects
  have hlist := himage.setFreeList hobjects.tail hbound
  have hset := hlist.setFreeCount (n := sizeSub (s.slabs a).freeCount 1)
    (by rw [sizeSub_of_le (by omega)]; omega) (by
    intro q hq
    apply hbound q
    simp only [SlabState.setFreeList, SlabState.store, SlabState.setSlab,
      update_self] at hq
    exact hq)
  exact hset.congr ⟨rfl, rfl⟩ rfl (fun _ _ _ => rfl) (fun _ _ _ _ _ => rfl)

/-- Allocation from a slab that is not full. -/
lemma allocFrom (hw : w ≠ .fullSlabs) :
    ∃ p s', slabAllocFrom s c a = (.object p, s') ∧
      SlabInv s' env (update live c (p :: live c)) ∧ p ∉ live c ∧
      Keeps s s' env live := by
  have hok := (h.caches c).slab w a ha
  have hops := (h.caches c).shaped.ops_ge
  have hcountle := hok.count_le
  cases hfl : (s.slabs a).freeList with
  | nil => exact absurd hfl ((h.caches c).freeList_ne_nil ha hw)
  | cons p rest =>
    have hcount := hok.count
    rw [hfl, length_cons] at hcount
    have hp := hok.slots p (hfl ▸ mem_cons_self)
    have hcache := (h.caches c).alloc ha hfl rfl rfl
    have hquiet : Quiet s (takeObject s c a rest) := ⟨⟨rfl, rfl⟩, rfl, rfl, rfl⟩
    have hrel := h.relocate ha hp hquiet
      ((takeObject_writes s c a rest).mono subset_union_left) (takeObject_slabs s c a rest) rfl
      (h.takeObject_image ha hfl) hcache.1
    have hkeeps : Keeps s (relocateSlab (takeObject s c a rest) c a w _) env live :=
      ⟨hrel.2.2.1.toSamePtrs, hrel.2.2.1.sameShape, fun z hz => hrel.2.1 z fun hcell => by
        rcases hcell with hcell | hcell
        · exact h.client_not_op ⟨c, w, ha⟩ hz hcell
        · exact h.client_not_object ha hp (fun _ _ hq => hq) hcache.2 hz hcell⟩
    refine ⟨p, _, ?_, hrel.1, hcache.2, hkeeps⟩
    -- the branches of the source are the placement
    have hhome := (h.caches c).home w a ha
    have hplace := relocateSlab_alloc (takeObject s c a rest) c a hops
      (n := sizeSub (s.slabs a).freeCount 1) (by rw [sizeSub_of_le (by omega)]; omega)
    rw [show sizeSub (s.slabs a).freeCount 1 + 1 = (s.slabs a).freeCount by
      rw [sizeSub_of_le (by omega)]; omega, ← hhome] at hplace
    rw [slabAllocFrom_eq s c hfl, hplace]

/-- Memory shows the free. -/
lemma putObject_image (hslot : IsSlot (s.slabCaches c) a p) (hnotfree : p ∉ (s.slabs a).freeList) :
    SlabImage (putObject s c a p) a := by
  have hok := (h.caches c).slab w a ha
  have hcount := h.count_lt ha
  have hb := h.slot_bounds hslot
  have hsize := (h.caches c).shaped.size_ge
  have hbound : ∀ q ∈ (s.slabs a).freeList, a + 48 ≤ q := fun q hq => h.free_bound ha hq
  -- the object is 16 bytes away from every free one
  have hsep : ∀ q ∈ (s.slabs a).freeList, q + 16 ≤ p ∨ p + 16 ≤ q := by
    intro q hq
    have hne : q ≠ p := by
      intro heq
      rw [heq] at hq
      exact hnotfree hq
    have := (hok.slots q hq).sep hslot hne
    omega
  have hpoison : SlabImage (s.store p 8 objectPoison) a := by
    refine (h.images a ⟨c, w, ha⟩).congr (quiet_store _ _ _ _).toSamePtrs rfl ?_ ?_
    · intro z hz hz'
      exact writeLE_of_outside (by omega)
    · intro q hq z hz hz'
      have := hsep q hq
      exact writeLE_of_outside (by omega)
  have hlink := hpoison.linkObject hb.1 hbound hsep
  have hset := hlink.setFreeCount (n := (s.slabs a).freeCount + 1) (by omega) (by
    intro q hq
    simp only [SlabState.linkObject, SlabState.setFreeList, SlabState.store, SlabState.setSlab,
      update_self] at hq
    rcases mem_cons.mp hq with hq | hq
    · rw [hq]
      exact hb.1
    · exact hbound q hq)
  exact hset.congr ⟨rfl, rfl⟩ rfl (fun _ _ _ => rfl) (fun _ _ _ _ _ => rfl)

end

/-- Freeing a live object: it becomes the head of its slab's free list, whose count grows, and its
first word is the poison. -/
lemma free (hp : p ∈ live c) :
    SlabInv (slabFree s (slabOf p) p) env (update live c ((live c).erase p)) ∧
      Keeps s (slabFree s (slabOf p) p) env (update live c ((live c).erase p)) ∧
      ((slabFree s (slabOf p) p).slabs (slabOf p)).freeList
        = p :: (s.slabs (slabOf p)).freeList ∧
      ((slabFree s (slabOf p) p).slabs (slabOf p)).freeCount
        = (s.slabs (slabOf p)).freeCount + 1 ∧
      Listed (slabFree s (slabOf p) p) (slabOf p) ∧
      readLE (slabFree s (slabOf p) p).buddy.mem p 8 = objectPoison := by
  rcases (h.caches c).slab_of_live hp with ⟨w, ha, hslot, hnotfree⟩
  have hops := (h.caches c).shaped.ops_ge
  have hb := h.slot_bounds hslot
  have hquiet : Quiet s (putObject s c (slabOf p) p) := ⟨⟨rfl, rfl⟩, rfl, rfl, rfl⟩
  have hcache := (h.caches c).free hp ha rfl rfl
  have hrel := h.relocate ha hslot hquiet (putObject_writes s c (slabOf p) p)
    (putObject_slabs s c (slabOf p) p) rfl (h.putObject_image ha hslot hnotfree) hcache
  -- the slab had an object that was not free
  have hlt : (s.slabs (slabOf p)).freeCount + 1 ≤ (s.slabCaches c).objectsPerSlab := by
    have hnew := hcache.slab _ (slabOf p)
      ((mem_moveLists ((h.caches c).nodup w) fun u => ⟨fun hu => (h.caches c).eq_of_mem hu ha,
        fun hu => hu ▸ ha⟩).mpr (Or.inl ⟨rfl, rfl⟩))
    have := hnew.count_le
    rw [update_self] at this
    exact this
  have hplace := relocateSlab_free (putObject s c (slabOf p) p) c (slabOf p) hops hlt
  rw [← (h.caches c).home w _ ha] at hplace
  rw [slabFree_eq s c ((h.caches c).slab w _ ha).cache, hplace]
  -- what is live afterwards was live before, and the object no longer is
  have hsub : ∀ c', ∀ q ∈ update live c ((live c).erase p) c', q ∈ live c' := by
    intro c' q hq
    by_cases hc' : c' = c
    · subst hc'
      rw [update_self] at hq
      exact mem_of_mem_erase hq
    · rwa [update_of_ne hc'] at hq
  have hnot : p ∉ update live c ((live c).erase p) c := by
    rw [update_self]
    exact fun hq => ((h.caches c).live_nodup.mem_erase_iff.mp hq).1 rfl
  refine ⟨hrel.1, ⟨hrel.2.2.1.toSamePtrs, hrel.2.2.1.sameShape, fun z hz => ?_⟩, ?_, ?_, ?_, ?_⟩
  · apply hrel.2.1
    intro hcell
    rcases hcell with hcell | hcell
    · refine h.client_not_op ⟨c, w, ha⟩ ?_ hcell
      rcases hz with hz | ⟨c', q, hq, hzq⟩ | hz
      · exact Or.inl hz
      · exact Or.inr (Or.inl ⟨c', q, hsub c' q hq, hzq⟩)
      · exact Or.inr (Or.inr hz)
    · exact h.client_not_object ha hslot hsub hnot hz hcell
  · rw [relocateSlab_slabs, putObject_slabs, update_self]
  · rw [relocateSlab_slabs, putObject_slabs, update_self]
  · exact (hrel.2.2.2.1 _).mpr ⟨c, w, ha⟩
  · -- placing writes `next` fields only
    refine Eq.trans (readLE_congr fun z hz hz' => hrel.2.2.2.2 z fun hcell => ?_)
      (putObject_poison s c hb.1)
    obtain ⟨x, hx, hzx⟩ := hcell
    have hdx := h.aligned hx
    have hda := h.aligned ⟨c, w, ha⟩
    omega

end

end SlabInv

end LunOS.SlabAllocator
