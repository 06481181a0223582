import LunOS.SlabAllocator.Moves

/-!
# Creating and destroying slabs

`slab_create` takes a block from the buddy allocator, writes its header and links all its objects;
`slab_cache_shrink` gives empty slabs back. Both keep the invariant and the clients' bytes, and so
does what the other users of the buddy allocator do.
-/

namespace LunOS.SlabAllocator
open LunOS.Dyadic LunOS.Memory LunOS.BuddyAllocator Function List

/-! ## The objects of a new slab -/

/-- The free list after `n` turns of the loop of `slab_create`. -/
def createdObjects (a size : ℕ) : ℕ → List ℕ
  | 0 => []
  | n + 1 => objectAddr a size n :: createdObjects a size n

/-- The objects of a new slab. -/
lemma mem_createdObjects {a size p : ℕ} : ∀ {n : ℕ},
    p ∈ createdObjects a size n ↔ ∃ i, i < n ∧ p = objectAddr a size i := by
  intro n
  induction n with
  | zero => simp [createdObjects]
  | succ n ih =>
    rw [createdObjects, mem_cons, ih]
    constructor
    · intro h
      rcases h with h | ⟨i, hi, h⟩
      · exact ⟨n, by omega, h⟩
      · exact ⟨i, by omega, h⟩
    · intro h
      rcases h with ⟨i, hi, h⟩
      by_cases hin : i = n
      · rw [hin] at h
        exact Or.inl h
      · exact Or.inr ⟨i, by omega, h⟩

lemma length_createdObjects (a size : ℕ) : ∀ n, (createdObjects a size n).length = n := by
  intro n
  induction n with
  | zero => rfl
  | succ n ih => rw [createdObjects, length_cons, ih]

/-- The address of an object grows with its index. -/
lemma objectAddr_add_le {a size i j : ℕ} (h : i < j) :
    objectAddr a size i + size ≤ objectAddr a size j := by
  have : (i + 1) * size ≤ j * size := Nat.mul_le_mul_right _ h
  rw [Nat.add_mul] at this
  unfold objectAddr
  omega

/-- The objects are distinct. -/
lemma nodup_createdObjects {a size : ℕ} (hs : 0 < size) : ∀ n, (createdObjects a size n).Nodup := by
  intro n
  induction n with
  | zero => exact nodup_nil
  | succ n ih =>
    rw [createdObjects, nodup_cons]
    refine ⟨fun hmem => ?_, ih⟩
    rcases mem_createdObjects.mp hmem with ⟨i, hi, heq⟩
    have hlt : objectAddr a size i + size ≤ objectAddr a size n := objectAddr_add_le hi
    omega

/-- The loop of `slab_create` links the objects one by one. The invariant is the image of the slab
with the objects linked so far. -/
lemma createLoop_spec {a size : ℕ} (hsize : 16 ≤ size) (s : SlabState) (himage : SlabImage s a)
    (hnil : (s.slabs a).freeList = []) : ∀ n, n * size ≤ 8144 →
    SlabImage (createLoop a size n s) a ∧
    (createLoop a size n s).slabs
      = update s.slabs a { s.slabs a with freeList := createdObjects a size n } ∧
    (createLoop a size n s).slabCaches = s.slabCaches ∧
    Quiet s (createLoop a size n s) ∧
    Writes (Set.Ico (a + 32) (a + 40) ∪ Set.Ico (a + 48) (a + 8192)) s
      (createLoop a size n s) := by
  intro n
  induction n with
  | zero =>
    intro _
    refine ⟨himage, ?_, rfl, Quiet.refl s, Writes.refl _ s⟩
    show s.slabs = update s.slabs a { s.slabs a with freeList := [] }
    rw [← hnil, update_eq_self]
  | succ n ih =>
    intro hn
    rw [Nat.add_mul] at hn
    rcases ih (by omega) with ⟨him, hslabs, hcaches, hquiet, hwrites⟩
    have hfl : ((createLoop a size n s).slabs a).freeList = createdObjects a size n := by
      rw [hslabs, update_self]
    -- the new object lies behind the header and the objects before it
    have hobj : objectAddr a size n = a + 48 + n * size := rfl
    have hlow : ∀ p ∈ ((createLoop a size n s).slabs a).freeList,
        a + 48 ≤ p ∧ p + size ≤ objectAddr a size n := by
      intro p hp
      rw [hfl] at hp
      rcases mem_createdObjects.mp hp with ⟨i, hi, heq⟩
      rw [heq]
      refine ⟨?_, objectAddr_add_le hi⟩
      show a + 48 ≤ a + 48 + i * size
      omega
    refine ⟨?_, ?_, hcaches, hquiet.trans ⟨⟨rfl, rfl⟩, rfl, rfl, rfl⟩, ?_⟩
    · apply him.linkObject (by omega) (fun p hp => (hlow p hp).1)
      intro p hp
      have := hlow p hp
      omega
    · show update (createLoop a size n s).slabs a
        { (createLoop a size n s).slabs a with
          freeList := objectAddr a size n :: ((createLoop a size n s).slabs a).freeList } = _
      rw [hfl, hslabs, update_idem, update_self]
      rfl
    · refine hwrites.trans fun z hz => ?_
      have hz₁ : ¬ (a + 32 ≤ z ∧ z < a + 40) := fun hcon => hz (Or.inl hcon)
      have hz₂ : ¬ (a + 48 ≤ z ∧ z < a + 8192) := fun hcon => hz (Or.inr hcon)
      refine Eq.trans (writeLE_of_outside (by omega)) ?_
      exact writeLE_of_outside (by omega)

/-- The header as `slab_create` writes it. -/
lemma initHeader_spec (s : SlabState) (c : CacheIdx) {a : ℕ} (ha : a < 256 ^ 8)
    (hn : (s.slabCaches c).objectsPerSlab < 256 ^ 8) :
    SlabImage (initHeader s c a) a ∧
    (initHeader s c a).slabs
      = update s.slabs a ⟨c, a, (s.slabCaches c).objectsPerSlab, []⟩ ∧
    Writes (Set.Ico a (a + 48)) s (initHeader s c a) := by
  have hslab : (initHeader s c a).slabs a = ⟨c, a, (s.slabCaches c).objectsPerSlab, []⟩ := by
    show update s.slabs a _ a = _
    rw [update_self]
  have hmem : (initHeader s c a).buddy.mem = writeLE (writeLE (writeLE (writeLE (writeLE (writeLE
      s.buddy.mem (a + 8) 8 (s.cachePtr c)) (a + 16) 8 a) (a + 24) 8
      (s.slabCaches c).objectsPerSlab) (a + 40) 8 0) a 8 slabMagic) (a + 32) 8 0 := rfl
  have hptr : s.cachePtr c < 256 ^ 8 := Nat.mod_lt _ (by norm_num)
  refine ⟨⟨?_, ?_, ?_, ?_, ?_, ?_⟩, rfl, ?_⟩
  · rw [hmem, readLE_writeLE_of_disjoint (by omega)]
    exact readLE_writeLE_same (by norm_num [slabMagic])
  · rw [hslab, hmem, readLE_writeLE_of_disjoint (by omega), readLE_writeLE_of_disjoint (by omega),
      readLE_writeLE_of_disjoint (by omega), readLE_writeLE_of_disjoint (by omega),
      readLE_writeLE_of_disjoint (by omega)]
    exact readLE_writeLE_same hptr
  · rw [hslab, hmem, readLE_writeLE_of_disjoint (by omega), readLE_writeLE_of_disjoint (by omega),
      readLE_writeLE_of_disjoint (by omega), readLE_writeLE_of_disjoint (by omega)]
    exact readLE_writeLE_same ha
  · rw [hslab, hmem, readLE_writeLE_of_disjoint (by omega), readLE_writeLE_of_disjoint (by omega),
      readLE_writeLE_of_disjoint (by omega)]
    exact readLE_writeLE_same hn
  · rw [hslab, hmem]
    exact readLE_writeLE_same (by norm_num)
  · rw [hslab]
    trivial
  · intro z hz
    rw [Set.mem_Ico] at hz
    rw [hmem, writeLE_of_outside (by omega), writeLE_of_outside (by omega),
      writeLE_of_outside (by omega), writeLE_of_outside (by omega), writeLE_of_outside (by omega),
      writeLE_of_outside (by omega)]

namespace SlabInv

variable {s : SlabState} {env : List Block} {live : CacheIdx → List ℕ} {c : CacheIdx} {a : ℕ}

/-! ## What the other users of the buddy allocator do -/

section
variable (h : SlabInv s env live)
include h

/-- A change of the buddy allocator below that spares the slabs. -/
lemma of_buddy {b : Buddy} {env' : List Block} (hinv : BuddyAllocator.Inv b (s.held ++ env'))
    (hshape : SameShape s.buddy b) (hhdm : b.hhdmOffset = s.buddy.hhdmOffset)
    (hmem : ∀ x, Listed s x → ∀ z, x ≤ z → z < x + 8192 →
      (z < x + 48 ∨ ∃ p ∈ (s.slabs x).freeList, p + 8 ≤ z ∧ z < p + 16) →
      b.mem z = s.buddy.mem z) : SlabInv { s with buddy := b } env' live := by
  refine ⟨hinv, ?_, h.caches, h.held, ?_, ?_⟩
  · intro i
    have hzero := h.nonzero i
    unfold BuddyArena.range at hzero ⊢
    rw [(hshape i).1, (hshape i).2.1]
    exact hzero
  · intro x hx
    refine h.image_congr hx ⟨hhdm, rfl⟩ rfl fun z hz hz' hcell => hmem x hx z hz hz' ?_
    exact hcell.imp (fun hlt => by omega) And.right
  · intro cx v
    rw [show ({ s with buddy := b } : SlabState).buddy.physToVirt = s.buddy.physToVirt from
      physToVirt_congr hhdm]
    refine (h.chained cx v).congr fun x hx z hz hz' => ?_
    exact hmem x ⟨cx, v, hx⟩ z (by omega) (by omega) (Or.inl (by omega))

/-- The bytes of a listed slab or of a client's block or object lie in a live block, or outside
the arenas. -/
lemma client_live {z : ℕ} (hz : z ∈ clientBytes s env live) :
    (∃ y ∈ s.held ++ env, z ∈ y.span 12) ∨ ∀ i, z ∉ (s.buddy.buddyArenas i).pages := by
  rcases hz with ⟨y, hy, hzy⟩ | ⟨cx, p, hp, hzp, hzp'⟩ | hz
  · exact Or.inl ⟨y, mem_append_right _ hy, hzy⟩
  · have hslot := h.live_slot hp
    have hb := h.slot_bounds hslot.2.1
    refine Or.inl ⟨⟨slabOf p, 1⟩, mem_append_left _ (h.held_of_listed hslot.1), ?_⟩
    exact mem_span_one.mpr ⟨by omega, by omega⟩
  · exact Or.inr hz

/-- Another user takes a block. -/
lemma envAlloc {order : ℕ} {b : Buddy} (hal : buddyAllocPages s.buddy order = (some a, b)) :
    SlabInv { s with buddy := b } (⟨a, order⟩ :: env) live ∧
      Keeps s { s with buddy := b } env live := by
  rcases h.buddy.alloc_spec hal with ⟨i, _, _, _, _, htouch⟩
  have hshape := htouch.toOnlyArena.sameShape
  refine ⟨?_, ⟨htouch.hhdm, rfl⟩, hshape, ?_⟩
  · apply h.of_buddy _ hshape htouch.hhdm
    · intro x hx z hz hz' _
      apply h.buddy.alloc_frame hal
      exact Or.inl ⟨⟨x, 1⟩, mem_append_left _ (h.held_of_listed hx),
        mem_span_one.mpr ⟨hz, hz'⟩⟩
    · exact (h.buddy.alloc_some hal).perm perm_middle.symm
  · intro z hz
    exact h.buddy.alloc_frame hal (h.client_live hz)

/-- Another user gives a block back. -/
lemma envFree {x : Block} (hx : x ∈ env) :
    SlabInv { s with buddy := buddyFreePages s.buddy x.addr x.order } (env.erase x) live ∧
      Keeps s { s with buddy := buddyFreePages s.buddy x.addr x.order } (env.erase x) live := by
  have hmem : x ∈ s.held ++ env := mem_append_right _ hx
  have hnd := h.buddy.live_nodup
  have hdis := disjoint_of_nodup_append hnd
  have hxheld : x ∉ s.held := fun hxh => hdis hxh hx
  rcases h.buddy.free_spec hmem with ⟨i, _, _, _, htouch⟩
  have hshape := htouch.toOnlyArena.sameShape
  refine ⟨?_, ⟨htouch.hhdm, rfl⟩, hshape, ?_⟩
  · apply h.of_buddy _ hshape htouch.hhdm
    · intro y hy z hz hz' _
      apply h.buddy.free_frame hmem
      refine Or.inl ⟨⟨y, 1⟩, mem_append_left _ (h.held_of_listed hy), ?_,
        mem_span_one.mpr ⟨hz, hz'⟩⟩
      intro heq
      exact hxheld (heq ▸ h.held_of_listed hy)
    · have hfree := h.buddy.free hmem
      rwa [erase_append_right _ hxheld] at hfree
  · intro z hz
    apply h.buddy.free_frame hmem
    rcases hz with ⟨y, hy, hzy⟩ | ⟨cx, p, hp, hzp, hzp'⟩ | hz
    · have hy' := (nodup_append.mp hnd).2.1.mem_erase_iff.mp hy
      exact Or.inl ⟨y, mem_append_right _ hy'.2, hy'.1, hzy⟩
    · have hslot := h.live_slot hp
      have hb := h.slot_bounds hslot.2.1
      refine Or.inl ⟨⟨slabOf p, 1⟩, mem_append_left _ (h.held_of_listed hslot.1), ?_,
        mem_span_one.mpr ⟨by omega, by omega⟩⟩
      intro heq
      exact hxheld (heq ▸ h.held_of_listed hslot.1)
    · exact Or.inr hz

/-- A client writes bytes of its own. -/
lemma write {m : Mem} (hm : ∀ z, z ∉ clientBytes s env live → m z = s.buddy.mem z)
    (hout : ∀ z, (∀ i, z ∉ (s.buddy.buddyArenas i).pages) → m z = s.buddy.mem z) :
    SlabInv { s with buddy := { s.buddy with mem := m } } env live := by
  refine h.of_buddy ?_ (SameShape.refl _) rfl ?_
  · refine h.buddy.write ?_ ?_ ?_ ?_
    · rfl
    · rfl
    · rfl
    intro z hz
    by_cases hc : z ∈ clientBytes s env live
    · rcases h.client_live hc with ⟨y, hy, hzy⟩ | hz'
      · exact absurd hzy (hz y hy)
      · exact hout z hz'
    · exact hm z hc
  · intro x hx z hz hz' hcell
    apply hm
    intro hclient
    rcases hcell with hcell | ⟨p, hp, hzp, hzp'⟩
    · -- the header of a slab
      have hout' := h.not_env hx hz hz'
      rcases hclient with ⟨y, hy, hzy⟩ | ⟨cx, q, hq, hzq, hzq'⟩ | hclient
      · exact hout'.1 y hy hzy
      · have hslot := h.live_slot hq
        have hb := h.slot_bounds hslot.2.1
        have h₁ := h.aligned hx
        have h₂ := h.aligned hslot.1
        omega
      · rcases hout'.2 with ⟨i, hi⟩
        exact hclient i hi
    · -- a free object is not live
      rcases hx with ⟨cx, v, hxv⟩
      have hslot := ((h.caches cx).slab v x hxv).slots p hp
      refine h.client_not_object hxv hslot (fun _ _ hq => hq) (fun hlive => ?_) hclient
        ⟨by omega, by omega⟩
      have hslab := hslot.slabOf_eq (h.caches cx).shaped ((h.caches cx).slab v x hxv).aligned
      have hfree := (h.live_slot hlive).2.2
      rw [hslab] at hfree
      exact hfree hp

end

/-! ## Creation -/

/-- The new slab `slab_create` makes of a block: header, objects, list and statistics. -/
def adoptSlab (s : SlabState) (c : CacheIdx) (a : ℕ) : SlabState :=
  let s := initHeader { s with held := ⟨a, 1⟩ :: s.held } c a
  let s := createLoop a (s.slabCaches c).objectSize (s.slabCaches c).objectsPerSlab s
  let s := s.linkSlab c .emptySlabs a
  let k := s.slabCaches c
  s.setCache c
    { k with totalSlabs := k.totalSlabs + 1, totalObjects := k.totalObjects + k.objectsPerSlab }

/-- The record of a new slab. -/
def createdSlab (k : SlabCache) (c : CacheIdx) (a : ℕ) : Slab :=
  ⟨c, a, k.objectsPerSlab, createdObjects a k.objectSize k.objectsPerSlab⟩

/-- A new slab is a good one. -/
lemma createdSlab_ok {k : SlabCache} (hk : Shaped c k) (ha : 8192 ∣ a) :
    SlabOk k c a (createdSlab k c a) := by
  have hsize := hk.size_ge
  exact ⟨rfl, rfl, ha, nodup_createdObjects (by omega) _, (length_createdObjects _ _ _).symm,
    fun p hp => mem_createdObjects.mp hp⟩

/-- Header and objects of a slab at `a` are written; it is on no list yet. -/
structure Written (s s' : SlabState) (c : CacheIdx) (a : ℕ) : Prop where
  image : SlabImage s' a
  slabs : s'.slabs = update s.slabs a (createdSlab (s.slabCaches c) c a)
  caches : s'.slabCaches = s.slabCaches
  quiet : Quiet { s with held := ⟨a, 1⟩ :: s.held } s'
  writes : Writes (Set.Ico a (a + 8192)) s s'

/-- The memory of a new slab. -/
lemma written (hk : Shaped c (s.slabCaches c)) (ha : a < 256 ^ 8) :
    Written s (createLoop a (s.slabCaches c).objectSize (s.slabCaches c).objectsPerSlab
      (initHeader { s with held := ⟨a, 1⟩ :: s.held } c a)) c a := by
  have hsize := hk.size_ge
  have hops : (s.slabCaches c).objectsPerSlab < 256 ^ 8 := by
    have h₁ : (s.slabCaches c).objectsPerSlab * 1 ≤ 8144 :=
      (Nat.mul_le_mul_left _ (by omega)).trans hk.fits
    omega
  set s₀ : SlabState := { s with held := ⟨a, 1⟩ :: s.held }
  rcases initHeader_spec s₀ c ha hops with ⟨himage, hslabs, hwrites⟩
  have hnil : ((initHeader s₀ c a).slabs a).freeList = [] := by
    rw [hslabs, update_self]
  rcases createLoop_spec hsize (initHeader s₀ c a) himage hnil _ hk.fits with
    ⟨himage₂, hslabs₂, hcaches₂, hquiet₂, hwrites₂⟩
  have hinit : Quiet s₀ (initHeader s₀ c a) := ⟨⟨rfl, rfl⟩, rfl, rfl, rfl⟩
  refine ⟨himage₂, ?_, hcaches₂, hinit.trans hquiet₂, ?_⟩
  · rw [hslabs₂, hslabs, update_idem, update_self]
    rfl
  · -- both write inside the slab
    have hheader : Set.Ico a (a + 48) ⊆ Set.Ico a (a + 8192) :=
      Set.Ico_subset_Ico_right (by omega)
    have hobjects : Set.Ico (a + 32) (a + 40) ∪ Set.Ico (a + 48) (a + 8192) ⊆
        Set.Ico a (a + 8192) :=
      Set.union_subset (Set.Ico_subset_Ico (by omega) (by omega))
        (Set.Ico_subset_Ico_left (by omega))
    exact (hwrites.mono hheader).trans (hwrites₂.mono hobjects)

/-- The slab at `a` is also on the empty list of its cache, and counted. -/
structure Adopted (s s' : SlabState) (c : CacheIdx) (a : ℕ) : Prop where
  image : SlabImage s' a
  slabs : s'.slabs = update s.slabs a (createdSlab (s.slabCaches c) c a)
  caches : s'.slabCaches = update s.slabCaches c
    { s.slabCaches c with
      lists := update (s.slabCaches c).lists .emptySlabs
        (a :: (s.slabCaches c).lists .emptySlabs)
      totalSlabs := (s.slabCaches c).totalSlabs + 1
      totalObjects := (s.slabCaches c).totalObjects + (s.slabCaches c).objectsPerSlab }
  quiet : Quiet { s with held := ⟨a, 1⟩ :: s.held } s'
  writes : Writes (Set.Ico a (a + 8192)) s s'
  chained : Chained s → (∀ x, Listed s x → x + 8192 ≤ a ∨ a + 8192 ≤ x) → Chained s'

/-- The other slabs stay chained. -/
lemma Written.chained {s₂ : SlabState} (h : Written s s₂ c a) (hch : Chained s)
    (hfar : ∀ x, Listed s x → x + 8192 ≤ a ∨ a + 8192 ≤ x) : Chained s₂ := by
  intro c' v
  rw [h.caches, show s₂.buddy.physToVirt = s.buddy.physToVirt from physToVirt_congr h.quiet.hhdm]
  refine (hch c' v).congr fun x hx z hz hz' => h.writes z ?_
  have hx := hfar x ⟨c', v, hx⟩
  rw [Set.mem_Ico]
  omega

/-- The last steps of `slab_create` write one `next` field and the statistics. -/
lemma adopted (hk : Shaped c (s.slabCaches c)) (ha : a < 256 ^ 8) :
    Adopted s (adoptSlab s c a) c a := by
  have hw := @written s c a hk ha
  set s₂ := createLoop a (s.slabCaches c).objectSize (s.slabCaches c).objectsPerSlab
    (initHeader { s with held := ⟨a, 1⟩ :: s.held } c a)
  have hfinal : adoptSlab s c a = (s₂.linkSlab c .emptySlabs a).setCache c
      { (s₂.linkSlab c .emptySlabs a).slabCaches c with
        totalSlabs := ((s₂.linkSlab c .emptySlabs a).slabCaches c).totalSlabs + 1
        totalObjects := ((s₂.linkSlab c .emptySlabs a).slabCaches c).totalObjects +
          ((s₂.linkSlab c .emptySlabs a).slabCaches c).objectsPerSlab } := rfl
  rw [hfinal]
  refine ⟨?_, hw.slabs, ?_, hw.quiet.trans ⟨⟨rfl, rfl⟩, rfl, rfl, rfl⟩, ?_, fun hch hfar => ?_⟩
  · refine hw.image.congr ⟨rfl, rfl⟩ rfl (fun z hz hz' => ?_) fun p hp z hz hz' => ?_
    · exact writeLE_of_outside (by omega)
    · -- the objects lie behind the header
      rw [hw.slabs, update_self] at hp
      rcases mem_createdObjects.mp hp with ⟨j, _, hpj⟩
      unfold objectAddr slabHeaderSize at hpj
      exact writeLE_of_outside (by omega)
  · simp [SlabState.linkSlab, SlabState.setCache, SlabState.store, SlabCache.setList, hw.caches]
  · intro z hz
    refine Eq.trans (writeLE_of_outside ?_) (hw.writes z hz)
    rw [Set.mem_Ico] at hz
    omega
  · have hlink : Chained (s₂.linkSlab c .emptySlabs a) := by
      apply chained_linkSlab (hw.chained hch hfar)
      intro x hx
      unfold Listed at hx
      rw [hw.caches] at hx
      exact hfar x hx
    intro c' v
    -- the statistics are not part of the lists
    have hsame : (((s₂.linkSlab c .emptySlabs a).setCache c
        { (s₂.linkSlab c .emptySlabs a).slabCaches c with
          totalSlabs := ((s₂.linkSlab c .emptySlabs a).slabCaches c).totalSlabs + 1
          totalObjects := ((s₂.linkSlab c .emptySlabs a).slabCaches c).totalObjects +
            ((s₂.linkSlab c .emptySlabs a).slabCaches c).objectsPerSlab }).slabCaches c').lists v
        = ((s₂.linkSlab c .emptySlabs a).slabCaches c').lists v := by
      by_cases hc' : c' = c
      · rw [hc']
        simp [SlabState.setCache]
      · simp [SlabState.setCache, hc']
    rw [hsame]
    exact hlink c' v

lemma Adopted.mem_lists {s' : SlabState} (h : Adopted s s' c a) {c' : CacheIdx} {v : SlabList}
    {x : ℕ} : x ∈ (s'.slabCaches c').lists v ↔
      (x = a ∧ c' = c ∧ v = .emptySlabs) ∨ x ∈ (s.slabCaches c').lists v := by
  rw [h.caches]
  by_cases hc' : c' = c
  · rw [hc', update_self]
    by_cases hv : v = .emptySlabs
    · simp [hv]
    · simp [hv]
  · rw [update_of_ne hc']
    simp [hc']

/-- One more slab is listed. -/
lemma Adopted.listed_iff {s' : SlabState} (h : Adopted s s' c a) {x : ℕ} :
    Listed s' x ↔ x = a ∨ Listed s x := by
  constructor
  · rintro ⟨c', v, hx⟩
    rcases h.mem_lists.mp hx with ⟨heq, _⟩ | hold
    · exact Or.inl heq
    · exact Or.inr ⟨c', v, hold⟩
  · rintro (heq | ⟨c', v, hx⟩)
    · exact ⟨c, .emptySlabs, h.mem_lists.mpr (Or.inl ⟨heq, rfl, rfl⟩)⟩
    · exact ⟨c', v, h.mem_lists.mpr (Or.inr hx)⟩

section
variable (h : SlabInv s (⟨a, 1⟩ :: env) live)
include h

/-- A block of order 1 held by another is aligned, and apart from the listed slabs. -/
lemma block_far : 8192 ∣ a ∧ a < 256 ^ 8 ∧ ∀ x, Listed s x → x + 8192 ≤ a ∨ a + 8192 ≤ x := by
  have hpart := h.buddy.pagePartition
  have hmem : (⟨a, 1⟩ : Block) ∈ s.held ++ ⟨a, 1⟩ :: env :=
    mem_append_right _ mem_cons_self
  have hdvd : 8192 ∣ a := by
    have hal := hpart.live_aligned _ hmem
    rwa [show blockSize 1 = 8192 by decide] at hal
  refine ⟨hdvd, ?_, fun x hx => ?_⟩
  · rcases hpart.live_inside _ hmem with ⟨i, _, hi⟩
    have hrange := pages_subset_range _ (hi (mem_span_one.mpr ⟨le_refl a, by omega⟩))
    have h₁ := hrange.2
    have h₂ := h.buddy.buddy.below i
    omega
  · have hxa : x ≠ a := by
      intro heq
      rw [heq] at hx
      exact disjoint_of_nodup_append h.buddy.live_nodup (h.held_of_listed hx)
        mem_cons_self
    have := h.aligned hx
    omega

/-- The bytes of such a block belong to no other client. -/
lemma client_not_block {z : ℕ} (hz : z ∈ clientBytes s env live) : z ∉ Set.Ico a (a + 8192) := by
  intro hcell
  have hpart := h.buddy.pagePartition
  have hmem : (⟨a, 1⟩ : Block) ∈ s.held ++ ⟨a, 1⟩ :: env :=
    mem_append_right _ mem_cons_self
  have hza : z ∈ Block.span 12 ⟨a, 1⟩ := mem_span_one.mpr hcell
  rcases hz with ⟨y, hy, hzy⟩ | ⟨cx, p, hp, hzp, hzp'⟩ | hz
  · have hnd := nodup_cons.mp (nodup_append.mp h.buddy.live_nodup).2.1
    have hne : (⟨a, 1⟩ : Block) ≠ y := fun heq => hnd.1 (heq ▸ hy)
    exact Set.disjoint_left.mp (hpart.live_live _ hmem y
      (mem_append_right _ (mem_cons_of_mem _ hy)) hne) hza hzy
  · have hslot := h.live_slot hp
    have hb := h.slot_bounds hslot.2.1
    have hfar := h.block_far.2.2 _ hslot.1
    rw [Set.mem_Ico] at hcell
    omega
  · rcases hpart.live_inside _ hmem with ⟨i, _, hi⟩
    exact hz i (hi hza)

/-- A block just taken becomes an empty slab. -/
lemma adopt (c : CacheIdx) :
    SlabInv (adoptSlab s c a) env live ∧
      a ∈ ((adoptSlab s c a).slabCaches c).lists .emptySlabs ∧
      Keeps s (adoptSlab s c a) env live := by
  rcases h.block_far with ⟨hdvd, hsmall, hfar⟩
  have hshaped := (h.caches c).shaped
  have had := @adopted s c a hshaped hsmall
  have hquiet := had.quiet
  have hnot : ∀ c' v, a ∉ (s.slabCaches c').lists v := by
    intro c' v hm
    have := hfar a ⟨c', v, hm⟩
    omega
  have hmem : (⟨a, 1⟩ : Block) ∈ s.held ++ ⟨a, 1⟩ :: env :=
    mem_append_right _ mem_cons_self
  refine ⟨⟨?_, ?_, ?_, ?_, ?_, had.chained h.chained hfar⟩,
    had.mem_lists.mpr (Or.inl ⟨rfl, rfl, rfl⟩), ⟨⟨hquiet.hhdm, hquiet.addr⟩, hquiet.sameShape,
    fun z hz => had.writes z (h.client_not_block hz)⟩⟩
  · -- the buddy allocator: the block changes hands
    rw [hquiet.held]
    refine (h.buddy.write hquiet.arenas hquiet.counter hquiet.hhdm ?_).perm perm_middle
    intro z hz
    apply had.writes
    intro hcell
    exact hz _ hmem (mem_span_one.mpr hcell)
  · rw [hquiet.arenas]
    exact h.nonzero
  · intro c'
    rw [had.slabs, had.caches]
    by_cases hc' : c' = c
    · rw [hc', update_self]
      exact (h.caches c).add (hnot c) (createdSlab_ok hshaped hdvd)
        (fun p hp => mem_createdObjects.mpr hp) rfl rfl
    · rw [update_of_ne hc']
      refine (h.caches c').congr_slabs fun v x hx => ?_
      apply update_of_ne
      intro heq
      exact hnot c' v (heq ▸ hx)
  · intro x
    rw [hquiet.held, mem_cons, h.held x]
    simp only [had.listed_iff, or_and_right, exists_or, exists_eq_left]
  · intro x hx
    rcases had.listed_iff.mp hx with hxa | hold
    · rw [hxa]
      exact had.image
    · have hx := hfar x hold
      refine h.image_congr hold ⟨hquiet.hhdm, hquiet.addr⟩ ?_ fun z hz hz' _ => had.writes z ?_
      · rw [had.slabs, update_of_ne (by omega)]
      · rw [Set.mem_Ico]
        omega

end

/-- `slab_create` fails and changes nothing, or makes an empty slab. -/
lemma create (h : SlabInv s env live) (fails : Bool) (c : CacheIdx) :
    slabCreate fails s c = (none, s) ∨ ∃ a s', slabCreate fails s c = (some a, s') ∧
      SlabInv s' env live ∧ a ∈ (s'.slabCaches c).lists .emptySlabs ∧ Keeps s s' env live := by
  unfold slabCreate
  cases fails with
  | true => exact Or.inl rfl
  | false =>
    simp only [Bool.false_eq_true, if_false]
    cases hal : buddyAllocPages s.buddy 1 with
    | mk r b =>
      cases r with
      | none =>
        apply Or.inl
        rw [buddyAllocPages_none hal]
      | some a =>
        apply Or.inr
        -- no arena contains address 0
        have hpos : a ≠ 0 := by
          rcases h.buddy.alloc_spec hal with ⟨i, _, hrange, _⟩
          intro heq
          rw [heq] at hrange
          exact h.nonzero i hrange
        have henv := h.envAlloc hal
        have hadopt := henv.1.adopt c
        refine ⟨a, adoptSlab { s with buddy := b } c a, ?_, hadopt.1, hadopt.2.1,
          henv.2.trans hadopt.2.2⟩
        cases a with
        | zero => exact absurd rfl hpos
        | succ n => rfl

/-! ## Destruction -/

/-- The state in which `slab_destroy` calls `buddy_free_pages` for a slab off the empty list. -/
def releaseSlab (s : SlabState) (c : CacheIdx) (a : ℕ) : SlabState :=
  let s := s.bypassSlab c .emptySlabs a
  let k := s.slabCaches c
  { s.setCache c { k with
      totalSlabs := sizeSub k.totalSlabs 1
      totalObjects := sizeSub k.totalObjects k.objectsPerSlab } with
    held := s.held.erase ⟨a, 1⟩ }

lemma releaseSlab_caches (s : SlabState) (c : CacheIdx) (a : ℕ) :
    (releaseSlab s c a).slabCaches = update s.slabCaches c
      { s.slabCaches c with
        lists := update (s.slabCaches c).lists .emptySlabs
          (((s.slabCaches c).lists .emptySlabs).erase a)
        totalSlabs := sizeSub (s.slabCaches c).totalSlabs 1
        totalObjects :=
          sizeSub (s.slabCaches c).totalObjects (s.slabCaches c).objectsPerSlab } := by
  simp [releaseSlab, SlabState.bypassSlab, SlabState.setCache, SlabCache.setList]

/-- The lists without the slab. -/
lemma releaseSlab_lists (s : SlabState) (c : CacheIdx) (a : ℕ) (c' : CacheIdx) (w : SlabList) :
    ((releaseSlab s c a).slabCaches c').lists w
      = ((s.bypassSlab c .emptySlabs a).slabCaches c').lists w := by
  rw [releaseSlab_caches, bypassSlab_lists]
  by_cases hc : c' = c
  · subst hc
    by_cases hw : w = .emptySlabs
    · subst hw
      simp
    · simp [hw]
  · simp [hc]

/-- The other slabs stay listed. -/
lemma listed_releaseSlab (h : ListsApart s) (ha : a ∈ (s.slabCaches c).lists .emptySlabs) {x : ℕ} :
    Listed (releaseSlab s c a) x ↔ Listed s x ∧ x ≠ a := by
  constructor
  · rintro ⟨c', v, hx⟩
    rw [releaseSlab_lists] at hx
    have hfar := h.far_of_bypassSlab ha ⟨c', v, hx⟩
    exact ⟨hfar.1, by omega⟩
  · rintro ⟨⟨c', v, hx⟩, hxa⟩
    refine ⟨c', v, ?_⟩
    rw [releaseSlab_lists, bypassSlab_lists]
    split
    · rename_i heq
      rw [heq.1, heq.2] at hx
      exact (h.nodup c _).mem_erase_iff.mpr ⟨hxa, hx⟩
    · exact hx

/-- An empty slab leaves its cache; its block is nobody's but the caller's. -/
lemma release (h : SlabInv s env live) (ha : a ∈ (s.slabCaches c).lists .emptySlabs) :
    SlabInv (releaseSlab s c a) (⟨a, 1⟩ :: env) live ∧
      Keeps s (releaseSlab s c a) env live := by
  have hapart := h.listsApart
  have hal : Listed s a := ⟨c, _, ha⟩
  have hheld := h.held_of_listed hal
  have hlisted := @listed_releaseSlab s c a hapart ha
  -- the only store is in the `next` field of a slab of the list
  have hwrites : Writes (nextCells s) s (releaseSlab s c a) := by
    intro z hz
    apply Chain.unlinkNext_outside
    intro x hx
    have hzx : ¬ (x + 40 ≤ z ∧ z < x + 40 + 8) := fun hcon => hz ⟨x, ⟨c, _, hx⟩, hcon⟩
    omega
  have hcell : ∀ z, z ∈ nextCells s → ∃ x, Listed s x ∧ x + 40 ≤ z ∧ z < x + 48 := fun _ hz => hz
  refine ⟨⟨?_, h.nonzero, ?_, ?_, ?_, ?_⟩, ⟨rfl, rfl⟩, fun _ => ⟨rfl, rfl, rfl⟩, ?_⟩
  · -- the block moves from the slabs to the caller
    have hperm : (s.held ++ env).Perm (s.held.erase ⟨a, 1⟩ ++ ⟨a, 1⟩ :: env) :=
      ((perm_cons_erase hheld).append_right env).trans perm_middle.symm
    refine (h.buddy.write ?_ ?_ ?_ ?_).perm hperm
    · rfl
    · rfl
    · rfl
    · intro z hz
      apply hwrites
      intro hzc
      rcases hcell z hzc with ⟨x, hx, hzx⟩
      exact hz ⟨x, 1⟩ (mem_append_left _ (h.held_of_listed hx))
        (mem_span_one.mpr ⟨by omega, by omega⟩)
  · intro c'
    show CacheInv ((releaseSlab s c a).slabCaches c') s.slabs c' (live c')
    rw [releaseSlab_caches]
    by_cases hc' : c' = c
    · subst hc'
      rw [update_self]
      exact (h.caches c').drop ha rfl
    · rw [update_of_ne hc']
      exact h.caches c'
  · intro x
    show x ∈ s.held.erase ⟨a, 1⟩ ↔ _
    rw [(nodup_append.mp h.buddy.live_nodup).1.mem_erase_iff, h.held x]
    constructor
    · rintro ⟨hxa, y, hy, hxy⟩
      have hya : y ≠ a := fun heq => hxa (heq ▸ hxy)
      exact ⟨y, hlisted.mpr ⟨hy, hya⟩, hxy⟩
    · rintro ⟨y, hy, hxy⟩
      have hy' := hlisted.mp hy
      refine ⟨fun hxa => hy'.2 ?_, y, hy'.1, hxy⟩
      rw [hxy, Block.mk.injEq] at hxa
      exact hxa.1
  · intro x hx
    have hx' := (hlisted.mp hx).1
    have hdx := h.aligned hx'
    refine h.image_congr hx' ⟨rfl, rfl⟩ rfl fun z hz hz' hgap => hwrites z ?_
    have hnext : z < x + 40 ∨ x + 48 ≤ z := hgap.imp_right And.left
    intro hzc
    rcases hcell z hzc with ⟨y, hy, hzy⟩
    have := h.aligned hy
    omega
  · have hch : Chained (s.bypassSlab c .emptySlabs a) := chained_bypassSlab hapart h.chained
    intro c' v
    rw [releaseSlab_lists]
    exact hch c' v
  · intro z hz
    apply hwrites
    intro hzc
    exact h.client_not_op hal hz (Or.inr hzc)

/-- A turn of the shrinking loop gives the slab's block back. -/
lemma destroy (h : SlabInv s env live) (ha : a ∈ (s.slabCaches c).lists .emptySlabs) :
    SlabInv (slabDestroy (s.bypassSlab c .emptySlabs a) a) env live ∧
      Keeps s (slabDestroy (s.bypassSlab c .emptySlabs a) a) env live ∧
      ((slabDestroy (s.bypassSlab c .emptySlabs a) a).slabCaches c).lists .emptySlabs
        = ((s.slabCaches c).lists .emptySlabs).erase a := by
  have hok := (h.caches c).slab _ a ha
  -- the slab is on no list any more when `slab_destroy` looks for it
  have hremove : slabRemoveFromList (s.bypassSlab c .emptySlabs a) a c
      = s.bypassSlab c .emptySlabs a := by
    apply slabRemoveFromList_of_not_mem
    intro w hw
    have := (h.listsApart.far_of_bypassSlab ha ⟨c, w, hw⟩).2
    omega
  have hcode : slabDestroy (s.bypassSlab c .emptySlabs a) a
      = { releaseSlab s c a with buddy := buddyFreePages (releaseSlab s c a).buddy a 1 } := by
    unfold slabDestroy
    have hcache : ((s.bypassSlab c .emptySlabs a).slabs a).cache = c := hok.cache
    have hphys : ((s.bypassSlab c .emptySlabs a).slabs a).physAddr = a := hok.phys
    simp only [hcache, hremove]
    show ({ releaseSlab s c a with
      buddy := buddyFreePages (releaseSlab s c a).buddy
        ((s.bypassSlab c .emptySlabs a).slabs a).physAddr 1
      held := s.held.erase ⟨((s.bypassSlab c .emptySlabs a).slabs a).physAddr, 1⟩ } : SlabState) = _
    rw [hphys]
    rfl
  have hrel := h.release ha
  have hfree := hrel.1.envFree (x := ⟨a, 1⟩) mem_cons_self
  rw [erase_cons_head] at hfree
  rw [hcode]
  refine ⟨hfree.1, hrel.2.trans hfree.2, ?_⟩
  show ((releaseSlab s c a).slabCaches c).lists .emptySlabs = _
  rw [releaseSlab_lists, bypassSlab_lists, if_pos ⟨rfl, rfl⟩]

/-- The shrinking loop keeps the invariant, whichever empty slabs it goes over. -/
lemma shrinkLoop_inv (c : CacheIdx) : ∀ (l : List ℕ) (s : SlabState), SlabInv s env live →
    l.Nodup → (∀ x ∈ l, x ∈ (s.slabCaches c).lists .emptySlabs) →
    SlabInv (shrinkLoop c l s) env live ∧ Keeps s (shrinkLoop c l s) env live := by
  intro l
  induction l with
  | nil =>
    intro s h _ _
    exact ⟨h, Keeps.refl s env live⟩
  | cons rms rest ih =>
    intro s h hnd hmem
    rcases h.destroy (hmem rms mem_cons_self) with ⟨hinv, hkeeps, hlists⟩
    have hnd' := nodup_cons.mp hnd
    have hrest := ih _ hinv hnd'.2 (by
      intro x hx
      rw [hlists]
      refine ((h.caches c).nodup _).mem_erase_iff.mpr ⟨?_, hmem x (mem_cons_of_mem rms hx)⟩
      intro heq
      rw [heq] at hx
      exact hnd'.1 hx)
    exact ⟨hrest.1, hkeeps.trans hrest.2⟩

/-- Shrinking a cache. -/
lemma shrink (h : SlabInv s env live) (c : CacheIdx) :
    SlabInv (slabCacheShrink s c) env live ∧ Keeps s (slabCacheShrink s c) env live := by
  unfold slabCacheShrink
  apply shrinkLoop_inv c _ s h
  · exact ((h.caches c).nodup _).sublist (drop_sublist 2 _)
  · intro x hx
    exact mem_of_mem_drop hx

end SlabInv

end LunOS.SlabAllocator
