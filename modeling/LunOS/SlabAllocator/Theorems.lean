import LunOS.SlabAllocator.Lifecycle

/-!
# The slab allocator over whole runs

A run interleaves `slab_alloc`, `slab_free` of live objects and `slab_cache_shrink` on any cache,
writes of the owners, and what the other users of the buddy allocator do; page allocation for a
new slab may fail at any moment. The representation invariant `SlabRep` holds throughout, and
`slab_alloc` never finds a chosen slab without a free object.
-/

namespace LunOS.SlabAllocator
open LunOS.Dyadic LunOS.Memory LunOS.BuddyAllocator Function List

namespace SlabInv

variable {s : SlabState} {env : List Block} {live : CacheIdx → List ℕ}

/-- `slab_alloc` hands out an object that was not live, or returns `NULL` because no slab could
be made. -/
lemma alloc (h : SlabInv s env live) (fails : Bool) (c : CacheIdx) :
    (∃ p s', slabAlloc fails s c = (.object p, s') ∧
      SlabInv s' env (update live c (p :: live c)) ∧ p ∉ live c ∧
      Keeps s s' env live) ∨ slabAlloc fails s c = (.noSlab, s) := by
  unfold slabAlloc
  cases hparts : (s.slabCaches c).lists .partialSlabs with
  | cons a l =>
    have ha : a ∈ (s.slabCaches c).lists .partialSlabs := by
      rw [hparts]
      exact mem_cons_self
    exact Or.inl (h.allocFrom ha (by decide))
  | nil =>
    cases hempty : (s.slabCaches c).lists .emptySlabs with
    | cons a l =>
      have ha : a ∈ (s.slabCaches c).lists .emptySlabs := by
        rw [hempty]
        exact mem_cons_self
      exact Or.inl (h.allocFrom ha (by decide))
    | nil =>
      -- a new slab is needed
      rcases h.create fails c with hnone | ⟨a, s', hsome, hinv, ha, hkeeps⟩
      · apply Or.inr
        simp only [hnone]
      · apply Or.inl
        rcases hinv.allocFrom ha (by decide) with ⟨p, s'', heq, hinv', hp, hkeeps'⟩
        refine ⟨p, s'', ?_, hinv', hp, hkeeps.trans hkeeps'⟩
        simp only [hsome, heq]

end SlabInv

/-! ## Runs -/

/-- The allocator with its live objects, by cache, and the blocks the other users of the buddy
allocator hold. -/
structure SlabRun where
  slabs : SlabState
  live : CacheIdx → List ℕ
  others : List Block

/-- A byte that belongs to a live object or to a block of the others. -/
def SlabRun.Owns (r : SlabRun) (z : ℕ) : Prop :=
  (∃ x ∈ r.others, z ∈ x.span 12) ∨ ∃ c, ∃ p ∈ r.live c, p ≤ z ∧ z < p + slabSizes.get c

/-- One step of a run. -/
inductive SlabStep : SlabRun → SlabRun → Prop
  | allocObject {r : SlabRun} {fails : Bool} {c : CacheIdx} {p : ℕ} {s : SlabState}
      (h : slabAlloc fails r.slabs c = (.object p, s)) :
      SlabStep r ⟨s, update r.live c (p :: r.live c), r.others⟩
  | allocNull {r : SlabRun} {fails : Bool} {c : CacheIdx} {res : AllocResult} {s : SlabState}
      (h : slabAlloc fails r.slabs c = (res, s)) (hres : ∀ p, res ≠ .object p) :
      SlabStep r ⟨s, r.live, r.others⟩
  | free {r : SlabRun} {c : CacheIdx} {p : ℕ} (hp : p ∈ r.live c) :
      SlabStep r
        ⟨slabFree r.slabs (slabOf p) p, update r.live c ((r.live c).erase p), r.others⟩
  | shrink {r : SlabRun} (c : CacheIdx) : SlabStep r ⟨slabCacheShrink r.slabs c, r.live, r.others⟩
  | write {r : SlabRun} {z : ℕ} (v : UInt8) (hz : r.Owns z) :
      SlabStep r ⟨{ r.slabs with buddy := { r.slabs.buddy with
        mem := update r.slabs.buddy.mem z v } }, r.live, r.others⟩
  | othersAlloc {r : SlabRun} {order a : ℕ} {b : Buddy}
      (h : buddyAllocPages r.slabs.buddy order = (some a, b)) :
      SlabStep r ⟨{ r.slabs with buddy := b }, r.live, ⟨a, order⟩ :: r.others⟩
  | othersFree {r : SlabRun} {x : Block} (hx : x ∈ r.others) :
      SlabStep r ⟨{ r.slabs with buddy := buddyFreePages r.slabs.buddy x.addr x.order },
        r.live, r.others.erase x⟩

/-- The state after `slab_allocator_init` on freshly filled arenas. -/
def SlabRun.init (specs : List ArenaSpec) (hhdm : ℕ) (mem : Mem) (counter addr : ℕ) : SlabRun :=
  ⟨slabAllocatorInit (fillArenas (Buddy.boot hhdm mem counter) specs) addr, fun _ => [], []⟩

/-- The states of runs. -/
def SlabReachable (r₀ : SlabRun) : SlabRun → Prop := Runs.Reachable (· = r₀) SlabStep

/-- Freshly initialised caches. -/
lemma slabAllocatorInit_inv {b : Buddy} (h : BuddyAllocator.Inv b [])
    (hzero : ∀ i, 0 ∉ (b.buddyArenas i).range) (addr : ℕ) :
    SlabInv (slabAllocatorInit b addr) [] (fun _ => []) := by
  have hlisted : ∀ x, ¬ Listed (slabAllocatorInit b addr) x := by
    intro x hx
    rcases hx with ⟨c, w, hx⟩
    exact not_mem_nil hx
  refine ⟨h, hzero, fun c => ?_, fun x => ?_, fun x hx => absurd hx (hlisted x), fun _ _ => trivial⟩
  · refine ⟨⟨rfl, rfl⟩, fun _ => nodup_nil, fun w x hx => absurd hx not_mem_nil,
      fun w x hx => absurd hx not_mem_nil, nodup_nil, fun p => ?_, rfl, ?_, rfl⟩
    · constructor
      · intro hp
        exact absurd hp not_mem_nil
      · intro hp
        rcases hp with ⟨w, x, hx, _⟩
        exact absurd hx not_mem_nil
    · show 0 = 0 * _
      rw [Nat.zero_mul]
  · constructor
    · intro hx
      exact absurd hx not_mem_nil
    · intro hx
      rcases hx with ⟨y, hy, _⟩
      exact absurd hy (hlisted y)

/-- One step keeps the invariant. -/
lemma SlabInv.step {r r' : SlabRun} (h : SlabInv r.slabs r.others r.live) (hst : SlabStep r r') :
    SlabInv r'.slabs r'.others r'.live := by
  cases hst with
  | @allocObject fails c p s hal =>
    rcases h.alloc fails c with ⟨p', s', heq, hinv, _⟩ | hnone
    · rw [hal, Prod.mk.injEq, AllocResult.object.injEq] at heq
      rw [heq.1, heq.2]
      exact hinv
    · rw [hal] at hnone
      simp at hnone
  | @allocNull fails c res s hal hres =>
    rcases h.alloc fails c with ⟨p', s', heq, _⟩ | hnone
    · rw [hal, Prod.mk.injEq] at heq
      exact absurd heq.1 (hres p')
    · rw [hal, Prod.mk.injEq] at hnone
      rw [hnone.2]
      exact h
  | free hp => exact (h.free hp).1
  | shrink c => exact (h.shrink c).1
  | @write z v hz =>
    have hz' : z ∈ clientBytes r.slabs r.others r.live := by
      rcases hz with hz | hz
      · exact Or.inl hz
      · exact Or.inr (Or.inl hz)
    apply h.write
    · intro y hy
      apply update_of_ne
      intro heq
      exact hy (heq ▸ hz')
    · -- a byte somebody owns lies in an arena
      intro y hy
      apply update_of_ne
      intro heq
      subst heq
      rcases hz with ⟨x, hx, hzx⟩ | ⟨c, p, hp, hzp, hzp'⟩
      · rcases h.buddy.pagePartition.live_inside x (mem_append_right _ hx) with ⟨i, _, hi⟩
        exact hy i (hi hzx)
      · have hslot := h.live_slot hp
        have hb := h.slot_bounds hslot.2.1
        rcases (h.not_env hslot.1 (z := y) (by omega) (by omega)).2 with ⟨i, hi⟩
        exact hy i hi
  | othersAlloc hal => exact (h.envAlloc hal).1
  | othersFree hx => exact (h.envFree hx).1

/-! ## The representation -/

/-- Where the slabs of the caches are, what their free lists hold and the statistics; that headers,
free lists and the lists of the caches are linked so in memory; and that the blocks of the slabs and
those of the others are the ones the buddy allocator has handed out. -/
structure SlabRep (s : SlabState) (others : List Block) (live : CacheIdx → List ℕ) : Prop where
  full : ∀ c, ∀ a ∈ (s.slabCaches c).lists .fullSlabs, (s.slabs a).freeCount = 0
  part : ∀ c, ∀ a ∈ (s.slabCaches c).lists .partialSlabs,
    0 < (s.slabs a).freeCount ∧ (s.slabs a).freeCount < (s.slabCaches c).objectsPerSlab
  empty : ∀ c, ∀ a ∈ (s.slabCaches c).lists .emptySlabs,
    (s.slabs a).freeCount = (s.slabCaches c).objectsPerSlab
  list_nodup : ∀ c w, ((s.slabCaches c).lists w).Nodup
  one_list : ∀ c w c' w' a, a ∈ (s.slabCaches c).lists w → a ∈ (s.slabCaches c').lists w' →
    c = c' ∧ w = w'
  free_count : ∀ a, Listed s a →
    (s.slabs a).freeCount = (s.slabs a).freeList.length ∧ (s.slabs a).freeList.Nodup
  slots : ∀ c w, ∀ a ∈ (s.slabCaches c).lists w, ∀ p,
    (p ∈ (s.slabs a).freeList ∨ p ∈ live c ∧ slabOf p = a) ↔
      ∃ i, i < (s.slabCaches c).objectsPerSlab ∧
        p = a + slabHeaderSize + i * (s.slabCaches c).objectSize
  inside : ∀ c w, ∀ a ∈ (s.slabCaches c).lists w, slabHeaderSize +
    (s.slabCaches c).objectsPerSlab * (s.slabCaches c).objectSize ≤ 2 * pageFrameSize
  live_listed : ∀ c, ∀ p ∈ live c, ∃ w, slabOf p ∈ (s.slabCaches c).lists w
  live_not_free : ∀ c, ∀ p ∈ live c, p ∉ (s.slabs (slabOf p)).freeList
  live_nodup : ∀ c, (live c).Nodup
  total_slabs : ∀ c, (s.slabCaches c).totalSlabs = ((s.slabCaches c).lists .fullSlabs).length +
    ((s.slabCaches c).lists .partialSlabs).length + ((s.slabCaches c).lists .emptySlabs).length
  total_objects : ∀ c, (s.slabCaches c).totalObjects
    = (s.slabCaches c).totalSlabs * (s.slabCaches c).objectsPerSlab
  allocated_objects : ∀ c, (s.slabCaches c).allocatedObjects = (live c).length
  held : ∀ x, x ∈ s.held ↔ ∃ a, Listed s a ∧ x = ⟨a, 1⟩
  held_nodup : s.held.Nodup
  images : ∀ a, Listed s a → SlabImage s a
  chained : Chained s
  buddy : BuddyAllocator.Inv s.buddy (s.held ++ others)

/-- What the invariant says of a state. -/
lemma SlabInv.slabRep {s : SlabState} {env : List Block} {live : CacheIdx → List ℕ}
    (h : SlabInv s env live) : SlabRep s env live := by
  refine ⟨fun c a ha => eq_zero_of_home ((h.caches c).home _ a ha),
    fun c a ha => between_of_home ((h.caches c).home _ a ha) (h.count_lt ha).1,
    fun c a ha => eq_self_of_home ((h.caches c).home _ a ha),
    fun c => (h.caches c).nodup, h.listsApart.unique, ?_, ?_, ?_, ?_, ?_,
    fun c => (h.caches c).live_nodup, fun c => (h.caches c).totalSlabs,
    fun c => (h.caches c).totalObjects, fun c => (h.caches c).allocated, h.held,
    (nodup_append.mp h.buddy.live_nodup).1, h.images, h.chained, h.buddy⟩
  · intro a ha
    rcases ha with ⟨c, w, ha⟩
    have hok := (h.caches c).slab w a ha
    exact ⟨hok.count, hok.nodup⟩
  · intro c w a ha p
    have hok := (h.caches c).slab w a ha
    constructor
    · intro hp
      rcases hp with hp | ⟨hp, hpa⟩
      · exact hok.slots p hp
      · have hslot := (h.live_slot hp).2.1
        rw [hpa] at hslot
        exact hslot
    · intro hp
      by_cases hfree : p ∈ (s.slabs a).freeList
      · exact Or.inl hfree
      · exact Or.inr ⟨((h.caches c).live p).mpr ⟨w, a, ha, hp, hfree⟩,
          IsSlot.slabOf_eq hp (h.caches c).shaped hok.aligned⟩
  · intro c w a _
    have hfits := (h.caches c).shaped.fits
    unfold slabHeaderSize pageFrameSize
    omega
  · intro c p hp
    rcases (h.caches c).slab_of_live hp with ⟨w, ha, _⟩
    exact ⟨w, ha⟩
  · intro c p hp
    exact (h.live_slot hp).2.2

/-- The invariant holds in every reachable state. -/
lemma SlabReachable.inv {specs : List ArenaSpec} (hv : ValidSpecs specs)
    (hpos : ∀ s ∈ specs, 0 < s.base) {hhdm : ℕ} {mem : Mem} {counter addr : ℕ} {r : SlabRun}
    (hr : SlabReachable (SlabRun.init specs hhdm mem counter addr) r) :
    SlabInv r.slabs r.others r.live := by
  refine hr.invariant (fun r hr => ?_) fun _ _ hinv hst => hinv.step hst
  rw [hr]
  rcases boot_fill hv hhdm mem counter with ⟨hinv, _, hzero⟩
  apply slabAllocatorInit_inv hinv
  apply hzero 0
  intro s hs hmem
  have := hpos s hs
  have := hmem.1
  omega

/-- In every reachable state the slabs, their free lists, the live objects, the statistics, the words
in memory and the blocks of the buddy allocator agree, and `slab_alloc` does not reach its error branch. -/
theorem reachable_slabRep {specs : List ArenaSpec} (hv : ValidSpecs specs)
    (hpos : ∀ s ∈ specs, 0 < s.base) {hhdm : ℕ} {mem : Mem} {counter addr : ℕ} {r : SlabRun}
    (hr : SlabReachable (SlabRun.init specs hhdm mem counter addr) r) :
    SlabRep r.slabs r.others r.live ∧ ∀ fails c, (slabAlloc fails r.slabs c).1 ≠ .freeListNull := by
  have hinv := SlabReachable.inv hv hpos hr
  refine ⟨hinv.slabRep, fun fails c => ?_⟩
  rcases hinv.alloc fails c with ⟨p, s', heq, _⟩ | hnone
  · rw [heq]
    simp
  · rw [hnone]
    simp

/-- One object of 2048 bytes taken from a fresh slab. -/
def sevenPagesSlab : SlabRun :=
  ⟨(slabAlloc false (SlabRun.init sevenPages 0 (fun _ => 0) 2 0x1000).slabs ⟨7, by decide⟩).2,
    update (fun _ => []) ⟨7, by decide⟩ [0x8000 + 48 + 2 * 2048], []⟩

lemma reachable_sevenPagesSlab :
    SlabReachable (SlabRun.init sevenPages 0 (fun _ => 0) 2 0x1000) sevenPagesSlab := by
  refine Runs.Reachable.step (.init rfl) ?_
  exact @SlabStep.allocObject _ false _ _ _ (Prod.ext (by decide) rfl)

theorem reachable_slabRep_sevenPages : SlabRep sevenPagesSlab.slabs [] sevenPagesSlab.live :=
  (reachable_slabRep validSpecs_sevenPages (by decide) reachable_sevenPagesSlab).1

end LunOS.SlabAllocator
