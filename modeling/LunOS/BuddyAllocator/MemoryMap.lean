import LunOS.BuddyAllocator.Completeness

/-!
# Intake of the memory map

`buddy_allocator_init` makes an arena of every usable entry of the memory map but the first, which
`add_buddy_arena` skips for its index 0. On a map as the boot loader promises it, the free blocks
cut exactly the pages of these entries.

- `intakeLoop_eq`: the loop adds one arena after the other, from index 2 on.
- `IntakeExact`: what the free blocks are afterwards.
-/

namespace LunOS.BuddyAllocator
open LunOS.Dyadic LunOS.Memory BuddyArena
open List hiding Disjoint

/-- An entry of the memory map; type 0 is usable memory. -/
structure MemmapEntry where
  base : ℕ
  length : ℕ
  type : ℕ

/-- The addresses of an entry. -/
def MemmapEntry.range (e : MemmapEntry) : Set ℕ := Set.Ico e.base (e.base + e.length)

/-- `if(!entry->base) entry->base += PAGE_FRAME_SIZE`; the length stays. -/
def MemmapEntry.start (e : MemmapEntry) : ℕ :=
  if e.base = 0 then e.base + pageFrameSize else e.base

/-- The loop over the entries. The counter of the arenas is advanced here, and once more by
`add_buddy_arena` for the arena of index 0. -/
def intakeLoop : List MemmapEntry → Buddy → Buddy
  | [], b => b
  | e :: entries, b =>
    if e.type ≠ 0 then intakeLoop entries b
    else if maxBuddyArenas ≤ b.buddyArenaCounter then b
    else
      let r := addBuddyArena b b.buddyArenaCounter e.start e.length
      if r.1 = 0 then
        intakeLoop entries { r.2 with buddyArenaCounter := r.2.buddyArenaCounter + 1 }
      else intakeLoop entries r.2

/-- `buddy_allocator_init`. Without a response of the boot loader the machine halts. -/
def buddyAllocatorInit (b : Buddy) (response : Option (List MemmapEntry)) : Option Buddy :=
  response.map fun entries => intakeLoop entries b

/-- The loop of `populate_buddy_blocks` for a number of turns; `none` if it is still running. -/
def populateSteps (i endAddr : ℕ) : ℕ → ℕ → Buddy → Option Buddy
  | 0, _, _ => none
  | fuel + 1, cur, b =>
    if cur < endAddr then
      if endAddr - cur < pageFrameSize then some b
      else match bestOrder cur (endAddr - cur) (b.buddyArenas i).maxArenaOrder with
        | none => populateSteps i endAddr fuel (u64 (cur + pageFrameSize - 1) &&& pageFrameMask) b
        | some o => populateSteps i endAddr fuel (cur + blockSize o) (b.linkBlock i o cur)
    else some b

/-- The loop of `populate_buddy_blocks` on arena `i` comes to its end. -/
def PopulateEnds (b : Buddy) (i : ℕ) : Prop :=
  ∃ fuel, populateSteps i (u64 ((b.buddyArenas i).base + (b.buddyArenas i).length)) fuel
    (b.buddyArenas i).base b = some (populateBuddyBlocks b i)

/-- The entries of type `LIMINE_MEMMAP_USABLE`. -/
def usable (entries : List MemmapEntry) : List MemmapEntry := entries.filter fun e => e.type = 0

/-- A memory map as the boot loader promises it. Behind an empty first entry at address 0 a second
one could begin with page 0, which cannot be kept out and covered at the same time. -/
structure ValidMap (entries : List MemmapEntry) : Prop where
  sorted : entries.Pairwise fun e f => e.base ≤ f.base
  apart : (usable entries).Pairwise fun e f => Disjoint e.range f.range
  aligned : ∀ e ∈ usable entries, pageFrameSize ∣ e.base ∧ pageFrameSize ∣ e.length
  below : ∀ e ∈ usable entries, e.base + e.length ≤ 2 ^ 52
  count : (usable entries).length ≤ 31
  zero : ∀ e ∈ (usable entries).tail, 0 ∉ e.range

/-- The free blocks cut the pages of the usable entries but the first. -/
structure IntakeExact (entries : List MemmapEntry) (b : Buddy) : Prop where
  aligned : ∀ i o, ∀ a ∈ (b.buddyArenas i).freeList o, blockSize o ∣ a
  nodup : ∀ i o, ((b.buddyArenas i).freeList o).Nodup
  disjoint : ∀ i o a j p c, a ∈ (b.buddyArenas i).freeList o → c ∈ (b.buddyArenas j).freeList p →
    (i, o, a) ≠ (j, p, c) → Disjoint (Block.span 12 ⟨a, o⟩) (Block.span 12 ⟨c, p⟩)
  inside : ∀ i o, ∀ a ∈ (b.buddyArenas i).freeList o,
    ∃ e ∈ usable entries, Block.span 12 ⟨a, o⟩ ⊆ e.range
  zero : ∀ i o, ∀ a ∈ (b.buddyArenas i).freeList o,
    Disjoint (Set.Ico 0 pageFrameSize) (Block.span 12 ⟨a, o⟩)
  cover : ∀ e ∈ (usable entries).tail, ∀ p, pageFrameSize ∣ p →
    Set.Ico p (p + pageFrameSize) ⊆ e.range →
    ∃! x : ℕ × ℕ × ℕ, x.2.2 ∈ (b.buddyArenas x.1).freeList x.2.1 ∧
      Set.Ico p (p + pageFrameSize) ⊆ Block.span 12 ⟨x.2.2, x.2.1⟩

/-! ## Adding an arena of whole pages -/

section
variable {b : Buddy} {i base len : ℕ}

/-- The start of an aligned range is not moved. -/
lemma alignUp_of_dvd (hbase : pageFrameSize ∣ base) (hlt : base + pageFrameSize < 2 ^ 64) :
    u64 (base + pageFrameSize - 1) &&& pageFrameMask = base := by
  unfold pageFrameSize at hbase hlt ⊢
  have hsmall : base + 4096 - 1 < 2 ^ 64 := by omega
  rw [show u64 (base + 4096 - 1) = base + 4096 - 1 from Nat.mod_eq_of_lt hsmall,
    land_pageFrameMask hsmall]
  omega

/-- A range of whole pages becomes the arena as it is. -/
lemma addBuddyArena_pages (b : Buddy) (hi : 1 ≤ i) (h32 : i < maxBuddyArenas)
    (hbase : pageFrameSize ∣ base) (hlen : pageFrameSize ∣ len) (hpos : 0 < len)
    (hbelow : base + len ≤ 2 ^ 52) :
    addBuddyArena b i base len =
      (0, populateBuddyBlocks (b.setArena i (freshArena base len)) i) := by
  have hpage : pageFrameSize ≤ len := Nat.le_of_dvd hpos hlen
  have hend : u64 (base + len) = base + len := Nat.mod_eq_of_lt (by omega)
  have hsize : pageFrameSize = 4096 := rfl
  unfold addBuddyArena
  simp only [hend, alignUp_of_dvd hbase (by omega), Nat.add_sub_cancel_left]
  rw [if_neg (by omega), if_neg (by omega), if_neg (by omega), if_neg (by omega)]
  rfl

/-- An empty range is refused. -/
lemma addBuddyArena_empty (b : Buddy) (hi : 1 ≤ i) (hbase : pageFrameSize ∣ base)
    (hbelow : base ≤ 2 ^ 52) : addBuddyArena b i base 0 = (-1, b) := by
  have hend : u64 (base + 0) = base := Nat.mod_eq_of_lt (by omega)
  have hsize : pageFrameSize = 4096 := rfl
  unfold addBuddyArena
  simp only [hend, alignUp_of_dvd hbase (by omega)]
  rw [if_neg (by omega : ¬i = 0), if_pos (Nat.le_refl base)]
  split_ifs <;> rfl

end

/-! ## The counter -/

/-- The state with another number of arenas. -/
def Buddy.withCounter (b : Buddy) (n : ℕ) : Buddy := { b with buddyArenaCounter := n }

/-- The counter plays no part. -/
lemma populateLoop_withCounter (i endAddr n : ℕ) : ∀ (fuel cur : ℕ) (b : Buddy),
    populateLoop i endAddr fuel cur (b.withCounter n) =
      (populateLoop i endAddr fuel cur b).withCounter n := by
  intro fuel
  induction fuel with
  | zero => exact fun _ _ => rfl
  | succ fuel ih =>
    intro cur b
    have harenas : (b.withCounter n).buddyArenas = b.buddyArenas := rfl
    unfold populateLoop
    rw [harenas]
    by_cases hlt : cur < endAddr
    · rw [if_pos hlt, if_pos hlt]
      by_cases hrem : endAddr - cur < pageFrameSize
      · rw [if_pos hrem, if_pos hrem]
      · rw [if_neg hrem, if_neg hrem]
        cases bestOrder cur (endAddr - cur) (b.buddyArenas i).maxArenaOrder with
        | none => exact ih _ b
        | some o => exact ih _ (b.linkBlock i o cur)
    · rw [if_neg hlt, if_neg hlt]

lemma populateBuddyBlocks_withCounter (b : Buddy) (i n : ℕ) :
    populateBuddyBlocks (b.withCounter n) i = (populateBuddyBlocks b i).withCounter n := by
  unfold populateBuddyBlocks
  exact populateLoop_withCounter i _ n _ _ b

/-- Adding an arena above index 0 does not depend on the counter. -/
lemma addBuddyArena_withCounter (b : Buddy) {i base len : ℕ} (hi : 1 ≤ i) (n : ℕ) :
    addBuddyArena (b.withCounter n) i base len =
      ((addBuddyArena b i base len).1, (addBuddyArena b i base len).2.withCounter n) := by
  unfold addBuddyArena
  simp only
  rw [if_neg (by omega : ¬i = 0), if_neg (by omega : ¬i = 0)]
  split_ifs
  · rfl
  · rfl
  · rfl
  · exact Prod.ext rfl (populateBuddyBlocks_withCounter (b.setArena i _) i n)

lemma fillArenas_withCounter (n : ℕ) : ∀ (specs : List ArenaSpec) (b : Buddy),
    (∀ s ∈ specs, 1 ≤ s.idx) →
    fillArenas (b.withCounter n) specs = (fillArenas b specs).withCounter n := by
  intro specs
  induction specs with
  | nil => exact fun _ _ => rfl
  | cons s specs ih =>
    intro b hidx
    show fillArenas (addBuddyArena (b.withCounter n) s.idx s.base s.len).2 specs = _
    rw [addBuddyArena_withCounter b (hidx s mem_cons_self)]
    exact ih _ fun t ht => hidx t (mem_cons_of_mem s ht)

/-! ## The loop over the entries -/

/-- The arenas made of the usable entries `l`, from index `c` on. -/
def arenaSpecs : ℕ → List MemmapEntry → List ArenaSpec
  | _, [] => []
  | c, e :: l =>
    if e.length = 0 then arenaSpecs c l else ⟨c, e.base, e.length⟩ :: arenaSpecs (c + 1) l

/-- Each range is that of an entry. -/
lemma mem_arenaSpecs : ∀ {l : List MemmapEntry} {c : ℕ} {s : ArenaSpec}, s ∈ arenaSpecs c l →
    c ≤ s.idx ∧ s.idx < c + l.length ∧ 0 < s.len ∧
      ∃ e ∈ l, s.base = e.base ∧ s.len = e.length := by
  intro l
  induction l with
  | nil => exact fun hs => absurd hs not_mem_nil
  | cons e l ih =>
    intro c s hs
    unfold arenaSpecs at hs
    rw [length_cons]
    by_cases hempty : e.length = 0
    · rw [if_pos hempty] at hs
      rcases ih hs with ⟨hle, hlt, hpos, f, hf, hbase, hlen⟩
      exact ⟨hle, by omega, hpos, f, mem_cons_of_mem e hf, hbase, hlen⟩
    · rw [if_neg hempty] at hs
      rcases mem_cons.mp hs with hs | hs
      · rw [hs]
        exact ⟨le_refl c, by simp only; omega, Nat.pos_of_ne_zero hempty, e,
          mem_cons_self, rfl, rfl⟩
      · rcases ih hs with ⟨hle, hlt, hpos, f, hf, hbase, hlen⟩
        exact ⟨by omega, by omega, hpos, f, mem_cons_of_mem e hf, hbase, hlen⟩

/-- Each entry has its range. -/
lemma exists_arenaSpec : ∀ {l : List MemmapEntry} {c : ℕ} {e : MemmapEntry}, e ∈ l →
    0 < e.length → ∃ s ∈ arenaSpecs c l, s.base = e.base ∧ s.len = e.length := by
  intro l
  induction l with
  | nil => exact fun he => absurd he not_mem_nil
  | cons f l ih =>
    intro c e he hpos
    unfold arenaSpecs
    by_cases hempty : f.length = 0
    · rw [if_pos hempty]
      rcases mem_cons.mp he with he | he
      · rw [he] at hpos
        omega
      · exact ih he hpos
    · rw [if_neg hempty]
      rcases mem_cons.mp he with he | he
      · rw [he]
        exact ⟨_, mem_cons_self, rfl, rfl⟩
      · rcases ih (c := c + 1) he hpos with ⟨s, hs, hrange⟩
        exact ⟨s, mem_cons_of_mem _ hs, hrange⟩

lemma pairwise_arenaSpecs {R : ArenaSpec → ArenaSpec → Prop} {l : List MemmapEntry} :
    ∀ {c : ℕ}, l.Pairwise (fun e f => ∀ i j, i < j →
      R ⟨i, e.base, e.length⟩ ⟨j, f.base, f.length⟩) → (arenaSpecs c l).Pairwise R := by
  induction l with
  | nil => exact fun _ => List.Pairwise.nil
  | cons e l ih =>
    intro c h
    rcases pairwise_cons.mp h with ⟨hhead, htail⟩
    unfold arenaSpecs
    by_cases hempty : e.length = 0
    · rw [if_pos hempty]
      exact ih htail
    · rw [if_neg hempty]
      refine pairwise_cons.mpr ⟨fun s hs => ?_, ih htail⟩
      rcases mem_arenaSpecs hs with ⟨hidx, -, -, f, hf, hbase, hlen⟩
      have hR := hhead f hf c s.idx (by omega)
      rw [← hbase, ← hlen] at hR
      exact hR

/-- Only the usable entries matter. -/
lemma intakeLoop_usable : ∀ (entries : List MemmapEntry) (b : Buddy),
    intakeLoop entries b = intakeLoop (usable entries) b := by
  intro entries
  induction entries with
  | nil => exact fun _ => rfl
  | cons e entries ih =>
    intro b
    unfold usable
    by_cases htype : e.type = 0
    · rw [filter_cons_of_pos (by simpa using htype)]
      unfold intakeLoop
      simp only [ih]
      rfl
    · rw [filter_cons_of_neg (by simpa using htype)]
      show (if e.type ≠ 0 then intakeLoop entries b else _) = _
      rw [if_pos htype]
      exact ih b

/-- From index 1 on the loop fills one arena for every entry that is not empty. -/
lemma intakeLoop_eq : ∀ {l : List MemmapEntry} {b : Buddy}, 1 ≤ b.buddyArenaCounter →
    b.buddyArenaCounter + l.length ≤ maxBuddyArenas →
    (∀ e ∈ l, e.type = 0 ∧ pageFrameSize ∣ e.base ∧ pageFrameSize ∣ e.length ∧
      e.base + e.length ≤ 2 ^ 52 ∧ 0 ∉ e.range) →
    ∃ n, intakeLoop l b = (fillArenas b (arenaSpecs b.buddyArenaCounter l)).withCounter n := by
  intro l
  induction l with
  | nil => exact fun _ _ _ => ⟨_, rfl⟩
  | cons e l ih =>
    intro b hc hroom hl
    rw [length_cons] at hroom
    rcases hl e mem_cons_self with ⟨htype, hdvd, hdvd', hbelow, hzero⟩
    have hl' := fun f hf => hl f (mem_cons_of_mem e hf)
    unfold intakeLoop arenaSpecs
    rw [if_neg (not_not.mpr htype), if_neg (by omega)]
    by_cases hempty : e.length = 0
    · have hstart : pageFrameSize ∣ e.start ∧ e.start ≤ 2 ^ 52 := by
        unfold MemmapEntry.start
        split_ifs with hbase
        · rw [hbase]
          decide
        · exact ⟨hdvd, by omega⟩
      simp only [hempty, addBuddyArena_empty b hc hstart.1 hstart.2]
      exact ih hc (by omega) hl'
    · have hbase : 0 < e.base := by
        by_contra hbase
        exact hzero ⟨by omega, by omega⟩
      have hstart : e.start = e.base := if_neg (by omega)
      have hadd := addBuddyArena_pages b hc (by omega) hdvd hdvd' (Nat.pos_of_ne_zero hempty) hbelow
      rw [if_neg hempty, hstart]
      show ∃ n, _ = (fillArenas (addBuddyArena b b.buddyArenaCounter e.base e.length).2
        (arenaSpecs (b.buddyArenaCounter + 1) l)).withCounter n
      rw [hadd]
      simp only [if_true]
      set b' := populateBuddyBlocks (b.setArena b.buddyArenaCounter
        (freshArena e.base e.length)) b.buddyArenaCounter with hb'
      have hcounter : b'.buddyArenaCounter = b.buddyArenaCounter :=
        (onlyArena_populateLoop b.buddyArenaCounter _ _ _ _).counter
      have hspecs : (b'.withCounter (b'.buddyArenaCounter + 1)).buddyArenaCounter =
          b.buddyArenaCounter + 1 := by
        rw [← hcounter]
        rfl
      rcases ih (b := b'.withCounter (b'.buddyArenaCounter + 1)) (by omega) (by omega) hl' with
        ⟨n, hn⟩
      refine ⟨n, hn.trans ?_⟩
      rw [hspecs, fillArenas_withCounter _ _ _ fun s hs => ?_]
      · rfl
      · have := (mem_arenaSpecs hs).1
        omega

/-! ## The arenas of a valid map -/

section
variable {entries : List MemmapEntry}

lemma ValidMap.mem_tail (h : ValidMap entries) {e : MemmapEntry} (he : e ∈ (usable entries).tail) :
    e.type = 0 ∧ pageFrameSize ∣ e.base ∧ pageFrameSize ∣ e.length ∧ e.base + e.length ≤ 2 ^ 52 ∧
      0 ∉ e.range := by
  have hmem := mem_of_mem_tail he
  exact ⟨by simpa using (mem_filter.mp hmem).2, (h.aligned e hmem).1, (h.aligned e hmem).2,
    h.below e hmem, h.zero e he⟩

/-- The arenas that `buddy_allocator_init` fills. -/
def mapSpecs (entries : List MemmapEntry) : List ArenaSpec := arenaSpecs 2 (usable entries).tail

/-- After `buddy_allocator_init` the arenas are those of a run that fills them. -/
lemma ValidMap.init_eq (h : ValidMap entries) (hhdm : ℕ) (mem : Mem) :
    ∃ n, buddyAllocatorInit (Buddy.boot hhdm mem 0) (some entries) =
      some (fillArenas (Buddy.boot hhdm mem n) (mapSpecs entries)) := by
  unfold buddyAllocatorInit mapSpecs
  rw [Option.map_some, intakeLoop_usable]
  have htail := fun e he => h.mem_tail (e := e) he
  have hcount := h.count
  cases hl : usable entries with
  | nil => exact ⟨0, rfl⟩
  | cons e l =>
    rw [hl] at htail hcount
    rw [length_cons] at hcount
    have htype : e.type = 0 := by
      have hmem : e ∈ usable entries := by
        rw [hl]
        exact mem_cons_self
      simpa using (mem_filter.mp hmem).2
    have hfirst : intakeLoop (e :: l) (Buddy.boot hhdm mem 0) =
        intakeLoop l (Buddy.boot hhdm mem 2) := by
      rw [intakeLoop, if_neg (not_not.mpr htype)]
      rfl
    have hroom : (2 : ℕ) + l.length ≤ maxBuddyArenas := by
      unfold maxBuddyArenas
      omega
    rcases intakeLoop_eq (b := Buddy.boot hhdm mem 2) one_le_two hroom htail with ⟨n, hn⟩
    refine ⟨n, congrArg some ?_⟩
    rw [hfirst, hn, ← fillArenas_withCounter n _ _ fun s hs => ?_]
    · rfl
    · have hidx : 2 ≤ s.idx := (mem_arenaSpecs hs).1
      omega

/-- Apart means one below the other. -/
lemma sep_of_disjoint_Ico {a b c d : ℕ} (hab : a < b) (hcd : c < d)
    (h : Disjoint (Set.Ico a b) (Set.Ico c d)) : b ≤ c ∨ d ≤ a := by
  by_contra hcon
  have hleft : max a c ∈ Set.Ico a b := ⟨by omega, by omega⟩
  exact Set.disjoint_left.mp h hleft ⟨by omega, by omega⟩

lemma ValidMap.mem_specs (h : ValidMap entries) {s : ArenaSpec} (hs : s ∈ mapSpecs entries) :
    2 ≤ s.idx ∧ s.idx < maxBuddyArenas ∧ 0 < s.len ∧ 0 < s.base ∧
      ∃ e ∈ (usable entries).tail, s.base = e.base ∧ s.len = e.length := by
  rcases mem_arenaSpecs hs with ⟨hle, hlt, hpos, e, he, hbase, hlen⟩
  have hcount := h.count
  rw [length_tail] at hlt
  refine ⟨hle, by unfold maxBuddyArenas; omega, hpos, ?_, e, he, hbase, hlen⟩
  by_contra hzero
  exact h.zero e he ⟨by omega, by omega⟩

/-- The ranges meet what arenas need. -/
lemma ValidMap.validSpecs (h : ValidMap entries) : ValidSpecs (mapSpecs entries) where
  idx_pos s hs := (h.mem_specs hs).1.trans' (by decide)
  below s hs := by
    rcases (h.mem_specs hs).2.2.2.2 with ⟨e, he, hbase, hlen⟩
    rw [hbase, hlen]
    exact h.below e (mem_of_mem_tail he)
  disjoint := by
    have hpair : (mapSpecs entries).Pairwise fun s t => Disjoint
        (Set.Ico s.base (s.base + s.len)) (Set.Ico t.base (t.base + t.len)) :=
      pairwise_arenaSpecs (h.apart.tail.imp fun hef _ _ _ => hef)
    refine List.Pairwise.imp_of_mem (fun {s t} hs ht hst => ?_) hpair
    have hspos := (h.mem_specs hs).2.2.1
    have htpos := (h.mem_specs ht).2.2.1
    exact sep_of_disjoint_Ico (by omega) (by omega) hst

lemma idx_lt_mapSpecs : (mapSpecs entries).Pairwise fun s t => s.idx < t.idx :=
  pairwise_arenaSpecs (pairwise_of_forall fun _ _ _ _ hij => hij)

end

/-! ## The shape of filled arenas -/

/-- Every arena is one of those given, or as it was before. -/
def Filled (specs : List ArenaSpec) (b b' : Buddy) : Prop :=
  ∀ j, (∃ s ∈ specs, s.idx = j ∧ (b'.buddyArenas j).base = s.base ∧
      (b'.buddyArenas j).length = s.len) ∨
    (∀ s ∈ specs, s.idx ≠ j) ∧ b'.buddyArenas j = b.buddyArenas j

/-- Every range is cut into blocks. -/
lemma fillArenas_filled : ∀ (specs : List ArenaSpec) (b : Buddy),
    (∀ s ∈ specs, 1 ≤ s.idx ∧ s.idx < maxBuddyArenas ∧ pageFrameSize ∣ s.base ∧
      pageFrameSize ∣ s.len ∧ 0 < s.len ∧ s.base + s.len ≤ 2 ^ 52) →
    Filled specs b (fillArenas b specs) := by
  intro specs
  induction specs with
  | nil => exact fun b _ j => Or.inr ⟨fun s hs => absurd hs not_mem_nil, rfl⟩
  | cons s specs ih =>
    intro b hspecs j
    rcases hspecs s mem_cons_self with ⟨hidx, h32, hbase, hlen, hpos, hbelow⟩
    have hadd := addBuddyArena_pages b hidx h32 hbase hlen hpos hbelow
    rw [show fillArenas b (s :: specs) = fillArenas (addBuddyArena b s.idx s.base s.len).2 specs
      from rfl, hadd]
    have honly : OnlyArena s.idx (b.setArena s.idx (freshArena s.base s.len))
        (populateBuddyBlocks (b.setArena s.idx (freshArena s.base s.len)) s.idx) :=
      onlyArena_populateLoop s.idx _ _ _ _
    rcases ih (populateBuddyBlocks (b.setArena s.idx (freshArena s.base s.len)) s.idx)
      (fun t ht => hspecs t (mem_cons_of_mem s ht)) j with ⟨t, ht, hfilled⟩ | ⟨hnone, hsame⟩
    · exact Or.inl ⟨t, mem_cons_of_mem s ht, hfilled⟩
    · by_cases hj : s.idx = j
      · refine Or.inl ⟨s, mem_cons_self, hj, ?_, ?_⟩
        · rw [hsame, ← hj, honly.base, setArena_self]
          rfl
        · rw [hsame, ← hj, honly.length, setArena_self]
          rfl
      · refine Or.inr ⟨fun t ht => ?_, ?_⟩
        · rcases mem_cons.mp ht with ht | ht
          · rw [ht]
            exact hj
          · exact hnone t ht
        · rw [hsame, honly.other j (Ne.symm hj), setArena_of_ne b _ (Ne.symm hj)]

/-- With indices that differ, every arena given is there. -/
lemma Filled.mem {specs : List ArenaSpec} {b b' : Buddy} (h : Filled specs b b')
    (hidx : specs.Pairwise fun s t => s.idx < t.idx) {s : ArenaSpec} (hs : s ∈ specs) :
    (b'.buddyArenas s.idx).base = s.base ∧ (b'.buddyArenas s.idx).length = s.len := by
  have hnodup : (specs.map ArenaSpec.idx).Nodup := pairwise_map.mpr (hidx.imp ne_of_lt)
  rcases h s.idx with ⟨t, ht, heq, hbase, hlen⟩ | ⟨hnone, -⟩
  · have hst : t = s := inj_on_of_nodup_map hnodup ht hs heq
    rw [hbase, hlen, hst]
    exact ⟨rfl, rfl⟩
  · exact absurd rfl (hnone s hs)

section
variable {entries : List MemmapEntry}

/-- `buddy_allocator_init` fills all arenas. -/
lemma ValidMap.filled (h : ValidMap entries) (b : Buddy) :
    Filled (mapSpecs entries) b (fillArenas b (mapSpecs entries)) := by
  refine fillArenas_filled _ b fun s hs => ?_
  rcases h.mem_specs hs with ⟨hidx, h32, hlen, -, e, he, hbase, hlength⟩
  rcases h.mem_tail he with ⟨-, hdvd, hdvd', hbelow, -⟩
  rw [← hbase, ← hlength] at hbelow
  rw [← hbase] at hdvd
  rw [← hlength] at hdvd'
  exact ⟨by omega, h32, hdvd, hdvd', hlen, hbelow⟩

/-- An arena with a free block has the pages of one usable entry behind the first. -/
lemma ValidMap.entry_of_free (h : ValidMap entries) {hhdm n i o a : ℕ} {mem : Mem}
    (ha : a ∈ ((fillArenas (Buddy.boot hhdm mem n) (mapSpecs entries)).buddyArenas i).freeList o) :
    ∃ e ∈ (usable entries).tail, Block.span 12 ⟨a, o⟩ ⊆ e.range := by
  have hinside := (boot_inv h.validSpecs hhdm mem n).pagePartition.free_inside i o a ha
  rcases h.filled (Buddy.boot hhdm mem n) i with ⟨s, hs, -, hbase, hlen⟩ | ⟨-, hzero⟩
  · rcases (h.mem_specs hs).2.2.2.2 with ⟨e, he, hbase', hlen'⟩
    refine ⟨e, he, hinside.trans ((pages_subset_range _).trans ?_)⟩
    unfold BuddyArena.range MemmapEntry.range
    rw [hbase, hlen, hbase', hlen']
  · rw [hzero] at ha
    exact absurd ha not_mem_nil

/-- The pages of a usable entry behind the first are those of one arena. -/
lemma ValidMap.arena_of_entry (h : ValidMap entries) (hhdm n : ℕ) (mem : Mem) {e : MemmapEntry}
    (he : e ∈ (usable entries).tail) (hpos : 0 < e.length) :
    ∃ i, ((fillArenas (Buddy.boot hhdm mem n) (mapSpecs entries)).buddyArenas i).pages =
      e.range := by
  rcases exists_arenaSpec (c := 2) he hpos with ⟨s, hs, hbase, hlen⟩
  rcases (h.filled (Buddy.boot hhdm mem n)).mem idx_lt_mapSpecs hs with ⟨hbase', hlen'⟩
  refine ⟨s.idx, ?_⟩
  unfold BuddyArena.pages MemmapEntry.range
  rw [hbase', hlen', hbase, hlen, Nat.div_mul_cancel (h.mem_tail he).2.2.1]

/-- A block holds whole pages. -/
lemma page_subset_of_mem {p a o : ℕ} (hp : pageFrameSize ∣ p) (ha : blockSize o ∣ a)
    (hmem : p ∈ Block.span 12 ⟨a, o⟩) :
    Set.Ico p (p + pageFrameSize) ⊆ Block.span 12 ⟨a, o⟩ := by
  rw [blockSize_eq] at ha
  intro z hz
  rw [mem_span_iff_page (x := ⟨a, o⟩) ha]
  have hpage : z / pageFrameSize * pageFrameSize = p := by
    unfold pageFrameSize at *
    rw [Set.mem_Ico] at hz
    omega
  rw [hpage]
  exact hmem

/-- The arenas cut the map exactly. -/
lemma ValidMap.intakeExact (h : ValidMap entries) (hhdm n : ℕ) (mem : Mem) :
    IntakeExact entries (fillArenas (Buddy.boot hhdm mem n) (mapSpecs entries)) := by
  have hpart := (boot_inv h.validSpecs hhdm mem n).pagePartition
  have hpagePos : 0 < pageFrameSize := by decide
  refine ⟨hpart.free_aligned, hpart.free_nodup, hpart.free_free, fun i o a ha => ?_,
    fun i o a ha => ?_, fun e he p hp hsub => ?_⟩
  · rcases h.entry_of_free ha with ⟨e, he, hsub⟩
    exact ⟨e, mem_of_mem_tail he, hsub⟩
  · -- a block that meets page 0 starts at 0
    rcases h.entry_of_free ha with ⟨e, he, hsub⟩
    have hal : pageFrameSize ∣ a :=
      Dvd.dvd.trans (Dvd.intro_left _ rfl) (hpart.free_aligned i o a ha)
    have hne : a ≠ 0 := by
      intro hzero
      have hmem := hsub (addr_mem_span ⟨a, o⟩)
      rw [hzero] at hmem
      exact h.zero e he hmem
    have hle : pageFrameSize ≤ a := Nat.le_of_dvd (Nat.pos_of_ne_zero hne) hal
    refine Set.disjoint_left.mpr fun z hz hzspan => ?_
    rw [mem_span] at hzspan
    exact absurd hz.2 (not_lt.mpr (hle.trans hzspan.1))
  · have hpmem : p ∈ Set.Ico p (p + pageFrameSize) := ⟨le_refl p, by omega⟩
    have hpos : 0 < e.length := by
      have hin := hsub hpmem
      have hlow := hin.1
      have hhigh := hin.2
      omega
    rcases h.arena_of_entry hhdm n mem he hpos with ⟨i, hpages⟩
    rcases hpart.cover i p (hpages ▸ hsub hpmem) with ⟨o, a, ha, hmem⟩ | ⟨x, hx, -⟩
    · refine ⟨(i, o, a), ⟨ha, page_subset_of_mem hp (hpart.free_aligned i o a ha) hmem⟩, ?_⟩
      rintro ⟨j, q, c⟩ ⟨hc, hsub'⟩
      by_contra hne
      exact Set.disjoint_left.mp (hpart.free_free j q c i o a hc ha hne) (hsub' hpmem) hmem
    · exact absurd hx not_mem_nil

end

/-! ## The populate loop comes to its end -/

/-- Every turn passes a page, so there are at most as many turns as pages. -/
lemma populateSteps_eq (i endAddr : ℕ) : ∀ (fuel cur : ℕ) (b : Buddy), 4096 ∣ cur →
    (endAddr - cur) / 4096 < fuel →
    populateSteps i endAddr fuel cur b = some (populateLoop i endAddr fuel cur b) := by
  intro fuel
  induction fuel with
  | zero => exact fun cur b _ hfuel => absurd hfuel (Nat.not_lt_zero _)
  | succ fuel ih =>
    intro cur b hcur hfuel
    unfold populateSteps populateLoop
    by_cases hlt : cur < endAddr
    · rw [if_pos hlt, if_pos hlt]
      by_cases hrem : endAddr - cur < pageFrameSize
      · rw [if_pos hrem, if_pos hrem]
      · rw [if_neg hrem, if_neg hrem]
        unfold pageFrameSize at hrem
        cases hbest : bestOrder cur (endAddr - cur) (b.buddyArenas i).maxArenaOrder with
        | none => exact absurd hbest (bestOrder_ne_none hcur (by omega) _)
        | some o =>
          have hdvd : 4096 ∣ blockSize o := Dvd.intro_left _ rfl
          have hpage := page_le_size o
          rw [← blockSize_eq] at hpage
          exact ih _ _ (hcur.add hdvd) (by omega)
    · rw [if_neg hlt, if_neg hlt]

/-- After `buddy_allocator_init` the free blocks cut exactly the pages of the usable entries but the
first, without page 0, and `populate_buddy_blocks` comes to its end on every entry. -/
theorem intake_exact {entries : List MemmapEntry} (h : ValidMap entries) (hhdm : ℕ) (mem : Mem) :
    (∃ b, buddyAllocatorInit (Buddy.boot hhdm mem 0) (some entries) = some b ∧
      IntakeExact entries b) ∧
    ∀ e ∈ usable entries, ∀ (b : Buddy) (i : ℕ),
      PopulateEnds (b.setArena i (freshArena e.start e.length)) i := by
  refine ⟨?_, fun e he b i => ?_⟩
  · rcases h.init_eq hhdm mem with ⟨n, hn⟩
    exact ⟨_, hn, h.intakeExact hhdm n mem⟩
  · have hstart : 4096 ∣ e.start := by
      unfold MemmapEntry.start
      split_ifs
      · exact (h.aligned e he).1.add dvd_rfl
      · exact (h.aligned e he).1
    refine ⟨e.length / pageFrameSize + 1, ?_⟩
    unfold populateBuddyBlocks
    rw [setArena_self]
    apply populateSteps_eq i _ _ _ _ hstart
    have hend : u64 (e.start + e.length) ≤ e.start + e.length := Nat.mod_le _ _
    show (u64 (e.start + e.length) - e.start) / 4096 < e.length / 4096 + 1
    omega

/-- Reserved memory, the entry at address 0 that is skipped, and two more. -/
def fourEntries : List MemmapEntry :=
  [⟨0, 0x3000, 0⟩, ⟨0x3000, 0x1000, 1⟩, ⟨0x5000, 0x7000, 0⟩, ⟨0x10000, 0x2000, 0⟩]

lemma usable_fourEntries : usable fourEntries =
    [⟨0, 0x3000, 0⟩, ⟨0x5000, 0x7000, 0⟩, ⟨0x10000, 0x2000, 0⟩] := rfl

lemma validMap_fourEntries : ValidMap fourEntries where
  sorted := by decide
  apart := by
    rw [usable_fourEntries]
    simp [MemmapEntry.range, Set.Ico_disjoint_Ico]
  aligned := by decide
  below := by decide
  count := by decide
  zero := by
    rw [usable_fourEntries]
    simp [MemmapEntry.range]

theorem intake_exact_fourEntries :
    ∃ b, buddyAllocatorInit (Buddy.boot 0 (fun _ => 0) 0) (some fourEntries) = some b ∧
      IntakeExact fourEntries b :=
  (intake_exact validMap_fourEntries 0 fun _ => 0).1

end LunOS.BuddyAllocator
