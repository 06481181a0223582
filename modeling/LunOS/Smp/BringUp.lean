import LunOS.Scheduler.Common
import LunOS.Utils.Serial

/-!
# Starting the CPUs

`smp_init` starts all other CPUs and does not wait for them. Each runs `ap_entry_point`: `init_gdt`,
which fills the one table of all CPUs and loads the segments and the task register from it, and then,
under `cpu_id_init`, the number of the CPU. The boot CPU takes its number in `smp_init`.

- `core_ids`: the `k`-th CPU in the section gets the number `k`, and none from `MAX_CORES` on.
- `initGdt_faults_iff`: with two CPUs in `init_gdt` one of them can find the table empty.
-/

namespace LunOS.Smp
open LunOS.Threads LunOS.Scheduler Function List

/-! ## Numbers -/

/-- The counter, the local copy that each CPU increments, and where `gs` points to on each CPU. -/
structure IdState (n : ℕ) where
  cpuIdCtr : ℕ
  reg : Fin n → ℕ
  percpuProcessorIds : CpuId → BitVec 32
  gsBase : Fin n → Option CpuId

section
variable {n : ℕ}

/-- `init_percpu_data` -/
def initPercpuData (c : Fin n) (processorId : ℕ) (d : IdState n) : IdState n :=
  if h : processorId < maxCores then
    { d with percpuProcessorIds := update d.percpuProcessorIds ⟨processorId, h⟩
               (BitVec.ofNat 32 processorId)
             gsBase := update d.gsBase c (some ⟨processorId, h⟩) }
  else d

/-- `init_percpu_data(cpu_id_ctr++)`: a load, a store and the call. -/
def idSection (c : Fin n) : List (IdState n → IdState n) :=
  [fun d => { d with reg := update d.reg c d.cpuIdCtr },
    fun d => { d with cpuIdCtr := d.reg c + 1 },
    fun d => initPercpuData c (d.reg c) d]

/-- `get_current_core_id`, `none` while `gs` does not point into the array. -/
def getCurrentCoreId (d : IdState n) (c : Fin n) : Option (BitVec 32) :=
  (d.gsBase c).map d.percpuProcessorIds

/-- Before `smp_init`, whatever the array holds. -/
def IdState.init (reg : Fin n → ℕ) (ids : CpuId → BitVec 32) : IdState n :=
  ⟨0, reg, ids, fun _ => none⟩

/-- The CPUs with the lock `cpu_id_init`; each goes into the section once. -/
abbrev IdSystem (n : ℕ) :=
  State (Fin n) (Serial.Shared (Fin n) (Fin n) (IdState n)) (Serial.Own (Fin n) (IdState n))

/-- The numbers after the sections of the CPUs `l`. -/
structure Numbered (l : List (Fin n)) (d : IdState n) : Prop where
  ctr : d.cpuIdCtr = l.length
  unset : ∀ c, c ∉ l → d.gsBase c = none
  ids : ∀ k : CpuId, k.val < l.length → d.percpuProcessorIds k = BitVec.ofNat 32 k
  base : ∀ k c, l[k]? = some c → d.gsBase c = if h : k < maxCores then some ⟨k, h⟩ else none

/-- One CPU goes through the section. -/
lemma Numbered.section {l : List (Fin n)} {d : IdState n} (h : Numbered l d) {c : Fin n}
    (hc : c ∉ l) : Numbered (l ++ [c]) (Serial.runBody (idSection c) d) := by
  have hrun : Serial.runBody (idSection c) d = initPercpuData c l.length
      ⟨l.length + 1, update d.reg c l.length, d.percpuProcessorIds, d.gsBase⟩ := by
    simp [Serial.runBody, idSection, h.ctr]
  -- who was there before keeps its pointer, and the new CPU comes last
  have hcases : ∀ k x, (l ++ [c])[k]? = some x → (l[k]? = some x ∧ x ≠ c) ∨ k = l.length ∧ x = c := by
    intro k x hk
    rw [List.getElem?_append] at hk
    split at hk
    · exact Or.inl ⟨hk, fun hxc => hc (hxc ▸ mem_of_getElem? hk)⟩
    · obtain ⟨hlt, rfl⟩ := List.getElem?_eq_some_iff.mp hk
      rw [length_singleton] at hlt
      exact Or.inr ⟨by omega, by simp⟩
  rw [hrun]
  unfold initPercpuData
  by_cases hid : l.length < maxCores
  · rw [dif_pos hid]
    refine ⟨by simp, fun x hx => ?_, fun k hk => ?_, fun k x hk => ?_⟩
    · have hx' : x ∉ l ∧ x ≠ c := by simpa using hx
      simp only [update_of_ne hx'.2, h.unset x hx'.1]
    · rw [length_append, length_singleton] at hk
      by_cases hkl : k.val = l.length
      · obtain rfl : k = ⟨l.length, hid⟩ := Fin.ext hkl
        simp only [update_self]
      · have hne : k ≠ ⟨l.length, hid⟩ := fun heq => hkl (congrArg Fin.val heq)
        simp only [update_of_ne hne]
        exact h.ids k (by omega)
    · obtain ⟨hl, hne⟩ | ⟨rfl, rfl⟩ := hcases k x hk
      · simp only [update_of_ne hne]
        exact h.base k x hl
      · simp only [update_self, dif_pos hid]
  · rw [dif_neg hid]
    refine ⟨by simp, fun x hx => h.unset x ?_, fun k hk => h.ids k (by omega), fun k x hk => ?_⟩
    · exact fun hl => hx (mem_append_left _ hl)
    · obtain ⟨hl, -⟩ | ⟨rfl, rfl⟩ := hcases k x hk
      · exact h.base k x hl
      · simp only [dif_neg hid]
        exact h.unset x hc

/-- CPUs in a row get numbers in a row. -/
lemma numbered_replay (reg : Fin n → ℕ) (ids : CpuId → BitVec 32) (l : List (Fin n))
    (hl : l.Nodup) : Numbered l (Serial.replay idSection l (IdState.init reg ids)) := by
  induction l using List.reverseRecOn with
  | nil => exact ⟨rfl, fun _ _ => rfl, by simp, by simp⟩
  | append_singleton l c ih =>
    rw [nodup_append] at hl
    rw [Serial.replay_append]
    exact (ih hl.1).section fun hc => hl.2.2 c hc c mem_cons_self rfl

/-- Every CPU has been in the section once, or has yet to go there. -/
lemma once_each {log : List (Fin n × Fin n)} {todo : Fin n → List (Fin n)}
    (h : ∀ c, Serial.sectionsOf c log ++ todo c = [c]) :
    (log.map Prod.snd).Nodup ∧ ∀ c, c ∈ log.map Prod.snd ↔ todo c = [] := by
  have hown : ∀ e ∈ log, e.1 = e.2 := by
    intro e he
    have hmem : e.2 ∈ Serial.sectionsOf e.1 log :=
      mem_map_of_mem (mem_filter.mpr ⟨he, decide_eq_true rfl⟩)
    have hin := mem_append_left (todo e.1) hmem
    rw [h, mem_singleton] at hin
    exact hin.symm
  have hcount : ∀ c, (log.map Prod.snd).count c + (todo c).length = 1 := by
    intro c
    have hlength := congrArg List.length (h c)
    rw [length_append, Serial.sectionsOf, length_map, ← countP_eq_length_filter]
      at hlength
    rw [List.count, countP_map]
    refine Eq.trans ?_ hlength
    congr 1
    exact countP_congr fun e he => by simp [hown e he]
  refine ⟨nodup_iff_count_le_one.mpr fun c => ?_, fun c => ?_⟩
  · have hc := hcount c
    omega
  · have hc := hcount c
    rw [← count_pos_iff, ← length_eq_zero_iff]
    omega

/-- While nobody is in the section: the CPUs that have been there, in the order in which they took the
lock, got the numbers from 0 on, and those from `MAX_CORES` on got none. -/
theorem core_ids {reg : Fin n → ℕ} {ids : CpuId → BitVec 32} {s : IdSystem n}
    (h : Reachable (Serial.Move idSection) (Serial.init (fun c => [c]) (IdState.init reg ids)) s)
    (hfree : s.shared.locked = false) :
    (s.shared.log.map Prod.snd).Nodup ∧
      (∀ c, c ∈ s.shared.log.map Prod.snd ↔ (s.own c).todo = []) ∧
      ∀ k c, (s.shared.log.map Prod.snd)[k]? = some c → getCurrentCoreId s.shared.data c =
        if k < maxCores then some (BitVec.ofNat 32 k) else none := by
  obtain ⟨hdata, hscript⟩ := Serial.Reachable.serial h hfree
  obtain ⟨hnodup, hmem⟩ := once_each hscript
  have hnumbered := numbered_replay reg ids _ hnodup
  rw [← hdata] at hnumbered
  refine ⟨hnodup, hmem, fun k c hk => ?_⟩
  unfold getCurrentCoreId
  rw [hnumbered.base k c hk]
  by_cases hcores : k < maxCores
  · rw [dif_pos hcores, if_pos hcores, Option.map_some,
      hnumbered.ids ⟨k, hcores⟩ (List.getElem?_eq_some_iff.mp hk).1]
  · rw [dif_neg hcores, if_neg hcores, Option.map_none]

/-- The second of two CPUs comes first. -/
theorem core_ids_two : ∃ s : IdSystem 2, s.shared.log = [(1, 1), (0, 0)] ∧
    getCurrentCoreId s.shared.data 1 = some 0 ∧ getCurrentCoreId s.shared.data 0 = some 1 := by
  have hfirst := Serial.section_runs idSection (i := 1) (s := (Serial.init (fun c => [c])
    (IdState.init (fun _ => 0) fun _ => 0) : IdSystem 2)) rfl rfl
  have hrun := hfirst.trans (Serial.section_runs idSection (i := 0) rfl rfl)
  obtain ⟨-, -, hids⟩ := core_ids hrun rfl
  exact ⟨_, rfl, hids 0 1 rfl, hids 1 0 rfl⟩

end

/-! ## The descriptor table -/

/-- `struct gdt_entry`. -/
structure GdtEntry where
  limitLower : BitVec 16
  baseLower : BitVec 16
  baseMiddle : BitVec 8
  access : BitVec 8
  granularity : BitVec 8
  baseHigher : BitVec 8

/-- `struct tss_descriptor`. -/
structure TssDescriptor extends GdtEntry where
  baseUpper : BitVec 32
  reserved : BitVec 32

/-- `struct global_descr_table`. -/
structure Gdt where
  entries : Fin 5 → GdtEntry
  tssDesc : TssDescriptor

/-- The table after its `memset`. -/
def zeroGdt : Gdt := ⟨fun _ => ⟨0, 0, 0, 0, 0, 0⟩, ⟨⟨0, 0, 0, 0, 0, 0⟩, 0, 0⟩⟩

/-- What a CPU does with the table in `init_gdt`. -/
inductive GdtOp
  | memset
  | setGdtEntry (index : Fin 5) (access granularity : BitVec 8)
  /-- The far return of `reload_gdt`. -/
  | loadCs
  /-- The `mov`s to the other segment registers. -/
  | loadData
  /-- The stores of `load_tss`. -/
  | setTssDesc (addr : BitVec 64)
  | ltr

/-- `none` is a general protection fault. Accessed bits are left out, no check reads them. -/
def GdtOp.exec (gdt : Gdt) : GdtOp → Option Gdt
  | memset => some zeroGdt
  | setGdtEntry index access granularity =>
    some { gdt with entries := update gdt.entries index ⟨0, 0, 0, access, granularity, 0⟩ }
  -- a segment for 64-bit code of ring 0, which is present
  | loadCs =>
    if (gdt.entries 1).access &&& 0xF8 = 0x98 ∧ (gdt.entries 1).granularity &&& 0x60 = 0x20 then
      some gdt
    else none
  -- a segment for data of ring 0 that is present and can be written
  | loadData => if (gdt.entries 2).access &&& 0xFA = 0x92 then some gdt else none
  | setTssDesc addr =>
    some { gdt with tssDesc := {
      limitLower := 103
      baseLower := (addr &&& 0xFFFF).truncate 16
      baseMiddle := ((addr >>> 16) &&& 0xFF).truncate 8
      access := 0x89
      granularity := 0
      baseHigher := ((addr >>> 24) &&& 0xFF).truncate 8
      baseUpper := (addr >>> 32).truncate 32
      reserved := 0 } }
  -- a TSS that is present and not busy; it is busy from now on
  | ltr =>
    if gdt.tssDesc.access &&& 0x9F = 0x89 then
      some { gdt with tssDesc.access := gdt.tssDesc.access ||| 0x02 }
    else none

/-- `init_gdt` -/
def initGdt (tss : BitVec 64) : List GdtOp :=
  [.memset, .setGdtEntry 0 0 0, .setGdtEntry 1 0x9A 0x20, .setGdtEntry 2 0x92 0,
    .setGdtEntry 3 0xFA 0x20, .setGdtEntry 4 0xF2 0, .loadCs, .loadData, .setTssDesc tss, .ltr]

/-- One operation of a CPU; after a fault it does nothing more. -/
inductive GdtMove {α : Type*} (_cpu : α) :
    Gdt → Option (List GdtOp) → Gdt → Option (List GdtOp) → Prop
  | exec {g g' : Gdt} {op : GdtOp} {ops : List GdtOp} (h : op.exec g = some g') :
      GdtMove _cpu g (some (op :: ops)) g' (some ops)
  | fault {g : Gdt} {op : GdtOp} {ops : List GdtOp} (h : op.exec g = none) :
      GdtMove _cpu g (some (op :: ops)) g none

/-- The operations of one CPU alone. -/
def runGdt (g : Gdt) (ops : List GdtOp) : Option Gdt := ops.foldlM GdtOp.exec g

lemma runGdt_cons (g : Gdt) (op : GdtOp) (ops : List GdtOp) :
    runGdt g (op :: ops) = (op.exec g).bind (runGdt · ops) := rfl

/-- A single CPU gets through, whatever is in the table. -/
lemma runGdt_initGdt (g : Gdt) (tss : BitVec 64) : ∃ g', runGdt g (initGdt tss) = some g' := by
  simp [runGdt, initGdt, GdtOp.exec]

section
variable {α : Type*} [DecidableEq α] {s s₀ : State α Gdt (Option (List GdtOp))}

/-- A CPU runs while the others wait. -/
lemma gdt_runs (i : α) (ops rest : List GdtOp) {g : Gdt} (h : Reachable GdtMove s₀ s)
    (hown : s.own i = some (ops ++ rest)) (hrun : runGdt s.shared ops = some g) :
    Reachable GdtMove s₀ (s.move i g (some rest)) := by
  induction ops generalizing s with
  | nil =>
    have hsame : s.move i g (some rest) = s := by
      unfold State.move
      rw [← Option.some.inj hrun, ← show s.own i = some rest from hown, update_eq_self]
    rw [hsame]
    exact h
  | cons op ops ih =>
    rw [runGdt_cons, Option.bind_eq_some_iff] at hrun
    obtain ⟨g', hop, hrun⟩ := hrun
    have hmove : GdtMove i s.shared (s.own i) g' (some (ops ++ rest)) := by
      rw [hown]
      exact .exec hop
    have hrest := ih (h.move hmove) State.move_own_self hrun
    rwa [State.move_move] at hrest

/-- One CPU alone fills the table. -/
lemma gdt_safe [Subsingleton α] {g : Gdt} {tss : BitVec 64}
    (h : Reachable GdtMove ⟨g, fun _ : α => some (initGdt tss)⟩ s) (i : α) :
    ∃ ops g', s.own i = some ops ∧ runGdt s.shared ops = some g' := by
  revert i
  refine h.invariant (I := fun s => ∀ i, ∃ ops g', s.own i = some ops ∧
    runGdt s.shared ops = some g') (fun _ => ?_) fun s j g' t hs hmove i => ?_
  · obtain ⟨g', hg'⟩ := runGdt_initGdt g tss
    exact ⟨_, g', rfl, hg'⟩
  · obtain rfl : i = j := Subsingleton.elim i j
    obtain ⟨ops, g₁, hown, hrun⟩ := hs i
    rw [hown] at hmove
    rw [State.move_own_self, State.move_shared]
    cases hmove with
    | exec hop =>
      rw [runGdt_cons, hop] at hrun
      exact ⟨_, g₁, rfl, hrun⟩
    | fault hop =>
      rw [runGdt_cons, hop] at hrun
      cases hrun

/-- The CPUs `α` start in any order and at any time. -/
theorem initGdt_faults_iff (g : Gdt) (tss : BitVec 64) :
    (∃ s, Reachable GdtMove ⟨g, fun _ : α => some (initGdt tss)⟩ s ∧ ∃ i, s.own i = none) ↔
      Nontrivial α := by
  constructor
  · rintro ⟨s, hs, i, hi⟩
    by_contra hone
    have := not_nontrivial_iff_subsingleton.mp hone
    obtain ⟨ops, _, hown, _⟩ := gdt_safe hs i
    exact absurd (hi.symm.trans hown) (by simp)
  · intro hα
    obtain ⟨i, j, hij⟩ := exists_pair_ne α
    obtain ⟨g₁, hg₁⟩ : ∃ g₁, runGdt g ((initGdt tss).take 6) = some g₁ := by
      simp [runGdt, initGdt, GdtOp.exec]
    -- the second CPU clears the table when the first one is about to load its code segment
    have hstart : Reachable GdtMove _ ⟨g, fun _ : α => some (initGdt tss)⟩ := .refl
    have hfirst := gdt_runs i _ ((initGdt tss).drop 6) hstart rfl hg₁
    have hsecond := gdt_runs j [.memset] ((initGdt tss).drop 1) (g := zeroGdt) hfirst
      (State.move_own_of_ne hij.symm) rfl
    refine ⟨_, hsecond.move (i := i) (g := zeroGdt) (t := none) ?_, i, State.move_own_self⟩
    rw [State.move_own_of_ne hij, State.move_own_self]
    exact .fault (show GdtOp.exec zeroGdt .loadCs = none by simp [GdtOp.exec, zeroGdt])

end
end LunOS.Smp
