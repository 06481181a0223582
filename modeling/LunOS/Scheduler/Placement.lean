import LunOS.Scheduler.Balance

/-!
# Placement of tasks on CPUs

Three numbers bound the loops over the per-CPU arrays: the `cpu_count` of the bootloader, the
`int total_cpus` it is stored in, and `MAX_CORES`, the size of the arrays. A run is the setup in
`smp_init` followed by any calls; it records the CPU of every task that is placed and every index
that `init_task_ctr`, `find_least_busy_cpu` and `sched_task` use.

- `leastBusyScan_id`: the scan over memory picks the CPU of `findLeastBusyCpu`.
- `leastBusyScan_used`: it stays inside the array, whatever the counters are.
- `placed_on_cpus_iff`: tasks are placed on CPUs that exist, with indices inside the arrays, exactly
  when `cpu_count` is at least `MAX_CORES` and `total_cpus` at most `MAX_CORES`.
-/

namespace LunOS.Scheduler
open LunOS.Ds Function List

/-! ## The loops over the per-CPU arrays -/

/-- `total_cpus = mp_response->cpu_count`, a `uint64_t` stored in an `int`. -/
def totalCpus (cpuCount : ℕ) : ℤ := (BitVec.ofNat 32 cpuCount).toInt

/-- The indices of the loop of `init_task_ctr`. -/
def initTaskCtrIndices (cpuCount : ℤ) : List ℕ := List.range cpuCount.toNat

/-- `init_task_ctr`. What it writes past the end of the array is no counter. -/
def initTaskCtr (s : SchedState) (cpuCount : ℤ) : SchedState :=
  (initTaskCtrIndices cpuCount).foldl
    (fun s i => if h : i < maxCores then
      { s with taskCounter := update s.taskCounter ⟨i, h⟩ 0 } else s) s

/-- `min` and `id` of `find_least_busy_cpu`, and the indices used so far. -/
structure Scan where
  min : ℤ
  id : ℕ
  used : List ℕ

/-- One turn of the loop of `find_least_busy_cpu`. -/
def Scan.turn (counter : ℕ → ℤ) (m : Scan) (i : ℕ) : Scan :=
  -- a smaller counter is read once to compare and once more for `min`
  if counter i < m.min then ⟨counter i, i, m.used ++ [i, i]⟩
  else ⟨m.min, m.id, m.used ++ [i]⟩

/-- `find_least_busy_cpu` over `__percpu_task_counter` as it lies in memory. -/
def leastBusyScan (counter : ℕ → ℤ) : ℕ × List ℕ :=
  let m := (List.range' 1 (maxCores - 1)).foldl (Scan.turn counter) ⟨counter 0, 0, [0]⟩
  -- the last index is that of the increment
  (m.id, m.used ++ [m.id])

/-- The counters from `__percpu_task_counter` on. -/
def SchedState.counterAt (s : SchedState) (i : ℕ) : ℤ :=
  if h : i < maxCores then s.taskCounter ⟨i, h⟩ else 0

/-! ## Runs -/

/-- The CPUs of the tasks that were placed, and the indices into the per-CPU arrays. -/
structure PlaceRun where
  sched : SchedState
  chosen : List ℕ
  indexed : List ℕ

/-- `find_least_busy_cpu` picks a CPU, and `sched_task` uses it as an index. -/
def PlaceRun.place (r : PlaceRun) (s : SchedState) : PlaceRun :=
  let (id, used) := leastBusyScan r.sched.counterAt
  ⟨s, r.chosen ++ [id], r.indexed ++ (used ++ [id])⟩

/-- One call. -/
def PlaceRun.exec (r : PlaceRun) (e : LoadEvent) : Option PlaceRun :=
  (e.run r.sched).map fun s =>
    match e.placed with
    | none => { r with sched := s }
    | some _ => r.place s

/-- Events one after the other. -/
def PlaceRun.runAll (r : PlaceRun) (es : List LoadEvent) : Option PlaceRun := es.foldlM exec r

/-- `smp_init` up to the five tasks it creates, with the memory `kmalloc` returns for them. -/
def smpInit (s : SchedState) (cpuCount : ℕ) (mem : ℕ → ℕ × ℕ) : Option PlaceRun :=
  PlaceRun.runAll
    ⟨initTaskCtr s (totalCpus cpuCount), [], initTaskCtrIndices (totalCpus cpuCount)⟩
    ((List.range 5).map fun i => .create (mem i).1 (mem i).2)

/-! ## The scan -/

variable {s s' : SchedState} {r r' : PlaceRun}

/-- The scan over memory goes along with the one of `findLeastBusyCpu`. -/
lemma foldl_turn (s : SchedState) (is : List CpuId) (m : ℤ × CpuId) (used : List ℕ) :
    let m' := is.foldl
      (fun (m : ℤ × CpuId) i => if s.taskCounter i < m.1 then (s.taskCounter i, i) else m) m
    ∃ used', (is.map Fin.val).foldl (Scan.turn s.counterAt) ⟨m.1, m.2, used⟩
      = ⟨m'.1, m'.2, used'⟩ := by
  -- on the CPUs left to scan: `min` and `id` agree after every turn
  induction is generalizing m used with
  | nil => exact ⟨used, rfl⟩
  | cons i is ih =>
    have hat : s.counterAt i = s.taskCounter i := dif_pos i.isLt
    by_cases hlt : s.taskCounter i < m.1
    · have hturn : Scan.turn s.counterAt ⟨m.1, m.2, used⟩ i
          = ⟨s.taskCounter i, i, used ++ [i.val, i.val]⟩ := by
        unfold Scan.turn
        rw [hat, if_pos hlt]
      rw [map_cons, foldl_cons, foldl_cons, hturn, if_pos hlt]
      exact ih (s.taskCounter i, i) _
    · have hturn : Scan.turn s.counterAt ⟨m.1, m.2, used⟩ i
          = ⟨m.1, m.2, used ++ [i.val]⟩ := by
        unfold Scan.turn
        rw [hat, if_neg hlt]
      rw [map_cons, foldl_cons, foldl_cons, hturn, if_neg hlt]
      exact ih m _

/-- The scan over memory picks the CPU of `findLeastBusyCpu`. -/
lemma leastBusyScan_id (s : SchedState) :
    (leastBusyScan s.counterAt).1 = (findLeastBusyCpu s).1 := by
  have hrange : List.range' 1 (maxCores - 1) = (List.finRange maxCores).tail.map Fin.val := by
    decide
  rcases foldl_turn s (List.finRange maxCores).tail (s.taskCounter 0, 0) [0] with ⟨used, hscan⟩
  have hzero : s.counterAt 0 = s.taskCounter 0 := dif_pos (by decide)
  unfold leastBusyScan
  rw [hrange, hzero]
  exact congrArg Scan.id hscan

/-- Every turn keeps the indices below a bound. -/
lemma foldl_turn_used (counter : ℕ → ℤ) {is : List ℕ} {n : ℕ} {m : Scan} (hid : m.id < n)
    (hused : ∀ i ∈ m.used, i < n) (his : ∀ i ∈ is, i < n) :
    (is.foldl (Scan.turn counter) m).id < n ∧
      ∀ i ∈ (is.foldl (Scan.turn counter) m).used, i < n := by
  induction is generalizing m with
  | nil => exact ⟨hid, hused⟩
  | cons i is ih =>
    have hi : i < n := his i mem_cons_self
    have hrest : ∀ j ∈ is, j < n := fun j hj => his j (mem_cons_of_mem i hj)
    rw [foldl_cons]
    apply ih _ _ hrest
    · unfold Scan.turn
      split_ifs
      · exact hi
      · exact hid
    · intro j hj
      unfold Scan.turn at hj
      split_ifs at hj
      · rcases mem_append.mp hj with hj | hj
        · exact hused j hj
        · simp only [mem_cons, not_mem_nil, or_false, or_self] at hj
          omega
      · rcases mem_append.mp hj with hj | hj
        · exact hused j hj
        · rw [mem_singleton.mp hj]
          exact hi

/-- `find_least_busy_cpu` stays inside the array, whatever memory holds. -/
lemma leastBusyScan_lt (counter : ℕ → ℤ) :
    (leastBusyScan counter).1 < maxCores ∧ ∀ i ∈ (leastBusyScan counter).2, i < maxCores := by
  have hscanned : ∀ i ∈ List.range' 1 (maxCores - 1), i < maxCores := by decide
  have hfirst : ∀ i ∈ [0], i < maxCores := by decide
  have hturns := foldl_turn_used counter (m := ⟨counter 0, 0, [0]⟩) (hfirst 0 mem_cons_self)
    hfirst hscanned
  exact ⟨hturns.1, forall_mem_append.mpr ⟨hturns.2, forall_mem_singleton.mpr hturns.1⟩⟩

lemma placeTask_cpuId (s : SchedState) (t : ℕ) :
    ((placeTask s t).task t).cpuId = (findLeastBusyCpu s).1 := by
  show (update s.task t { s.task t with cpuId := (findLeastBusyCpu s).1 } t).cpuId = _
  rw [update_self]

/-- The CPU that is recorded for a task is the one in its `cpu_id`. -/
lemma cpuId_eq_scan {e : LoadEvent} {t : ℕ} (hplaced : e.placed = some t)
    (hrun : e.run s = some s') : (s'.task t).cpuId.val = (leastBusyScan s.counterAt).1 := by
  rw [leastBusyScan_id]
  cases e with
  | create u stack =>
    rw [← Option.some.inj hplaced, ← Option.some.inj hrun]
    exact congrArg Fin.val (placeTask_cpuId (createKernelTask s (some u) (some stack)).2 u)
  | wake u =>
    rw [← Option.some.inj hplaced, ← Option.some.inj hrun]
    exact congrArg Fin.val (placeTask_cpuId (s.setTask u { s.task u with state := .running }) u)
  | kernelTask _ _ => exact absurd hplaced nofun
  | exit _ _ => exact absurd hplaced nofun
  | timer _ => exact absurd hplaced nofun

/-! ## Indices below `MAX_CORES` -/

/-- Every CPU number in use is one of the `MAX_CORES`. -/
structure InArrays (r : PlaceRun) : Prop where
  chosen : ∀ c ∈ r.chosen, c < maxCores
  indexed : ∀ i ∈ r.indexed, i < maxCores

lemma InArrays.place (h : InArrays r) (s : SchedState) : InArrays (r.place s) := by
  rcases leastBusyScan_lt r.sched.counterAt with ⟨hid, hused⟩
  have hcpu : ∀ c ∈ [(leastBusyScan r.sched.counterAt).1], c < maxCores :=
    forall_mem_singleton.mpr hid
  constructor
  · exact forall_mem_append.mpr ⟨h.chosen, hcpu⟩
  · exact forall_mem_append.mpr ⟨h.indexed, forall_mem_append.mpr ⟨hused, hcpu⟩⟩

/-- One event stays in the arrays. -/
lemma InArrays.exec (h : InArrays r) {e : LoadEvent} (hexec : r.exec e = some r') :
    InArrays r' := by
  rcases Option.map_eq_some_iff.mp hexec with ⟨s', _, hr'⟩
  rw [← hr']
  cases e.placed with
  | none => exact ⟨h.chosen, h.indexed⟩
  | some _ => exact h.place s'

/-- So does a run. -/
lemma InArrays.runAll (h : InArrays r) {es : List LoadEvent} (hrun : r.runAll es = some r') :
    InArrays r' := by
  induction es generalizing r with
  | nil =>
    cases hrun
    exact h
  | cons e es ih =>
    unfold PlaceRun.runAll at hrun
    rw [foldlM_cons] at hrun
    rcases Option.bind_eq_some_iff.mp hrun with ⟨r₁, hexec, hrest⟩
    exact ih (h.exec hexec) hrest

/-! ## The setup -/

/-- The CPUs of tasks that are created one after the other, from the counters alone. -/
def placements : ℕ → (CpuId → ℤ) → List ℕ
  | 0, _ => []
  | n + 1, counter =>
    let (id, s) := findLeastBusyCpu { coldState with taskCounter := counter }
    id.val :: placements n s.taskCounter

lemma exec_create (r : PlaceRun) (t stack : ℕ) :
    ∃ r', r.exec (.create t stack) = some r' ∧
      r'.chosen = r.chosen ++ [(findLeastBusyCpu r.sched).1.val] ∧
      r'.sched.taskCounter = (findLeastBusyCpu r.sched).2.taskCounter ∧
      r.indexed ⊆ r'.indexed := by
  refine ⟨_, rfl, ?_, rfl, subset_append_left _ _⟩
  rw [← leastBusyScan_id]
  rfl

/-- Creating tasks always succeeds here, places them by the counters and takes no index back. -/
lemma runAll_create (mem : List (ℕ × ℕ)) (r : PlaceRun) :
    ∃ r', r.runAll (mem.map fun m => .create m.1 m.2) = some r' ∧
      r'.chosen = r.chosen ++ placements mem.length r.sched.taskCounter ∧
      r.indexed ⊆ r'.indexed := by
  induction mem generalizing r with
  | nil => exact ⟨r, rfl, (append_nil _).symm, List.Subset.refl _⟩
  | cons m mem ih =>
    rcases exec_create r m.1 m.2 with ⟨r₁, hexec, hchosen₁, hcounter₁, hindexed₁⟩
    rcases ih r₁ with ⟨r₂, hrun, hchosen₂, hindexed₂⟩
    refine ⟨r₂, ?_, ?_, List.Subset.trans hindexed₁ hindexed₂⟩
    · unfold PlaceRun.runAll at hrun ⊢
      rw [map_cons, foldlM_cons, hexec]
      exact hrun
    · rw [hchosen₂, hchosen₁, hcounter₁, append_assoc]
      rfl

/-- Counters that are zero stay zero. -/
lemma initTaskCtr_zero (hzero : ∀ c, s.taskCounter c = 0) (cpuCount : ℤ) :
    (initTaskCtr s cpuCount).taskCounter = fun _ => 0 := by
  unfold initTaskCtr
  induction initTaskCtrIndices cpuCount generalizing s with
  | nil => exact funext hzero
  | cons i is ih =>
    rw [foldl_cons]
    apply ih
    intro c
    split_ifs with hi
    · show update s.taskCounter ⟨i, hi⟩ 0 c = 0
      by_cases hc : c = ⟨i, hi⟩
      · rw [hc, update_self]
      · rw [update_of_ne hc]
        exact hzero c
    · exact hzero c

/-- The five tasks go to the CPUs 0, 1, 2, 3 and 0, however many there are. -/
lemma smpInit_chosen (hzero : ∀ c, s.taskCounter c = 0) (cpuCount : ℕ) (mem : ℕ → ℕ × ℕ) :
    ∃ r, smpInit s cpuCount mem = some r ∧ r.chosen = [0, 1, 2, 3, 0] ∧
      initTaskCtrIndices (totalCpus cpuCount) ⊆ r.indexed := by
  rcases runAll_create ((List.range 5).map mem)
      ⟨initTaskCtr s (totalCpus cpuCount), [], initTaskCtrIndices (totalCpus cpuCount)⟩ with
    ⟨r, hrun, hchosen, hindexed⟩
  rw [map_map] at hrun
  refine ⟨r, hrun, ?_, hindexed⟩
  have hplaces : placements 5 (fun _ => 0) = [0, 1, 2, 3, 0] := by decide
  rw [hchosen, initTaskCtr_zero hzero, nil_append, ← hplaces]
  rfl

/-! ## CPUs that exist -/

/-- Every task is on a CPU the bootloader reported, and every index is inside the arrays. -/
def PlacedOnCpus (cpuCount : ℕ) (r : PlaceRun) : Prop :=
  (∀ c ∈ r.chosen, c < cpuCount) ∧ ∀ i ∈ r.indexed, i < maxCores

/-- From `scheduler_init` with the counters at zero, after the setup of `smp_init` and any calls:
tasks are placed on CPUs that exist, with indices inside the arrays, exactly when there are at least
`MAX_CORES` CPUs and `total_cpus` is at most `MAX_CORES`. -/
theorem placed_on_cpus_iff (s : SchedState) (hzero : ∀ c, s.taskCounter c = 0) (cpuCount : ℕ) :
    (∀ (mem : ℕ → ℕ × ℕ) (es : List LoadEvent) (r₀ r : PlaceRun),
      smpInit (schedulerInit s) cpuCount mem = some r₀ → r₀.runAll es = some r →
        PlacedOnCpus cpuCount r) ↔
    maxCores ≤ cpuCount ∧ totalCpus cpuCount ≤ maxCores := by
  constructor
  · intro hall
    rcases smpInit_chosen (s := schedulerInit s) hzero cpuCount fun i => (i, i) with
      ⟨r, hsetup, hchosen, hindexed⟩
    have hplaced := hall _ [] r r hsetup rfl
    constructor
    · -- the fourth task of the setup is on CPU 3
      have hthree := hplaced.1 3 (by simp [hchosen])
      exact hthree
    · -- otherwise the loop of `init_task_ctr` reaches the first index behind the array
      by_contra hlarge
      have hlast : maxCores ∈ initTaskCtrIndices (totalCpus cpuCount) := by
        unfold initTaskCtrIndices
        rw [mem_range]
        omega
      exact absurd (hplaced.2 maxCores (hindexed hlast)) (lt_irrefl _)
  · rintro ⟨hcpus, htotal⟩ mem es r₀ r hsetup hrun
    have hstart : InArrays ⟨initTaskCtr (schedulerInit s) (totalCpus cpuCount), [],
        initTaskCtrIndices (totalCpus cpuCount)⟩ := by
      refine ⟨fun c hc => absurd hc not_mem_nil, fun i hi => ?_⟩
      have hlt := mem_range.mp hi
      omega
    have hin := (hstart.runAll hsetup).runAll hrun
    exact ⟨fun c hc => lt_of_lt_of_le (hin.chosen c hc) hcpus, hin.indexed⟩

/-- On four CPUs, whatever memory is used and whatever is called. -/
theorem placed_on_four_cpus :
    totalCpus 4 = 4 ∧ ∀ (mem : ℕ → ℕ × ℕ) (es : List LoadEvent) (r₀ r : PlaceRun),
      smpInit (schedulerInit coldState) 4 mem = some r₀ → r₀.runAll es = some r →
        PlacedOnCpus 4 r :=
  ⟨by decide, (placed_on_cpus_iff coldState (fun _ => rfl) 4).mpr ⟨by decide, by decide⟩⟩

/-- On one CPU the next task after the setup goes to CPU 1; with five, `init_task_ctr` writes past
the end of the counters. -/
theorem task_on_missing_cpu :
    ((smpInit (schedulerInit coldState) 1 fun i => (i, 100 + i)).bind
        fun r => r.runAll [.create 5 105]).map (·.chosen) = some [0, 1, 2, 3, 0, 1] ∧
      (smpInit (schedulerInit coldState) 5 fun i => (i, 100 + i)).map
        (fun r => decide (maxCores ∈ r.indexed)) = some true := by
  constructor
  · decide +kernel
  · decide +kernel

end LunOS.Scheduler
