import Mathlib.Data.BitVec
import Mathlib.Data.Fintype.List
import LunOS.Utils.Threads

/-!
# The ticket lock

`ticket_spinlock` of `spinlock.h`: a CPU draws the next ticket and waits until it is served. Both
counters are 32-bit words that wrap. Every atomic access is a step of its own; the C function
`ticket_spinlockrylock` reads the two words one after the other before its `atomic_cmpxchg`.

Next to the words the model keeps what they stand for: how many unlocks there were, the CPUs in
the order in which they drew tickets, and in the order in which they got the lock.

- `Inv`: the order of acquisitions is the beginning of the order of draws, and every CPU is where
  these say.
- `ticket_lock_fair`: exclusion and first come, first served, in runs of any length.
- `trylock_second_holder`: a run in which `ticket_spinlockrylock` is fooled by a wrap between its
  two reads.
-/

namespace LunOS.TicketLock
open LunOS.Threads List

abbrev Word := BitVec 32

/-- The two words, and behind them the number of tickets served, the CPUs that drew a ticket and
the CPUs that got the lock, oldest first. -/
structure Lock (ι : Type*) where
  nextTicket : Word
  servingTicket : Word
  served : ℕ
  draws : List ι
  acquired : List ι

/-- The atomic access a CPU makes next. -/
inductive Pc
  /-- none: the CPU is in no function of the lock -/
  | idle
  /-- `ticket_spinlock_lock`: the `atomic_add_return` -/
  | draw
  /-- `ticket_spinlock_lock`: an `atomic_read` of `serving_ticket` -/
  | spin (myTicket : Word)
  /-- `ticket_spinlockrylock`: the `atomic_read` of `serving_ticket` -/
  | readServing
  /-- `ticket_spinlockrylock`: the `atomic_read` of `next_ticket` -/
  | readNext (serving : Word)
  /-- `ticket_spinlockrylock`: the `atomic_cmpxchg` -/
  | cas (next : Word)
  /-- `ticket_spinlock_unlock`: the `atomic_inc` -/
  | unlock

/-- A CPU: where it is, whether it holds the lock, and for its last `ticket_spinlockrylock` the
tickets drawn when it was called and served when it read `serving_ticket`. -/
structure Cpu where
  pc : Pc
  held : Bool
  since : ℕ
  seen : ℕ

section
variable {ι : Type*}

namespace Lock

/-- The next ticket goes to CPU `i`. -/
def draw (g : Lock ι) (i : ι) : Lock ι :=
  { g with nextTicket := g.nextTicket + 1, draws := g.draws ++ [i] }

/-- CPU `i` gets the lock; no word changes. -/
def enter (g : Lock ι) (i : ι) : Lock ι := { g with acquired := g.acquired ++ [i] }

/-- The next ticket is served. -/
def serve (g : Lock ι) : Lock ι :=
  { g with servingTicket := g.servingTicket + 1, served := g.served + 1 }

end Lock

/-- The next atomic access of CPU `i`. -/
def advance (i : ι) (g : Lock ι) (c : Cpu) : Lock ι × Cpu :=
  match c.pc with
  | .idle => (g, c)
  | .draw =>
    -- `atomic_add_return(1, ..) - 1`
    (g.draw i, { c with pc := .spin (g.nextTicket + 1 - 1) })
  | .spin myTicket =>
    if g.servingTicket ≠ myTicket then (g, c) else (g.enter i, { c with pc := .idle, held := true })
  | .readServing => (g, { c with pc := .readNext g.servingTicket, seen := g.served })
  | .readNext serving =>
    -- `serving` is the value of the first read, which may be outdated by now
    if serving ≠ g.nextTicket then (g, { c with pc := .idle })
    else (g, { c with pc := .cas g.nextTicket })
  | .cas next =>
    -- the exchange draws the ticket and takes the lock in one access
    if g.nextTicket = next then ((g.draw i).enter i, { c with pc := .idle, held := true })
    else (g, { c with pc := .idle })
  | .unlock => (g.serve, { c with pc := .idle, held := false })

lemma advance_readNext (i : ι) {g : Lock ι} {c : Cpu} (hpc : c.pc = .readNext g.nextTicket) :
    advance i g c = (g, { c with pc := .cas g.nextTicket }) := by
  unfold advance
  simp [hpc]

lemma advance_cas (i : ι) {g : Lock ι} {c : Cpu} (hpc : c.pc = .cas g.nextTicket) :
    advance i g c = ((g.draw i).enter i, { c with pc := .idle, held := true }) := by
  unfold advance
  simp [hpc]

/-- CPU `i` is in `ticket_spinlockrylock` and fewer than `2 ^ 32` tickets are drawn from its call
to the end of its next access. -/
def InWindow (i : ι) (g : Lock ι) (c : Cpu) : Prop :=
  (advance i g c).1.draws.length - c.since < 2 ^ 32

/-- The moves of CPU `i`: it calls a function (`ticket_spinlock_unlock` only with the lock), or
makes its next atomic access. Fewer than `2 ^ 32` tickets are drawn during a call of
`ticket_spinlockrylock`, and when the call reads `next_ticket`, `W` holds of the tickets served at
its first read and those drawn until now. -/
inductive Move (W : ℕ → ℕ → Prop) (i : ι) : Lock ι → Cpu → Lock ι → Cpu → Prop
  | callLock {g : Lock ι} {c : Cpu} (h : c.pc = .idle) : Move W i g c g { c with pc := .draw }
  | callTrylock {g : Lock ι} {c : Cpu} (h : c.pc = .idle) :
      Move W i g c g { c with pc := .readServing, since := g.draws.length }
  | callUnlock {g : Lock ι} {c : Cpu} (h : c.pc = .idle) (hheld : c.held = true) :
      Move W i g c g { c with pc := .unlock }
  | access {g : Lock ι} {c : Cpu}
      (hread : ∀ v, c.pc = .readNext v → InWindow i g c ∧ W c.seen g.draws.length)
      (hcas : ∀ v, c.pc = .cas v → InWindow i g c) :
      Move W i g c (advance i g c).1 (advance i g c).2

end

abbrev TicketState (ι : Type*) := State ι (Lock ι) Cpu

/-- `TICKET_SPINLOCK_INIT`, and no CPU in a function. -/
def TicketState.init (ι : Type*) : TicketState ι :=
  ⟨⟨0, 0, 0, [], []⟩, fun _ => ⟨.idle, false, 0, 0⟩⟩

/-! ## Tickets and words -/

/-- Ticket numbers less than `2 ^ 32` apart are told apart by their words. -/
lemma eq_of_ofNat_eq {a b : ℕ} (h : BitVec.ofNat 32 a = BitVec.ofNat 32 b) (hle : a ≤ b)
    (hlt : b < a + 2 ^ 32) : a = b := by
  have hmod := congrArg BitVec.toNat h
  rw [BitVec.toNat_ofNat, BitVec.toNat_ofNat] at hmod
  omega

/-- Ticket numbers with one word less than twice `2 ^ 32` apart. -/
lemma eq_or_eq_add_of_ofNat_eq {a b : ℕ} (h : BitVec.ofNat 32 a = BitVec.ofNat 32 b) (hle : a ≤ b)
    (hlt : b < a + 2 * 2 ^ 32) : b = a ∨ b = a + 2 ^ 32 := by
  have hmod := congrArg BitVec.toNat h
  rw [BitVec.toNat_ofNat, BitVec.toNat_ofNat] at hmod
  omega

lemma ofNat_succ (n : ℕ) : BitVec.ofNat 32 (n + 1) = BitVec.ofNat 32 n + 1 :=
  BitVec.ofNat_add n 1

section
variable {ι : Type*} {g g' : Lock ι} {i j : ι} {c : Cpu} {n : ℕ}

lemma length_draws_enter (g : Lock ι) (i : ι) :
    ((g.draw i).enter i).draws.length = g.draws.length + 1 := length_append

/-- CPU `i` has ticket `n` and has not got the lock with it. -/
def Lock.Waits (g : Lock ι) (i : ι) (n : ℕ) : Prop :=
  g.acquired.length ≤ n ∧ g.draws[n]? = some i

/-- CPU `i` has got the lock and not given it back. -/
def Lock.Inside (g : Lock ι) (i : ι) : Prop := i ∈ g.acquired.drop g.served

/-- The words count draws and unlocks, the lock goes to the CPUs in the order of their draws, to
one at a time, and no CPU waits with two tickets. -/
structure LockInv (g : Lock ι) : Prop where
  next : g.nextTicket = BitVec.ofNat 32 g.draws.length
  serving : g.servingTicket = BitVec.ofNat 32 g.served
  fifo : g.acquired = g.draws.take g.acquired.length
  served_le : g.served ≤ g.acquired.length
  one : g.acquired.length ≤ g.served + 1
  nodup : (g.draws.drop g.acquired.length).Nodup

/-- The ticket of a CPU at its program point. -/
def TicketOk (g : Lock ι) (i : ι) : Pc → Prop
  | .spin t => ∃ n, g.Waits i n ∧ t = BitVec.ofNat 32 n
  | _ => ∀ n, ¬ g.Waits i n

/-- What a CPU in `ticket_spinlockrylock` has seen. After the second read the lock was free, so
every ticket up to the value read has been served. -/
def SeenOk (g : Lock ι) (c : Cpu) : Prop :=
  match c.pc with
  | .readServing => c.since ≤ g.draws.length ∧ c.since ≤ g.served + 2 ^ 31
  | .readNext v => v = BitVec.ofNat 32 c.seen ∧ c.seen ≤ g.served ∧
      c.since ≤ g.draws.length ∧ c.since ≤ c.seen + 2 ^ 31
  | .cas v => ∃ n, v = BitVec.ofNat 32 n ∧ n ≤ g.served ∧ c.since ≤ n
  | _ => True

/-- What holds of a CPU. -/
structure CpuOk (g : Lock ι) (i : ι) (c : Cpu) : Prop where
  held : c.held = true ↔ g.Inside i
  unlock : c.pc = .unlock → c.held = true
  ticket : TicketOk g i c.pc
  seen : SeenOk g c

/-- The invariant of the lock. -/
structure Inv (s : TicketState ι) : Prop where
  lock : LockInv s.shared
  cpu : ∀ i, CpuOk s.shared i (s.own i)

namespace LockInv

/-- Nobody gets a lock without a ticket. -/
lemma acquired_le (h : LockInv g) : g.acquired.length ≤ g.draws.length := by
  have hlen := congrArg List.length h.fifo
  rw [length_take] at hlen
  omega

/-- Tickets are served in order. -/
lemma isPrefix (h : LockInv g) : g.acquired <+: g.draws := by
  rw [h.fifo]
  exact take_prefix _ _

/-- At most one ticket is waiting for each CPU. -/
lemma waiting_le [Fintype ι] (h : LockInv g) :
    g.draws.length ≤ g.acquired.length + Fintype.card ι := by
  have hlen := h.nodup.length_le_card
  rw [length_drop] at hlen
  omega

lemma waits_iff_getElem? :
    g.Waits i n ↔ g.acquired.length ≤ n ∧
      (g.draws.drop g.acquired.length)[n - g.acquired.length]? = some i := by
  unfold Lock.Waits
  constructor
  · rintro ⟨hle, hget⟩
    refine ⟨hle, ?_⟩
    rw [List.getElem?_drop, Nat.add_sub_cancel' hle]
    exact hget
  · rintro ⟨hle, hget⟩
    rw [List.getElem?_drop, Nat.add_sub_cancel' hle] at hget
    exact ⟨hle, hget⟩

/-- A CPU waits with one ticket. -/
lemma waits_unique (h : LockInv g) {m : ℕ} (hn : g.Waits i n) (hm : g.Waits i m) : n = m := by
  have hn' := waits_iff_getElem?.mp hn
  have hm' := waits_iff_getElem?.mp hm
  have hidx : n - g.acquired.length = m - g.acquired.length :=
    (List.getElem?_inj (List.getElem?_eq_some_iff.mp hn'.2).1 h.nodup).mp (hn'.2.trans hm'.2.symm)
  omega

lemma not_mem_waiting (h : ∀ n, ¬ g.Waits i n) : i ∉ g.draws.drop g.acquired.length := by
  intro hmem
  rcases mem_iff_getElem?.mp hmem with ⟨k, hk⟩
  refine h (g.acquired.length + k) ⟨Nat.le_add_right _ _, ?_⟩
  rw [List.getElem?_drop] at hk
  exact hk

/-- At most one CPU is inside. -/
lemma one_inside (h : LockInv g) (hi : g.Inside i) (hj : g.Inside j) : i = j := by
  have hone := h.one
  have hlen : (g.acquired.drop g.served).length ≤ 1 := by
    rw [length_drop]
    omega
  unfold Lock.Inside at hi hj
  -- the CPUs inside are a list of at most one element
  generalize g.acquired.drop g.served = l at hi hj hlen
  match l, hlen with
  | [], _ => cases hi
  | [a], _ => rw [mem_singleton.mp hi, mem_singleton.mp hj]

/-- The lock is free when as many CPUs left as came. -/
lemma inside_length (h : LockInv g) (hi : g.Inside i) : g.acquired.length = g.served + 1 := by
  have hone := h.one
  have hpos := length_pos_of_mem hi
  rw [length_drop] at hpos
  omega

/-! ## The three changes of the lock -/

lemma draw (h : LockInv g) (hi : ∀ n, ¬ g.Waits i n) : LockInv (g.draw i) := by
  have hle := h.acquired_le
  refine ⟨?_, h.serving, ?_, h.served_le, h.one, ?_⟩
  · show g.nextTicket + 1 = BitVec.ofNat 32 (g.draws ++ [i]).length
    rw [length_append, length_singleton, ofNat_succ, h.next]
  · show g.acquired = (g.draws ++ [i]).take g.acquired.length
    rw [take_append_of_le_length hle]
    exact h.fifo
  · show ((g.draws ++ [i]).drop g.acquired.length).Nodup
    rw [drop_append_of_le_length hle, nodup_append]
    refine ⟨h.nodup, nodup_singleton i, fun a ha b hb => ?_⟩
    rw [mem_singleton.mp hb]
    intro heq
    rw [heq] at ha
    exact not_mem_waiting hi ha

lemma enter (h : LockInv g) (hfree : g.acquired.length = g.served)
    (hi : g.Waits i g.acquired.length) : LockInv (g.enter i) := by
  have hlen : (g.acquired ++ [i]).length = g.acquired.length + 1 := by
    rw [length_append, length_singleton]
  refine ⟨h.next, h.serving, ?_, ?_, ?_, ?_⟩
  · show g.acquired ++ [i] = g.draws.take (g.acquired ++ [i]).length
    rw [hlen, take_add_one, hi.2, ← h.fifo]
    rfl
  · show g.served ≤ (g.acquired ++ [i]).length
    omega
  · show (g.acquired ++ [i]).length ≤ g.served + 1
    omega
  · show (g.draws.drop (g.acquired ++ [i]).length).Nodup
    rw [hlen, ← drop_drop]
    exact h.nodup.sublist (drop_sublist _ _)

lemma serve (h : LockInv g) (hbusy : g.acquired.length = g.served + 1) : LockInv g.serve := by
  refine ⟨h.next, ?_, h.fifo, ?_, ?_, h.nodup⟩
  · show g.servingTicket + 1 = BitVec.ofNat 32 (g.served + 1)
    rw [ofNat_succ, h.serving]
  · show g.served + 1 ≤ g.acquired.length
    omega
  · show g.acquired.length ≤ g.served + 1 + 1
    omega

end LockInv

/-- A change of the lock that means nothing to the CPUs other than `i`. -/
structure Apart (g g' : Lock ι) (i : ι) : Prop where
  inside : ∀ j, j ≠ i → (g'.Inside j ↔ g.Inside j)
  waits : ∀ j, j ≠ i → ∀ n, g'.Waits j n ↔ g.Waits j n
  served : g.served ≤ g'.served
  draws : g.draws.length ≤ g'.draws.length

lemma Apart.refl (g : Lock ι) (i : ι) : Apart g g i :=
  ⟨fun _ _ => Iff.rfl, fun _ _ _ => Iff.rfl, le_rfl, le_rfl⟩

lemma Apart.trans {g'' : Lock ι} (h : Apart g g' i) (h' : Apart g' g'' i) : Apart g g'' i :=
  ⟨fun j hj => (h'.inside j hj).trans (h.inside j hj),
    fun j hj n => (h'.waits j hj n).trans (h.waits j hj n), h.served.trans h'.served,
    h.draws.trans h'.draws⟩

/-- Others see no difference. -/
lemma apart_draw (g : Lock ι) (i : ι) : Apart g (g.draw i) i := by
  refine ⟨fun _ _ => Iff.rfl, fun j hj n => ?_, le_rfl, ?_⟩
  · unfold Lock.Waits Lock.draw
    simp only
    by_cases hn : n < g.draws.length
    · rw [List.getElem?_append_left hn]
    · -- the only new ticket is that of CPU `i`
      have hnone : g.draws[n]? = none := List.getElem?_eq_none (by omega)
      have hlast : (g.draws ++ [i])[n]? ≠ some j := by
        intro hget
        rw [List.getElem?_append_right (by omega)] at hget
        have hmem := mem_of_getElem? hget
        exact hj (mem_singleton.mp hmem)
      rw [hnone]
      exact ⟨fun hw => absurd hw.2 hlast, fun hw => absurd hw.2.symm (Option.some_ne_none j)⟩
  · show g.draws.length ≤ (g.draws ++ [i]).length
    rw [length_append]
    omega

/-- The others see no entry. -/
lemma apart_enter (h : LockInv g) (hi : g.Waits i g.acquired.length) : Apart g (g.enter i) i := by
  refine ⟨fun j hj => ?_, fun j hj n => ?_, le_rfl, le_rfl⟩
  · unfold Lock.Inside Lock.enter
    simp only
    rw [drop_append_of_le_length h.served_le, mem_append, mem_singleton]
    exact or_iff_left hj
  · unfold Lock.Waits Lock.enter
    simp only
    rw [length_append, length_singleton]
    constructor
    · rintro ⟨hle, hget⟩
      exact ⟨by omega, hget⟩
    · rintro ⟨hle, hget⟩
      refine ⟨?_, hget⟩
      -- the ticket that is no longer waiting was that of CPU `i`
      by_contra hlt
      have hn : n = g.acquired.length := by omega
      rw [hn, hi.2, Option.some.injEq] at hget
      exact hj hget.symm

lemma apart_serve (h : LockInv g) (hi : g.Inside i) : Apart g g.serve i := by
  refine ⟨fun j hj => ?_, fun _ _ _ => Iff.rfl, Nat.le_succ _, le_rfl⟩
  have hgone : g.acquired.drop (g.served + 1) = [] := by
    apply drop_eq_nil_of_le
    have hlen := h.inside_length hi
    omega
  unfold Lock.Inside Lock.serve
  simp only
  rw [hgone]
  exact ⟨fun hmem => absurd hmem not_mem_nil, fun hmem => absurd (h.one_inside hmem hi) hj⟩

/-- What a CPU knows stays true while others move. -/
lemma CpuOk.apart (h : CpuOk g j c) (hg : Apart g g' i) (hj : j ≠ i) : CpuOk g' j c := by
  have hserved := hg.served
  have hdraws := hg.draws
  refine ⟨?_, h.unlock, ?_, ?_⟩
  · rw [hg.inside j hj]
    exact h.held
  · have hticket := h.ticket
    unfold TicketOk at hticket ⊢
    simp only [hg.waits j hj]
    exact hticket
  · have hseen := h.seen
    unfold SeenOk at hseen ⊢
    cases hpc : c.pc with
    | readServing =>
      simp only [hpc] at hseen ⊢
      omega
    | readNext v =>
      simp only [hpc] at hseen ⊢
      exact ⟨hseen.1, by omega, by omega, hseen.2.2.2⟩
    | cas v =>
      simp only [hpc] at hseen ⊢
      rcases hseen with ⟨n, hv, hn, hsince⟩
      exact ⟨n, hv, by omega, hsince⟩
    | idle => trivial
    | draw => trivial
    | spin t => trivial
    | unlock => trivial

/-! ## One step -/

/-- Only a CPU that spins has a ticket. -/
lemma CpuOk.no_ticket (hc : CpuOk g i c) (hpc : ∀ t, c.pc ≠ .spin t) : ∀ n, ¬ g.Waits i n := by
  have hticket := hc.ticket
  unfold TicketOk at hticket
  split at hticket
  · next t ht => exact absurd ht (hpc t)
  · exact hticket

/-- The lock and the moving CPU after an access; the other CPUs see nothing of it. -/
def Kept (g g' : Lock ι) (i : ι) (c : Cpu) : Prop := LockInv g' ∧ Apart g g' i ∧ CpuOk g' i c

section
variable (h : LockInv g)
include h

/-- A CPU that has a ticket gets the lock when its ticket is served. -/
lemma kept_enter (hfree : g.acquired.length = g.served)
    (hi : g.Waits i g.acquired.length) (hpc : c.pc = .idle) (hheld : c.held = true) :
    Kept g (g.enter i) i c := by
  refine ⟨h.enter hfree hi, apart_enter h hi, ⟨?_, ?_, ?_, ?_⟩⟩
  · unfold Lock.Inside Lock.enter
    simp only
    rw [drop_append_of_le_length h.served_le]
    exact ⟨fun _ => mem_append_right _ mem_cons_self, fun _ => hheld⟩
  · rw [hpc]
    intro hun
    cases hun
  · rw [hpc]
    intro n hn
    have hlen : g.acquired.length + 1 ≤ n := by
      have hle := hn.1
      unfold Lock.enter at hle
      simpa using hle
    have hbefore : g.Waits i n := ⟨by omega, hn.2⟩
    have heq := h.waits_unique hbefore hi
    omega
  · unfold SeenOk
    rw [hpc]
    trivial

/-- A CPU that draws a ticket waits with it. -/
lemma waits_draw (i : ι) : (g.draw i).Waits i g.draws.length := by
  refine ⟨h.acquired_le, ?_⟩
  show (g.draws ++ [i])[g.draws.length]? = some i
  exact List.getElem?_concat_length

/-- A draw of `ticket_spinlock_lock`. -/
lemma kept_draw (hc : CpuOk g i c) (hpc : c.pc = .draw) :
    Kept g (g.draw i) i { c with pc := .spin (g.nextTicket + 1 - 1) } := by
  have hnone := hc.no_ticket (by simp [hpc])
  refine ⟨h.draw hnone, apart_draw g i, ⟨hc.held, nofun, ?_, trivial⟩⟩
  refine ⟨g.draws.length, waits_draw h i, ?_⟩
  rw [BitVec.add_sub_cancel, h.next]

/-- The ticket of a waiting CPU is served: nobody is inside and the ticket is the next one. -/
lemma waits_served [Fintype ι] (hcard : Fintype.card ι < 2 ^ 31) (hw : g.Waits i n)
    (heq : g.servingTicket = BitVec.ofNat 32 n) :
    g.acquired.length = g.served ∧ n = g.acquired.length := by
  have hserved := h.served_le
  have hone := h.one
  have hwait := h.waiting_le
  have hle := hw.1
  have hlt : n < g.draws.length := (List.getElem?_eq_some_iff.mp hw.2).1
  rw [h.serving] at heq
  -- with fewer than `2 ^ 31` CPUs the tickets outstanding are too few for the words to wrap
  have hn : g.served = n := eq_of_ofNat_eq heq (by omega) (by omega)
  omega

/-- The lock is handed on. -/
lemma kept_unlock (hc : CpuOk g i c) (hpc : c.pc = .unlock) :
    Kept g g.serve i { c with pc := .idle, held := false } := by
  have hin : g.Inside i := hc.held.mp (hc.unlock hpc)
  have hlen := h.inside_length hin
  have hgone : ¬ g.serve.Inside i := by
    unfold Lock.Inside Lock.serve
    simp only
    rw [drop_eq_nil_of_le (by omega)]
    exact not_mem_nil
  refine ⟨h.serve hlen, apart_serve h hin, ⟨?_, nofun, ?_, trivial⟩⟩
  · exact ⟨nofun, fun hin' => absurd hin' hgone⟩
  · exact hc.no_ticket (by simp [hpc])

/-- The two reads of `ticket_spinlockrylock` agree: unless exactly `2 ^ 32` tickets lie between
them, every ticket drawn has been served. -/
lemma reads_agree {v : Word} (hc : CpuOk g i c) (hpc : c.pc = .readNext v)
    (hwin : g.draws.length - c.since < 2 ^ 32) (hW : g.draws.length ≠ c.seen + 2 ^ 32)
    (heq : v = g.nextTicket) : g.draws.length ≤ g.served := by
  have hseen := hc.seen
  unfold SeenOk at hseen
  simp only [hpc] at hseen
  rcases hseen with ⟨hv, hle, hdraws, hsince⟩
  have hserved := h.served_le
  have hacq := h.acquired_le
  rw [hv, h.next] at heq
  -- at most `2 ^ 31` tickets were outstanding at the call and fewer than `2 ^ 32` came since, so
  -- the words have wrapped at most once between the two reads
  rcases eq_or_eq_add_of_ofNat_eq heq (by omega) (by omega) with hsame | hfar
  · omega
  · exact absurd hfar hW

/-- The `atomic_cmpxchg` succeeds: every ticket drawn has been served. -/
lemma cas_free {v : Word} (hc : CpuOk g i c) (hpc : c.pc = .cas v)
    (hwin : g.draws.length + 1 - c.since < 2 ^ 32) (heq : g.nextTicket = v) :
    g.draws.length = g.served := by
  have hseen := hc.seen
  unfold SeenOk at hseen
  simp only [hpc] at hseen
  rcases hseen with ⟨n, hv, hn, hsince⟩
  have hserved := h.served_le
  have hacq := h.acquired_le
  rw [hv, h.next] at heq
  -- here fewer than `2 ^ 32` tickets lie between the value read and the exchange
  have hsame : n = g.draws.length := eq_of_ofNat_eq heq.symm (by omega) (by omega)
  omega

/-- A try gets the lock. -/
lemma kept_cas {v : Word} (hc : CpuOk g i c) (hpc : c.pc = .cas v)
    (hfree : g.draws.length = g.served) :
    Kept g ((g.draw i).enter i) i { c with pc := .idle, held := true } := by
  have hnone := hc.no_ticket (by simp [hpc])
  have hserved := h.served_le
  have hacq := h.acquired_le
  have hlen : g.acquired.length = g.draws.length := by omega
  have hwait : (g.draw i).Waits i (g.draw i).acquired.length := by
    show (g.draw i).Waits i g.acquired.length
    rw [hlen]
    exact waits_draw h i
  -- the exchange is a draw and an entry with that ticket
  have henter := kept_enter (c := { c with pc := .idle, held := true }) (h.draw hnone)
    (show g.acquired.length = g.served by omega) hwait rfl rfl
  exact ⟨henter.1, (apart_draw g i).trans henter.2.1, henter.2.2⟩

/-- A CPU that goes on without the lock and without a ticket. -/
lemma kept_return (hc : CpuOk g i c) (hpc : ∀ t, c.pc ≠ .spin t)
    {c' : Cpu} (hheld : c'.held = c.held) (hidle : c'.pc = .idle) : Kept g g i c' := by
  refine ⟨h, Apart.refl g i, ⟨?_, ?_, ?_, ?_⟩⟩
  · rw [hheld]
    exact hc.held
  · rw [hidle]
    intro hun
    cases hun
  · rw [hidle]
    exact hc.no_ticket hpc
  · unfold SeenOk
    rw [hidle]
    trivial

end

variable {W : ℕ → ℕ → Prop}

/-- An access keeps the invariant if its reads may not be `2 ^ 32` tickets apart. -/
lemma kept_access [Fintype ι] (hcard : Fintype.card ι < 2 ^ 31)
    (hW : ∀ seen drawn, W seen drawn → drawn ≠ seen + 2 ^ 32) (h : LockInv g) (hc : CpuOk g i c)
    (hread : ∀ v, c.pc = .readNext v → InWindow i g c ∧ W c.seen g.draws.length)
    (hcas : ∀ v, c.pc = .cas v → InWindow i g c) :
    Kept g (advance i g c).1 i (advance i g c).2 := by
  unfold InWindow at hread hcas
  unfold advance at hread hcas ⊢
  cases hpc : c.pc with
  | idle => exact kept_return h hc (by simp [hpc]) rfl hpc
  | draw => exact kept_draw h hc hpc
  | spin myTicket =>
    simp only
    split_ifs with hserve
    · exact ⟨h, Apart.refl g i, hc⟩
    · -- the ticket is served
      have hticket := hc.ticket
      rw [hpc] at hticket
      rcases hticket with ⟨n, hw, ht⟩
      have heq : g.servingTicket = BitVec.ofNat 32 n := by
        rw [← ht]
        exact not_not.mp hserve
      rcases waits_served h hcard hw heq with ⟨hfree, hn⟩
      rw [hn] at hw
      exact kept_enter h hfree hw rfl rfl
  | readServing =>
    have hseen := hc.seen
    unfold SeenOk at hseen
    simp only [hpc] at hseen
    exact ⟨h, Apart.refl g i, ⟨hc.held, nofun, hc.no_ticket (by simp [hpc]),
      ⟨h.serving, le_rfl, hseen.1, hseen.2⟩⟩⟩
  | readNext v =>
    simp only [hpc] at hread ⊢
    split_ifs with hdiff
    · exact kept_return h hc (by simp [hpc]) rfl rfl
    · -- the lock was free at this read, which the exchange relies on
      have heq : v = g.nextTicket := not_not.mp hdiff
      rcases hread v rfl with ⟨hwin, hw⟩
      rw [if_neg hdiff] at hwin
      have hfree := reads_agree h hc hpc hwin (hW _ _ hw) heq
      have hseen := hc.seen
      unfold SeenOk at hseen
      simp only [hpc] at hseen
      exact ⟨h, Apart.refl g i, ⟨hc.held, nofun, hc.no_ticket (by simp [hpc]), g.draws.length,
        h.next, hfree, hseen.2.2.1⟩⟩
  | cas v =>
    simp only [hpc] at hcas ⊢
    split_ifs with heq
    · have hwin := hcas v rfl
      rw [if_pos heq] at hwin
      rw [length_draws_enter] at hwin
      exact kept_cas h hc hpc (cas_free h hc hpc hwin heq)
    · exact kept_return h hc (by simp [hpc]) rfl rfl
  | unlock => exact kept_unlock h hc hpc

/-- A call changes no word. When `ticket_spinlockrylock` is called, each CPU waits with at most one
ticket and one CPU is inside. -/
lemma kept_move [Fintype ι] (hcard : Fintype.card ι < 2 ^ 31)
    (hW : ∀ seen drawn, W seen drawn → drawn ≠ seen + 2 ^ 32) {c' : Cpu} (h : LockInv g)
    (hc : CpuOk g i c) (hm : Move W i g c g' c') : Kept g g' i c' := by
  have hnone : c.pc = .idle → ∀ n, ¬ g.Waits i n := fun hpc => hc.no_ticket (by simp [hpc])
  cases hm with
  | callLock hpc => exact ⟨h, Apart.refl g i, ⟨hc.held, nofun, hnone hpc, trivial⟩⟩
  | callTrylock hpc =>
    refine ⟨h, Apart.refl g i, ⟨hc.held, nofun, hnone hpc, le_rfl, ?_⟩⟩
    have hwait := h.waiting_le
    have hone := h.one
    show g.draws.length ≤ g.served + 2 ^ 31
    omega
  | callUnlock hpc hheld =>
    exact ⟨h, Apart.refl g i, ⟨hc.held, fun _ => hheld, hnone hpc, trivial⟩⟩
  | access hread hcas => exact kept_access hcard hW h hc hread hcas

/-! ## Every run -/

variable [DecidableEq ι] {s : TicketState ι}

/-- One move keeps the invariant. -/
lemma Inv.move (h : Inv s) {c' : Cpu} (hk : Kept s.shared g' i c') : Inv (s.move i g' c') := by
  refine ⟨hk.1, State.forall_move_own (Q := fun j c => CpuOk g' j c) hk.2.2 fun j hj => ?_⟩
  exact (h.cpu j).apart hk.2.1 hj

omit [DecidableEq ι] in
lemma inv_init : Inv (TicketState.init ι) := by
  refine ⟨⟨rfl, rfl, rfl, le_rfl, Nat.zero_le _, nodup_nil⟩, fun i => ?_⟩
  refine ⟨⟨nofun, fun hin => absurd hin not_mem_nil⟩, nofun, fun n hw => ?_, trivial⟩
  exact absurd hw.2 (by simp [TicketState.init])

/-- The tickets served at the first read of a `ticket_spinlockrylock` and those drawn until the
second are not exactly `2 ^ 32` apart. -/
def NoWrap (seen drawn : ℕ) : Prop := drawn ≠ seen + 2 ^ 32

/-- The next access of CPU `i` takes the lock in `ticket_spinlockrylock`. -/
def TryAcquires (s : TicketState ι) (i : ι) : Prop :=
  ∃ v, (s.own i).pc = .cas v ∧ s.shared.nextTicket = v ∧ InWindow i s.shared (s.own i)

/-- In runs of any length of fewer than `2 ^ 31` CPUs in which no `ticket_spinlockrylock` reads its
two words `2 ^ 32` tickets apart: at most one CPU holds the lock, the CPUs get it in the order in
which they drew tickets, and no CPU waits when `ticket_spinlockrylock` takes it. -/
theorem ticket_lock_fair [Fintype ι] (hcard : Fintype.card ι < 2 ^ 31)
    (h : Reachable (Move NoWrap) (TicketState.init ι) s) :
    (∀ i j, (s.own i).held = true → (s.own j).held = true → i = j) ∧
      s.shared.acquired <+: s.shared.draws ∧
      ∀ i, TryAcquires s i → ∀ j t, (s.own j).pc ≠ .spin t := by
  have hinv : Inv s := h.invariant inv_init fun s i _ _ hinv hm =>
    hinv.move (kept_move hcard (fun _ _ hW => hW) hinv.lock (hinv.cpu i) hm)
  refine ⟨fun i j hi hj => ?_, hinv.lock.isPrefix, ?_⟩
  · exact hinv.lock.one_inside ((hinv.cpu i).held.mp hi) ((hinv.cpu j).held.mp hj)
  · rintro i ⟨v, hpc, heq, hwin⟩ j t hspin
    -- every ticket is served, so CPU `j` has none
    unfold InWindow at hwin
    rw [advance_cas i (by rw [hpc, heq]), length_draws_enter] at hwin
    have hfree := cas_free hinv.lock (hinv.cpu i) hpc hwin heq
    have hticket := (hinv.cpu j).ticket
    rw [hspin] at hticket
    rcases hticket with ⟨n, hw, _⟩
    have hlt : n < s.shared.draws.length := (List.getElem?_eq_some_iff.mp hw.2).1
    have hle := hw.1
    have hserved := hinv.lock.served_le
    omega

/-- One of two CPUs, named by `Bool`, has drawn a ticket and got the lock. -/
def oneHolder : TicketState Bool :=
  (((TicketState.init Bool).move false ⟨0, 0, 0, [], []⟩ ⟨.draw, false, 0, 0⟩).move false
    ⟨1, 0, 0, [false], []⟩ ⟨.spin 0, false, 0, 0⟩).move false ⟨1, 0, 0, [false], [false]⟩
    ⟨.idle, true, 0, 0⟩

/-- The other CPU has drawn the next ticket and waits. -/
def oneWaits : TicketState Bool :=
  (oneHolder.move true ⟨1, 0, 0, [false], [false]⟩ ⟨.draw, false, 0, 0⟩).move true
    ⟨2, 0, 0, [false, true], [false]⟩ ⟨.spin 1, false, 0, 0⟩

theorem ticket_lock_fair_oneWaits :
    (oneWaits.own true).pc = .spin 1 ∧
      (∀ i j, (oneWaits.own i).held = true → (oneWaits.own j).held = true → i = j) ∧
      oneWaits.shared.acquired <+: oneWaits.shared.draws ∧
      ∀ i, TryAcquires oneWaits i → ∀ j t, (oneWaits.own j).pc ≠ .spin t :=
  ⟨rfl, ticket_lock_fair (by decide) (((((Reachable.refl.move (.callLock rfl)).move
    (.access nofun nofun)).move (.access nofun nofun)).move (.callLock rfl)).move
    (.access nofun nofun))⟩

/-! ## A wrap between the two reads -/

section
variable {s₀ : TicketState ι}

/-- A CPU calls a function and makes its first access. -/
lemma reach_access {c' : Cpu} (h : Reachable (Move W) s₀ s)
    (hcall : Move W i s.shared (s.own i) s.shared c') (hread : ∀ v, c'.pc ≠ .readNext v)
    (hcas : ∀ v, c'.pc ≠ .cas v) :
    Reachable (Move W) s₀ (s.move i (advance i s.shared c').1 (advance i s.shared c').2) := by
  have hnext := (h.move hcall).move (i := i) (P := Move W) (.access ?_ ?_)
  · rw [State.move_own_self, State.move_move] at hnext
    exact hnext
  · rw [State.move_own_self]
    exact fun v hv => absurd hv (hread v)
  · rw [State.move_own_self]
    exact fun v hv => absurd hv (hcas v)

variable (h : Reachable (Move W) s₀ s)
include h

/-- An idle CPU draws a ticket. -/
lemma reach_lock (hpc : (s.own i).pc = .idle) :
    Reachable (Move W) s₀ (s.move i (s.shared.draw i)
      { s.own i with pc := .spin (s.shared.nextTicket + 1 - 1) }) :=
  reach_access h (.callLock hpc) nofun nofun

/-- An idle CPU with the lock gives it back. -/
lemma reach_unlock (hpc : (s.own i).pc = .idle) (hheld : (s.own i).held = true) :
    Reachable (Move W) s₀ (s.move i s.shared.serve { s.own i with pc := .idle, held := false }) :=
  reach_access h (.callUnlock hpc hheld) nofun nofun

/-- An idle CPU calls `ticket_spinlockrylock` and reads `serving_ticket`. -/
lemma reach_readServing (hpc : (s.own i).pc = .idle) :
    Reachable (Move W) s₀ (s.move i s.shared ⟨.readNext s.shared.servingTicket, (s.own i).held,
      s.shared.draws.length, s.shared.served⟩) :=
  reach_access h (.callTrylock hpc) nofun nofun

/-- A CPU whose ticket is served gets the lock. -/
lemma reach_enter {t : Word} (hpc : (s.own i).pc = .spin t) (heq : s.shared.servingTicket = t) :
    Reachable (Move W) s₀ (s.move i (s.shared.enter i)
      { s.own i with pc := .idle, held := true }) := by
  have hnext := h.move (i := i) (P := Move W) (.access ?_ ?_)
  · unfold advance at hnext
    simp only [hpc] at hnext
    rw [if_neg (not_not.mpr heq)] at hnext
    exact hnext
  · rw [hpc]
    exact nofun
  · rw [hpc]
    exact nofun

/-- `ticket_spinlockrylock` finds both words equal. -/
lemma reach_readNext (hpc : (s.own i).pc = .readNext s.shared.nextTicket)
    (hwin : s.shared.draws.length - (s.own i).since < 2 ^ 32)
    (hW : W (s.own i).seen s.shared.draws.length) :
    Reachable (Move W) s₀ (s.move i s.shared
      { s.own i with pc := .cas s.shared.nextTicket }) := by
  have hnext := h.move (i := i) (P := Move W) (.access (fun v _ => ⟨?_, hW⟩) ?_)
  · rw [advance_readNext i hpc] at hnext
    exact hnext
  · unfold InWindow
    rw [advance_readNext i hpc]
    exact hwin
  · rw [hpc]
    exact nofun

/-- The exchange of `ticket_spinlockrylock` succeeds. -/
lemma reach_cas (hpc : (s.own i).pc = .cas s.shared.nextTicket)
    (hwin : s.shared.draws.length + 1 - (s.own i).since < 2 ^ 32) :
    Reachable (Move W) s₀ (s.move i ((s.shared.draw i).enter i)
      { s.own i with pc := .idle, held := true }) := by
  have hnext := h.move (i := i) (P := Move W) (.access ?_ fun v _ => ?_)
  · rw [advance_cas i hpc] at hnext
    exact hnext
  · rw [hpc]
    exact nofun
  · unfold InWindow
    rw [advance_cas i hpc, length_draws_enter]
    exact hwin

end

end

/-- Three CPUs: `a` has the lock with ticket `n`, `b` waits with the next, and CPU 2 read
`serving_ticket` when two tickets were drawn and none was served. -/
structure Round (n : ℕ) (a b : Fin 3) (s : TicketState (Fin 3)) : Prop where
  next : s.shared.nextTicket = BitVec.ofNat 32 (n + 2)
  serving : s.shared.servingTicket = BitVec.ofNat 32 n
  drawn : s.shared.draws.length = n + 2
  holder : (s.own a).pc = .idle ∧ (s.own a).held = true
  waiter : (s.own b).pc = .spin (BitVec.ofNat 32 (n + 1))
  reader : s.own 2 = ⟨.readNext 0, false, 2, 0⟩

variable {W : ℕ → ℕ → Prop} {n : ℕ} {a b : Fin 3} {s : TicketState (Fin 3)}

lemma round_zero : ∃ s, Reachable (Move W) (TicketState.init (Fin 3)) s ∧ Round 0 0 1 s := by
  have hzero := reach_lock (W := W) (s := TicketState.init (Fin 3)) (i := 0) Reachable.refl rfl
  have henter := reach_enter (i := 0) hzero rfl rfl
  have hone := reach_lock (i := 1) henter rfl
  have hread := reach_readServing (i := 2) hone rfl
  exact ⟨_, hread, rfl, rfl, rfl, ⟨rfl, rfl⟩, rfl, rfl⟩

/-- The holder unlocks, the waiting CPU gets the lock, and the former holder draws again. -/
lemma round_succ (hs : Reachable (Move W) (TicketState.init (Fin 3)) s) (hr : Round n a b s)
    (hab : a ≠ b) (ha : 2 ≠ a) (hb : 2 ≠ b) :
    ∃ s', Reachable (Move W) (TicketState.init (Fin 3)) s' ∧ Round (n + 1) b a s' := by
  -- `a` unlocks, `b` finds its ticket served, `a` draws the next ticket
  have hleave := reach_unlock hs hr.holder.1 hr.holder.2
  have hserving : s.shared.servingTicket + 1 = BitVec.ofNat 32 (n + 1) := by
    rw [ofNat_succ, hr.serving]
  have henter := reach_enter (i := b) (t := BitVec.ofNat 32 (n + 1)) hleave
    (by rw [State.move_own_of_ne hab.symm]; exact hr.waiter) hserving
  have hdraw := reach_lock (i := a) henter (by
    rw [State.move_own_of_ne hab, State.move_own_self])
  refine ⟨_, hdraw, ?_, hserving, ?_, ⟨?_, ?_⟩, ?_, ?_⟩
  · show s.shared.nextTicket + 1 = BitVec.ofNat 32 (n + 1 + 2)
    rw [hr.next, ← ofNat_succ]
  · show (s.shared.draws ++ [a]).length = n + 1 + 2
    rw [length_append, length_singleton, hr.drawn]
  · rw [State.move_own_of_ne hab.symm, State.move_own_self]
  · rw [State.move_own_of_ne hab.symm, State.move_own_self]
  · rw [State.move_own_self]
    show Pc.spin (s.shared.nextTicket + 1 - 1) = _
    rw [BitVec.add_sub_cancel, hr.next]
  · rw [State.move_own_of_ne ha, State.move_own_of_ne hb, State.move_own_of_ne ha]
    exact hr.reader

/-- The two CPUs go on for any number of rounds. -/
lemma exists_round (n : ℕ) : ∃ a b s, a ≠ b ∧ 2 ≠ a ∧ 2 ≠ b ∧
    Reachable (Move W) (TicketState.init (Fin 3)) s ∧ Round n a b s := by
  induction n with
  | zero =>
    rcases round_zero (W := W) with ⟨s, hs, hr⟩
    exact ⟨0, 1, s, by decide, by decide, by decide, hs, hr⟩
  | succ n ih =>
    rcases ih with ⟨a, b, s, hab, ha, hb, hs, hr⟩
    rcases round_succ hs hr hab ha hb with ⟨s', hs', hr'⟩
    exact ⟨b, a, s', hab.symm, hb, ha, hs', hr'⟩

/-- Two CPUs pass the lock on `2 ^ 32 - 2` times between the reads of the third, which then finds
the words equal and takes the lock beside its holder. From its call to its end `2 ^ 32 - 1` tickets
are drawn. -/
theorem trylock_second_holder :
    ∃ s : TicketState (Fin 3), Reachable (Move fun _ _ => True) (TicketState.init (Fin 3)) s ∧
      s.shared.draws.length - (s.own 2).since = 2 ^ 32 - 1 ∧
      ∃ a, a ≠ 2 ∧ (s.own a).held = true ∧ (s.own 2).held = true := by
  rcases exists_round (W := fun _ _ => True) (2 ^ 32 - 2) with ⟨a, b, s, hab, ha, hb, hs, hr⟩
  -- `next_ticket` is back at the value of `serving_ticket` that CPU 2 read
  have hnext : s.shared.nextTicket = 0 := by
    rw [hr.next]
    decide
  have hdrawn : s.shared.draws.length = 2 ^ 32 := hr.drawn
  have hread : Reachable (Move fun _ _ => True) (TicketState.init (Fin 3))
      (s.move 2 s.shared ⟨.cas 0, false, 2, 0⟩) := by
    have hstep := reach_readNext (i := 2) hs (by rw [hr.reader, hnext])
      (by rw [hr.reader, hdrawn]; decide) trivial
    rw [hr.reader, hnext] at hstep
    exact hstep
  have hcas : Reachable (Move fun _ _ => True) (TicketState.init (Fin 3))
      (s.move 2 ((s.shared.draw 2).enter 2) ⟨.idle, true, 2, 0⟩) := by
    have hstep := reach_cas (i := 2) hread
      (by rw [State.move_own_self, State.move_shared, hnext])
      (by rw [State.move_own_self, State.move_shared, hdrawn]; decide)
    rw [State.move_own_self, State.move_move] at hstep
    exact hstep
  refine ⟨_, hcas, ?_, a, ha.symm, ?_, ?_⟩
  · rw [State.move_own_self, State.move_shared, length_draws_enter, hdrawn]
    show 2 ^ 32 + 1 - 2 = 2 ^ 32 - 1
    omega
  · rw [State.move_own_of_ne ha.symm]
    exact hr.holder.2
  · rw [State.move_own_self]

end LunOS.TicketLock
