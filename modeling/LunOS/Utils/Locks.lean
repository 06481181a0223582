import LunOS.Utils.Runs
import Mathlib.Data.List.Basic
import Mathlib.Logic.Function.Basic
import Mathlib.Tactic.Tauto

/-!
# Locks and sections under interleaving

Threads run calls; a call is a list of actions: acquire or release a lock, enter or leave a section
that touches the shared data. The threads' actions interleave freely, and an acquire waits until
the lock is free.

- `Runs l need held inside acts`: `acts` is a proper rest of a call for a thread that holds `l` or
  not and is inside a section or not; with `need`, it is inside only while it holds `l`.
- `Reachable.exclusive`: if every two calls that run at the same time have a lock that both hold
  in all their sections, at most one thread is inside a section.
-/

namespace LunOS.Locks
open Function

variable {ι L K : Type*}

/-- What a call does with locks. -/
inductive Action (L : Type*)
  | acquire (l : L)
  | release (l : L)
  | enter
  | leave
deriving DecidableEq

/-- A section without a lock. -/
def bare : List (Action L) := [.enter, .leave]

/-- A section under a lock. -/
def locked (l : L) : List (Action L) := [.acquire l, .enter, .leave, .release l]

/-- The lock holders, and for each thread its last call, what is left of it, and whether it is
inside a section. -/
structure Sys (ι L K : Type*) where
  holder : L → Option ι
  call : ι → Option K
  todo : ι → List (Action L)
  inside : ι → Prop

/-- No thread has called anything. -/
def Sys.init : Sys ι L K := ⟨fun _ => none, fun _ => none, fun _ => [], fun _ => False⟩

variable [DecidableEq ι] [DecidableEq L]

/-- One step of one thread. A thread starts a call only beside calls that `R` allows. -/
inductive Step (body : K → List (Action L)) (R : K → K → Prop) : Sys ι L K → Sys ι L K → Prop
  | start {s : Sys ι L K} (i : ι) (k : K) (hidle : s.todo i = [])
      (hR : ∀ j k', j ≠ i → s.todo j ≠ [] → s.call j = some k' → R k k') :
      Step body R s { s with call := update s.call i (some k),
                             todo := update s.todo i (body k) }
  | acquire {s : Sys ι L K} (i : ι) (l : L) (rest : List (Action L))
      (h : s.todo i = .acquire l :: rest) (hfree : s.holder l = none) :
      Step body R s { s with holder := update s.holder l (some i),
                             todo := update s.todo i rest }
  | release {s : Sys ι L K} (i : ι) (l : L) (rest : List (Action L))
      (h : s.todo i = .release l :: rest) :
      Step body R s { s with holder := update s.holder l none,
                             todo := update s.todo i rest }
  | enter {s : Sys ι L K} (i : ι) (rest : List (Action L)) (h : s.todo i = .enter :: rest) :
      Step body R s { s with inside := update s.inside i True,
                             todo := update s.todo i rest }
  | leave {s : Sys ι L K} (i : ι) (rest : List (Action L)) (h : s.todo i = .leave :: rest) :
      Step body R s { s with inside := update s.inside i False,
                             todo := update s.todo i rest }

/-- The states of all interleavings. -/
def Reachable (body : K → List (Action L)) (R : K → K → Prop) : Sys ι L K → Prop :=
  LunOS.Runs.Reachable (· = Sys.init) (Step body R)

/-! ## The rest of a call -/

/-- A proper rest of a call for one lock; see the head of the file. -/
def Runs (l : L) (need : Prop) : Prop → Prop → List (Action L) → Prop
  | held, inside, [] => ¬held ∧ ¬inside
  | held, inside, .acquire l' :: rest =>
    (need → inside → held) ∧ (l' = l → ¬held) ∧ Runs l need (held ∨ l' = l) inside rest
  | held, inside, .release l' :: rest =>
    (need → inside → held) ∧ (l' = l → held) ∧ Runs l need (held ∧ l' ≠ l) inside rest
  | held, inside, .enter :: rest =>
    (need → inside → held) ∧ ¬inside ∧ Runs l need held True rest
  | held, inside, .leave :: rest =>
    (need → inside → held) ∧ inside ∧ Runs l need held False rest

omit [DecidableEq L] in
/-- A thread inside a section holds the lock that is needed there. -/
lemma Runs.held {l : L} {held inside : Prop} {acts : List (Action L)}
    (h : Runs l True held inside acts) (hin : inside) : held := by
  cases acts with
  | nil => exact absurd hin h.2
  | cons a rest => cases a <;> exact h.1 trivial hin

omit [DecidableEq L] in
/-- Calls can be put one after the other. -/
lemma Runs.append {l : L} {need : Prop} {acts acts' : List (Action L)}
    (h' : Runs l need False False acts') {held inside : Prop}
    (h : Runs l need held inside acts) : Runs l need held inside (acts ++ acts') := by
  induction acts generalizing held inside with
  | nil =>
    have hheld : held = False := eq_false h.1
    have hinside : inside = False := eq_false h.2
    rw [hheld, hinside]
    exact h'
  | cons a rest ih => cases a <;> exact ⟨h.1, h.2.1, ih h.2.2⟩

omit [DecidableEq L] in
lemma runs_nil (l : L) (need : Prop) : Runs l need False False [] := ⟨id, id⟩

omit [DecidableEq L] in
/-- A section without a lock needs none. -/
lemma runs_bare (l : L) : Runs l False False False (bare : List (Action L)) := by
  simp [bare, Runs]

omit [DecidableEq L] in
/-- A section under a lock holds that lock. -/
lemma runs_locked (l l' : L) (need : Prop) (h : need → l' = l) :
    Runs l need False False (locked l') := by
  simp only [locked, Runs]
  tauto

/-! ## What a step keeps -/

/-- A call that is running, seen from one lock. -/
def Sys.RunsAt (s : Sys ι L K) (i : ι) (l : L) (need : Prop) : Prop :=
  Runs l need (s.holder l = some i) (s.inside i) (s.todo i)

/-- The invariant: each thread is idle without locks or in the middle of its call, and calls that
run together are allowed to. -/
structure Inv (body : K → List (Action L)) (R : K → K → Prop) (s : Sys ι L K) : Prop where
  thread : ∀ i, (s.todo i = [] ∧ ¬s.inside i ∧ ∀ l, s.holder l ≠ some i) ∨
    ∃ k, s.call i = some k ∧ ∀ l need, Runs l need False False (body k) → s.RunsAt i l need
  pair : ∀ i j k k', i ≠ j → s.todo i ≠ [] → s.todo j ≠ [] → s.call i = some k →
    s.call j = some k' → R k k' ∨ R k' k

/-- What a step of thread `i` inside its call does. -/
structure Moves (s s' : Sys ι L K) (i : ι) : Prop where
  busy : s.todo i ≠ []
  call : s'.call = s.call
  self : ∀ l need, s.RunsAt i l need → s'.RunsAt i l need
  todo : ∀ j, j ≠ i → s'.todo j = s.todo j
  inside : ∀ j, j ≠ i → s'.inside j = s.inside j
  holder : ∀ j l, j ≠ i → (s'.holder l = some j ↔ s.holder l = some j)

variable {body : K → List (Action L)} {R : K → K → Prop} {s s' : Sys ι L K}

omit [DecidableEq ι] [DecidableEq L] in
/-- A move keeps the invariant. -/
lemma Inv.moves {i : ι} (h : Inv body R s) (hm : Moves s s' i) : Inv body R s' := by
  have htodo : ∀ j, s'.todo j ≠ [] → s.todo j ≠ [] := by
    intro j hj
    by_cases hji : j = i
    · rw [hji]
      exact hm.busy
    · rw [← hm.todo j hji]
      exact hj
  refine ⟨fun j => ?_, fun j j' k k' hne hj hj' hk hk' => ?_⟩
  · by_cases hji : j = i
    · rw [hji]
      rcases h.thread i with hidle | ⟨k, hk, hruns⟩
      · exact absurd hidle.1 hm.busy
      · refine Or.inr ⟨k, ?_, fun l need hbody => hm.self l need (hruns l need hbody)⟩
        rw [hm.call]
        exact hk
    · have hheld : ∀ l, (s'.holder l = some j) = (s.holder l = some j) :=
        fun l => propext (hm.holder j l hji)
      unfold Sys.RunsAt
      simp only [hm.todo j hji, hm.inside j hji, hheld, hm.call, ne_eq]
      exact h.thread j
  · rw [hm.call] at hk hk'
    exact h.pair j j' k k' hne (htodo j hj) (htodo j' hj') hk hk'

omit [DecidableEq ι] [DecidableEq L] in
/-- The thread that releases a lock holds it. -/
lemma Inv.holds (h : Inv body R s) (hbody : ∀ k l, Runs l False False False (body k)) {i : ι}
    {l : L} {rest : List (Action L)} (htodo : s.todo i = .release l :: rest) :
    s.holder l = some i := by
  rcases h.thread i with hidle | ⟨k, _, hruns⟩
  · rw [hidle.1] at htodo
    simp at htodo
  · have hrun := hruns l False (hbody k l)
    unfold Sys.RunsAt at hrun
    rw [htodo] at hrun
    exact hrun.2.1 rfl

omit [DecidableEq ι] [DecidableEq L] in
/-- An idle thread holds nothing and is in no section. -/
lemma Inv.idle (h : Inv body R s) (hbody : ∀ k l, Runs l False False False (body k)) {i : ι}
    (hidle : s.todo i = []) (l : L) : s.holder l ≠ some i ∧ ¬s.inside i := by
  rcases h.thread i with hi | ⟨k, _, hruns⟩
  · exact ⟨hi.2.2 l, hi.2.1⟩
  · have hrun := hruns l False (hbody k l)
    unfold Sys.RunsAt at hrun
    rw [hidle] at hrun
    exact hrun

omit [DecidableEq L] in
/-- An idle thread starts a call that may run beside the others. -/
lemma Inv.start (h : Inv body R s) (hbody : ∀ k l, Runs l False False False (body k)) {i : ι}
    {k : K} (hidle : s.todo i = [])
    (hR : ∀ j k', j ≠ i → s.todo j ≠ [] → s.call j = some k' → R k k') :
    Inv body R { s with call := update s.call i (some k),
                        todo := update s.todo i (body k) } := by
  refine ⟨fun j => ?_, fun j j' kj kj' hne hj hj' hk hk' => ?_⟩
  · by_cases hji : j = i
    · refine Or.inr ⟨k, by simp [hji], fun l need hrun => ?_⟩
      have hfree := h.idle hbody hidle l
      unfold Sys.RunsAt
      simp only [hji, update_self]
      rw [eq_false hfree.1, eq_false hfree.2]
      exact hrun
    · unfold Sys.RunsAt
      simp only [update_of_ne hji]
      exact h.thread j
  · -- the new call is one of the pair, or both ran before
    by_cases hji : j = i
    · have hji' : j' ≠ i := fun heq => hne (hji.trans heq.symm)
      simp only [hji, update_self, Option.some.injEq] at hk
      simp only [update_of_ne hji'] at hj' hk'
      rw [← hk]
      exact Or.inl (hR j' kj' hji' hj' hk')
    · simp only [update_of_ne hji] at hj hk
      by_cases hji' : j' = i
      · simp only [hji', update_self] at hk'
        cases hk'
        exact Or.inr (hR j kj hji hj hk)
      · simp only [update_of_ne hji'] at hj' hk'
        exact h.pair j j' kj kj' hne hj hj' hk hk'

omit [DecidableEq L] in
/-- A thread does the next action of its call. -/
lemma Inv.act (h : Inv body R s) {i : ι} {a : Action L} {rest : List (Action L)}
    (htodo : s.todo i = a :: rest) {holder : L → Option ι} {inside : ι → Prop}
    (hself : ∀ l need, Runs l need (s.holder l = some i) (s.inside i) (a :: rest) →
      Runs l need (holder l = some i) (inside i) rest)
    (hinside : ∀ j, j ≠ i → inside j = s.inside j)
    (hholder : ∀ j l, j ≠ i → (holder l = some j ↔ s.holder l = some j)) :
    Inv body R ⟨holder, s.call, update s.todo i rest, inside⟩ := by
  refine h.moves (i := i) ⟨by simp [htodo], rfl, fun l need hrun => ?_,
    fun j hj => update_of_ne hj _ _, hinside, hholder⟩
  unfold Sys.RunsAt at hrun ⊢
  rw [htodo] at hrun
  simp only [update_self]
  exact hself l need hrun

/-- A step keeps the invariant. -/
lemma Inv.step (h : Inv body R s) (hbody : ∀ k l, Runs l False False False (body k))
    (hst : Step body R s s') : Inv body R s' := by
  cases hst with
  | start i k hidle hR => exact h.start hbody hidle hR
  | acquire i l rest htodo hfree =>
    refine h.act htodo (fun l' need hrun => ?_) (fun _ _ => rfl) fun j l' hj => ?_
    · convert hrun.2.2 using 1
      by_cases hl : l = l'
      · simp [hl]
      · simp [hl, update_of_ne (Ne.symm hl)]
    · by_cases hl : l' = l
      · rw [hl]
        simp [hfree, Ne.symm hj]
      · simp [update_of_ne hl]
  | release i l rest htodo =>
    have hholds := h.holds hbody htodo
    refine h.act htodo (fun l' need hrun => ?_) (fun _ _ => rfl) fun j l' hj => ?_
    · convert hrun.2.2 using 1
      by_cases hl : l = l'
      · simp [hl]
      · simp [hl, update_of_ne (Ne.symm hl)]
    · by_cases hl : l' = l
      · rw [hl]
        simp [hholds, Ne.symm hj]
      · simp [update_of_ne hl]
  | enter i rest htodo =>
    refine h.act htodo (fun l need hrun => ?_) (fun j hj => update_of_ne hj _ _)
      fun _ _ _ => Iff.rfl
    rw [update_self]
    exact hrun.2.2
  | leave i rest htodo =>
    refine h.act htodo (fun l need hrun => ?_) (fun j hj => update_of_ne hj _ _)
      fun _ _ _ => Iff.rfl
    rw [update_self]
    exact hrun.2.2

omit [DecidableEq ι] [DecidableEq L] in
lemma inv_init : Inv body R (Sys.init : Sys ι L K) := by
  refine ⟨fun i => Or.inl ⟨rfl, id, fun l => Option.some_ne_none i ∘ Eq.symm⟩, ?_⟩
  intro i j k k' _ hi
  exact absurd rfl hi

/-- The invariant holds in every run. -/
lemma Reachable.inv (hbody : ∀ k l, Runs l False False False (body k))
    (h : Reachable body R s) : Inv body R s := by
  refine h.invariant (fun s hs => ?_) fun _ _ hinv hst => hinv.step hbody hst
  rw [hs]
  exact inv_init

/-- If calls that run together share a lock they hold in all their sections, no two threads are
inside a section. -/
lemma Reachable.exclusive [Nonempty L] (hbody : ∀ k l, Runs l False False False (body k))
    (hR : ∀ k k', R k k' → ∃ l, Runs l True False False (body k) ∧
      Runs l True False False (body k'))
    (h : Reachable body R s) {i j : ι} (hi : s.inside i) (hj : s.inside j) : i = j := by
  by_contra hne
  have hinv := h.inv hbody
  have hbusy : ∀ i, s.inside i → s.todo i ≠ [] ∧ ∃ k, s.call i = some k ∧
      ∀ l need, Runs l need False False (body k) → s.RunsAt i l need := by
    intro i hi
    rcases hinv.thread i with hidle | ⟨k, hk, hruns⟩
    · exact absurd hi hidle.2.1
    · refine ⟨fun hnil => ?_, k, hk, hruns⟩
      have hrun := hruns (Classical.arbitrary L) False (hbody k _)
      unfold Sys.RunsAt at hrun
      rw [hnil] at hrun
      exact hrun.2 hi
  rcases hbusy i hi with ⟨hti, k, hki, hrunsi⟩
  rcases hbusy j hj with ⟨htj, k', hkj, hrunsj⟩
  have hshared : ∃ l, Runs l True False False (body k) ∧ Runs l True False False (body k') := by
    rcases hinv.pair i j k k' hne hti htj hki hkj with hkk | hkk
    · exact hR k k' hkk
    · rcases hR k' k hkk with ⟨l, hl, hl'⟩
      exact ⟨l, hl', hl⟩
  rcases hshared with ⟨l, hl, hl'⟩
  -- both threads hold this lock
  have hholdi := (hrunsi l True hl).held hi
  have hholdj := (hrunsj l True hl').held hj
  exact hne (Option.some.inj (hholdi.symm.trans hholdj))

end LunOS.Locks
