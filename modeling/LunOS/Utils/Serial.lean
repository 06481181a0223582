import LunOS.Utils.Threads

/-!
# Sections under one lock

Threads change shared data in many small steps, but only in sections under one lock. Then the data
are what the sections, one after the other, make of them, in the order in which the lock was taken.

- `Move`: a thread takes the lock and starts the next section of its script, makes a step of its
  section, or releases the lock.
- `Reachable.serial`: while nobody holds the lock, the data come from whole sections, and the
  sections of each thread are in the order of its script.
- `section_runs`: a thread can run a section while the lock is free.
-/

namespace LunOS.Serial
open LunOS.Threads List

variable {ι M σ : Type*}

/-- The lock, the data, and the sections that were started, in this order. -/
structure Shared (ι M σ : Type*) where
  locked : Bool
  data : σ
  log : List (ι × M)

/-- The sections a thread has yet to run, and the rest of the one it is in. -/
structure Own (M σ : Type*) where
  todo : List M
  inside : Option (List (σ → σ))

inductive Move (body : M → List (σ → σ)) :
    ι → Shared ι M σ → Own M σ → Shared ι M σ → Own M σ → Prop
  | acquire {i : ι} {d : σ} {log : List (ι × M)} {m : M} {ms : List M} :
      Move body i ⟨false, d, log⟩ ⟨m :: ms, none⟩ ⟨true, d, log ++ [(i, m)]⟩ ⟨ms, some (body m)⟩
  | act {i : ι} {b : Bool} {d : σ} {log : List (ι × M)} {ms : List M} {f : σ → σ}
      {fs : List (σ → σ)} :
      Move body i ⟨b, d, log⟩ ⟨ms, some (f :: fs)⟩ ⟨b, f d, log⟩ ⟨ms, some fs⟩
  | release {i : ι} {b : Bool} {d : σ} {log : List (ι × M)} {ms : List M} :
      Move body i ⟨b, d, log⟩ ⟨ms, some []⟩ ⟨false, d, log⟩ ⟨ms, none⟩

/-- Nobody has started anything. -/
def init (script : ι → List M) (d : σ) : State ι (Shared ι M σ) (Own M σ) :=
  ⟨⟨false, d, []⟩, fun i => ⟨script i, none⟩⟩

/-- The steps of a section, one after the other. -/
def runBody (fs : List (σ → σ)) (d : σ) : σ := fs.foldl (fun d f => f d) d

/-- Whole sections, one after the other. -/
def replay (body : M → List (σ → σ)) (ms : List M) (d : σ) : σ :=
  ms.foldl (fun d m => runBody (body m) d) d

/-- Sections one after another. -/
lemma replay_append (body : M → List (σ → σ)) (ms ms' : List M) (d : σ) :
    replay body (ms ++ ms') d = replay body ms' (replay body ms d) := foldl_append

variable [DecidableEq ι]

/-- The sections of one thread. -/
def sectionsOf (i : ι) (log : List (ι × M)) : List M :=
  (log.filter fun e => e.1 = i).map Prod.snd

lemma sectionsOf_append (i : ι) (log log' : List (ι × M)) :
    sectionsOf i (log ++ log') = sectionsOf i log ++ sectionsOf i log' := by
  unfold sectionsOf
  rw [filter_append, map_append]

/-- What is left of the section that was started last leads to the data that whole sections give. -/
structure Inv (body : M → List (σ → σ)) (script : ι → List M) (d₀ : σ)
    (s : State ι (Shared ι M σ) (Own M σ)) : Prop where
  free : s.shared.locked = false → (∀ i, (s.own i).inside = none) ∧
    s.shared.data = replay body (s.shared.log.map Prod.snd) d₀
  busy : s.shared.locked = true → ∃ i fs, (s.own i).inside = some fs ∧
    (∀ j, j ≠ i → (s.own j).inside = none) ∧
    runBody fs s.shared.data = replay body (s.shared.log.map Prod.snd) d₀
  order : ∀ i, sectionsOf i s.shared.log ++ (s.own i).todo = script i

variable {body : M → List (σ → σ)} {script : ι → List M} {d₀ : σ}
  {s : State ι (Shared ι M σ) (Own M σ)}

lemma inv_init : Inv body script d₀ (init script d₀) :=
  ⟨fun _ => ⟨fun _ => rfl, rfl⟩, fun h => absurd h Bool.false_ne_true, fun _ => rfl⟩

variable {i : ι} {g : Shared ι M σ} {t : Own M σ}

/-- The thread inside a section is the one that the lock belongs to. -/
lemma Inv.inside (h : Inv body script d₀ s) {fs : List (σ → σ)} (hi : (s.own i).inside = some fs) :
    s.shared.locked = true ∧
      (∀ j, j ≠ i → (s.own j).inside = none) ∧
      runBody fs s.shared.data = replay body (s.shared.log.map Prod.snd) d₀ := by
  cases hlocked : s.shared.locked with
  | false =>
    rw [(h.free hlocked).1 i] at hi
    cases hi
  | true =>
    obtain ⟨k, gs, hk, hothers, hrest⟩ := h.busy hlocked
    by_cases hik : i = k
    · subst hik
      obtain rfl : fs = gs := Option.some.inj (hi.symm.trans hk)
      exact ⟨rfl, hothers, hrest⟩
    · rw [hothers i hik] at hi
      cases hi

/-- A move that starts no section leaves the order as it is. -/
lemma Inv.order_move (h : Inv body script d₀ s) (hlog : g.log = s.shared.log)
    (htodo : t.todo = (s.own i).todo) :
    ∀ j, sectionsOf j g.log ++ ((s.move i g t).own j).todo = script j := by
  rw [hlog]
  refine State.forall_move_own (Q := fun j (o : Own M σ) =>
    sectionsOf j s.shared.log ++ o.todo = script j) ?_ fun j _ => h.order j
  rw [htodo]
  exact h.order i

/-- One move keeps the invariant. -/
lemma Inv.move (h : Inv body script d₀ s) (hm : Move body i s.shared (s.own i) g t) :
    Inv body script d₀ (s.move i g t) := by
  obtain ⟨shared, own⟩ := s
  simp only at hm
  generalize hown : own i = o at hm
  cases hm with
  | @acquire d log m ms =>
    obtain ⟨hnone, hdata⟩ := h.free rfl
    refine ⟨fun hfalse => absurd hfalse (by simp), fun _ => ⟨i, body m, by simp, ?_, ?_⟩,
      State.forall_move_own (Q := fun j (o : Own M σ) =>
        sectionsOf j (log ++ [(i, m)]) ++ o.todo = script j) ?_ fun j hj => ?_⟩
    · intro j hj
      rw [State.move_own_of_ne hj]
      exact hnone j
    · simp only [State.move_shared, map_append, map_cons, map_nil, replay_append]
      rw [← hdata]
      rfl
    · have hi := h.order i
      simp only [hown] at hi
      rw [sectionsOf_append, append_assoc]
      simpa [sectionsOf] using hi
    · rw [sectionsOf_append]
      simpa [sectionsOf, Ne.symm hj] using h.order j
  | @act b d log ms f fs =>
    have hinside : (own i).inside = some (f :: fs) := by simp only [hown]
    obtain ⟨hlocked, hothers, hrest⟩ := h.inside hinside
    refine ⟨fun hfalse => absurd (hfalse.symm.trans hlocked) (by simp),
      fun _ => ⟨i, fs, by simp, fun j hj => ?_, hrest⟩, h.order_move rfl (by simp only [hown])⟩
    rw [State.move_own_of_ne hj]
    exact hothers j hj
  | @release b d log ms =>
    have hinside : (own i).inside = some [] := by simp only [hown]
    obtain ⟨-, hothers, hrest⟩ := h.inside hinside
    exact ⟨fun _ => ⟨State.forall_move_own (Q := fun _ (o : Own M σ) => o.inside = none) rfl
      hothers, hrest⟩, fun hfalse => absurd hfalse (by simp),
      h.order_move rfl (by simp only [hown])⟩

/-- While nobody holds the lock, the data come from whole sections, each thread's in order. -/
lemma Reachable.serial (h : Reachable (Move body) (init script d₀) s)
    (hfree : s.shared.locked = false) :
    s.shared.data = replay body (s.shared.log.map Prod.snd) d₀ ∧
      ∀ i, sectionsOf i s.shared.log ++ (s.own i).todo = script i := by
  have hinv : Inv body script d₀ s := h.invariant inv_init fun _ _ _ _ hs hm => hs.move hm
  exact ⟨(hinv.free hfree).2, hinv.order⟩

/-- A thread that moves has moved to where its next move starts. -/
lemma step_again {g' : Shared ι M σ} {t' : Own M σ} (h : Move body i g t g' t') :
    Step (Move body) (s.move i g t) (s.move i g' t') := by
  have hmove : Step (Move body) (s.move i g t) ((s.move i g t).move i g' t') := by
    refine .move ?_
    rw [State.move_shared, State.move_own_self]
    exact h
  rwa [State.move_move] at hmove

/-- A thread can run its next section while the lock is free. -/
lemma section_runs (body : M → List (σ → σ)) {d : σ} {log : List (ι × M)} {m : M} {ms : List M}
    (hs : s.shared = ⟨false, d, log⟩) (hi : s.own i = ⟨m :: ms, none⟩) :
    Relation.ReflTransGen (Step (Move body)) s
      (s.move i ⟨false, runBody (body m) d, log ++ [(i, m)]⟩ ⟨ms, none⟩) := by
  have hstart : Step (Move body) s (s.move i ⟨true, d, log ++ [(i, m)]⟩ ⟨ms, some (body m)⟩) := by
    refine .move ?_
    rw [hs, hi]
    exact .acquire
  refine .head hstart ?_
  clear hstart hs
  generalize body m = fs
  induction fs generalizing d with
  | nil => exact .single (step_again .release)
  | cons f fs ih => exact .head (step_again .act) ih

end LunOS.Serial
