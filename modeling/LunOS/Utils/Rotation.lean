import Mathlib.Data.List.Cycle

/-!
# Going around a list that grows

A cursor moves through a list without repetitions, from its end back to its start, while elements
are put at the end.

- `visits_between`: between two visits of `x` the cursor passes what stood behind `x`, then what
  was added before it came to the end, then what stood before `x`.
- `visits_turns_around`: without additions as many turns as there are elements visit each of them
  once and end where they began.
-/

namespace LunOS.Rotation
open List

variable {α : Type*}

/-- The cursor moves on, or an element is put at the end. -/
inductive Event (α : Type*)
  | turn
  | add (a : α)

/-- The elements that the events add, in order. -/
def added : List (Event α) → List α
  | [] => []
  | .turn :: es => added es
  | .add a :: es => a :: added es

lemma added_append (es es' : List (Event α)) : added (es ++ es') = added es ++ added es' := by
  induction es with
  | nil => rfl
  | cons e es ih =>
    cases e with
    | turn => exact ih
    | add a => exact congrArg (a :: ·) ih

/-- A list with a cursor. -/
structure Rota (α : Type*) where
  items : List α
  current : α

/-- An element is put at the end. -/
def Rota.add (r : Rota α) (a : α) : Rota α := ⟨r.items ++ [a], r.current⟩

variable {front back rest : List α} {x y : α} {r : Rota α} {es : List (Event α)}

/-- An element of a list without repetitions does not occur before itself. -/
lemma notMem_front {l : List α} (hl : l = front ++ x :: back) (hnd : (l ++ rest).Nodup) :
    x ∉ front := by
  intro hmem
  rw [hl] at hnd
  have hapart := (nodup_append.mp (nodup_append.mp hnd).1).2.2
  exact hapart x hmem x mem_cons_self rfl

lemma nodup_append_nil {l : List α} (hnd : l.Nodup) : (l ++ []).Nodup := by
  rwa [append_nil]

lemma nodup_add {a : α} (hnd : (r.items ++ added (.add a :: es)).Nodup) :
    ((r.add a).items ++ added es).Nodup := by
  show (r.items ++ [a] ++ added es).Nodup
  rw [append_assoc]
  exact hnd

variable [DecidableEq α]

/-- The element behind `x`, or the first one when there is none. -/
def successor (l : List α) (x : α) : α := l.nextOr x (l.headD x)

/-- The cursor moves on. -/
def Rota.turn (r : Rota α) : Rota α := ⟨r.items, successor r.items r.current⟩

/-- The list and the cursor after the events. -/
def after (r : Rota α) : List (Event α) → Rota α
  | [] => r
  | .turn :: es => after r.turn es
  | .add a :: es => after (r.add a) es

/-- What the turns among the events arrive at. -/
def visits (r : Rota α) : List (Event α) → List α
  | [] => []
  | .turn :: es => r.turn.current :: visits r.turn es
  | .add a :: es => visits (r.add a) es

/-- Turns leave the list alone. -/
lemma after_items (r : Rota α) (es : List (Event α)) :
    (after r es).items = r.items ++ added es := by
  induction es generalizing r with
  | nil => exact (append_nil r.items).symm
  | cons e es ih =>
    cases e with
    | turn => exact ih r.turn
    | add a =>
      rw [after, ih, Rota.add, append_assoc]
      rfl

/-- The cursor is at what was visited last. -/
lemma after_current (r : Rota α) (es : List (Event α)) :
    (after r es).current = (visits r es).getLastD r.current := by
  induction es generalizing r with
  | nil => rfl
  | cons e es ih =>
    cases e with
    | turn => rw [after, ih, visits, getLastD_cons]
    | add a => exact ih (r.add a)

/-! ## One turn -/

lemma nextOr_append_cons (hx : x ∉ front) (d : α) :
    (front ++ x :: y :: back).nextOr x d = y := by
  induction front with
  | nil => exact nextOr_self_cons_cons back x y d
  | cons z front ih =>
    rw [mem_cons, not_or] at hx
    rw [cons_append, nextOr_cons_of_ne _ _ _ _ hx.1]
    exact ih hx.2

lemma successor_append_cons (hx : x ∉ front) :
    successor (front ++ x :: y :: back) x = y :=
  nextOr_append_cons hx _

lemma successor_concat (hx : x ∉ front) :
    successor (front ++ [x]) x = (front ++ [x]).headD x :=
  nextOr_concat _ hx

/-- A turn goes to the next item. -/
lemma Rota.turn_next (hitems : r.items = front ++ r.current :: y :: back)
    (hnd : (r.items ++ rest).Nodup) :
    r.turn = ⟨r.items, y⟩ := by
  have hnext : successor (front ++ r.current :: y :: back) r.current = y :=
    successor_append_cons (notMem_front hitems hnd)
  rw [← hitems] at hnext
  rw [Rota.turn, hnext]

/-- Behind the last comes the first. -/
lemma Rota.turn_first (hitems : r.items = front ++ [r.current]) (hnd : (r.items ++ rest).Nodup) :
    r.turn = ⟨r.items, r.items.headD r.current⟩ := by
  have hnext := successor_concat (notMem_front hitems hnd)
  rw [← hitems] at hnext
  rw [Rota.turn, hnext]

/-! ## From one visit to the next -/

/-- The cursor stands before `x`: until it arrives there it passes what lies between. -/
lemma visits_until {between : List α}
    (hitems : r.items = front ++ r.current :: (between ++ x :: back))
    (hnd : (r.items ++ added es).Nodup) (hnot : x ∉ visits r es)
    (hend : (after r es).turn.current = x) : visits r es = between := by
  induction es generalizing r front between back with
  | nil =>
    cases between with
    | nil => rfl
    | cons y between =>
      -- the next turn would arrive at `y`, not at `x`
      have hturn := Rota.turn_next hitems hnd
      have hxy : y = x := by
        rw [← hend, show after r [] = r from rfl, hturn]
      rw [hitems, hxy] at hnd
      simp [nodup_append] at hnd
  | cons e es ih =>
    cases e with
    | turn =>
      cases between with
      | nil =>
        have hturn := Rota.turn_next hitems hnd
        apply absurd _ hnot
        rw [visits, hturn]
        exact mem_cons_self
      | cons y between =>
        have hturn := Rota.turn_next hitems hnd
        rw [after, hturn] at hend
        rw [visits, hturn] at hnot ⊢
        have hitems' : r.items = (front ++ [r.current]) ++ y :: (between ++ x :: back) := by
          simp [hitems]
        have hrest : visits ⟨r.items, y⟩ es = between :=
          ih hitems' hnd (fun hmem => hnot (mem_cons_of_mem _ hmem)) hend
        rw [hrest]
    | add a =>
      have hitems' : (r.add a).items = front ++ r.current :: (between ++ x :: (back ++ [a])) := by
        simp [Rota.add, hitems]
      exact ih hitems' (nodup_add hnd) hnot hend

/-- The cursor has moved on from `x`: until it comes back it passes what lies behind, what is added
before it reaches the end, and what stands before `x`. -/
lemma visits_away {before passed : List α} (hitems : r.items = front ++ r.current :: back)
    (hx : front ++ [r.current] = before ++ x :: passed) (hnd : (r.items ++ added es).Nodup)
    (hnot : x ∉ visits r es) (hend : (after r es).turn.current = x) :
    ∃ new, visits r es = back ++ new ++ before ∧ new ⊆ added es := by
  induction es generalizing r front back passed with
  | nil =>
    have hitems' : r.items = before ++ x :: (passed ++ back) := by
      rw [hitems, show front ++ r.current :: back = (front ++ [r.current]) ++ back by simp, hx]
      simp
    have hxmem : x ∉ before ∧ x ∉ passed ++ back := by
      rw [hitems'] at hnd
      simp only [added, append_nil] at hnd
      have hapart := nodup_append.mp hnd
      exact ⟨fun hmem => hapart.2.2 x hmem x mem_cons_self rfl,
        (nodup_cons.mp hapart.2.1).1⟩
    cases back with
    | nil =>
      -- the cursor is at the end, so `x` is the first element
      have hturn := Rota.turn_first hitems hnd
      cases before with
      | nil => exact ⟨[], rfl, nil_subset _⟩
      | cons a before =>
        have hax : a = x := by
          rw [← hend, show after r [] = r from rfl, hturn, hitems']
          rfl
        exact absurd mem_cons_self (hax ▸ hxmem.1)
    | cons y back =>
      have hturn := Rota.turn_next hitems hnd
      have hyx : y = x := by
        rw [← hend, show after r [] = r from rfl, hturn]
      apply absurd _ hxmem.2
      rw [hyx]
      exact mem_append_right _ mem_cons_self
  | cons e es ih =>
    cases e with
    | turn =>
      rw [visits, mem_cons, not_or] at hnot
      cases back with
      | nil =>
        -- around the end; from the first element on it is `visits_until`
        have hturn := Rota.turn_first hitems hnd
        have hitems' : r.items = before ++ x :: passed := by rw [hitems, hx]
        cases before with
        | nil =>
          apply absurd _ hnot.1
          rw [hturn, hitems']
          rfl
        | cons a before =>
          have hturn' : r.turn = ⟨r.items, a⟩ := by
            rw [hturn]
            congr 1
            rw [hitems']
            rfl
          have hrest : visits r.turn es = before := by
            rw [after, hturn'] at hend
            rw [hturn'] at hnot ⊢
            have hfront : r.items = [] ++ a :: (before ++ x :: passed) := hitems'
            exact visits_until hfront hnd hnot.2 hend
          exact ⟨[], by rw [visits, hrest, hturn']; rfl, nil_subset _⟩
      | cons y back =>
        have hturn := Rota.turn_next hitems hnd
        rw [after, hturn] at hend
        rw [visits, hturn]
        rw [hturn] at hnot
        have hitems' : r.items = (front ++ [r.current]) ++ y :: back := by simp [hitems]
        have hx' : (front ++ [r.current]) ++ [y] = before ++ x :: (passed ++ [y]) := by simp [hx]
        obtain ⟨new, hnew, hsub⟩ := ih (r := ⟨r.items, y⟩) hitems' hx' hnd hnot.2 hend
        exact ⟨new, by rw [hnew]; rfl, hsub⟩
    | add a =>
      have hitems' : (r.add a).items = front ++ r.current :: (back ++ [a]) := by
        simp [Rota.add, hitems]
      obtain ⟨new, hnew, hsub⟩ := ih hitems' hx (nodup_add hnd) hnot hend
      -- the new element is the first that the cursor meets behind the old ones
      have heq : visits r (.add a :: es) = back ++ (a :: new) ++ before := by
        rw [visits, hnew]
        simp
      exact ⟨a :: new, heq, cons_subset_cons a hsub⟩

/-- Between two visits of `x` every other element that was there all the time is visited once. -/
theorem visits_between (hcur : r.current ∈ r.items) (hnd : (r.items ++ added es).Nodup)
    (hnot : r.current ∉ visits r es) (hend : (after r es).turn.current = r.current)
    (hy : y ∈ r.items) (hne : y ≠ r.current) : (visits r es).count y = 1 := by
  obtain ⟨before, back, hitems⟩ := append_of_mem hcur
  obtain ⟨new, hnew, hsub⟩ := visits_away hitems rfl hnd hnot hend
  have hapart := nodup_append.mp hnd
  have hfresh : y ∉ new := fun hmem => hapart.2.2 y hy y (hsub hmem) rfl
  have hmem : y ∈ before ++ back := by
    rw [hitems] at hy
    simpa [hne] using hy
  have hold : (before ++ back).Nodup := by
    rw [hitems] at hapart
    exact hapart.1.sublist (List.Sublist.append_left (sublist_cons_self _ _) before)
  have hcount : (before ++ back).count y = 1 := count_eq_one_of_mem hold hmem
  rw [count_append] at hcount
  rw [hnew, count_append, count_append, count_eq_zero_of_not_mem hfresh]
  omega

/-! ## Turns only -/

lemma visits_append (r : Rota α) (es es' : List (Event α)) :
    visits r (es ++ es') = visits r es ++ visits (after r es) es' := by
  induction es generalizing r with
  | nil => rfl
  | cons e es ih =>
    cases e with
    | turn => exact congrArg (r.turn.current :: ·) (ih r.turn)
    | add a => exact ih (r.add a)

/-- Turns visit what lies behind the cursor, one after the other. -/
lemma visits_replicate {next : List α} (hitems : r.items = front ++ r.current :: (next ++ back))
    (hnd : r.items.Nodup) :
    visits r (List.replicate next.length .turn) = next ∧
      ∃ front' x, after r (List.replicate next.length .turn) = ⟨r.items, x⟩ ∧
        r.items = front' ++ x :: back := by
  induction next generalizing r front with
  | nil => exact ⟨rfl, front, r.current, rfl, hitems⟩
  | cons y next ih =>
    have hturn := Rota.turn_next hitems (nodup_append_nil hnd)
    have hitems' : r.items = (front ++ [r.current]) ++ y :: (next ++ back) := by simp [hitems]
    have hrest := ih (r := ⟨r.items, y⟩) hitems' hnd
    rw [length_cons, replicate_succ, visits, after, hturn, hrest.1]
    exact ⟨rfl, hrest.2⟩

/-- As many turns as there are elements go once around. -/
theorem visits_turns_around {before : List α} (hitems : r.items = before ++ r.current :: back)
    (hnd : r.items.Nodup) :
    visits r (List.replicate r.items.length .turn) = back ++ before ++ [r.current] := by
  -- to the end of the list
  have hitems' : r.items = before ++ r.current :: (back ++ []) := by simp [hitems]
  obtain ⟨hback, front', z, hafter, hlast⟩ := visits_replicate hitems' hnd
  -- around the end
  have hturn := Rota.turn_first (r := ⟨r.items, z⟩) hlast (nodup_append_nil hnd)
  have hlength : r.items.length = back.length + (before.length + 1) := by
    rw [hitems]
    simp only [length_append, length_cons]
    omega
  rw [hlength, replicate_add, visits_append, hback, hafter, replicate_succ, visits, hturn,
    append_assoc]
  congr 1
  cases before with
  | nil =>
    rw [hitems]
    rfl
  | cons a before =>
    -- and from the first element to where it began
    have hfirst : r.items.headD z = a := by
      rw [hitems]
      rfl
    have hstart : r.items = [] ++ a :: ((before ++ [r.current]) ++ back) := by simp [hitems]
    have hrest := (visits_replicate (r := ⟨r.items, a⟩) hstart hnd).1
    rw [length_append] at hrest
    rw [length_cons, hfirst]
    exact congrArg (a :: ·) hrest

end LunOS.Rotation
