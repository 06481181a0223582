import Mathlib.Data.List.Basic
import Mathlib.Data.List.TakeWhile

/-!
# Buffers with checked accesses

A buffer is the list of its elements. An access at an index outside of it ends the computation, with
the name of the buffer as the error. A buffer that is filled from the front is `done ++ x :: rest`,
with `done.length` as the next index.
-/

namespace LunOS.Buffers

variable {ω β : Type*} {name : ω}

/-- A read inside the buffer; outside it is an error with the name of the buffer. -/
def read (name : ω) (b : List β) (i : ℕ) : Except ω β :=
  match b[i]? with
  | some v => .ok v
  | none => .error name

/-- A write inside the buffer. -/
def write (name : ω) (b : List β) (i : ℕ) (v : β) : Except ω (List β) :=
  if i < b.length then .ok (b.set i v) else .error name

lemma read_of_getElem? {b : List β} {i : ℕ} {v : β} (h : b[i]? = some v) :
    read name b i = .ok v := by
  unfold read
  rw [h]

lemma read_of_le {b : List β} {i : ℕ} (h : b.length ≤ i) : read name b i = .error name := by
  unfold read
  rw [List.getElem?_eq_none h]

lemma read_zero (x : β) (b : List β) : read name (x :: b) 0 = .ok x := rfl

/-- The element behind those of `a`. -/
lemma read_append (a : List β) (x : β) (b : List β) : read name (a ++ x :: b) a.length = .ok x :=
  read_of_getElem? (by simp)

lemma write_append (a : List β) (x v : β) (b : List β) :
    write name (a ++ x :: b) a.length v = .ok (a ++ v :: b) := by
  unfold write
  rw [if_pos (by simp), List.set_append_right _ _ le_rfl, Nat.sub_self]
  rfl

section
universe u v
variable {ε : Type v} {α' β' : Type u}

@[simp] lemma ok_bind (x : α') (f : α' → Except ε β') : (Except.ok x >>= f) = f x := rfl

@[simp] lemma error_bind (e : ε) (f : α' → Except ε β') :
    ((Except.error e : Except ε α') >>= f) = .error e := rfl

end

end LunOS.Buffers
