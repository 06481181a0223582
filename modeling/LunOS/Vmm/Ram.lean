import LunOS.Vmm.Tables

/-!
# A machine with lists of free frames and free objects

The allocators take from the front of their list and put back there. Runs on fixed inputs are made
on this machine.
-/

namespace LunOS.Vmm
open Function List

/-- A list without repetition of things that can be handed out. -/
structure FreeList {α : Type*} (ok : α → Prop) where
  items : List α
  nodup : items.Nodup
  all_ok : ∀ x ∈ items, ok x

namespace FreeList
variable {α : Type*} {ok : α → Prop}

/-- What was handed out, or never on the list. -/
def used (l : FreeList ok) : Set α := {x | ok x ∧ x ∉ l.items}

/-- The first item, `d` if there is none. -/
def take (l : FreeList ok) (d : α) : α × FreeList ok :=
  (l.items.headD d, ⟨l.items.tail, l.nodup.tail, fun x hx => l.all_ok x (mem_of_mem_tail hx)⟩)

/-- An item is free again. -/
def put [DecidablePred ok] [DecidableEq α] (l : FreeList ok) (x : α) : FreeList ok :=
  if h : ok x ∧ x ∉ l.items then
    ⟨x :: l.items, nodup_cons.mpr ⟨h.2, l.nodup⟩, forall_mem_cons.mpr ⟨h.1, l.all_ok⟩⟩
  else l

variable {l : FreeList ok} {d x : α}

lemma used_take_none (hd : ¬ok d) (h : (l.take d).1 = d) : (l.take d).2.used = l.used := by
  rcases l with ⟨items, hnodup, hok⟩
  cases items with
  | nil => rfl
  | cons a items =>
    have had : a = d := h
    exact absurd (had ▸ hok a mem_cons_self) hd

lemma take_mem (h : (l.take d).1 ≠ d) : (l.take d).1 ∈ l.items := by
  rcases l with ⟨items, hnodup, hok⟩
  cases items with
  | nil => exact absurd rfl h
  | cons a items => exact mem_cons_self

lemma used_take (h : (l.take d).1 ≠ d) : (l.take d).2.used = insert (l.take d).1 l.used := by
  rcases l with ⟨items, hnodup, hok⟩
  cases items with
  | nil => exact absurd rfl h
  | cons a items =>
    have ha := (nodup_cons.mp hnodup).1
    ext x
    show ok x ∧ x ∉ items ↔ x = a ∨ ok x ∧ x ∉ a :: items
    by_cases hx : x = a
    · rw [hx]
      exact ⟨fun _ => Or.inl rfl, fun _ => ⟨hok a mem_cons_self, ha⟩⟩
    · simp [hx]

lemma used_put [DecidablePred ok] [DecidableEq α] (hx : x ∈ l.used) :
    (l.put x).used = l.used \ {x} := by
  have hput : (l.put x).items = x :: l.items := by
    unfold put
    rw [dif_pos (show ok x ∧ x ∉ l.items from hx)]
  ext y
  show ok y ∧ y ∉ (l.put x).items ↔ (ok y ∧ y ∉ l.items) ∧ y ≠ x
  rw [hput, mem_cons, not_or, and_comm (a := y ≠ x), and_assoc]

end FreeList

def ramOffset : BitVec 64 := 0xFFFF800000000000

/-- A frame that fits into an entry, with a table that is not at address 0. -/
def IsFrame (f : PhysAddr) : Prop := pteAddr f = f ∧ f ≠ 0 ∧ f + ramOffset ≠ 0

instance : DecidablePred IsFrame := fun f =>
  inferInstanceAs (Decidable (pteAddr f = f ∧ f ≠ 0 ∧ f + ramOffset ≠ 0))

/-- A machine with lists of free frames and free addresses. -/
structure Ram where
  frames : PhysAddr → Index → PageTableEntry
  pool : FreeList IsFrame
  heap : FreeList fun p : VirtAddr => p ≠ 0

def Ram.setFrame (s : Ram) (f : PhysAddr) (t : Index → PageTableEntry) : Ram :=
  { s with frames := update s.frames f t }

instance : PageMachine Ram where
  hhdmOffset := ramOffset
  load s pt i := s.frames (pt - ramOffset) i
  store s pt i e := s.setFrame (pt - ramOffset) (update (s.frames (pt - ramOffset)) i e)
  memsetPage s pt := s.setFrame (pt - ramOffset) fun _ => 0
  pmmAllocPage s := ((s.pool.take 0).1, { s with pool := (s.pool.take 0).2 })
  pmmFreePage s f := { s with pool := s.pool.put f }
  kmalloc s _ := ((s.heap.take 0).1, { s with heap := (s.heap.take 0).2 })
  kfree s p := { s with heap := s.heap.put p }

namespace Ram
open PageMachine

lemma load_eq (s : Ram) (f : PhysAddr) (i : Index) :
    load s (f + hhdmOffset Ram) i = s.frames f i := by
  show s.frames (f + ramOffset - ramOffset) i = s.frames f i
  rw [BitVec.add_sub_cancel]

lemma store_eq (s : Ram) (f : PhysAddr) (i : Index) (e : PageTableEntry) :
    store s (f + hhdmOffset Ram) i e = s.setFrame f (update (s.frames f) i e) := by
  show s.setFrame (f + ramOffset - ramOffset)
    (update (s.frames (f + ramOffset - ramOffset)) i e) = _
  rw [BitVec.add_sub_cancel]

lemma memset_eq (s : Ram) (f : PhysAddr) :
    memsetPage s (f + hhdmOffset Ram) = s.setFrame f fun _ => 0 := by
  show s.setFrame (f + ramOffset - ramOffset) _ = _
  rw [BitVec.add_sub_cancel]

lemma setFrame_of_ne (s : Ram) {f g : PhysAddr} (t : Index → PageTableEntry) (h : g ≠ f) :
    (s.setFrame f t).frames g = s.frames g :=
  update_of_ne h _ _

lemma setFrame_self (s : Ram) (f : PhysAddr) (t : Index → PageTableEntry) :
    (s.setFrame f t).frames f = t :=
  update_self _ _ _

lemma load_store_of_ne (s : Ram) {f g : PhysAddr} {i j : Index} (e : PageTableEntry)
    (h : (g, j) ≠ (f, i)) :
    load (store s (f + hhdmOffset Ram) i e) (g + hhdmOffset Ram) j =
      load s (g + hhdmOffset Ram) j := by
  rw [load_eq, load_eq, store_eq]
  by_cases hgf : g = f
  · have hji : j ≠ i := fun hji => h (by rw [hgf, hji])
    rw [hgf, setFrame_self, update_of_ne hji]
  · rw [setFrame_of_ne _ _ hgf]

end Ram

instance : LawfulPageMachine Ram where
  live s := s.pool.used
  objects s := s.heap.used
  mapped hf := hf.1.2.2
  load_store_self {s f} i e _ := by
    rw [Ram.load_eq, Ram.store_eq, Ram.setFrame_self, update_self]
  load_store_of_ne e _ _ hne := Ram.load_store_of_ne _ e hne
  live_store _ _ _ := rfl
  objects_store _ _ _ := rfl
  load_memset_self i _ := by rw [Ram.load_eq, Ram.memset_eq, Ram.setFrame_self]
  load_memset_of_ne i _ _ hne := by
    rw [Ram.load_eq, Ram.load_eq, Ram.memset_eq, Ram.setFrame_of_ne _ _ hne]
  live_memset _ := rfl
  objects_memset _ := rfl
  alloc_fails h := FreeList.used_take_none (by decide) h
  alloc_fresh h hlive := hlive.2 (FreeList.take_mem h)
  alloc_frame {s} h := (s.pool.all_ok _ (FreeList.take_mem h)).1
  live_alloc h := FreeList.used_take h
  load_alloc _ _ := rfl
  objects_alloc := rfl
  live_free hf := FreeList.used_put hf
  load_free _ _ _ _ := rfl
  objects_free _ := rfl
  kmalloc_fails _ h := FreeList.used_take_none (by simp) h
  kmalloc_fresh _ h hobj := hobj.2 (FreeList.take_mem h)
  objects_kmalloc _ h := FreeList.used_take h
  live_kmalloc _ := rfl
  load_kmalloc _ _ _ := rfl
  objects_kfree hp := FreeList.used_put hp
  live_kfree _ := rfl
  load_kfree _ _ _ := rfl

end LunOS.Vmm
