import LunOS.Utils.CircularChains
import LunOS.Vfs.Common
import Mathlib.Data.Fintype.EquivFin
import Mathlib.Logic.Relation

/-!
# The file system registry

`register_filesystem` puts a structure in front of the list of registered file systems, through the
structure's own `next`, and does not look whether it is already there. `find_filesystem` searches
the list. After any calls from the empty registry:

- `registerAll_inv`: either no structure was registered twice and the list holds the structures, the
  last one first, or the list does not end.
- `registry_sound_iff`: the searches end and are right if and only if no structure was registered
  twice.
-/

namespace LunOS.Vfs
open LunOS.Klib LunOS.Buckets Function List

/-- `struct filesystem`. -/
structure Filesystem where
  name : Option CString
  next : Option ℕ

/-- The structures at their addresses, and `registered_fs`. -/
structure Registry where
  fs : ℕ → Filesystem
  registeredFs : Option ℕ

/-- `fs->next`. -/
def Registry.next (s : Registry) (f : ℕ) : Option ℕ := (s.fs f).next

/-- `register_filesystem` -/
def registerFilesystem (s : Registry) (fs : Option ℕ) : ℤ × Registry :=
  match fs with
  | none => (vfsEinval, s)
  | some f =>
    if (s.fs f).name = none then (vfsEinval, s)
    else (vfsOk, ⟨update s.fs f { s.fs f with next := s.registeredFs }, some f⟩)

/-- The loop of `find_filesystem`; `strcmp` reads from both names. -/
def findLoop (s : Registry) (name : CString) : ℕ → Option ℕ → Except Stop (Option ℕ)
  | 0, _ => .error .hang
  | _ + 1, none => .ok none
  | fuel + 1, some f =>
    match (s.fs f).name with
    | none => .error .fault
    | some fsName => if fsName = name then .ok (some f) else findLoop s name fuel (s.fs f).next

/-- `find_filesystem` -/
def findFilesystem (fuel : ℕ) (s : Registry) (name : Option CString) : Except Stop (Option ℕ) :=
  match name with
  | none => .ok none
  | some name => findLoop s name fuel s.registeredFs

/-! ## Calls -/

/-- One call of `register_filesystem` after the other. -/
def registerAll (s : Registry) (calls : List (Option ℕ)) : Registry :=
  calls.foldl (fun s fs => (registerFilesystem s fs).2) s

/-- The structures of the calls that are not turned down, in order. -/
def accepted (s : Registry) (calls : List (Option ℕ)) : List ℕ :=
  (calls.filterMap id).filter fun f => (s.fs f).name ≠ none

variable {s : Registry} {f : ℕ} {name : CString} {p : Option ℕ} {l : List ℕ}

lemma registerFilesystem_named (hf : (s.fs f).name ≠ none) :
    (registerFilesystem s (some f)).2.registeredFs = some f ∧
      (registerFilesystem s (some f)).2.next = update s.next f s.registeredFs := by
  unfold registerFilesystem
  simp only
  rw [if_neg hf]
  refine ⟨rfl, ?_⟩
  funext g
  show (update s.fs f _ g).next = _
  rw [update_apply, update_apply]
  split_ifs <;> rfl

/-- No call changes a name. -/
lemma registerFilesystem_name (fs : Option ℕ) (g : ℕ) :
    ((registerFilesystem s fs).2.fs g).name = (s.fs g).name := by
  cases fs with
  | none => rfl
  | some f =>
    unfold registerFilesystem
    simp only
    split_ifs
    · rfl
    · show (update s.fs f _ g).name = _
      rw [update_apply]
      split_ifs with hg
      · rw [hg]
      · rfl

lemma registerAll_name (s : Registry) (calls : List (Option ℕ)) (g : ℕ) :
    ((registerAll s calls).fs g).name = (s.fs g).name := by
  induction calls generalizing s with
  | nil => rfl
  | cons fs calls ih => exact (ih _).trans (registerFilesystem_name fs g)

/-- What the list is after structures `l` were registered, in this order. -/
def RegistryInv (s : Registry) (l : List ℕ) : Prop :=
  (l.Nodup ∧ Leads s.next s.registeredFs l.reverse) ∨
    ¬l.Nodup ∧ ∃ S ⊆ {f | f ∈ l}, EndlessOn s.next S s.registeredFs

/-- A structure that is put in front of a list that has it closes a circle, and a list that does not
end stays so. -/
lemma RegistryInv.register (h : RegistryInv s l) (hf : (s.fs f).name ≠ none) :
    RegistryInv (registerFilesystem s (some f)).2 (l ++ [f]) := by
  obtain ⟨hhead, hnext⟩ := registerFilesystem_named hf
  unfold RegistryInv
  rw [hhead, hnext, reverse_append]
  rcases h with ⟨hnodup, hleads⟩ | ⟨hdup, S, hS, hend⟩
  · by_cases hmem : f ∈ l
    · right
      obtain ⟨S, hS, hend⟩ := hleads.loop (mem_reverse.mpr hmem)
      refine ⟨fun h => ?_, S, fun g hg => ?_, hend⟩
      · exact disjoint_of_nodup_append h hmem mem_cons_self
      · exact mem_append_left [f] (mem_reverse.mp (hS hg))
    · left
      refine ⟨nodup_append'.mpr ⟨hnodup, nodup_singleton f, ?_⟩, rfl, ?_⟩
      · exact disjoint_singleton.mpr hmem
      · rw [update_self]
        apply hleads.congr
        intro g hg
        rw [update_of_ne]
        rintro rfl
        exact hmem (mem_reverse.mp hg)
  · right
    refine ⟨fun h => hdup h.of_append_left, insert f S, fun g hg => ?_, hend.push⟩
    rcases hg with rfl | hg
    · exact mem_append_right l mem_cons_self
    · exact mem_append_left [f] (hS hg)

/-- The induction carries the structures that were registered before. -/
lemma RegistryInv.registerAll (h : RegistryInv s l) (calls : List (Option ℕ)) :
    RegistryInv (registerAll s calls) (l ++ accepted s calls) := by
  induction calls generalizing s l with
  | nil =>
    have hnil : accepted s [] = [] := rfl
    rw [hnil, append_nil]
    exact h
  | cons fs calls ih =>
    have hrest : accepted (registerFilesystem s fs).2 calls = accepted s calls := by
      apply filter_congr
      intro g _
      rw [registerFilesystem_name]
    cases fs with
    | none => exact ih h
    | some f =>
      by_cases hf : (s.fs f).name = none
      · -- turned down
        have hsame : (registerFilesystem s (some f)).2 = s := by simp [registerFilesystem, hf]
        have hacc : accepted s (some f :: calls) = accepted s calls := by simp [accepted, hf]
        rw [hacc]
        show RegistryInv (Vfs.registerAll (registerFilesystem s (some f)).2 calls) _
        rw [hsame]
        exact ih h
      · have hacc : accepted s (some f :: calls) = f :: accepted s calls := by simp [accepted, hf]
        have hafter := ih (h.register hf)
        rw [hrest, append_assoc] at hafter
        rw [hacc]
        exact hafter

/-- The list holds what was accepted. -/
lemma registerAll_inv (fs : ℕ → Filesystem) (calls : List (Option ℕ)) :
    RegistryInv (registerAll ⟨fs, none⟩ calls) (accepted ⟨fs, none⟩ calls) := by
  have hempty : RegistryInv ⟨fs, none⟩ [] := Or.inl ⟨nodup_nil, rfl⟩
  exact hempty.registerAll calls

lemma accepted_named {calls : List (Option ℕ)} (hf : f ∈ accepted s calls) :
    (s.fs f).name ≠ none := by
  simpa using (mem_filter.mp hf).2

/-! ## Searches -/

/-- On a list that ends, the search returns the first structure with the name. -/
lemma findLoop_find {fuel : ℕ} (h : Leads s.next p l) (hnamed : ∀ f ∈ l, (s.fs f).name ≠ none)
    (hfuel : l.length < fuel) :
    findLoop s name fuel p = .ok (l.find? fun f => (s.fs f).name = some name) := by
  induction l generalizing p fuel with
  | nil =>
    obtain ⟨fuel, rfl⟩ := Nat.exists_eq_add_of_lt hfuel
    have hp : p = none := h
    rw [hp]
    rfl
  | cons f l ih =>
    cases fuel with
    | zero => exact absurd hfuel (Nat.not_lt_zero _)
    | succ fuel =>
      obtain ⟨fsName, hfs⟩ := Option.ne_none_iff_exists'.mp (hnamed f mem_cons_self)
      rw [h.1, List.find?_cons]
      unfold findLoop
      rw [hfs]
      simp only [Option.some.injEq]
      by_cases hname : fsName = name
      · simp [hname]
      · rw [if_neg hname]
        simp only [hname, decide_false]
        exact ih h.2 (fun g hg => hnamed g (mem_cons_of_mem f hg))
          (Nat.lt_of_succ_lt_succ hfuel)

/-- On a list that does not end, the search for another name does not end. -/
lemma findLoop_hang {S : Set ℕ} (h : EndlessOn s.next S p)
    (hnamed : ∀ f ∈ S, (s.fs f).name ≠ none ∧ (s.fs f).name ≠ some name) (fuel : ℕ) :
    findLoop s name fuel p = .error .hang := by
  induction fuel generalizing p with
  | zero => rfl
  | succ fuel ih =>
    obtain ⟨f, hf, hp⟩ := h.start
    obtain ⟨fsName, hfs⟩ := Option.ne_none_iff_exists'.mp (hnamed f hf).1
    have hne : fsName ≠ name := by
      rintro rfl
      exact (hnamed f hf).2 hfs
    rw [hp]
    unfold findLoop
    rw [hfs]
    simp only
    rw [if_neg hne]
    exact ih ⟨h.closed f hf, h.closed⟩

/-- There are more names than structures. -/
lemma exists_unused_name (s : Registry) (l : List ℕ) :
    ∃ name, ∀ f ∈ l, (s.fs f).name ≠ some name := by
  obtain ⟨name, hname⟩ := Infinite.exists_notMem_finset (l.filterMap fun f => (s.fs f).name).toFinset
  refine ⟨name, fun f hf heq => hname ?_⟩
  rw [mem_toFinset, mem_filterMap]
  exact ⟨f, hf, heq⟩

/-- The searches return, with a registered structure of that name if there is one and `NULL`
otherwise; and every registered structure can be reached. -/
structure RegistrySound (s : Registry) (registered : List ℕ) : Prop where
  find : ∀ name, ∃ fuel r, findFilesystem fuel s name = .ok r ∧
    (∀ f, r = some f → f ∈ registered ∧ (s.fs f).name = name) ∧
    (r = none → ∀ f ∈ registered, (s.fs f).name ≠ name)
  kept : ∀ f ∈ registered, ∃ g, s.registeredFs = some g ∧
    Relation.ReflTransGen (fun a c => s.next a = some c) g f

lemma registrySound_of_leads (h : Leads s.next s.registeredFs l.reverse)
    (hnamed : ∀ f ∈ l, (s.fs f).name ≠ none) : RegistrySound s l := by
  refine ⟨fun name => ?_, fun f hf => ?_⟩
  · cases name with
    | none => exact ⟨0, none, rfl, fun f hf => absurd hf (by simp), fun _ => hnamed⟩
    | some name =>
      have hfind : findLoop s name (l.reverse.length + 1) s.registeredFs = _ :=
        findLoop_find h (fun f hf => hnamed f (mem_reverse.mp hf)) (Nat.lt_succ_self _)
      refine ⟨_, _, hfind, fun f hf => ?_, fun hnone f hf => ?_⟩
      · exact ⟨mem_reverse.mp (mem_of_find?_eq_some hf), by simpa using List.find?_some hf⟩
      · simpa using List.find?_eq_none.mp hnone f (mem_reverse.mpr hf)
  · exact h.reaches (mem_reverse.mpr hf)

/-- After any calls from the empty registry, the searches end and are right and no registration is
lost, if and only if no structure was registered twice. -/
theorem registry_sound_iff (fs : ℕ → Filesystem) (calls : List (Option ℕ)) :
    RegistrySound (registerAll ⟨fs, none⟩ calls) (accepted ⟨fs, none⟩ calls) ↔
      (accepted ⟨fs, none⟩ calls).Nodup := by
  have hnamed : ∀ f ∈ accepted ⟨fs, none⟩ calls,
      ((registerAll ⟨fs, none⟩ calls).fs f).name ≠ none := by
    intro f hf
    rw [registerAll_name]
    exact accepted_named hf
  rcases registerAll_inv fs calls with ⟨hnodup, hleads⟩ | ⟨hdup, S, hS, hend⟩
  · exact iff_of_true (registrySound_of_leads hleads hnamed) hnodup
  · refine iff_of_false (fun hsound => ?_) hdup
    -- a name that no structure has is searched for without end
    obtain ⟨name, hunused⟩ := exists_unused_name (registerAll ⟨fs, none⟩ calls)
      (accepted ⟨fs, none⟩ calls)
    obtain ⟨fuel, r, hfind, -⟩ := hsound.find (some name)
    have hhang := findLoop_hang hend (fun f hf => ⟨hnamed f (hS hf), hunused f (hS hf)⟩) fuel
    exact absurd (hhang.symm.trans hfind) (by simp)

/-- The structure 1, named `a`, is registered twice: a search for `b` does not end. -/
theorem registry_search_hangs :
    let s := registerAll ⟨fun _ => ⟨some [97], none⟩, none⟩ [some 1, some 1]
    s.next 1 = some 1 ∧ (∀ fuel, findFilesystem fuel s (some [98]) = .error .hang) ∧
      ¬RegistrySound s [1, 1] := by
  intro s
  have hend : EndlessOn s.next {1} s.registeredFs :=
    ⟨⟨1, rfl, rfl⟩, fun f hf => ⟨1, rfl, by rw [Set.mem_singleton_iff.mp hf]; rfl⟩⟩
  have hhang : ∀ fuel, findFilesystem fuel s (some [98]) = .error .hang := by
    apply findLoop_hang hend
    intro f hf
    rw [Set.mem_singleton_iff.mp hf]
    exact ⟨by decide, by decide⟩
  refine ⟨rfl, hhang, fun hsound => ?_⟩
  obtain ⟨fuel, r, hfind, -⟩ := hsound.find (some [98])
  exact absurd ((hhang fuel).symm.trans hfind) (by simp)

end LunOS.Vfs
