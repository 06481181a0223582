import LunOS.Vfs.Common

/-!
# Walking a path

`path_walk` holds one reference all the way: to the directory it has come to, and at the end to the
dentry it returns. `WalkInv` is what a property of the state and of the references held must satisfy
to be kept by a whole walk; it may also speak about the lookups of the file system so far.

A walk starts at the working directory also when the path is absolute, which `absolute_path_iff`
makes precise.
-/

namespace LunOS.Vfs
open LunOS.Klib List

variable {drv : Driver} {fuel : ℕ} {s s' s₁ : VfsState} {parent : ℕ} {token : CString}

/-! ## What one turn does -/

variable {r : Option ℕ} {path : CString}

/-- The cache or the driver answers. -/
lemma lookupChild_cases (h : lookupChild drv fuel s parent token = .ok (r, s')) :
    (r ≠ none ∧ s' = s) ∨ ∃ dir, (r = none ∧ drv.lookup s dir token = .ok (none, s')) ∨
      ∃ current s₁, r = some current ∧ drv.lookup s dir token = .ok (some current, s₁) ∧
        dcacheAdd s₁ current = .ok s' := by
  obtain ⟨cached, _, h⟩ := bind_eq_ok.mp h
  cases cached with
  | some current =>
    cases h
    exact Or.inl ⟨by simp, rfl⟩
  | none =>
    obtain ⟨dir, _, h⟩ := bind_eq_ok.mp h
    obtain ⟨⟨found, s₁⟩, hlookup, h⟩ := bind_eq_ok.mp h
    refine Or.inr ⟨dir, ?_⟩
    cases found with
    | none =>
      cases h
      exact Or.inl ⟨rfl, hlookup⟩
    | some current =>
      obtain ⟨s₂, hadd, h⟩ := bind_eq_ok.mp h
      cases h
      exact Or.inr ⟨current, s₁, rfl, hlookup, hadd⟩

/-- With a name, the walk gives up the reference to the directory, and takes one to the child if
there is one to go on from or to return. -/
lemma enterChild_cases {last : Bool} {t : WalkTurn}
    (h : enterChild drv fuel s parent token last = .ok (t, s')) :
    ∃ r s₁, lookupChild drv fuel s parent token = .ok (r, s₁) ∧
      ((t = .ret none ∧ s' = s₁.addRef parent (-1)) ∨
        ∃ current, r = some current ∧ (t = .ret (some current) ∨ t = .go current) ∧
          s' = (s₁.addRef parent (-1)).addRef current 1) := by
  obtain ⟨⟨r, s₁⟩, hchild, h⟩ := bind_eq_ok.mp h
  refine ⟨r, s₁, hchild, ?_⟩
  cases r with
  | none =>
    cases h
    exact Or.inl ⟨rfl, rfl⟩
  | some current =>
    simp only at h
    by_cases hlast : last
    · rw [if_pos hlast] at h
      cases h
      exact Or.inr ⟨current, rfl, Or.inl rfl, rfl⟩
    · rw [if_neg hlast] at h
      obtain ⟨i, _, h⟩ := bind_eq_ok.mp h
      split_ifs at h
      · cases h
        exact Or.inl ⟨rfl, rfl⟩
      · cases h
        exact Or.inr ⟨current, rfl, Or.inr rfl, rfl⟩

/-! ## The lookups of a walk -/

/-- A call of `path_walk`. -/
structure WalkCall where
  drv : Driver
  fuel : ℕ
  path : Option CString
  wd : Option Path
  copyMem : Bool

/-- The call. -/
def WalkCall.run (c : WalkCall) (s : VfsState) : Except Stop (Option ℕ × VfsState) :=
  pathWalk c.drv c.fuel s c.path c.wd c.copyMem

/-- The states before and after a lookup of the file system. -/
abbrev Lookup := VfsState × VfsState

/-- The lookup for a name that is not in the cache. -/
def childLookups (drv : Driver) (fuel : ℕ) (s : VfsState) (parent : ℕ) (token : CString) :
    List Lookup :=
  match dcacheLookup fuel s parent token, s.inodeOf parent with
  | .ok none, .ok dir =>
    match drv.lookup s dir token with
    | .ok (_, s₁) => [(s, s₁)]
    | .error _ => []
  | _, _ => []

/-- The lookups of one turn. -/
def turnLookups (drv : Driver) (fuel : ℕ) (s : VfsState) (parent : ℕ) (token : CString) :
    List Lookup :=
  if token = [] ∨ token = [dot] ∨ token = [dot, dot] then []
  else childLookups drv fuel s parent token

/-- The lookups of the loop. -/
def loopLookups (drv : Driver) (fuel : ℕ) :
    ℕ → VfsState → ℕ → Option CString × Option CString → List Lookup
  | turns + 1, s, parent, (some token, saveptr) =>
    turnLookups drv fuel s parent token ++
      match walkTurn drv fuel s parent token (saveptr = some []) with
      | .ok (.go parent, s) => loopLookups drv fuel turns s parent (kstrtokR none [slash] saveptr)
      | _ => []
  | _, _, _, _ => []

def lookupsFrom (drv : Driver) (fuel : ℕ) (s : VfsState) (parent : ℕ) (path : CString) :
    List Lookup :=
  loopLookups drv fuel (path.length + 1) (s.addRef parent 1) parent
    (kstrtokR (some (kstrndup path path.length)) [slash] none)

/-- The lookups of a walk. -/
def pathLookups (drv : Driver) (fuel : ℕ) (s : VfsState) (parent : ℕ) (path : CString) :
    List Lookup :=
  if path = [dot, dot] ∨ path = [dot] then []
  else if path.head? = some slash then lookupsFrom drv fuel s parent path.tail
  else lookupsFrom drv fuel s parent path

/-- The lookups that a call of `path_walk` makes, in their order. -/
def WalkCall.lookups (c : WalkCall) (s : VfsState) : List Lookup :=
  match c.path with
  | none => []
  | some path =>
    if path = [slash] then []
    else
      match startDentry s c.wd with
      | none => []
      | some parent => pathLookups c.drv c.fuel s parent path

/-- There was at most one lookup, and after it at most the cache has changed. -/
lemma childLookups_cases (h : lookupChild drv fuel s parent token = .ok (r, s')) :
    (childLookups drv fuel s parent token = [] ∧ s' = s) ∨
      ∃ dir found s₁, childLookups drv fuel s parent token = [(s, s₁)] ∧
        drv.lookup s dir token = .ok (found, s₁) ∧
        (s' = s₁ ∨ ∃ current, dcacheAdd s₁ current = .ok s') := by
  obtain ⟨cached, hcache, h⟩ := bind_eq_ok.mp h
  unfold childLookups
  rw [hcache]
  cases cached with
  | some current =>
    cases h
    exact Or.inl ⟨rfl, rfl⟩
  | none =>
    obtain ⟨dir, hdir, h⟩ := bind_eq_ok.mp h
    obtain ⟨⟨found, s₁⟩, hlookup, h⟩ := bind_eq_ok.mp h
    simp only [hdir, hlookup]
    refine Or.inr ⟨dir, found, s₁, rfl, hlookup, ?_⟩
    cases found with
    | none =>
      cases h
      exact Or.inl rfl
    | some current =>
      obtain ⟨s₂, hadd, h⟩ := bind_eq_ok.mp h
      cases h
      exact Or.inr ⟨current, hadd⟩

/-! ## Whole walks -/

/-- A property of the lookups so far, of the state and of the references that are held, in any
order. -/
structure WalkInv (drv : Driver) (I : List Lookup → VfsState → List ℕ → Prop) : Prop where
  take : ∀ {log s d held}, I log s held → I log (s.addRef d 1) (d :: held)
  drop : ∀ {log s d held}, I log s (d :: held) → I log (s.addRef d (-1)) held
  perm : ∀ {log s held held'}, held.Perm held' → I log s held → I log s held'
  child : ∀ {log fuel s s' parent token r held},
    lookupChild drv fuel s parent token = .ok (r, s') → I log s held →
    I (log ++ childLookups drv fuel s parent token) s' held

variable {I : List Lookup → VfsState → List ℕ → Prop} {log : List Lookup} {held : List ℕ}

/-- Take a reference to one dentry and give up the one to another. -/
lemma WalkInv.exchange (hI : WalkInv drv I) {d : ℕ} (h : I log s (parent :: held)) :
    I log ((s.addRef d 1).addRef parent (-1)) (d :: held) := by
  have hboth : I log (s.addRef d 1) (d :: parent :: held) := hI.take h
  exact hI.drop (hI.perm (List.Perm.swap parent d held) hboth)

/-- The reference that a turn leaves to the rest of the walk or to the caller. -/
def WalkTurn.refs : WalkTurn → List ℕ
  | .go parent => [parent]
  | .ret r => r.toList

/-- One turn of the loop. -/
lemma WalkInv.walkTurn (hI : WalkInv drv I) {last : Bool} {t : WalkTurn}
    (h : walkTurn drv fuel s parent token last = .ok (t, s')) (hs : I log s (parent :: held)) :
    I (log ++ turnLookups drv fuel s parent token) s' (t.refs ++ held) := by
  unfold turnLookups
  by_cases hname : token = [] ∨ token = [dot] ∨ token = [dot, dot]
  · rw [if_pos hname, append_nil]
    unfold Vfs.walkTurn at h
    split_ifs at h
    · cases h
      exact hs
    · cases h
      exact hs
    · cases h
      exact hI.exchange hs
    · tauto
  · rw [if_neg hname]
    obtain ⟨hnil, hdot, hup⟩ : token ≠ [] ∧ token ≠ [dot] ∧ token ≠ [dot, dot] := by tauto
    have henter : enterChild drv fuel s parent token last = .ok (t, s') := by
      rw [← h, Vfs.walkTurn, if_neg hnil, if_neg hdot, if_neg hup]
    obtain ⟨r, s₁, hchild, hturn⟩ := enterChild_cases henter
    have hs₁ := hI.child hchild hs
    obtain ⟨rfl, rfl⟩ | ⟨current, _, ht, rfl⟩ := hturn
    · exact hI.drop hs₁
    · have hrefs : t.refs = [current] := by
        obtain rfl | rfl := ht
        · rfl
        · rfl
      rw [hrefs]
      exact hI.take (hI.drop hs₁)

/-- The induction is on the turns; the reference to `parent` passes from turn to turn. -/
lemma WalkInv.walkLoop (hI : WalkInv drv I) {turns : ℕ} {tok : Option CString × Option CString}
    (h : walkLoop drv fuel turns s parent tok = .ok (r, s')) (hs : I log s (parent :: held)) :
    I (log ++ loopLookups drv fuel turns s parent tok) s' (r.toList ++ held) := by
  induction turns generalizing s parent tok log with
  | zero =>
    obtain ⟨_ | token, saveptr⟩ := tok
    · cases h
      rw [loopLookups.eq_def, append_nil]
      exact hs
    · exact absurd h (by simp [Vfs.walkLoop])
  | succ turns ih =>
    obtain ⟨_ | token, saveptr⟩ := tok
    · cases h
      rw [loopLookups.eq_def, append_nil]
      exact hs
    · obtain ⟨⟨t, s₁⟩, hturn, h⟩ := bind_eq_ok.mp h
      have hs₁ := hI.walkTurn hturn hs
      rw [loopLookups, hturn, ← append_assoc]
      cases t with
      | ret res =>
        cases h
        rw [append_nil]
        exact hs₁
      | go next => exact ih h hs₁

/-- A walk from a directory. -/
lemma WalkInv.walkFrom (hI : WalkInv drv I) {copyMem : Bool}
    (h : walkFrom drv fuel s parent path copyMem = .ok (r, s')) (hs : I log s held) :
    I (log ++ lookupsFrom drv fuel s parent path) s' (r.toList ++ held) := by
  unfold Vfs.walkFrom at h
  split_ifs at h
  exact hI.walkLoop h (hI.take hs)

/-- A walk along a path. -/
lemma WalkInv.walkPath (hI : WalkInv drv I) {copyMem : Bool}
    (h : walkPath drv fuel s parent path copyMem = .ok (r, s')) (hs : I log s held) :
    I (log ++ pathLookups drv fuel s parent path) s' (r.toList ++ held) := by
  unfold Vfs.walkPath at h
  unfold pathLookups
  split_ifs at h with hup hdot hslash
  · cases h
    rw [if_pos (Or.inl hup), append_nil]
    exact hI.take hs
  · cases h
    rw [if_pos (Or.inr hdot), append_nil]
    exact hI.take hs
  · rw [if_neg (not_or.mpr ⟨hup, hdot⟩), if_pos hslash]
    exact hI.walkFrom h hs
  · rw [if_neg (not_or.mpr ⟨hup, hdot⟩), if_neg hslash]
    exact hI.walkFrom h hs

/-- `path_walk` returns with one more reference, to the dentry it returns. -/
lemma WalkInv.run {c : WalkCall} (hI : WalkInv c.drv I) (held : List ℕ)
    (h : c.run s = .ok (r, s')) (hs : I [] s held) : I (c.lookups s) s' (r.toList ++ held) := by
  obtain ⟨drv, fuel, path, wd, copyMem⟩ := c
  unfold WalkCall.run pathWalk at h
  unfold WalkCall.lookups
  cases path with
  | none =>
    cases h
    exact hs
  | some path =>
    simp only at h ⊢
    by_cases hslash : path = [slash]
    · rw [if_pos hslash] at h
      rw [if_pos hslash]
      cases hroot : s.rootDentry with
      | none =>
        rw [hroot] at h
        cases h
      | some root =>
        rw [hroot] at h
        cases h
        exact hI.take hs
    · rw [if_neg hslash] at h
      rw [if_neg hslash]
      cases hstart : startDentry s wd with
      | none =>
        rw [hstart] at h
        cases h
      | some parent =>
        rw [hstart] at h
        exact hI.walkPath h hs

/-! ## Absolute paths -/

/-- The path `/.` leads to the directory the walk starts from. -/
lemma pathWalk_slashDot {wd : Option Path} (hstart : startDentry s wd = some parent) :
    pathWalk drv fuel s (some [slash, dot]) wd true = .ok (some parent, s.addRef parent 1) := by
  have hne : [slash, dot] ≠ [slash] := by decide
  have hwalk : walkPath drv fuel s parent [slash, dot] true =
      .ok (some parent, s.addRef parent 1) := rfl
  unfold pathWalk
  simp only
  rw [if_neg hne, hstart]
  exact hwalk

lemma pathWalk_slashDot_null {wd : Option Path} (hstart : startDentry s wd = none) :
    pathWalk drv fuel s (some [slash, dot]) wd true = .error .fault := by
  have hne : [slash, dot] ≠ [slash] := by decide
  unfold pathWalk
  simp only
  rw [if_neg hne, hstart]

/-- Where a relative path leads from the directory that a walk starts in. -/
def leadsTo (drv : Driver) (fuel : ℕ) (s : VfsState) (wd : Option Path) (path : CString)
    (copyMem : Bool) : Except Stop (Option ℕ) :=
  match startDentry s wd with
  | none => .error .fault
  | some parent => (walkFrom drv fuel s parent path copyMem).map Prod.fst

/-- Behind its first slash an absolute path is walked as a relative one. -/
lemma pathWalk_absolute (wd : Option Path) (copyMem : Bool) (hpath : path.head? = some slash)
    (hne : path ≠ [slash]) :
    (pathWalk drv fuel s (some path) wd copyMem).map Prod.fst =
      leadsTo drv fuel s wd path.tail copyMem := by
  have hup : path ≠ [dot, dot] := by
    rintro rfl
    exact absurd hpath (by decide)
  have hdot : path ≠ [dot] := by
    rintro rfl
    exact absurd hpath (by decide)
  unfold pathWalk leadsTo
  simp only
  rw [if_neg hne]
  cases startDentry s wd with
  | none => rfl
  | some parent =>
    simp only
    rw [walkPath, if_neg hup, if_neg hdot, if_pos hpath]

/-- Two working directories give the same result for every absolute path if and only if walks start
from the same directory in both. For a single one the results are the same if and only if it is `/`,
or what follows its first slash leads to the same from both. -/
theorem absolute_path_iff (drv : Driver) (fuel : ℕ) (s : VfsState) (wd₁ wd₂ : Option Path) :
    ((∀ path copyMem, path.head? = some slash →
        (pathWalk drv fuel s (some path) wd₁ copyMem).map Prod.fst =
          (pathWalk drv fuel s (some path) wd₂ copyMem).map Prod.fst) ↔
      startDentry s wd₁ = startDentry s wd₂) ∧
    ∀ path copyMem, path.head? = some slash →
      ((pathWalk drv fuel s (some path) wd₁ copyMem).map Prod.fst =
          (pathWalk drv fuel s (some path) wd₂ copyMem).map Prod.fst ↔
        path = [slash] ∨
          leadsTo drv fuel s wd₁ path.tail copyMem = leadsTo drv fuel s wd₂ path.tail copyMem) := by
  refine ⟨⟨?_, ?_⟩, fun path copyMem hpath => ?_⟩
  · intro h
    have hdot := h [slash, dot] true rfl
    cases h₁ : startDentry s wd₁ with
    | none =>
      cases h₂ : startDentry s wd₂ with
      | none => rfl
      | some start =>
        rw [pathWalk_slashDot_null h₁, pathWalk_slashDot h₂] at hdot
        exact absurd hdot (by simp [Except.map])
    | some start =>
      cases h₂ : startDentry s wd₂ with
      | none =>
        rw [pathWalk_slashDot h₁, pathWalk_slashDot_null h₂] at hdot
        exact absurd hdot (by simp [Except.map])
      | some start' =>
        rw [pathWalk_slashDot h₁, pathWalk_slashDot h₂] at hdot
        exact Except.ok.inj hdot
  · intro h path copyMem _
    unfold pathWalk
    simp only
    rw [h]
  · by_cases hslash : path = [slash]
    · rw [hslash]
      exact iff_of_true rfl (Or.inl rfl)
    · rw [pathWalk_absolute wd₁ copyMem hpath hslash, pathWalk_absolute wd₂ copyMem hpath hslash]
      exact (or_iff_right hslash).symm

/-- A file system without entries. -/
def emptyDriver : Driver where
  lookup s _ _ := .ok (none, s)
  fopen s _ _ := .ok (vfsOk, s)
  fclose s _ _ := .ok (vfsOk, s)

/-- A root directory 1 and another directory 2. -/
def twoDirectories : VfsState where
  dentry d := ⟨[100], some d, if d = 1 then none else some 1, 1, 0, none⟩
  inode i := ⟨UInt64.ofNat i, 0o040755, 1, none⟩
  file _ := ⟨0, 0, 0, 0, 0, none⟩
  table _ := none
  lists := ⟨id, id⟩
  rootDentry := some 1
  live := [1, 2]

/-- The absolute path `/.` is the root without a working directory, and the directory 2 with that as
the working directory. -/
theorem absolute_path_differs :
    (pathWalk emptyDriver 1 twoDirectories (some [slash, dot]) none true).map Prod.fst =
        .ok (some 1) ∧
      (pathWalk emptyDriver 1 twoDirectories (some [slash, dot]) (some ⟨some 2⟩) true).map
        Prod.fst = .ok (some 2) :=
  ⟨rfl, rfl⟩

end LunOS.Vfs
