import LunOS.Utils.Runs
import LunOS.Vfs.Resolution
import Mathlib.Algebra.Ring.Int.Defs

/-!
# References of open files

Runs of `vfs_open` and `vfs_close`, with file systems that leave the reference counts alone. All
references are accounted for (`FileReachable.accounts`): besides the one that an open file has to its
dentry, every `vfs_open` that found its path leaves the one that `path_walk` took. So the counts are
in balance only as long as no path was found, that is, as long as none leads anywhere in the tree
(`references_balance_iff`).

`path_walk` itself is in balance: it returns with one reference more, to what it returns, and all
other changes are made by the file system's lookups (`path_walk_references`).
-/

namespace LunOS.Vfs
open LunOS.Klib LunOS.Buckets Function List

variable {drv : Driver} {s₀ s s' : VfsState} {held iheld : List ℕ} {d f : ℕ}

/-! ## Accounts -/

/-- The references held since `s₀`, to dentries and to inodes. -/
structure Accounts (s₀ s : VfsState) (held iheld : List ℕ) : Prop where
  dentry : ∀ d, (s.dentry d).refcount = (s₀.dentry d).refcount + held.count d
  inode : ∀ i, (s.inode i).refcount = (s₀.inode i).refcount + iheld.count i

lemma addRef_refcount (k : ℤ) (c : ℕ) : ((s.addRef d k).dentry c).refcount =
    (s.dentry c).refcount + if c = d then k else 0 := by
  show (update s.dentry d _ c).refcount = _
  rw [update_apply]
  split_ifs with h
  · rw [h]
  · rw [Int.add_zero]

lemma addInodeRef_refcount (k : ℤ) (i c : ℕ) : ((s.addInodeRef i k).inode c).refcount =
    (s.inode c).refcount + if c = i then k else 0 := by
  show (update s.inode i _ c).refcount = _
  rw [update_apply]
  split_ifs with h
  · rw [h]
  · rw [Int.add_zero]

lemma count_cons_cast (l : List ℕ) (a c : ℕ) :
    ((a :: l).count c : ℤ) = l.count c + if c = a then 1 else 0 := by
  rw [count_cons]
  by_cases h : c = a
  · simp [h]
  · simp [h, Ne.symm h]

/-- A reference is taken and held. -/
lemma refcount_take {k : ℤ} {c : ℕ} (h : (s.dentry c).refcount = k + held.count c) :
    ((s.addRef d 1).dentry c).refcount = k + (d :: held).count c := by
  rw [addRef_refcount, h, count_cons_cast, Int.add_assoc]

/-- A reference that was held is given up. -/
lemma refcount_drop {k : ℤ} {c : ℕ} (h : (s.dentry c).refcount = k + (d :: held).count c) :
    ((s.addRef d (-1)).dentry c).refcount = k + held.count c := by
  rw [addRef_refcount, h, count_cons_cast]
  split_ifs <;> omega

/-- One more reference is held. -/
lemma Accounts.take (h : Accounts s₀ s held iheld) :
    Accounts s₀ (s.addRef d 1) (d :: held) iheld :=
  ⟨fun c => refcount_take (h.dentry c), h.inode⟩

/-- A reference is given up. -/
lemma Accounts.drop (h : Accounts s₀ s (d :: held) iheld) :
    Accounts s₀ (s.addRef d (-1)) held iheld :=
  ⟨fun c => refcount_drop (h.dentry c), h.inode⟩

lemma Accounts.takeInode {i : ℕ} (h : Accounts s₀ s held iheld) :
    Accounts s₀ (s.addInodeRef i 1) held (i :: iheld) := by
  constructor
  · exact h.dentry
  · intro c
    rw [addInodeRef_refcount, h.inode c, count_cons_cast, Int.add_assoc]

lemma Accounts.dropInode {i : ℕ} (h : Accounts s₀ s held (i :: iheld)) :
    Accounts s₀ (s.addInodeRef i (-1)) held iheld := by
  constructor
  · exact h.dentry
  · intro c
    rw [addInodeRef_refcount, h.inode c, count_cons_cast]
    split_ifs <;> omega

lemma Accounts.perm {held' iheld' : List ℕ} (h : Accounts s₀ s held iheld)
    (hd : held.Perm held') (hi : iheld.Perm iheld') : Accounts s₀ s held' iheld' := by
  constructor
  · intro c
    rw [h.dentry c, hd.count_eq]
  · intro c
    rw [h.inode c, hi.count_eq]

/-! ## File systems that leave references alone -/

/-- Open files have the same inode and dentry. -/
def SameFiles (s s' : VfsState) : Prop :=
  ∀ f, (s'.file f).inode = (s.file f).inode ∧ (s'.file f).dentry = (s.file f).dentry

/-- The same reference counts and open files. -/
structure SameRefs (s s' : VfsState) : Prop where
  dentry : ∀ d, (s'.dentry d).refcount = (s.dentry d).refcount
  inode : ∀ i, (s'.inode i).refcount = (s.inode i).refcount
  files : SameFiles s s'

/-- The functions of the file system leave the references alone. -/
structure KeepsRefs (drv : Driver) : Prop where
  lookup : ∀ {s s' dir name r}, drv.lookup s dir name = .ok (r, s') → SameRefs s s'
  fopen : ∀ {s s' inode file status}, drv.fopen s inode file = .ok (status, s') → SameRefs s s'
  fclose : ∀ {s s' inode file status}, drv.fclose s inode file = .ok (status, s') → SameRefs s s'

lemma SameRefs.rfl : SameRefs s s := ⟨fun _ => .refl _, fun _ => .refl _, fun _ => ⟨.refl _, .refl _⟩⟩

lemma SameFiles.trans {t : VfsState} (h : SameFiles s s') (h' : SameFiles s' t) : SameFiles s t :=
  fun f => ⟨(h' f).1.trans (h f).1, (h' f).2.trans (h f).2⟩

lemma SameRefs.trans {t : VfsState} (h : SameRefs s s') (h' : SameRefs s' t) : SameRefs s t :=
  ⟨fun d => (h'.dentry d).trans (h.dentry d), fun i => (h'.inode i).trans (h.inode i),
    h.files.trans h'.files⟩

/-- The accounts stay. -/
lemma SameRefs.accounts (h : SameRefs s s') (ha : Accounts s₀ s held iheld) :
    Accounts s₀ s' held iheld := by
  constructor
  · intro c
    rw [h.dentry c]
    exact ha.dentry c
  · intro c
    rw [h.inode c]
    exact ha.inode c

/-- The cache only writes links. -/
lemma dcacheAdd_sameRefs (h : dcacheAdd s d = .ok s') : SameRefs s s' := by
  obtain ⟨b, _, rfl⟩ := dcacheAdd_eq_ok.mp h
  constructor
  · intro c
    rw [linkBucket_dentry]
    split_ifs with hc
    · rw [hc]
    · rfl
  · exact fun _ => rfl
  · exact fun _ => ⟨rfl, rfl⟩

/-- A lookup keeps the references. -/
lemma KeepsRefs.lookupChild (hdrv : KeepsRefs drv) {fuel parent : ℕ} {token : CString}
    {r : Option ℕ} (h : lookupChild drv fuel s parent token = .ok (r, s')) : SameRefs s s' := by
  obtain ⟨_, rfl⟩ | ⟨dir, ⟨_, hlookup⟩ | ⟨current, s₁, _, hlookup, hadd⟩⟩ := lookupChild_cases h
  · exact SameRefs.rfl
  · exact hdrv.lookup hlookup
  · exact (hdrv.lookup hlookup).trans (dcacheAdd_sameRefs hadd)

/-- The accounts of a walk; the open files stay as they are. -/
lemma KeepsRefs.walkInv (hdrv : KeepsRefs drv) (s₀ t : VfsState) (iheld : List ℕ) :
    WalkInv drv fun _ s held => Accounts s₀ s held iheld ∧ SameFiles t s := by
  constructor
  · intro _ s d held h
    exact ⟨h.1.take, h.2⟩
  · intro _ s d held h
    exact ⟨h.1.drop, h.2⟩
  · intro _ s held held' hperm h
    exact ⟨h.1.perm hperm (List.Perm.refl iheld), h.2⟩
  · intro _ fuel s s' parent token r held hchild h
    have hsame := hdrv.lookupChild hchild
    exact ⟨hsame.accounts h.1, h.2.trans hsame.files⟩

/-! ## One walk -/

/-- How much these lookups have changed the count of a dentry. -/
def changes (log : List Lookup) (d : ℕ) : ℤ :=
  (log.map fun l => (l.2.dentry d).refcount - (l.1.dentry d).refcount).sum

lemma changes_append_singleton (log : List Lookup) (d : ℕ) : changes (log ++ [(s, s')]) d =
    changes log d + ((s'.dentry d).refcount - (s.dentry d).refcount) := by
  unfold changes
  rw [map_append, sum_append, map_singleton, sum_singleton]

/-- Behind a lookup only the links of the cache change. -/
lemma sameRefs_of_added (h : s' = s ∨ ∃ current, dcacheAdd s current = .ok s') : SameRefs s s' := by
  obtain rfl | ⟨current, hadd⟩ := h
  · exact SameRefs.rfl
  · exact dcacheAdd_sameRefs hadd

/-- Every count is explained by the lookups and the references that are held. -/
lemma explained_walkInv (drv : Driver) (s₀ : VfsState) : WalkInv drv fun log s held =>
    ∀ d, (s.dentry d).refcount = (s₀.dentry d).refcount + changes log d + held.count d := by
  constructor
  · exact fun h c => refcount_take (h c)
  · exact fun h c => refcount_drop (h c)
  · intro _ s held held' hperm h c
    rw [h c, hperm.count_eq]
  · intro log fuel s s' parent token r held hchild h c
    obtain ⟨hlog, rfl⟩ | ⟨_, _, s₁, hlog, -, hafter⟩ := childLookups_cases hchild
    · rw [hlog, append_nil]
      exact h c
    · have hc := h c
      rw [hlog, changes_append_singleton, (sameRefs_of_added hafter).dentry c]
      omega

/-- Existing dentries stay, with the counts that they have. -/
def KeepsExisting (s s' : VfsState) : Prop :=
  ∀ d ∈ s.live, d ∈ s'.live ∧ (s'.dentry d).refcount = (s.dentry d).refcount

lemma dcacheAdd_live (h : dcacheAdd s d = .ok s') : s'.live = s.live := by
  obtain ⟨b, _, rfl⟩ := dcacheAdd_eq_ok.mp h
  rfl

/-- The dentries that were there before the walk, with the references held during the walk. -/
lemma existing_walkInv (drv : Driver) (s₀ : VfsState) :
    WalkInv drv fun log s held => (∀ l ∈ log, KeepsExisting l.1 l.2) → ∀ d ∈ s₀.live,
      d ∈ s.live ∧ (s.dentry d).refcount = (s₀.dentry d).refcount + held.count d := by
  constructor
  · exact fun h hlog c hc => (h hlog c hc).imp_right refcount_take
  · exact fun h hlog c hc => (h hlog c hc).imp_right refcount_drop
  · intro _ s held held' hperm h hlog c hc
    rw [← hperm.count_eq]
    exact h hlog c hc
  · intro log fuel s s' parent token r held hchild h hlog c hc
    rw [forall_mem_append] at hlog
    obtain ⟨hlive, hcount⟩ := h hlog.1 c hc
    obtain ⟨-, rfl⟩ | ⟨_, _, s₁, hlookups, -, hafter⟩ := childLookups_cases hchild
    · exact ⟨hlive, hcount⟩
    · obtain ⟨hlive₁, hsame⟩ := hlog.2 (s, s₁) (by rw [hlookups]; exact mem_cons_self) c hlive
      have hlive' : s'.live = s₁.live := by
        obtain rfl | ⟨current, hadd⟩ := hafter
        · rfl
        · exact dcacheAdd_live hadd
      rw [hlive', (sameRefs_of_added hafter).dentry c]
      exact ⟨hlive₁, hsame.trans hcount⟩

lemma count_toList (r : Option ℕ) (d : ℕ) :
    ((r.toList ++ []).count d : ℤ) = if r = some d then 1 else 0 := by
  cases r with
  | none => rfl
  | some c =>
    by_cases h : c = d
    · simp [h]
    · simp [h]

/-- A walk raises the count of the dentry it returns by one and leaves the other existing dentries as
they are, if its lookups of the file system do. Without any condition, each count has changed by what
these lookups have changed, and by one for the dentry that is returned. -/
theorem path_walk_references {c : WalkCall} {r : Option ℕ} (h : c.run s = .ok (r, s')) :
    ((∀ l ∈ c.lookups s, KeepsExisting l.1 l.2) → ∀ d ∈ s.live,
        (s'.dentry d).refcount = (s.dentry d).refcount + if r = some d then 1 else 0) ∧
      ∀ d, (s'.dentry d).refcount = (s.dentry d).refcount + changes (c.lookups s) d +
        if r = some d then 1 else 0 := by
  constructor
  · intro hlog d hd
    have hwalk := (existing_walkInv c.drv s).run [] h fun _ c hc => ⟨hc, by simp⟩
    rw [← count_toList]
    exact (hwalk hlog d hd).2
  · intro d
    have hwalk := (explained_walkInv c.drv s).run [] h fun d => by simp [changes]
    rw [← count_toList]
    exact hwalk d

/-! ## `vfs_open` and `vfs_close` -/

variable {status flags : ℤ} {mem out : Option ℕ}

/-- The two calls into the file system have one form. -/
lemma sameRefs_of_call {ops : Option FileOperations} {has : FileOperations → Bool}
    {call : Except Stop (ℤ × VfsState)}
    (hcall : ∀ {status s'}, call = .ok (status, s') → SameRefs s s') (h : (match ops with
      | none => .ok (vfsOk, s)
      | some ops => if has ops then call else .ok (vfsOk, s)) = Except.ok (status, s')) :
    SameRefs s s' := by
  cases ops with
  | none =>
    cases h
    exact SameRefs.rfl
  | some ops =>
    simp only at h
    split_ifs at h
    · exact hcall h
    · cases h
      exact SameRefs.rfl

lemma KeepsRefs.callOpen (hdrv : KeepsRefs drv) (h : callOpen drv s f = .ok (status, s')) :
    SameRefs s s' :=
  sameRefs_of_call hdrv.fopen h

lemma KeepsRefs.callClose (hdrv : KeepsRefs drv) (h : callClose drv s f = .ok (status, s')) :
    SameRefs s s' :=
  sameRefs_of_call hdrv.fclose h

/-- The file has a reference to its dentry and to its inode when it is handed out, and none when the
call fails. Other files stay as they are. -/
lemma KeepsRefs.openDentry (hdrv : KeepsRefs drv) {dirent inode : ℕ}
    (h : openDentry drv s dirent inode flags mem = .ok (status, out, s'))
    (ha : Accounts s₀ s held iheld) :
    (∀ g, mem ≠ some g → (s'.file g).inode = (s.file g).inode ∧
        (s'.file g).dentry = (s.file g).dentry) ∧
      ((out = none ∧ Accounts s₀ s' held iheld) ∨
        ∃ f, mem = some f ∧ out = some f ∧ (s'.file f).inode = inode ∧
          (s'.file f).dentry = dirent ∧ Accounts s₀ s' (dirent :: held) (inode :: iheld)) := by
  cases mem with
  | none =>
    obtain ⟨_, rfl, rfl⟩ : status = vfsEnomem ∧ out = none ∧ s' = s := by
      have heq := Except.ok.inj h
      simp only [Prod.mk.injEq] at heq
      exact ⟨heq.1.symm, heq.2.1.symm, heq.2.2.symm⟩
    exact ⟨fun _ _ => ⟨rfl, rfl⟩, Or.inl ⟨rfl, ha⟩⟩
  | some f =>
    obtain ⟨⟨ret, s₁⟩, hcall, h⟩ := bind_eq_ok.mp h
    have hsame := hdrv.callOpen hcall
    have ha₁ : Accounts s₀ s₁ (dirent :: held) (inode :: iheld) :=
      hsame.accounts (Accounts.takeInode (Accounts.take ⟨ha.dentry, ha.inode⟩))
    -- the fields that were set, and those of the other files
    have hf : (s₁.file f).inode = inode ∧ (s₁.file f).dentry = dirent := by
      obtain ⟨hi, hd⟩ := hsame.files f
      rw [hi, hd]
      show (update s.file f _ f).inode = _ ∧ (update s.file f _ f).dentry = _
      rw [update_self]
      exact ⟨rfl, rfl⟩
    have hg : ∀ g, some f ≠ some g → (s₁.file g).inode = (s.file g).inode ∧
        (s₁.file g).dentry = (s.file g).dentry := by
      intro g hne
      obtain ⟨hi, hd⟩ := hsame.files g
      rw [hi, hd]
      show (update s.file f _ g).inode = _ ∧ (update s.file f _ g).dentry = _
      rw [update_of_ne fun hgf => hne (congrArg some hgf.symm)]
      exact ⟨rfl, rfl⟩
    simp only at h
    by_cases hret : ret ≠ vfsOk
    · rw [if_pos hret] at h
      have heq := Except.ok.inj h
      simp only [Prod.mk.injEq] at heq
      obtain ⟨_, hout, hs'⟩ := heq
      rw [hf.1] at hs'
      rw [← hs']
      exact ⟨hg, Or.inl ⟨hout.symm, ha₁.drop.dropInode⟩⟩
    · rw [if_neg hret] at h
      have heq := Except.ok.inj h
      simp only [Prod.mk.injEq] at heq
      obtain ⟨_, hout, rfl⟩ := heq
      exact ⟨hg, Or.inr ⟨f, rfl, hout.symm, hf.1, hf.2, ha₁⟩⟩

/-- `vfs_close` gives back the references of the file. -/
lemma KeepsRefs.vfsClose (hdrv : KeepsRefs drv) (h : vfsClose drv s f = .ok (status, s'))
    (ha : Accounts s₀ s ((s.file f).dentry :: held) ((s.file f).inode :: iheld)) :
    Accounts s₀ s' held iheld ∧ SameFiles s s' := by
  obtain ⟨⟨ret, s₁⟩, hcall, h⟩ := bind_eq_ok.mp h
  have hsame := hdrv.callClose hcall
  cases h
  obtain ⟨hi, hd⟩ := hsame.files f
  rw [hi, hd]
  exact ⟨(hsame.accounts ha).drop.dropInode, hsame.files⟩

/-! ## Runs -/

/-- The state, the walks of the calls of `vfs_open` with the states that they began in, the dentries
that they returned, and the open files. -/
structure FileRun where
  state : VfsState
  walks : List (WalkCall × VfsState)
  resolved : List ℕ
  openFiles : List ℕ

/-- One call, over any file system that leaves the references alone. `kmalloc` does not hand out the
memory of an open file. -/
inductive FileStep : FileRun → FileRun → Prop
  | openFile {r : FileRun} (c : WalkCall) {flags status : ℤ} {mem res out : Option ℕ}
      {s₁ s' : VfsState} (hdrv : KeepsRefs c.drv) (hmem : ∀ f, mem = some f → f ∉ r.openFiles)
      (hwalk : c.run r.state = .ok (res, s₁))
      (h : vfsOpen c.drv c.fuel r.state c.path c.wd flags c.copyMem mem = .ok (status, out, s')) :
      FileStep r ⟨s', (c, r.state) :: r.walks, res.toList ++ r.resolved, out.toList ++ r.openFiles⟩
  | closeFile {r : FileRun} {drv : Driver} {f : ℕ} {status : ℤ} {s' : VfsState}
      (hdrv : KeepsRefs drv) (hf : f ∈ r.openFiles)
      (h : vfsClose drv r.state f = .ok (status, s')) :
      FileStep r ⟨s', r.walks, r.resolved, r.openFiles.erase f⟩

/-- The runs from a state, with the files counted that were opened since. -/
def FileReachable (s₀ : VfsState) : FileRun → Prop :=
  Runs.Reachable (· = ⟨s₀, [], [], []⟩) FileStep

variable {r r' : FileRun}

/-- The dentries of the open files. -/
def FileRun.dentries (r : FileRun) : List ℕ := r.openFiles.map fun f => (r.state.file f).dentry

/-- The inodes of the open files. -/
def FileRun.inodes (r : FileRun) : List ℕ := r.openFiles.map fun f => (r.state.file f).inode

/-- Each resolved path and each open file has its references. -/
def FileInv (s₀ : VfsState) (r : FileRun) : Prop :=
  Accounts s₀ r.state (r.resolved ++ r.dentries) r.inodes

/-- The lists of an unchanged set of open files. -/
lemma dentries_congr (s' : VfsState) (walks : List (WalkCall × VfsState)) (resolved : List ℕ)
    {openFiles : List ℕ} (h : ∀ f ∈ openFiles, (s'.file f).inode = (s.file f).inode ∧
      (s'.file f).dentry = (s.file f).dentry) :
    (FileRun.mk s' walks resolved openFiles).dentries =
        openFiles.map (fun f => (s.file f).dentry) ∧
      (FileRun.mk s' walks resolved openFiles).inodes = openFiles.map fun f => (s.file f).inode :=
  ⟨map_congr_left fun f hf => (h f hf).2, map_congr_left fun f hf => (h f hf).1⟩

section
variable (h : FileInv s₀ r)
include h

/-- An open file among the others. -/
lemma FileInv.file_first (hf : f ∈ r.openFiles) :
    Accounts s₀ r.state
      ((r.state.file f).dentry ::
        (r.resolved ++ (r.openFiles.erase f).map fun g => (r.state.file g).dentry))
      ((r.state.file f).inode :: (r.openFiles.erase f).map fun g => (r.state.file g).inode) := by
  have hperm := perm_cons_erase hf
  apply Accounts.perm h
  · exact ((hperm.map fun g => (r.state.file g).dentry).append_left _).trans perm_middle
  · exact hperm.map fun g => (r.state.file g).inode

/-- `vfs_close`. -/
lemma FileInv.closeFile (hdrv : KeepsRefs drv) (hf : f ∈ r.openFiles)
    (hclose : vfsClose drv r.state f = .ok (status, s')) :
    FileInv s₀ ⟨s', r.walks, r.resolved, r.openFiles.erase f⟩ := by
  obtain ⟨ha, hfiles⟩ := hdrv.vfsClose hclose (h.file_first hf)
  have hsame := dentries_congr s' r.walks r.resolved fun g (_ : g ∈ r.openFiles.erase f) => hfiles g
  unfold FileInv
  rw [hsame.1, hsame.2]
  exact ha

/-- `vfs_open` after the walk. -/
lemma FileInv.openResolved (hdrv : KeepsRefs drv) {dirent inode : ℕ}
    (hmem : ∀ f, mem = some f → f ∉ r.openFiles)
    (hopen : openDentry drv r.state dirent inode flags mem = .ok (status, out, s')) :
    FileInv s₀ ⟨s', r.walks, r.resolved, out.toList ++ r.openFiles⟩ := by
  obtain ⟨hfiles, hout⟩ := hdrv.openDentry hopen h
  have hsame := dentries_congr s' r.walks r.resolved fun g (hg : g ∈ r.openFiles) =>
    hfiles g fun hm => hmem g hm hg
  obtain ⟨rfl, ha⟩ | ⟨f, _, rfl, hi, hd, ha⟩ := hout
  · unfold FileInv
    show Accounts s₀ s'
      (r.resolved ++ (FileRun.mk s' r.walks r.resolved r.openFiles).dentries)
      (FileRun.mk s' r.walks r.resolved r.openFiles).inodes
    rw [hsame.1, hsame.2]
    exact ha
  · -- the new file comes before the others
    show Accounts s₀ s'
      (r.resolved ++ (s'.file f).dentry :: (FileRun.mk s' r.walks r.resolved r.openFiles).dentries)
      ((s'.file f).inode :: (FileRun.mk s' r.walks r.resolved r.openFiles).inodes)
    rw [hsame.1, hsame.2, hi, hd]
    exact ha.perm perm_middle.symm (List.Perm.refl _)

/-- `vfs_open`. -/
lemma FileInv.openFile {c : WalkCall} (hdrv : KeepsRefs c.drv) {res : Option ℕ} {s₁ : VfsState}
    (hmem : ∀ f, mem = some f → f ∉ r.openFiles) (hwalk : c.run r.state = .ok (res, s₁))
    (hopen : vfsOpen c.drv c.fuel r.state c.path c.wd flags c.copyMem mem =
      .ok (status, out, s')) (walks : List (WalkCall × VfsState)) :
    FileInv s₀ ⟨s', walks, res.toList ++ r.resolved, out.toList ++ r.openFiles⟩ := by
  -- the walk leaves one more reference, to what it returned
  have hwalked : FileInv s₀ ⟨s₁, walks, res.toList ++ r.resolved, r.openFiles⟩ := by
    obtain ⟨ha, hfiles⟩ := (hdrv.walkInv s₀ r.state r.inodes).run _ hwalk ⟨h, fun _ => ⟨rfl, rfl⟩⟩
    have hsame := dentries_congr s₁ walks (res.toList ++ r.resolved)
      fun g (_ : g ∈ r.openFiles) => hfiles g
    unfold FileInv
    rw [hsame.1, hsame.2, append_assoc]
    exact ha
  obtain ⟨drv, fuel, path, wd, copyMem⟩ := c
  unfold WalkCall.run at hwalk
  cases path with
  | none =>
    have heq := Except.ok.inj hopen
    simp only [Prod.mk.injEq] at heq
    obtain ⟨_, rfl, rfl⟩ := heq
    cases hwalk
    exact h
  | some path =>
    obtain ⟨⟨res', s₁'⟩, hwalk', hopen⟩ := bind_eq_ok.mp hopen
    cases hwalk.symm.trans hwalk'
    cases res with
    | none =>
      have heq := Except.ok.inj hopen
      simp only [Prod.mk.injEq] at heq
      obtain ⟨_, rfl, rfl⟩ := heq
      exact hwalked
    | some dirent =>
      obtain ⟨inode, _, hopen⟩ := bind_eq_ok.mp hopen
      split_ifs at hopen
      · have heq := Except.ok.inj hopen
        simp only [Prod.mk.injEq] at heq
        obtain ⟨_, rfl, rfl⟩ := heq
        exact hwalked
      · exact hwalked.openResolved hdrv hmem hopen

/-- One call keeps the accounts. -/
lemma FileInv.step (hst : FileStep r r') : FileInv s₀ r' := by
  cases hst with
  | openFile c hdrv hmem hwalk hopen => exact h.openFile hdrv hmem hwalk hopen _
  | closeFile hdrv hf hclose => exact h.closeFile hdrv hf hclose

end

/-- All references of a run are accounted for. -/
lemma FileReachable.accounts (hr : FileReachable s₀ r) : FileInv s₀ r := by
  refine hr.invariant (fun r hstart => ?_) fun r r' h hst => h.step hst
  rw [hstart]
  exact ⟨fun d => (Int.add_zero _).symm, fun i => (Int.add_zero _).symm⟩

/-- The walks have returned, and the resolved dentries are what they returned. -/
def WalksInv (r : FileRun) : Prop :=
  (∀ w ∈ r.walks, ∃ res s', w.1.run w.2 = .ok (res, s')) ∧
    (r.resolved = [] ↔ ∀ w ∈ r.walks, ∃ s', w.1.run w.2 = .ok (none, s'))

/-- Every walk is recorded. -/
lemma FileReachable.walksInv (hr : FileReachable s₀ r) : WalksInv r := by
  refine hr.invariant (fun r hstart => ?_) fun r r' h hst => ?_
  · rw [hstart]
    exact ⟨forall_mem_nil _, iff_of_true rfl (forall_mem_nil _)⟩
  · cases hst with
    | closeFile => exact h
    | openFile c _ _ hwalk =>
      refine ⟨forall_mem_cons.mpr ⟨⟨_, _, hwalk⟩, h.1⟩, ?_⟩
      rw [forall_mem_cons, append_eq_nil_iff, h.2]
      refine and_congr_left fun _ => ⟨fun hnil => ?_, fun ⟨s', hnone⟩ => ?_⟩
      · rw [Option.toList_eq_nil_iff.mp hnil] at hwalk
        exact ⟨_, hwalk⟩
      · rw [(Prod.mk.inj (Except.ok.inj (hwalk.symm.trans hnone))).1]
        rfl

/-- The reference counts are the initial ones plus the number of open files. -/
structure Balanced (s₀ : VfsState) (r : FileRun) : Prop where
  dentry : ∀ d, (r.state.dentry d).refcount =
    (s₀.dentry d).refcount + r.openFiles.countP fun f => (r.state.file f).dentry = d
  inode : ∀ i, (r.state.inode i).refcount =
    (s₀.inode i).refcount + r.openFiles.countP fun f => (r.state.file f).inode = i

lemma count_map_eq_countP (l : List ℕ) (g : ℕ → ℕ) (a : ℕ) :
    (l.map g).count a = l.countP fun f => g f = a := by
  unfold List.count
  rw [countP_map]
  congr 1

/-- The path leads somewhere, and is none of those that `path_walk` gives up. -/
def Found {ν : Type*} (T : Tree ν) (path : CString) : Prop :=
  ∃ m, resolve T path = some m ∧ ¬([slash, slash] <:+ path ∧ T.isDir m = false)

/-- A walk without a working directory, over a cache and a file system that answer according to the
tree. -/
structure OnTree {ν : Type*} (T : Tree ν) (I : VfsState → Prop) (Rep : VfsState → ℕ → ν → Prop)
    (w : WalkCall × VfsState) : Prop where
  serves : Serves T w.1.drv w.1.fuel I Rep
  inv : I w.2
  wd : w.1.wd = none
  copyMem : w.1.copyMem = true

/-- In a tree a walk returns nothing if and only if its path is not found. -/
lemma OnTree.none_iff {ν : Type*} {T : Tree ν} {I : VfsState → Prop}
    {Rep : VfsState → ℕ → ν → Prop} {w : WalkCall × VfsState} (h : OnTree T I Rep w) :
    (∃ s', w.1.run w.2 = .ok (none, s')) ↔ ∀ path, w.1.path = some path → ¬Found T path := by
  obtain ⟨⟨drv, fuel, path, wd, copyMem⟩, s⟩ := w
  obtain ⟨hserves, hinv, rfl, rfl⟩ := h
  cases path with
  | none => exact iff_of_true ⟨s, rfl⟩ fun _ hpath => absurd hpath (by simp)
  | some path =>
    obtain ⟨r, s', hrun, hnull, hfound⟩ := hserves.pathWalk hinv path
    have hsame : (∃ s', WalkCall.run ⟨drv, fuel, some path, none, true⟩ s = .ok (none, s')) ↔
        r = none := by
      constructor
      · rintro ⟨s'', hnone⟩
        exact (Prod.mk.inj (Except.ok.inj (hrun.symm.trans hnone))).1
      · rintro rfl
        exact ⟨s', hrun⟩
    rw [hsame]
    constructor
    · rintro rfl path' hpath ⟨m, hm, hnot⟩
      cases hpath
      have hrel := hfound fun ⟨hsuffix, m', hm', hfile⟩ =>
        hnot ⟨hsuffix, Option.some.inj (hm'.symm.trans hm) ▸ hfile⟩
      rw [show resolveFrom T T.root path = some m from hm] at hrel
      cases hrel
    · intro hnot
      by_cases htwo : FileTwoSlashes T T.root path
      · exact hnull htwo
      · have hrel := hfound htwo
        cases hres : resolveFrom T T.root path with
        | none =>
          rw [hres] at hrel
          cases hrel
          rfl
        | some m =>
          exact absurd ⟨m, hres, fun h => htwo ⟨h.1, m, hres, h.2⟩⟩ (hnot path rfl)

/-- The references are in balance if and only if no `vfs_open` has found its path: the reference
that `path_walk` returns with is never given back. In a tree this means that no path that was opened
leads anywhere, but for those that `path_walk` gives up. -/
theorem references_balance_iff {ν : Type*} {T : Tree ν} {I : VfsState → Prop}
    {Rep : VfsState → ℕ → ν → Prop} (hr : FileReachable s₀ r) :
    (Balanced s₀ r ↔ r.resolved = []) ∧
      ((∀ w ∈ r.walks, OnTree T I Rep w) →
        (Balanced s₀ r ↔ ∀ w ∈ r.walks, ∀ path, w.1.path = some path → ¬Found T path)) := by
  have hacc := hr.accounts
  have hbalanced : Balanced s₀ r ↔ r.resolved = [] := by
    constructor
    · intro hbal
      apply eq_nil_iff_forall_not_mem.mpr
      intro d hd
      have hpos := count_pos_iff.mpr hd
      have hdentry := hacc.dentry d
      have hfiles : r.dentries.count d = _ := count_map_eq_countP r.openFiles _ d
      rw [hbal.dentry d, count_append, hfiles] at hdentry
      omega
    · intro hres
      constructor
      · intro d
        rw [hacc.dentry d, hres, nil_append]
        congr 2
        exact count_map_eq_countP r.openFiles _ d
      · intro i
        rw [hacc.inode i]
        congr 2
        exact count_map_eq_countP r.openFiles _ i
  refine ⟨hbalanced, fun htree => ?_⟩
  rw [hbalanced, hr.walksInv.2]
  exact forall₂_congr fun w hw => (htree w hw).none_iff

/-! ## The root directory, opened and closed -/

lemma emptyDriver_keepsRefs : KeepsRefs emptyDriver := by
  constructor
  · intro s s' dir name r h
    cases h
    exact SameRefs.rfl
  · intro s s' inode file status h
    cases h
    exact SameRefs.rfl
  · intro s s' inode file status h
    cases h
    exact SameRefs.rfl

/-- A walk along `/..` comes back to the root. -/
theorem path_walk_references_root :
    ∃ s', pathWalk emptyDriver 1 twoDirectories (some [slash, dot, dot]) none true =
        .ok (some 1, s') ∧
      (s'.dentry 1).refcount = (twoDirectories.dentry 1).refcount + 1 ∧
      (s'.dentry 2).refcount = (twoDirectories.dentry 2).refcount := by
  have hwalk : WalkCall.run ⟨emptyDriver, 1, some [slash, dot, dot], none, true⟩ twoDirectories =
      .ok (some 1, ((twoDirectories.addRef 1 1).addRef 1 1).addRef 1 (-1)) := rfl
  have hrefs := (path_walk_references hwalk).1 (forall_mem_nil _)
  exact ⟨_, hwalk, hrefs 1 (by decide), hrefs 2 (by decide)⟩

/-- The walk of a `vfs_open` of `/e`, which is not there. -/
def missedWalk : WalkCall := ⟨emptyDriver, 2, some [slash, 101], none, true⟩

/-- After that call. -/
def missed : FileRun :=
  ⟨(fileInRoot.addRef 1 1).addRef 1 (-1), [(missedWalk, fileInRoot)], [], []⟩

theorem references_balance_missed : Balanced fileInRoot missed := by
  have hopen : vfsOpen emptyDriver 2 fileInRoot (some [slash, 101]) none 0 true (some 7) =
      .ok (vfsEnoent, none, missed.state) := rfl
  have hwalk : missedWalk.run fileInRoot = .ok (none, missed.state) := rfl
  have hmem : ∀ f, some 7 = some f → f ∉ ([] : List ℕ) := fun _ _ => not_mem_nil
  have hstart : FileReachable fileInRoot ⟨fileInRoot, [], [], []⟩ := .init rfl
  have hr := hstart.step (.openFile missedWalk emptyDriver_keepsRefs hmem hwalk hopen)
  have htree : ∀ w ∈ [(missedWalk, fileInRoot)], OnTree fileTree IsFileInRoot IsNode w := by
    rw [forall_mem_singleton]
    exact ⟨fileInRoot_serves, isFileInRoot_self, rfl, rfl⟩
  refine ((references_balance_iff hr).2 htree).mpr ?_
  rw [forall_mem_singleton]
  rintro path hpath ⟨m, hm, -⟩
  cases hpath
  have hnone : resolve fileTree [slash, 101] = none := rfl
  rw [hnone] at hm
  cases hm

/-- After `vfs_open` of `/`. -/
def rootOpened : FileRun :=
  ⟨(((twoDirectories.addRef 1 1).setFile 7 ⟨1, 1, 0, 0, 0, none⟩).addRef 1 1).addInodeRef 1 1,
    [(⟨emptyDriver, 1, some [slash], none, true⟩, twoDirectories)], [1], [7]⟩

/-- After `vfs_close` of that file. -/
def rootClosed : FileRun :=
  ⟨(rootOpened.state.addRef 1 (-1)).addInodeRef 1 (-1), rootOpened.walks, [1], []⟩

lemma rootClosed_reachable : FileReachable twoDirectories rootClosed := by
  have hopen : vfsOpen emptyDriver 1 twoDirectories (some [slash]) none 0 true (some 7) =
      .ok (vfsOk, some 7, rootOpened.state) := rfl
  have hwalk : WalkCall.run ⟨emptyDriver, 1, some [slash], none, true⟩ twoDirectories =
      .ok (some 1, twoDirectories.addRef 1 1) := rfl
  have hclose : vfsClose emptyDriver rootOpened.state 7 = .ok (vfsOk, rootClosed.state) := rfl
  have hmem : ∀ f, some 7 = some f → f ∉ ([] : List ℕ) := fun _ _ => not_mem_nil
  have hstart : FileReachable twoDirectories ⟨twoDirectories, [], [], []⟩ := .init rfl
  have hstep := FileStep.openFile (r := ⟨twoDirectories, [], [], []⟩) _ emptyDriver_keepsRefs hmem
    hwalk hopen
  have hopened : FileReachable twoDirectories rootOpened := hstart.step hstep
  have h7 : 7 ∈ rootOpened.openFiles := mem_singleton.mpr rfl
  exact hopened.step (FileStep.closeFile emptyDriver_keepsRefs h7 hclose)

/-- No file is open, and the root has one reference more than at the beginning. -/
theorem open_leaks_reference :
    FileReachable twoDirectories rootClosed ∧ rootClosed.openFiles = [] ∧
      (twoDirectories.dentry 1).refcount = 1 ∧ (rootClosed.state.dentry 1).refcount = 2 ∧
      ¬Balanced twoDirectories rootClosed := by
  refine ⟨rootClosed_reachable, rfl, rfl, rfl, fun hbal => ?_⟩
  have hroot := hbal.dentry 1
  exact absurd hroot (by decide)

end LunOS.Vfs
