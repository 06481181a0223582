import LunOS.Vfs.PathWalk

/-!
# Opening what a walk has found

`vfs_open` tests whether the dentry that `path_walk` found is a directory, and turns down what is
none: the test is negated. So its answer is never the one that the name `VFS_EISDIR` promises.

- `vfsOpen_directory`, `vfsOpen_other`: what it returns.
- `vfs_open_never`: neither is as expected.
-/

namespace LunOS.Vfs
open LunOS.Klib

variable {drv : Driver} {fuel : ℕ} {s s₁ : VfsState} {path : CString} {wd : Option Path} {flags : ℤ}
  {copyMem : Bool} {d i f : ℕ}

/-- The file system's `open` succeeds. -/
def OpenSucceeds (drv : Driver) : Prop := ∀ s inode file, ∃ s', drv.fopen s inode file = .ok (vfsOk, s')

/-- What is expected of an open of the dentry `d` with the inode `i`, in the state that the walk has
left: a directory is refused, and everything else gets a file. -/
def OpensFiles (s : VfsState) (d i : ℕ) (status : ℤ) (out : Option ℕ) (s' : VfsState) : Prop :=
  if isDirectory (s.inode i).mode then status = vfsEisdir
  else status = vfsOk ∧ ∃ f, out = some f ∧ (s'.file f).inode = i ∧ (s'.file f).dentry = d ∧
    (s'.file f).fOps = (s.inode i).fOps ∧ (s'.file f).offset = 0

lemma callOpen_succeeds (hdrv : OpenSucceeds drv) (s : VfsState) (f : ℕ) :
    ∃ s', callOpen drv s f = .ok (vfsOk, s') := by
  unfold callOpen
  cases (s.file f).fOps with
  | none => exact ⟨s, rfl⟩
  | some ops =>
    simp only
    split_ifs
    · exact hdrv s _ f
    · exact ⟨s, rfl⟩

/-- The file is opened. -/
lemma openDentry_succeeds (hdrv : OpenSucceeds drv) (s : VfsState) (d i : ℕ) (flags : ℤ) (f : ℕ) :
    ∃ s', openDentry drv s d i flags (some f) = .ok (vfsOk, some f, s') := by
  have hcall := callOpen_succeeds hdrv
    (((s.setFile f ⟨i, d, 0, flags, 0, (s.inode i).fOps⟩).addRef d 1).addInodeRef i 1) f
  obtain ⟨s', hs'⟩ := hcall
  refine ⟨s', bind_eq_ok.mpr ⟨(vfsOk, s'), hs', ?_⟩⟩
  simp

/-- Behind a walk that has found something. -/
lemma vfsOpen_found {mem : Option ℕ}
    (hwalk : pathWalk drv fuel s (some path) wd copyMem = .ok (some d, s₁))
    (hi : (s₁.dentry d).inode = some i) :
    vfsOpen drv fuel s (some path) wd flags copyMem mem =
      if isDirectory (s₁.inode i).mode then openDentry drv s₁ d i flags mem
      else .ok (vfsEisdir, none, s₁) := by
  have hinode : s₁.inodeOf d = .ok i := by
    unfold VfsState.inodeOf
    rw [hi]
  show (pathWalk drv fuel s (some path) wd copyMem >>= _) = _
  rw [hwalk]
  show (s₁.inodeOf d >>= _) = _
  rw [hinode]
  show (if isDirectory (s₁.inode i).mode = false then _ else _) = _
  by_cases hdir : isDirectory (s₁.inode i).mode = true
  · rw [if_pos hdir, if_neg (by simp [hdir])]
  · rw [if_neg hdir, if_pos (by simpa using hdir)]

/-- For whatever a walk has found, with memory for the file and a file system whose `open` succeeds,
`vfs_open` returns, and what it returns is not as expected. -/
theorem vfs_open_never (hdrv : OpenSucceeds drv)
    (hwalk : pathWalk drv fuel s (some path) wd copyMem = .ok (some d, s₁))
    (hi : (s₁.dentry d).inode = some i) :
    ∃ status out s', vfsOpen drv fuel s (some path) wd flags copyMem (some f) =
      .ok (status, out, s') ∧ ¬OpensFiles s₁ d i status out s' := by
  rw [vfsOpen_found hwalk hi]
  unfold OpensFiles
  by_cases hdir : isDirectory (s₁.inode i).mode = true
  · -- a directory is opened
    obtain ⟨s', hs'⟩ := openDentry_succeeds hdrv s₁ d i flags f
    refine ⟨vfsOk, some f, s', (if_pos hdir).trans hs', ?_⟩
    rw [if_pos hdir]
    decide
  · refine ⟨vfsEisdir, none, s₁, if_neg hdir, ?_⟩
    rw [if_neg hdir]
    rintro ⟨hstatus, -⟩
    exact absurd hstatus (by decide)

/-! ## A directory with a file -/

lemma emptyDriver_openSucceeds : OpenSucceeds emptyDriver := fun s _ _ => ⟨s, rfl⟩

/-- The root directory 1 with the regular file 2, named `d`. -/
def fileInRoot : VfsState :=
  { linkBucket twoDirectories 2 (hashBucket 1 [100]) with
    inode := fun i => ⟨UInt64.ofNat i, if i = 2 then 0o100644 else 0o040755, 1, none⟩ }

theorem vfs_open_never_root :
    ∃ status out s', vfsOpen emptyDriver 2 fileInRoot (some [slash]) none 0 true (some 7) =
      .ok (status, out, s') ∧ ¬OpensFiles (fileInRoot.addRef 1 1) 1 1 status out s' := by
  have hwalk : pathWalk emptyDriver 2 fileInRoot (some [slash]) none true =
      .ok (some 1, fileInRoot.addRef 1 1) := rfl
  exact vfs_open_never emptyDriver_openSucceeds hwalk rfl

/-- The root directory is opened, and the file is refused. -/
theorem vfs_open_refuses_file :
    (∃ s', vfsOpen emptyDriver 2 fileInRoot (some [slash]) none 0 true (some 7) =
        .ok (vfsOk, some 7, s') ∧ ¬OpensFiles (fileInRoot.addRef 1 1) 1 1 vfsOk (some 7) s') ∧
      ∃ s', pathWalk emptyDriver 2 fileInRoot (some [slash, 100]) none true = .ok (some 2, s') ∧
        vfsOpen emptyDriver 2 fileInRoot (some [slash, 100]) none 0 true (some 7) =
          .ok (vfsEisdir, none, s') ∧ ¬OpensFiles s' 2 2 vfsEisdir none s' := by
  refine ⟨⟨_, rfl, fun hopens => ?_⟩, _, rfl, rfl, fun hopens => ?_⟩
  · have hstatus : vfsOk = vfsEisdir := hopens
    exact absurd hstatus (by decide)
  · have hstatus : vfsEisdir = vfsOk := hopens.1
    exact absurd hstatus (by decide)

end LunOS.Vfs
