import LunOS.Ds.Lists
import LunOS.Klib.Strings
import LunOS.Utils.Buckets
import Mathlib.Algebra.Ring.Nat

/-!
# The virtual file system

`vfs.c` and the dentry cache of `dentry_cache.c`. Dentries, inodes and open files are known by their
addresses; the hash chains are the pointers `d_hash_next` of the dentries, as in the source. The
operations of a file system are a parameter. Functions that allocate take the results of `kmalloc`.

Reference counts are integers that do not overflow.

A function that reads through a `NULL` pointer stops with `fault`. The loops over hash chains take a
number of turns and stop with `hang` when it does not suffice: a chain may be circular.
Mount points, and the fields that none of these functions reads, are left out.
-/

namespace LunOS.Vfs
open LunOS.Ds LunOS.Klib LunOS.Buckets Function

/-- Why a call does not return. -/
inductive Stop
  | fault
  | hang
deriving DecidableEq

/-! ## State -/

/-- Which operations of `struct file_operations` are there. -/
structure FileOperations where
  hasOpen : Bool
  hasClose : Bool
deriving DecidableEq

/-- `struct inode` -/
structure Inode where
  inodeNumber : UInt64
  mode : ℕ
  refcount : ℤ
  fOps : Option FileOperations

/-- `struct dentry` -/
structure Dentry where
  name : CString
  inode : Option ℕ
  parent : Option ℕ
  refcount : ℤ
  flags : ℤ
  dHashNext : Option ℕ

/-- `struct file`; `dentry` is `fpath.dentry`. -/
structure File where
  inode : ℕ
  dentry : ℕ
  offset : ℤ
  flags : ℤ
  mode : ℤ
  fOps : Option FileOperations

/-- The list nodes of a dentry. -/
inductive Node
  | children (d : ℕ)
  | siblings (d : ℕ)
deriving DecidableEq

/-- `DENTRY_HASH_SIZE` -/
def dentryHashSize : ℕ := 256

instance : NeZero dentryHashSize := ⟨by decide⟩

abbrev Bucket := Fin dentryHashSize

/-- `table` is `dentry_hash_table`; `live` records the dentries that `alloc_dentry` has returned and
`free_dentry` has not taken back. -/
structure VfsState where
  dentry : ℕ → Dentry
  inode : ℕ → Inode
  file : ℕ → File
  table : Bucket → Option ℕ
  lists : ListHeap Node
  rootDentry : Option ℕ
  live : List ℕ

namespace VfsState

def setDentry (s : VfsState) (d : ℕ) (r : Dentry) : VfsState :=
  { s with dentry := update s.dentry d r }

def setInode (s : VfsState) (i : ℕ) (r : Inode) : VfsState :=
  { s with inode := update s.inode i r }

def setFile (s : VfsState) (f : ℕ) (r : File) : VfsState :=
  { s with file := update s.file f r }

/-- `d->refcount += k`. -/
def addRef (s : VfsState) (d : ℕ) (k : ℤ) : VfsState :=
  s.setDentry d { s.dentry d with refcount := (s.dentry d).refcount + k }

/-- `i->refcount += k`. -/
def addInodeRef (s : VfsState) (i : ℕ) (k : ℤ) : VfsState :=
  s.setInode i { s.inode i with refcount := (s.inode i).refcount + k }

/-- `d->inode`, where the source goes on to read from it. -/
def inodeOf (s : VfsState) (d : ℕ) : Except Stop ℕ :=
  match (s.dentry d).inode with
  | none => .error .fault
  | some i => .ok i

end VfsState

/-- The operations of a file system, on the state of the kernel. -/
structure Driver where
  lookup : VfsState → (dir : ℕ) → CString → Except Stop (Option ℕ × VfsState)
  fopen : VfsState → (inode file : ℕ) → Except Stop (ℤ × VfsState)
  fclose : VfsState → (inode file : ℕ) → Except Stop (ℤ × VfsState)

/-! ## `dentry_cache.c` -/

/-- The three lines of `hash_function` that mix in a byte. -/
def hashByte (hash byte : UInt64) : UInt64 :=
  let hash := hash + byte
  let hash := hash + (hash <<< 10)
  hash ^^^ (hash >>> 6)

/-- `hash_function` -/
def hashFunction (parentInodeNum : UInt64) (key : CString) : UInt64 :=
  let hash := (List.range 8).foldl
    (fun hash i => hashByte hash ((parentInodeNum >>> UInt64.ofNat (i * 8)) &&& 0xFF)) 0
  let hash := key.foldl (fun hash c => hashByte hash c.toUInt64) hash
  let hash := hash + (hash <<< 3)
  let hash := hash ^^^ (hash >>> 11)
  hash + (hash <<< 15)

/-- The bucket of a name in a directory with that inode number. -/
def hashBucket (parentInodeNum : UInt64) (name : CString) : Bucket :=
  Fin.ofNat dentryHashSize (hashFunction parentInodeNum name).toNat

/-- `dentry_ht_bucket`, which reads the inode of the parent. -/
def dentryHtBucket (s : VfsState) (parent : Option ℕ) (name : CString) : Except Stop Bucket :=
  match parent with
  | none => .ok (hashBucket 0 name)
  | some p =>
    match s.inodeOf p with
    | .error e => .error e
    | .ok i => .ok (hashBucket (s.inode i).inodeNumber name)

/-- `dcache_init` -/
def dcacheInit (s : VfsState) : VfsState := { s with table := fun _ => none }

/-- Link the entry at the head of a bucket. -/
def linkBucket (s : VfsState) (entry : ℕ) (bucket : Bucket) : VfsState :=
  { s.setDentry entry { s.dentry entry with dHashNext := s.table bucket } with
    table := update s.table bucket (some entry) }

/-- `dcache_add` -/
def dcacheAdd (s : VfsState) (entry : ℕ) : Except Stop VfsState :=
  match dentryHtBucket s (s.dentry entry).parent (s.dentry entry).name with
  | .error e => .error e
  | .ok bucket => .ok (linkBucket s entry bucket)

/-- `*current` of a `struct dentry **current`, which points to the head of a bucket or to the link in
a dentry. -/
def VfsState.readLink (s : VfsState) : Link ℕ Bucket → Option ℕ
  | .head b => s.table b
  | .next d => (s.dentry d).dHashNext

/-- `*current = p`. -/
def VfsState.writeLink (s : VfsState) (p : Option ℕ) : Link ℕ Bucket → VfsState
  | .head b => { s with table := update s.table b p }
  | .next d => s.setDentry d { s.dentry d with dHashNext := p }

/-- The loop of `dcache_remove`. -/
def removeLoop (s : VfsState) (name : CString) : ℕ → Link ℕ Bucket → Except Stop VfsState
  | 0, _ => .error .hang
  | fuel + 1, current =>
    match s.readLink current with
    | none => .ok s
    | some d =>
      if (s.dentry d).name = name then .ok (s.writeLink (s.dentry d).dHashNext current)
      else removeLoop s name fuel (.next d)

/-- `dcache_remove` -/
def dcacheRemove (fuel : ℕ) (s : VfsState) (entry : ℕ) : Except Stop VfsState :=
  match dentryHtBucket s (s.dentry entry).parent (s.dentry entry).name with
  | .error e => .error e
  | .ok bucket => removeLoop s (s.dentry entry).name fuel (.head bucket)

/-- The loop of `dcache_lookup`. -/
def lookupLoop (s : VfsState) (name : CString) : ℕ → Option ℕ → Except Stop (Option ℕ)
  | 0, _ => .error .hang
  | _ + 1, none => .ok none
  | fuel + 1, some d =>
    if (s.dentry d).name = name then .ok (some d) else lookupLoop s name fuel (s.dentry d).dHashNext

/-- `dcache_lookup` for pointers that are not `NULL`. -/
def dcacheLookup (fuel : ℕ) (s : VfsState) (parent : ℕ) (name : CString) :
    Except Stop (Option ℕ) :=
  match dentryHtBucket s (some parent) name with
  | .error e => .error e
  | .ok bucket => lookupLoop s name fuel (s.table bucket)

/-! ## Dentries -/

/-- `DENTRY_NAME_MAX_LENGTH` -/
def dentryNameMaxLength : ℕ := 255

/-- The lists that `alloc_dentry` leaves. -/
def allocLists (h : ListHeap Node) (d : ℕ) (parent : Option ℕ) : ListHeap Node :=
  let h := listInit (listInit h (.children d)) (.siblings d)
  match parent with
  | none => h
  | some p => listAddTail h (.siblings d) (.children p)

/-- `alloc_dentry`, with the results of its two calls of `kmalloc`. The field `inode` keeps what the
memory held. -/
def allocDentry (s : VfsState) (mem : Option ℕ) (nameMem : Bool) (parent : Option ℕ)
    (name : CString) : Except Stop (Option ℕ × VfsState) :=
  match mem with
  | none => .ok (none, s)
  | some d =>
    if nameMem = false then .ok (none, s)
    else
      let s := { s.setDentry d { s.dentry d with
        name := kstrndup name dentryNameMaxLength, parent := parent, refcount := 1, flags := 0 } with
        lists := allocLists s.lists d parent
        live := d :: s.live }
      match dcacheAdd s d with
      | .error e => .error e
      | .ok s => .ok (some d, s)

/-- `instantiate_dentry` -/
def instantiateDentry (s : VfsState) (entry iNode : ℕ) : VfsState :=
  (s.setDentry entry { s.dentry entry with inode := some iNode }).addInodeRef iNode 1

/-- `if(d->inode) d->inode->refcount--`. -/
def dropInode (s : VfsState) (d : ℕ) : VfsState :=
  match (s.dentry d).inode with
  | none => s
  | some i => s.addInodeRef i (-1)

/-- `free_dentry`; the memory goes back to `kfree`. The dentry stays on its parent's list. -/
def freeDentry (fuel : ℕ) (s : VfsState) (d : ℕ) : Except Stop VfsState :=
  match dcacheRemove fuel (dropInode s d) d with
  | .error e => .error e
  | .ok s => .ok { s with live := s.live.erase d }

/-! ## `path_walk` -/

/-- `S_ISDIR` -/
def isDirectory (mode : ℕ) : Bool := mode &&& 0o170000 = 0o040000

def slash : UInt8 := 47
def dot : UInt8 := 46

/-- `struct path`. -/
structure Path where
  dentry : Option ℕ

/-- Where a walk starts: the working directory if there is one, also for absolute paths. -/
def startDentry (s : VfsState) (wdPath : Option Path) : Option ℕ :=
  match wdPath with
  | some ⟨some d⟩ => some d
  | _ => s.rootDentry

/-- `parent->parent ? parent->parent : parent`. -/
def prevDir (s : VfsState) (parent : ℕ) : ℕ := (s.dentry parent).parent.getD parent

/-- The cache is asked first, then the file system; what that finds is put into the cache. -/
def lookupChild (drv : Driver) (fuel : ℕ) (s : VfsState) (parent : ℕ) (token : CString) :
    Except Stop (Option ℕ × VfsState) := do
  match ← dcacheLookup fuel s parent token with
  | some current => .ok (some current, s)
  | none =>
    let dir ← s.inodeOf parent
    match ← drv.lookup s dir token with
    | (none, s) => .ok (none, s)
    | (some current, s) =>
      let s ← dcacheAdd s current
      .ok (some current, s)

/-- What a turn of the loop does: go on from a directory, or return. -/
inductive WalkTurn
  | go (parent : ℕ)
  | ret (dentry : Option ℕ)

/-- The part of a turn for a name. `last` says that `*saveptr` is the terminator. -/
def enterChild (drv : Driver) (fuel : ℕ) (s : VfsState) (parent : ℕ) (token : CString)
    (last : Bool) : Except Stop (WalkTurn × VfsState) := do
  match ← lookupChild drv fuel s parent token with
  | (none, s) => .ok (.ret none, s.addRef parent (-1))
  | (some current, s) =>
    if last then .ok (.ret (some current), (s.addRef parent (-1)).addRef current 1)
    else
      let i ← s.inodeOf current
      if isDirectory (s.inode i).mode = false then .ok (.ret none, s.addRef parent (-1))
      else .ok (.go current, (s.addRef parent (-1)).addRef current 1)

/-- One turn of the loop of `path_walk`. -/
def walkTurn (drv : Driver) (fuel : ℕ) (s : VfsState) (parent : ℕ) (token : CString) (last : Bool) :
    Except Stop (WalkTurn × VfsState) :=
  if token = [] then .ok (.go parent, s)
  else if token = [dot] then .ok (.go parent, s)
  else if token = [dot, dot] then
    let prev := prevDir s parent
    .ok (.go prev, (s.addRef prev 1).addRef parent (-1))
  else enterChild drv fuel s parent token last

/-- The loop of `path_walk`. A path has at most one token more than it has bytes, which bounds the
turns. -/
def walkLoop (drv : Driver) (fuel : ℕ) :
    ℕ → VfsState → ℕ → Option CString × Option CString → Except Stop (Option ℕ × VfsState)
  | _, s, parent, (none, _) => .ok (some parent, s)
  | 0, _, _, (some _, _) => .error .hang
  | turns + 1, s, parent, (some token, saveptr) => do
    match ← walkTurn drv fuel s parent token (saveptr = some []) with
    | (.ret res, s) => .ok (res, s)
    | (.go parent, s) => walkLoop drv fuel turns s parent (kstrtokR none [slash] saveptr)

/-- `path_walk` from where it takes the first reference; `path` is without the leading slash. When
there is no memory for the copy of the path, `kstrtok_r` reads `saveptr` before it is set. -/
def walkFrom (drv : Driver) (fuel : ℕ) (s : VfsState) (parent : ℕ) (path : CString)
    (copyMem : Bool) : Except Stop (Option ℕ × VfsState) :=
  let s := s.addRef parent 1
  if copyMem = false then .error .fault
  else
    let copy := kstrndup path path.length
    walkLoop drv fuel (path.length + 1) s parent (kstrtokR (some copy) [slash] none)

/-- `path_walk` behind the choice of the directory to start from. -/
def walkPath (drv : Driver) (fuel : ℕ) (s : VfsState) (parent : ℕ) (path : CString)
    (copyMem : Bool) : Except Stop (Option ℕ × VfsState) :=
  if path = [dot, dot] then
    let prev := prevDir s parent
    .ok (some prev, s.addRef prev 1)
  else if path = [dot] then .ok (some parent, s.addRef parent 1)
  else if path.head? = some slash then walkFrom drv fuel s parent path.tail copyMem
  else walkFrom drv fuel s parent path copyMem

/-- `path_walk` -/
def pathWalk (drv : Driver) (fuel : ℕ) (s : VfsState) (absPath : Option CString)
    (wdPath : Option Path) (copyMem : Bool) : Except Stop (Option ℕ × VfsState) :=
  match absPath with
  | none => .ok (none, s)
  | some path =>
    if path = [slash] then
      match s.rootDentry with
      | none => .error .fault
      | some root => .ok (some root, s.addRef root 1)
    else
      match startDentry s wdPath with
      | none => .error .fault
      | some parent => walkPath drv fuel s parent path copyMem

/-! ## Files -/

def vfsOk : ℤ := 0
def vfsEnoent : ℤ := -1
def vfsEnomem : ℤ := -2
def vfsEinval : ℤ := -3
def vfsEisdir : ℤ := -5

/-- The call of the file system's `open`, where there is one. -/
def callOpen (drv : Driver) (s : VfsState) (f : ℕ) : Except Stop (ℤ × VfsState) :=
  match (s.file f).fOps with
  | none => .ok (vfsOk, s)
  | some ops => if ops.hasOpen then drv.fopen s (s.file f).inode f else .ok (vfsOk, s)

/-- `vfs_open` from the call of `kmalloc` on: the status, and the file that `file_out` is set to. -/
def openDentry (drv : Driver) (s : VfsState) (dirent inode : ℕ) (flags : ℤ) (mem : Option ℕ) :
    Except Stop (ℤ × Option ℕ × VfsState) :=
  match mem with
  | none => .ok (vfsEnomem, none, s)
  | some f => do
    let s := s.setFile f ⟨inode, dirent, 0, flags, 0, (s.inode inode).fOps⟩
    let s := (s.addRef dirent 1).addInodeRef inode 1
    let (status, s) ← callOpen drv s f
    if status ≠ vfsOk then
      .ok (status, none, (s.addRef dirent (-1)).addInodeRef (s.file f).inode (-1))
    else .ok (vfsOk, some f, s)

/-- `vfs_open` for a `file_out` that is not `NULL`. Note the test: what is no directory gets
`VFS_EISDIR`. -/
def vfsOpen (drv : Driver) (fuel : ℕ) (s : VfsState) (absPath : Option CString) (wd : Option Path)
    (flags : ℤ) (copyMem : Bool) (mem : Option ℕ) : Except Stop (ℤ × Option ℕ × VfsState) :=
  match absPath with
  | none => .ok (vfsEinval, none, s)
  | some path => do
    match ← pathWalk drv fuel s (some path) wd copyMem with
    | (none, s) => .ok (vfsEnoent, none, s)
    | (some dirent, s) =>
      let inode ← s.inodeOf dirent
      if isDirectory (s.inode inode).mode = false then .ok (vfsEisdir, none, s)
      else openDentry drv s dirent inode flags mem

/-- The call of the file system's `close`; some have none. -/
def callClose (drv : Driver) (s : VfsState) (f : ℕ) : Except Stop (ℤ × VfsState) :=
  match (s.file f).fOps with
  | none => .ok (vfsOk, s)
  | some ops => if ops.hasClose then drv.fclose s (s.file f).inode f else .ok (vfsOk, s)

/-- `vfs_close` of a file; its memory goes back to `kfree`. -/
def vfsClose (drv : Driver) (s : VfsState) (f : ℕ) : Except Stop (ℤ × VfsState) := do
  let (status, s) ← callClose drv s f
  .ok (status, (s.addRef (s.file f).dentry (-1)).addInodeRef (s.file f).inode (-1))

/-! ## Sequencing -/

/-- Both parts of a sequence return. -/
lemma bind_eq_ok {α β : Type} {x : Except Stop α} {f : α → Except Stop β} {b : β} :
    (x >>= f) = .ok b ↔ ∃ a, x = .ok a ∧ f a = .ok b := by
  cases x with
  | error e =>
    constructor
    · intro h
      exact absurd h (by simp [bind, Except.bind])
    · rintro ⟨a, ha, _⟩
      cases ha
  | ok a =>
    constructor
    · exact fun h => ⟨a, rfl, h⟩
    · rintro ⟨a', ha, h⟩
      cases ha
      exact h

end LunOS.Vfs
