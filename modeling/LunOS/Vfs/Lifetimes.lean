import LunOS.Vfs.PathWalk
import LunOS.Vfs.Removal
import Mathlib.Data.List.Perm.Subperm

/-!
# Dentries and inodes from `kmalloc` to `kfree`

`alloc_dentry` and `free_dentry`, `alloc_inode` and `free_inode`, with the blocks that are obtained
from `kmalloc` and passed to `kfree`. The constructors leave some pointers as the memory held them:
`inode` of a dentry, and `i_ops`, `f_ops` and `private_data` of an inode. The destructors follow
these. And `free_dentry` leaves the dentry on the list of its parent's children.

- `dentryRoundTrip_spec`: what is left of a dentry that was allocated and freed.
- `free_undoes_alloc_iff`: when everything else is as before.
-/

namespace LunOS.Vfs
open LunOS.Ds LunOS.Klib LunOS.Buckets Function List

/-! ## State -/

/-- The list nodes of superblocks and inodes. -/
inductive SbNode
  | sbInode (sb : ℕ)
  | sbInodeList (ind : ℕ)
deriving DecidableEq

/-- The pointers in an inode. -/
structure InodePointers where
  sb : Option ℕ
  iOps : Option ℕ
  fOps : Option ℕ
  privateData : Option ℕ

/-- The state of the VFS with the pointers to memory; `name` is the field of a dentry. The blocks that
were obtained from `kmalloc` and passed to `kfree` are recorded, the last one first. -/
structure Objects where
  vfs : VfsState
  name : ℕ → ℕ
  pointers : ℕ → InodePointers
  inodeLists : ListHeap SbNode
  obtained : List ℕ
  freed : List ℕ

namespace Objects

/-- A `kmalloc` that returns the block. -/
def kmalloc (s : Objects) (p : ℕ) : Objects := { s with obtained := p :: s.obtained }

def kfree (s : Objects) (p : ℕ) : Objects := { s with freed := p :: s.freed }

/-- `if(p) kfree(p)`. -/
def kfreeIf (s : Objects) (p : Option ℕ) : Objects :=
  match p with
  | none => s
  | some p => s.kfree p

/-! ## The functions -/

/-- `alloc_dentry`, with the blocks that its two calls of `kmalloc` return. -/
def allocDentry (s : Objects) (mem nameMem : Option ℕ) (parent : Option ℕ) (name : CString) :
    Except Stop (Option ℕ × Objects) :=
  match mem, nameMem with
  | none, _ => .ok (none, s)
  | some d, none => .ok (none, (s.kmalloc d).kfree d)
  | some d, some p => do
    let (r, vfs) ← Vfs.allocDentry s.vfs (some d) true parent name
    .ok (r, { (s.kmalloc d).kmalloc p with vfs := vfs, name := update s.name d p })

/-- `free_dentry` -/
def freeDentry (fuel : ℕ) (s : Objects) (d : ℕ) : Except Stop Objects := do
  let vfs ← Vfs.freeDentry fuel s.vfs d
  .ok (({ s with vfs := vfs }.kfree (s.name d)).kfree d)

/-- `alloc_inode` -/
def allocInode (s : Objects) (mem : Option ℕ) (sb : Option ℕ) : Option ℕ × Objects :=
  match sb, mem with
  | none, _ => (none, s)
  | some _, none => (none, s)
  | some sb, some ind =>
    let lists := listInit s.inodeLists (.sbInodeList ind)
    let lists := listAddTail lists (.sbInodeList ind) (.sbInode sb)
    (some ind, { s.kmalloc ind with
      vfs := s.vfs.setInode ind { s.vfs.inode ind with refcount := 1 }
      pointers := update s.pointers ind { s.pointers ind with sb := some sb }
      inodeLists := lists })

/-- `free_inode` -/
def freeInode (s : Objects) (ind : Option ℕ) : Objects :=
  match ind with
  | none => s
  | some ind =>
    let s := s.kfreeIf (s.pointers ind).iOps
    let s := s.kfreeIf (s.pointers ind).fOps
    let s := s.kfreeIf (s.pointers ind).privateData
    { s with inodeLists := listDel s.inodeLists (.sbInodeList ind) }.kfree ind

end Objects

/-- A dentry is allocated at `d`, with its name at `p`, loses its reference and is freed. -/
def dentryRoundTrip (fuel : ℕ) (s : Objects) (d p : ℕ) (parent : Option ℕ) (name : CString) :
    Except Stop Objects := do
  match ← s.allocDentry (some d) (some p) parent name with
  | (none, s) => .ok s
  | (some d, s) => Objects.freeDentry fuel { s with vfs := s.vfs.addRef d (-1) } d

/-- An inode is allocated at `ind` and freed. -/
def inodeRoundTrip (s : Objects) (ind sb : ℕ) : Objects :=
  let (r, s) := s.allocInode (some ind) (some sb)
  s.freeInode r

/-- Everything but the dentry and the inode that came and went is as before: the lists of children and
of inodes, the hash chains and the reference counts. Only blocks that were obtained meanwhile were
freed, each once. -/
structure Restored (ownDentry ownInode : Option ℕ) (s s' : Objects) : Prop where
  children : ∀ c l, ownDentry ≠ some c →
    (Circular s'.vfs.lists (.children c) l ↔ Circular s.vfs.lists (.children c) l)
  inodes : ∀ sb l, Circular s'.inodeLists (.sbInode sb) l ↔ Circular s.inodeLists (.sbInode sb) l
  chains : ∀ b lk, Reached s.vfs.cache b lk → s'.vfs.cache.read lk = s.vfs.cache.read lk
  refcounts : ∀ i, ownInode ≠ some i → (s'.vfs.inode i).refcount = (s.vfs.inode i).refcount
  freed : ∃ obtained freed, s'.obtained = obtained ++ s.obtained ∧ s'.freed = freed ++ s.freed ∧
    freed.Subperm obtained

/-- The memory at `d` is in no list of children and in no hash chain. -/
structure DentryUnused (s : Objects) (d : ℕ) : Prop where
  lists : ∀ c l, c ≠ d → Circular s.vfs.lists (.children c) l →
    Node.children d ∉ l ∧ Node.siblings d ∉ l
  chains : ∀ b lk, Reached s.vfs.cache b lk → s.vfs.cache.read lk ≠ some d

/-- The memory at `ind` is in no list of inodes. -/
def InodeUnused (s : Objects) (ind : ℕ) : Prop :=
  ∀ sb l, Circular s.inodeLists (.sbInode sb) l → SbNode.sbInodeList ind ∉ l

variable {s s' : Objects} {v v' : VfsState} {d p ind sb fuel : ℕ} {parent : Option ℕ} {name : CString}
  {b : Bucket}

/-! ## Dentries -/

/-- The new dentry is at the head of its bucket, and its inode is what the memory held. -/
lemma allocDentry_spec {r : Option ℕ}
    (h : Vfs.allocDentry v (some d) true parent name = .ok (r, v')) :
    r = some d ∧ v'.inode = v.inode ∧ v'.lists = allocLists v.lists d parent ∧
      (v'.dentry d).inode = (v.dentry d).inode ∧ (∀ c, c ≠ d → v'.dentry c = v.dentry c) ∧
      ∃ b, homeBucket v' d = .ok b ∧ v'.table = update v.table b (some d) ∧
        (v'.dentry d).dHashNext = v.table b := by
  unfold Vfs.allocDentry at h
  simp only at h
  rw [if_neg (by simp)] at h
  split at h
  · cases h
  · next v₂ hadd =>
    cases h
    obtain ⟨b, hb, rfl⟩ := dcacheAdd_eq_ok.mp hadd
    refine ⟨rfl, rfl, rfl, ?_, fun c hc => ?_, b, ?_, rfl, ?_⟩
    · rw [linkBucket_dentry, if_pos rfl]
      show (update v.dentry d _ d).inode = _
      rw [update_self]
    · rw [linkBucket_dentry, if_neg hc]
      exact update_of_ne hc _ _
    · rw [linkBucket_sameKeys.homeBucket]
      exact hb
    · rw [linkBucket_dentry, if_pos rfl]
      rfl

/-- A dentry at the head of its bucket is freed: its own name is the first one that is met. -/
lemma freeDentry_head (hb : homeBucket v d = .ok b) (htable : v.table b = some d) :
    Vfs.freeDentry fuel v d = if 0 < fuel then
        .ok { (dropInode v d).writeLink (v.dentry d).dHashNext (.head b) with
          live := ((dropInode v d).writeLink (v.dentry d).dHashNext (.head b)).live.erase d }
      else .error .hang := by
  have hhome : homeBucket (dropInode v d) d = .ok b := by
    rw [(dropInode_sameKeys v d).homeBucket]
    exact hb
  have hbucket : dentryHtBucket (dropInode v d) ((dropInode v d).dentry d).parent
      ((dropInode v d).dentry d).name = .ok b := hhome
  have hhead : (dropInode v d).cache.read (.head b) = some d := by
    show (dropInode v d).table b = some d
    unfold dropInode
    split <;> exact htable
  have hbegins : Begins (dropInode v d).cache (.head b) ([] ++ [d]) := ⟨hhead, trivial⟩
  unfold Vfs.freeDentry dcacheRemove
  rw [hbucket]
  simp only
  rw [removeLoop_begins hbegins (by simp) rfl, dropInode_dentry]
  by_cases hfuel : 0 < fuel
  · rw [if_pos hfuel, if_pos (by simpa using hfuel)]
    rfl
  · rw [if_neg hfuel, if_neg (by simpa using hfuel)]

lemma dropInode_refcount (v : VfsState) (d i : ℕ) : ((dropInode v d).inode i).refcount =
    (v.inode i).refcount - if (v.dentry d).inode = some i then 1 else 0 := by
  unfold dropInode
  cases hinode : (v.dentry d).inode with
  | none => simp
  | some j =>
    show (update v.inode j _ i).refcount = _
    rw [update_apply]
    by_cases hij : i = j
    · rw [if_pos hij, hij, if_pos rfl]
      rfl
    · rw [if_neg hij, if_neg fun h => hij (Option.some.inj h).symm, Int.sub_zero]

lemma dropInode_lists (v : VfsState) (d : ℕ) :
    (dropInode v d).lists = v.lists ∧ (dropInode v d).table = v.table := by
  unfold dropInode
  split <;> exact ⟨rfl, rfl⟩

/-- The reference that is given up changes nothing that `free_dentry` looks at. -/
lemma head_addRef {table : Bucket → Option ℕ} (hb : homeBucket v d = .ok b)
    (htable : v.table = update table b (some d)) :
    homeBucket (v.addRef d (-1)) d = .ok b ∧ (v.addRef d (-1)).table b = some d := by
  constructor
  · rw [(addRef_sameKeys (-1)).homeBucket]
    exact hb
  · show v.table b = some d
    rw [htable, update_self]

/-- What is left of a dentry that was allocated and freed: its place on the list of its parent, and
the reference that the inode has lost which the memory pointed to. -/
lemma dentryRoundTrip_spec (h : dentryRoundTrip fuel s d p parent name = .ok s') :
    s'.vfs.lists = allocLists s.vfs.lists d parent ∧ s'.inodeLists = s.inodeLists ∧
      s'.vfs.table = s.vfs.table ∧ (∀ c, c ≠ d → s'.vfs.dentry c = s.vfs.dentry c) ∧
      (∀ i, (s'.vfs.inode i).refcount =
        (s.vfs.inode i).refcount - if (s.vfs.dentry d).inode = some i then 1 else 0) ∧
      s'.obtained = [p, d] ++ s.obtained ∧ s'.freed = [d, p] ++ s.freed := by
  obtain ⟨⟨r, s₁⟩, halloc, h⟩ := bind_eq_ok.mp h
  obtain ⟨⟨r', v₁⟩, hv₁, hs₁⟩ := bind_eq_ok.mp halloc
  cases hs₁
  obtain ⟨rfl, hinode, hlists, hown, hother, b, hb, htable, hnext⟩ := allocDentry_spec hv₁
  obtain ⟨v₂, hfree, hs'⟩ := bind_eq_ok.mp h
  cases hs'
  have hdentry : ∀ c, ((v₁.addRef d (-1)).dentry c).inode = (v₁.dentry c).inode :=
    (addRef_sameKeys (-1)).inode
  have hlink : ((v₁.addRef d (-1)).dentry d).dHashNext = s.vfs.table b := by
    rw [addRef_dentry, if_pos rfl]
    exact hnext
  obtain ⟨hhome, hhead⟩ := head_addRef hb htable
  rw [freeDentry_head hhome hhead, hlink] at hfree
  split_ifs at hfree
  cases hfree
  obtain ⟨hdlists, hdtable⟩ := dropInode_lists (v₁.addRef d (-1)) d
  refine ⟨hdlists.trans hlists, rfl, ?_, fun c hc => ?_, fun i => ?_, rfl, ?_⟩
  · show update (dropInode (v₁.addRef d (-1)) d).table b (s.vfs.table b) = s.vfs.table
    rw [hdtable]
    show update v₁.table b (s.vfs.table b) = s.vfs.table
    rw [htable, update_idem, update_eq_self]
  · show (dropInode (v₁.addRef d (-1)) d).dentry c = s.vfs.dentry c
    rw [dropInode_dentry, addRef_dentry, if_neg hc]
    exact hother c hc
  · show ((dropInode (v₁.addRef d (-1)) d).inode i).refcount = _
    rw [dropInode_refcount, hdentry, hown]
    show (v₁.inode i).refcount - _ = _
    rw [hinode]
  · show d :: update s.name d p d :: s.freed = _
    rw [update_self]
    rfl

/-- Without a parent both calls return. -/
lemma dentryRoundTrip_returns (s : Objects) (d p : ℕ) (name : CString) :
    ∃ s', dentryRoundTrip 1 s d p none name = .ok s' := by
  obtain ⟨⟨r, v₁⟩, hv₁⟩ : ∃ r, Vfs.allocDentry s.vfs (some d) true none name = .ok r := by
    unfold Vfs.allocDentry dcacheAdd
    simp only
    rw [if_neg (by simp)]
    have hparent : (update s.vfs.dentry d { s.vfs.dentry d with
        name := kstrndup name dentryNameMaxLength, parent := none, refcount := 1, flags := 0 } d).parent =
        none := by
      rw [update_self]
    simp only [VfsState.setDentry, hparent, dentryHtBucket]
    exact ⟨_, rfl⟩
  obtain ⟨rfl, -, -, -, -, b, hb, htable, -⟩ := allocDentry_spec hv₁
  obtain ⟨hhome, hhead⟩ := head_addRef hb htable
  have hfree : Vfs.freeDentry 1 (v₁.addRef d (-1)) d = _ :=
    (freeDentry_head hhome hhead).trans (if_pos Nat.one_pos)
  exact ⟨_, bind_eq_ok.mpr ⟨_, bind_eq_ok.mpr ⟨_, hv₁, rfl⟩, bind_eq_ok.mpr ⟨_, hfree, rfl⟩⟩⟩

/-- The lists of other dentries are as before when there is no parent. -/
lemma allocLists_none (hunused : DentryUnused s d) {c : ℕ} {l : List Node} (hc : c ≠ d) :
    Circular (allocLists s.vfs.lists d none) (.children c) l ↔
      Circular s.vfs.lists (.children c) l := by
  have hsame : ∀ z, z ≠ .children d → z ≠ .siblings d →
      (allocLists s.vfs.lists d none).next z = s.vfs.lists.next z ∧
        (allocLists s.vfs.lists d none).prev z = s.vfs.lists.prev z := by
    intro z hch hsi
    have hfirst := listInit_of_ne (h := s.vfs.lists) hch
    have hsecond := listInit_of_ne (h := listInit s.vfs.lists (.children d)) hsi
    exact ⟨hsecond.1.trans hfirst.1, hsecond.2.trans hfirst.2⟩
  have hhead : Node.children c ≠ .children d := fun h => hc (Node.children.inj h)
  constructor
  · intro hcirc
    -- the nodes of the new dentry are linked to themselves
    have hsib : (allocLists s.vfs.lists d none).next (.siblings d) = .siblings d :=
      update_self _ _ _
    have hchi : (allocLists s.vfs.lists d none).next (.children d) = .children d := by
      have hne : Node.children d ≠ .siblings d := by simp
      have hinit := (listInit_of_ne (h := listInit s.vfs.lists (.children d)) hne).1
      exact hinit.trans (update_self _ _ _)
    apply hcirc.congr
    intro z hz
    have hz' : z ≠ .children d ∧ z ≠ .siblings d := by
      rcases mem_cons.mp hz with rfl | hz
      · exact ⟨hhead, by simp⟩
      · constructor
        · rintro rfl
          exact hcirc.next_ne hz hchi
        · rintro rfl
          exact hcirc.next_ne hz hsib
    obtain ⟨hnext, hprev⟩ := hsame z hz'.1 hz'.2
    exact ⟨hnext.symm, hprev.symm⟩
  · intro hcirc
    obtain ⟨hnochi, hnosib⟩ := hunused.lists c l hc hcirc
    apply hcirc.congr
    intro z hz
    rcases mem_cons.mp hz with rfl | hz
    · exact hsame _ hhead (by simp)
    · exact hsame z (ne_of_mem_of_not_mem hz hnochi) (ne_of_mem_of_not_mem hz hnosib)

/-- The dentry stays on the list of its parent. -/
lemma allocLists_some (hunused : DentryUnused s d) {c : ℕ} {l : List Node} (hc : c ≠ d)
    (hl : Circular s.vfs.lists (.children c) l) :
    ¬Circular (allocLists s.vfs.lists d (some c)) (.children c) l := by
  intro hcirc
  have hinit : Circular (allocLists s.vfs.lists d none) (.children c) l :=
    (allocLists_none hunused hc).mpr hl
  have hmem : Node.siblings d ∉ Node.children c :: l := by
    rw [mem_cons, not_or]
    exact ⟨by simp, (hunused.lists c l hc hl).2⟩
  have hadded : Circular (allocLists s.vfs.lists d (some c)) (.children c) (l ++ [.siblings d]) :=
    hinit.listAddTail hmem
  have hlen := congrArg List.length (hadded.unique hcirc)
  rw [length_append, length_singleton] at hlen
  omega

/-- When freeing a dentry undoes its allocation. -/
lemma dentry_restored_iff (hunused : DentryUnused s d)
    (hparent : ∀ c, parent = some c → c ≠ d ∧ ∃ l, Circular s.vfs.lists (.children c) l) :
    (∃ fuel s', dentryRoundTrip fuel s d p parent name = .ok s' ∧ Restored (some d) none s s') ↔
      parent = none ∧ (s.vfs.dentry d).inode = none := by
  constructor
  · rintro ⟨fuel, s', hok, hrestored⟩
    obtain ⟨hlists, -, -, -, hrefs, -, -⟩ := dentryRoundTrip_spec hok
    constructor
    · cases parent with
      | none => rfl
      | some c =>
        obtain ⟨hc, l, hl⟩ := hparent c rfl
        have hchildren := (hrestored.children c l fun h => hc (Option.some.inj h).symm).mpr hl
        rw [hlists] at hchildren
        exact absurd hchildren (allocLists_some hunused hc hl)
    · cases hinode : (s.vfs.dentry d).inode with
      | none => rfl
      | some i =>
        have hkept := hrestored.refcounts i (by simp)
        rw [hrefs i, hinode, if_pos rfl] at hkept
        omega
  · rintro ⟨rfl, hinode⟩
    obtain ⟨s', hok⟩ := dentryRoundTrip_returns s d p name
    obtain ⟨hlists, hsb, htable, hdentry, hrefs, hobtained, hfreed⟩ := dentryRoundTrip_spec hok
    refine ⟨1, s', hok, fun c l hc => ?_, fun sb l => ?_, fun b lk hlk => ?_, fun i _ => ?_,
      _, _, hobtained, hfreed, (List.Perm.swap p d []).subperm⟩
    · rw [hlists]
      exact allocLists_none hunused fun h => hc (congrArg some h.symm)
    · rw [hsb]
    · cases hlk with
      | head => exact congrFun htable b
      | @next lk c hlk' hread =>
        have hc : c ≠ d := by
          rintro rfl
          exact hunused.chains b lk hlk' hread
        exact congrArg Dentry.dHashNext (hdentry c hc)
    · rw [hrefs i, hinode]
      simp

/-! ## Inodes -/

/-- The pointers that `free_inode` passes on, as the memory held them. -/
def stalePointers (q : InodePointers) : List ℕ :=
  q.privateData.toList ++ (q.fOps.toList ++ q.iOps.toList)

lemma kfreeIf_eq (s : Objects) (q : Option ℕ) :
    s.kfreeIf q = { s with freed := q.toList ++ s.freed } := by
  cases q <;> rfl

lemma inodeRoundTrip_spec (s : Objects) (ind sb : ℕ) :
    (inodeRoundTrip s ind sb).vfs = s.vfs.setInode ind { s.vfs.inode ind with refcount := 1 } ∧
      (inodeRoundTrip s ind sb).inodeLists = listDel (listAddTail
        (listInit s.inodeLists (.sbInodeList ind)) (.sbInodeList ind) (.sbInode sb))
        (.sbInodeList ind) ∧
      (inodeRoundTrip s ind sb).obtained = [ind] ++ s.obtained ∧
      (inodeRoundTrip s ind sb).freed = (ind :: stalePointers (s.pointers ind)) ++ s.freed := by
  unfold inodeRoundTrip Objects.allocInode Objects.freeInode
  simp only [kfreeIf_eq]
  refine ⟨rfl, rfl, rfl, ?_⟩
  show ind :: _ = _
  rw [update_self]
  simp only [stalePointers, cons_append, append_assoc]
  rfl

/-- Every list of inodes is as before. -/
lemma inodeLists_restored (hunused : InodeUnused s ind) {l₀ : List SbNode}
    (hsb : Circular s.inodeLists (.sbInode sb) l₀) (sb' : ℕ) (l : List SbNode) :
    Circular (inodeRoundTrip s ind sb).inodeLists (.sbInode sb') l ↔
      Circular s.inodeLists (.sbInode sb') l := by
  obtain ⟨-, hlists, -, -⟩ := inodeRoundTrip_spec s ind sb
  have hnew : SbNode.sbInodeList ind ∉ SbNode.sbInode sb :: l₀ := by
    rw [mem_cons, not_or]
    exact ⟨by simp, hunused sb l₀ hsb⟩
  have hinit : ∀ z, z ≠ SbNode.sbInodeList ind →
      (listInit s.inodeLists (.sbInodeList ind)).next z = s.inodeLists.next z ∧
        (listInit s.inodeLists (.sbInodeList ind)).prev z = s.inodeLists.prev z :=
    fun z hz => listInit_of_ne hz
  have hcirc : Circular (listInit s.inodeLists (.sbInodeList ind)) (.sbInode sb) l₀ :=
    hsb.congr fun z hz => hinit z (ne_of_mem_of_not_mem hz hnew)
  have hsame : ∀ z, z ≠ SbNode.sbInodeList ind →
      (inodeRoundTrip s ind sb).inodeLists.next z = s.inodeLists.next z ∧
        (inodeRoundTrip s ind sb).inodeLists.prev z = s.inodeLists.prev z := by
    intro z hz
    rw [hlists]
    obtain ⟨hnext, hprev⟩ := hcirc.listDel_listAddTail hnew hz
    exact ⟨hnext.trans (hinit z hz).1, hprev.trans (hinit z hz).2⟩
  constructor
  · intro hafter
    -- the node of the inode is linked to itself
    have hself : (inodeRoundTrip s ind sb).inodeLists.next (.sbInodeList ind) = .sbInodeList ind := by
      rw [hlists]
      exact ((hcirc.listAddTail hnew).listDel_self_linked (by simp)).1
    apply hafter.congr
    intro z hz
    have hz' : z ≠ SbNode.sbInodeList ind := by
      rintro rfl
      rcases mem_cons.mp hz with heq | hmem
      · cases heq
      · exact hafter.next_ne hmem hself
    exact ⟨(hsame z hz').1.symm, (hsame z hz').2.symm⟩
  · intro hbefore
    have hnot : SbNode.sbInodeList ind ∉ SbNode.sbInode sb' :: l := by
      rw [mem_cons, not_or]
      exact ⟨by simp, hunused sb' l hbefore⟩
    exact hbefore.congr fun z hz => hsame z (ne_of_mem_of_not_mem hz hnot)

/-- When freeing an inode undoes its allocation. -/
lemma inode_restored_iff (hunused : InodeUnused s ind)
    (hsb : ∃ l, Circular s.inodeLists (.sbInode sb) l) :
    Restored none (some ind) s (inodeRoundTrip s ind sb) ↔
      (s.pointers ind).iOps = none ∧ (s.pointers ind).fOps = none ∧
        (s.pointers ind).privateData = none := by
  obtain ⟨hvfs, -, hobtained, hfreed⟩ := inodeRoundTrip_spec s ind sb
  constructor
  · intro hrestored
    obtain ⟨obtained, freed, ho, hf, hsub⟩ := hrestored.freed
    have hone : obtained = [ind] := append_cancel_right (ho.symm.trans hobtained)
    have hall : freed = ind :: stalePointers (s.pointers ind) :=
      append_cancel_right (hf.symm.trans hfreed)
    have hlen := hsub.length_le
    rw [hone, hall, length_cons, length_singleton] at hlen
    have hnil : stalePointers (s.pointers ind) = [] := eq_nil_of_length_eq_zero (by omega)
    unfold stalePointers at hnil
    rw [append_eq_nil_iff, append_eq_nil_iff] at hnil
    simp only [Option.toList_eq_nil_iff] at hnil
    exact ⟨hnil.2.2, hnil.2.1, hnil.1⟩
  · rintro ⟨hi, hf, hp⟩
    obtain ⟨l₀, hl₀⟩ := hsb
    have hnil : stalePointers (s.pointers ind) = [] := by
      unfold stalePointers
      rw [hi, hf, hp]
      rfl
    rw [hnil] at hfreed
    refine ⟨fun c l _ => ?_, inodeLists_restored hunused hl₀, fun b lk _ => ?_, fun i hne => ?_,
      _, _, hobtained, hfreed, List.Subperm.refl _⟩
    · rw [hvfs]
      rfl
    · rw [hvfs]
      cases lk <;> rfl
    · rw [hvfs]
      show (update s.vfs.inode ind _ i).refcount = _
      rw [update_of_ne fun h => hne (congrArg some h.symm)]

/-- Over every state, with any contents of the memory that `kmalloc` returns: freeing a dentry undoes
its allocation if and only if it has no parent and the memory held no pointer to an inode, and
freeing an inode undoes its allocation if and only if the memory held none of the pointers that
`free_inode` follows. -/
theorem free_undoes_alloc_iff (hd : DentryUnused s d) (hind : InodeUnused s ind)
    (hparent : ∀ c, parent = some c → c ≠ d ∧ ∃ l, Circular s.vfs.lists (.children c) l)
    (hsb : ∃ l, Circular s.inodeLists (.sbInode sb) l) :
    ((∃ fuel s', dentryRoundTrip fuel s d p parent name = .ok s' ∧ Restored (some d) none s s') ↔
        parent = none ∧ (s.vfs.dentry d).inode = none) ∧
      (Restored none (some ind) s (inodeRoundTrip s ind sb) ↔
        (s.pointers ind).iOps = none ∧ (s.pointers ind).fOps = none ∧
          (s.pointers ind).privateData = none) :=
  ⟨dentry_restored_iff hd hparent, inode_restored_iff hind hsb⟩

/-! ## A root without children -/

/-- Nothing is allocated but the root. The other memory holds the pointer `stale` where a dentry has
its inode and an inode its `f_ops`. -/
def bareRoot (stale : Option ℕ) : Objects where
  vfs := { twoDirectories with
    dentry := fun d => ⟨[100], if d = 1 then some 1 else stale, none, 1, 0, none⟩ }
  name _ := 0
  pointers _ := ⟨none, none, stale, none⟩
  inodeLists := ⟨id, id⟩
  obtained := []
  freed := []

lemma circular_id {α : Type*} (head : α) : Circular (⟨id, id⟩ : ListHeap α) head [] :=
  ⟨nodup_singleton head, rfl, rfl⟩

lemma bareRoot_dentryUnused (stale : Option ℕ) (d : ℕ) : DentryUnused (bareRoot stale) d := by
  refine ⟨fun c l _ hl => ?_, fun b lk hlk => ?_⟩
  · rw [hl.unique (circular_id _)]
    exact ⟨not_mem_nil, not_mem_nil⟩
  · have hempty : (bareRoot stale).vfs.cache.read lk = none := by
      cases hlk <;> rfl
    rw [hempty]
    simp

lemma bareRoot_inodeUnused (stale : Option ℕ) (ind : ℕ) : InodeUnused (bareRoot stale) ind := by
  intro sb l hl
  rw [hl.unique (circular_id _)]
  exact not_mem_nil

theorem free_undoes_alloc_bareRoot :
    (∃ fuel s', dentryRoundTrip fuel (bareRoot none) 5 9 none [97] = .ok s' ∧
        Restored (some 5) none (bareRoot none) s') ∧
      Restored none (some 7) (bareRoot none) (inodeRoundTrip (bareRoot none) 7 3) := by
  have hiff := @free_undoes_alloc_iff (bareRoot none) 5 9 7 3 none [97]
    (bareRoot_dentryUnused none 5) (bareRoot_inodeUnused none 7)
    (fun c hc => absurd hc (by simp)) ⟨[], circular_id _⟩
  exact ⟨hiff.1.mpr ⟨rfl, rfl⟩, hiff.2.mpr ⟨rfl, rfl, rfl⟩⟩

/-- A dentry in the root stays on the list of the root's children when it is freed. And an inode in
memory that held the pointer 6 passes this pointer to `kfree`. -/
theorem free_leaves_child :
    (∃ s', dentryRoundTrip 1 (bareRoot none) 5 9 (some 1) [97] = .ok s' ∧
        Circular s'.vfs.lists (.children 1) [.siblings 5] ∧
        ¬Restored (some 5) none (bareRoot none) s') ∧
      (inodeRoundTrip (bareRoot (some 6)) 7 3).obtained = [7] ∧
      (inodeRoundTrip (bareRoot (some 6)) 7 3).freed = [7, 6] := by
  have hroot : Circular (bareRoot none).vfs.lists (.children 1) [] := circular_id _
  have hunused := bareRoot_dentryUnused none 5
  obtain ⟨s', hok⟩ : ∃ s', dentryRoundTrip 1 (bareRoot none) 5 9 (some 1) [97] = .ok s' := ⟨_, rfl⟩
  obtain ⟨hlists, -⟩ := dentryRoundTrip_spec hok
  refine ⟨⟨s', hok, ?_, fun hrestored => ?_⟩, rfl, rfl⟩
  · rw [hlists]
    have hinit := (allocLists_none hunused (by decide : 1 ≠ 5)).mpr hroot
    exact hinit.listAddTail (by simp)
  · have hchildren := (hrestored.children 1 [] (by simp)).mpr hroot
    rw [hlists] at hchildren
    exact allocLists_some hunused (by decide) hroot hchildren

end LunOS.Vfs
