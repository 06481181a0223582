import LunOS.Utils.Runs
import LunOS.Vfs.DentryCache
import LunOS.Vfs.PathWalk

/-!
# Chains over whole runs

Runs of `alloc_dentry`, `instantiate_dentry`, `free_dentry` and `path_walk`, where the file systems
build the dentries that their lookups return with `alloc_dentry`. Two things break the chains:

- `alloc_dentry` has put a new dentry into the cache already when `path_walk` puts it there again.
  At the head of its bucket, the dentry then points to itself (`walk_makes_loop`).
- `free_dentry` unlinks the first entry with the name, which may be another one. The freed dentry
  then stays in its chain.

In runs without these two, every chain ends (`chains_stay_finite`).
-/

namespace LunOS.Vfs
open LunOS.Klib LunOS.Buckets Function List

variable {s s' : VfsState} {d : ℕ} {b : Bucket} {name : CString} {chain : Bucket → List ℕ}

/-! ## Runs -/

/-- The lookup of the file system finds nothing, or builds a dentry in memory that is not in use, as
a child of the directory. -/
def BuildsWithAlloc (drv : Driver) : Prop :=
  ∀ {s s' dir name r}, drv.lookup s dir name = .ok (r, s') →
    (r = none ∧ s' = s) ∨ ∃ d p i s₁, r = some d ∧ d ∉ s.live ∧ p ∈ s.live ∧
      (s.dentry p).inode = some dir ∧ allocDentry s (some d) true (some p) name = .ok (some d, s₁) ∧
      s' = instantiateDentry s₁ d i

/-- No dentry in use is in this directory. -/
def Leaf (s : VfsState) (d : ℕ) : Prop := ∀ c ∈ s.live, (s.dentry c).parent ≠ some d

/-- What the rest of the kernel leaves alone: the table, and of the dentries in use the name, the
parent, the link and the inode number of the parent. -/
structure SameLive (s s' : VfsState) : Prop where
  table : s'.table = s.table
  name : ∀ c ∈ s.live, (s'.dentry c).name = (s.dentry c).name
  parent : ∀ c ∈ s.live, (s'.dentry c).parent = (s.dentry c).parent
  link : ∀ c ∈ s.live, (s'.dentry c).dHashNext = (s.dentry c).dHashNext
  number : ∀ c ∈ s.live, ∀ p, (s.dentry c).parent = some p →
    (s'.dentry p).inode = (s.dentry p).inode ∧
      ∀ i, (s.dentry p).inode = some i → (s'.inode i).inodeNumber = (s.inode i).inodeNumber

/-- One step. A dentry `d` is freed in `s` only if `F s d`, and `path_walk` is called only if the
call and what it returns are in `W`. -/
inductive CacheStep (F : VfsState → ℕ → Prop)
    (W : WalkCall → VfsState → Option ℕ × VfsState → Prop) : VfsState → VfsState → Prop
  | alloc {s s' : VfsState} {mem parent r : Option ℕ} {nameMem : Bool} {name : CString}
      (hmem : ∀ d, mem = some d → d ∉ s.live) (hparent : ∀ p, parent = some p → p ∈ s.live)
      (h : allocDentry s mem nameMem parent name = .ok (r, s')) : CacheStep F W s s'
  | instantiate {s : VfsState} {d i : ℕ} (hd : d ∈ s.live) (hleaf : Leaf s d) :
      CacheStep F W s (instantiateDentry s d i)
  | free {s s' : VfsState} {d fuel : ℕ} (hd : d ∈ s.live) (hF : F s d)
      (h : freeDentry fuel s d = .ok s') : CacheStep F W s s'
  | walk {s s' : VfsState} {c : WalkCall} {r : Option ℕ} (hdrv : BuildsWithAlloc c.drv)
      (h : c.run s = .ok (r, s')) (hW : W c s (r, s')) : CacheStep F W s s'
  | other {s s' : VfsState} (h : SameLive s s') (hlive : s'.live = s.live) : CacheStep F W s s'

/-- The states reachable after `dcache_init`, whatever memory held before. -/
def CacheReachable (F : VfsState → ℕ → Prop)
    (W : WalkCall → VfsState → Option ℕ × VfsState → Prop) : VfsState → Prop :=
  Runs.Reachable (fun s => ∃ s₀ : VfsState, s₀.live = [] ∧ s = dcacheInit s₀) (CacheStep F W)

/-- The dentry is an empty directory or a file, and the first entry with its name in its bucket. -/
def FreedFirst (s : VfsState) (d : ℕ) : Prop :=
  Leaf s d ∧ ∃ b fuel, homeBucket s d = .ok b ∧
    lookupLoop s (s.dentry d).name fuel (s.table b) = .ok (some d)

/-- The file system with a lookup that does not return when it finds something. -/
def Driver.stopAtFind (drv : Driver) : Driver :=
  { drv with
    lookup := fun s dir name =>
      match drv.lookup s dir name with
      | .ok (some _, _) => .error .fault
      | r => r }

/-- No lookup of the file system finds something: the walk returns the same if such a lookup does
not return. -/
def FindsNothing (c : WalkCall) (s : VfsState) (res : Option ℕ × VfsState) : Prop :=
  { c with drv := c.drv.stopAtFind }.run s = .ok res

/-! ## What calls leave alone -/

lemma SameKeys.sameLive (h : SameKeys s s') (hcache : s'.cache = s.cache) : SameLive s s' := by
  constructor
  · exact congrArg Table.head hcache
  · exact fun c _ => h.name c
  · exact fun c _ => h.parent c
  · exact fun c _ => congrFun (congrArg Table.next hcache) c
  · exact fun c _ p _ => ⟨h.inode p, fun i _ => h.inodeNumber i⟩

/-- Reference counts do not matter to the cache. -/
lemma sameLive_addRef (k : ℤ) : SameLive s (s.addRef d k) :=
  (addRef_sameKeys k).sameLive (addRef_cache k)

lemma sameLive_dropInode (s : VfsState) (d : ℕ) :
    SameLive s (dropInode s d) ∧ (dropInode s d).live = s.live := by
  have hkeys := dropInode_sameKeys s d
  unfold dropInode at hkeys ⊢
  split at hkeys
  · exact ⟨hkeys.sameLive rfl, rfl⟩
  · exact ⟨hkeys.sameLive rfl, rfl⟩

lemma writeLink_live {q : Option ℕ} (cur : Link ℕ Bucket) : (s.writeLink q cur).live = s.live := by
  cases cur with
  | head b => rfl
  | next c => rfl

/-! ## The invariant -/

/-- Every bucket is a chain of dentries in use that belong there. -/
structure CacheInv (s : VfsState) (chain : Bucket → List ℕ) : Prop where
  chained : Chained s.cache chain
  live : ∀ {b d}, d ∈ chain b → d ∈ s.live
  home : ∀ {b d}, d ∈ chain b → homeBucket s d = .ok b
  parents : ∀ d ∈ s.live, ∀ p, (s.dentry d).parent = some p → p ∈ s.live

lemma SameLive.homeBucket (h : SameLive s s') (hd : d ∈ s.live) :
    homeBucket s' d = Vfs.homeBucket s d := by
  unfold Vfs.homeBucket
  rw [h.parent d hd, h.name d hd]
  exact dentryHtBucket_congr (h.number d hd)

/-- The invariant is about the dentries in use only. -/
lemma CacheInv.of_sameLive (h : CacheInv s chain) (hs : SameLive s s')
    (hlive : ∀ c ∈ s.live, c ∈ s'.live)
    (hparents : ∀ c ∈ s'.live, ∀ p, (s'.dentry c).parent = some p → p ∈ s'.live) :
    CacheInv s' chain := by
  constructor
  · apply h.chained.congr
    · exact fun b => congrFun hs.table b
    · exact fun b c hc => hs.link c (h.live hc)
  · exact fun hc => hlive _ (h.live hc)
  · intro b c hc
    rw [hs.homeBucket (h.live hc)]
    exact h.home hc
  · exact hparents

/-- Steps that keep the set of dentries in use. -/
lemma CacheInv.other (h : CacheInv s chain) (hs : SameLive s s') (hlive : s'.live = s.live) :
    CacheInv s' chain := by
  apply h.of_sameLive hs
  · intro c hc
    rw [hlive]
    exact hc
  · intro c hc p hp
    rw [hlive] at hc ⊢
    rw [hs.parent c hc] at hp
    exact h.parents c hc p hp

/-- The cache is empty at first. -/
lemma CacheInv.init (hnew : s.live = []) : CacheInv (dcacheInit s) fun _ => [] := by
  constructor
  · exact chained_empty fun _ => rfl
  · exact fun hc => absurd hc not_mem_nil
  · exact fun hc => absurd hc not_mem_nil
  · intro c hc
    have hc' : c ∈ s.live := hc
    rw [hnew] at hc'
    exact absurd hc' not_mem_nil

/-! ## `alloc_dentry` and `instantiate_dentry` -/

/-- A dentry that is not in the cache yet is linked in. -/
lemma CacheInv.dcacheAdd (h : CacheInv s chain) (hd : d ∈ s.live) (hnew : ∀ b, d ∉ chain b)
    (hadd : dcacheAdd s d = .ok s') : ∃ chain', CacheInv s' chain' := by
  obtain ⟨b, hb, hkeys, hchain⟩ := dcacheAdd_chained h.chained hnew hadd
  have hlive : s'.live = s.live := by
    obtain ⟨_, _, rfl⟩ := dcacheAdd_eq_ok.mp hadd
    rfl
  refine ⟨_, hchain, ?_, ?_, ?_⟩
  · intro b' c hc
    rw [hlive]
    rw [mem_update_chain, mem_cons] at hc
    obtain ⟨_, rfl | hc⟩ | ⟨_, hc⟩ := hc
    · exact hd
    · exact h.live hc
    · exact h.live hc
  · intro b' c hc
    rw [hkeys.homeBucket]
    rw [mem_update_chain, mem_cons] at hc
    obtain ⟨rfl, rfl | hc⟩ | ⟨_, hc⟩ := hc
    · exact hb
    · exact h.home hc
    · exact h.home hc
  · intro c hc p hp
    rw [hlive] at hc ⊢
    rw [hkeys.parent] at hp
    exact h.parents c hc p hp

variable {r parent : Option ℕ} {fuel : ℕ} {drv : Driver}

/-- `alloc_dentry` fills in a dentry that was not in use and puts it into the cache. -/
lemma allocDentry_cases {mem : Option ℕ} {nameMem : Bool}
    (h : allocDentry s mem nameMem parent name = .ok (r, s')) :
    (r = none ∧ s' = s) ∨ ∃ d s₁, mem = some d ∧ r = some d ∧ dcacheAdd s₁ d = .ok s' ∧
      s₁.table = s.table ∧ s₁.inode = s.inode ∧ s₁.live = d :: s.live ∧
      (s₁.dentry d).parent = parent ∧ ∀ c, c ≠ d → s₁.dentry c = s.dentry c := by
  unfold allocDentry at h
  cases mem with
  | none =>
    cases h
    exact Or.inl ⟨rfl, rfl⟩
  | some d =>
    simp only at h
    by_cases hname : nameMem = false
    · rw [if_pos hname] at h
      cases h
      exact Or.inl ⟨rfl, rfl⟩
    · rw [if_neg hname] at h
      right
      split at h
      · cases h
      · next s₂ hadd =>
        cases h
        refine ⟨d, _, rfl, rfl, hadd, rfl, rfl, rfl, ?_, ?_⟩
        · show (update s.dentry d _ d).parent = parent
          rw [update_self]
        · intro c hc
          exact update_of_ne hc _ _

/-- A new dentry is added. -/
lemma CacheInv.allocDentry (h : CacheInv s chain) {mem : Option ℕ} {nameMem : Bool}
    (hmem : ∀ d, mem = some d → d ∉ s.live) (hparent : ∀ p, parent = some p → p ∈ s.live)
    (halloc : allocDentry s mem nameMem parent name = .ok (r, s')) :
    ∃ chain', CacheInv s' chain' := by
  obtain ⟨_, rfl⟩ | ⟨d, s₁, hm, _, hadd, htable, hinode, hlive, hpar, hkeep⟩ :=
    allocDentry_cases halloc
  · exact ⟨chain, h⟩
  have hd := hmem d hm
  have hother : ∀ c ∈ s.live, s₁.dentry c = s.dentry c := by
    intro c hc
    apply hkeep
    rintro rfl
    exact hd hc
  have hs : SameLive s s₁ := by
    constructor
    · exact htable
    · exact fun c hc => by rw [hother c hc]
    · exact fun c hc => by rw [hother c hc]
    · exact fun c hc => by rw [hother c hc]
    · intro c hc p hp
      rw [hother p (h.parents c hc p hp), hinode]
      exact ⟨rfl, fun _ _ => rfl⟩
  have h₁ : CacheInv s₁ chain := by
    apply h.of_sameLive hs
    · intro c hc
      rw [hlive]
      exact mem_cons_of_mem d hc
    · intro c hc p hp
      rw [hlive, mem_cons] at hc ⊢
      right
      obtain rfl | hc := hc
      · exact hparent p (hpar.symm.trans hp)
      · rw [hother c hc] at hp
        exact h.parents c hc p hp
  have hdlive : d ∈ s₁.live := by
    rw [hlive]
    exact mem_cons_self
  exact h₁.dcacheAdd hdlive (fun b hb => hd (h.live hb)) hadd

lemma instantiateDentry_dentry (i c : ℕ) : (instantiateDentry s d i).dentry c =
    if c = d then { s.dentry d with inode := some i } else s.dentry c :=
  update_apply s.dentry d _ c

/-- Nothing in use is in a bucket that depends on the inode of a dentry without children. -/
lemma sameLive_instantiate {i : ℕ} (hleaf : Leaf s d) : SameLive s (instantiateDentry s d i) := by
  have hkept : ∀ c, (instantiateDentry s d i).dentry c =
      { s.dentry c with inode := ((instantiateDentry s d i).dentry c).inode } := by
    intro c
    rw [instantiateDentry_dentry]
    split_ifs with hc
    · rw [hc]
    · rfl
  constructor
  · rfl
  · exact fun c _ => by rw [hkept]
  · exact fun c _ => by rw [hkept]
  · exact fun c _ => by rw [hkept]
  · intro c hc p hp
    have hpd : p ≠ d := by
      rintro rfl
      exact hleaf c hc hp
    constructor
    · rw [instantiateDentry_dentry, if_neg hpd]
    · intro j _
      exact addInodeRef_number 1 i j

/-! ## `free_dentry` -/

/-- The first entry with a name that the search finds. -/
lemma CacheInv.split_first (h : CacheInv s chain)
    (hfirst : lookupLoop s name fuel (s.table b) = .ok (some d)) :
    ∃ pre post, chain b = pre ++ d :: post ∧ (s.dentry d).name = name ∧
      ∀ c ∈ pre, (s.dentry c).name ≠ name := by
  have hfind := lookupLoop_ok hfirst (h.chained.leads b)
  obtain ⟨hname, pre, post, hchain, hpre⟩ := List.find?_eq_some_iff_append.mp hfind.symm
  refine ⟨pre, post, hchain, by simpa using hname, ?_⟩
  intro c hc
  have hne := hpre c hc
  simpa using hne

/-- `dcache_remove` of the first entry with its name. -/
lemma CacheInv.dcacheRemove (h : CacheInv s chain) {pre post : List ℕ}
    (hchain : chain b = pre ++ d :: post) (hpre : ∀ c ∈ pre, (s.dentry c).name ≠ (s.dentry d).name)
    (hrem : dcacheRemove fuel s d = .ok s') :
    SameKeys s s' ∧ s'.live = s.live ∧
      ∃ chain', Chained s'.cache chain' ∧ ∀ b' c, c ∈ chain' b' → c ∈ chain b' ∧ c ≠ d := by
  have hd : d ∈ chain b := by
    rw [hchain]
    simp
  have hloop : removeLoop s (s.dentry d).name fuel (.head b) = .ok s' := by
    have hhome := h.home hd
    unfold homeBucket at hhome
    unfold Vfs.dcacheRemove at hrem
    rw [hhome] at hrem
    exact hrem
  have hleads : Leads s.cache.next (s.readLink (.head b)) (pre ++ d :: post) :=
    hchain ▸ h.chained.leads b
  rw [removeLoop_first hloop hleads hpre rfl]
  refine ⟨writeLink_sameKeys _, writeLink_live _, update chain b (pre ++ post), ?_, ?_⟩
  · rw [writeLink_cache]
    exact h.chained.unlink hchain
  · -- the entry was in this bucket only, and there only once
    intro b' c hc
    rw [mem_update_chain] at hc
    obtain ⟨rfl, hc⟩ | ⟨hb', hc⟩ := hc
    · constructor
      · rw [hchain]
        exact mem_append.mpr ((mem_append.mp hc).imp_right (mem_cons_of_mem d))
      · rintro rfl
        exact (nodup_cons.mp (nodup_middle.mp hleads.nodup)).1 hc
    · constructor
      · exact hc
      · rintro rfl
        exact hb' (h.chained.disjoint hc hd)

/-- What `free_dentry` does. -/
lemma freeDentry_cases (h : freeDentry fuel s d = .ok s') :
    ∃ s₁, dcacheRemove fuel (dropInode s d) d = .ok s₁ ∧
      s' = { s₁ with live := s₁.live.erase d } := by
  unfold freeDentry at h
  split at h
  · cases h
  · next s₁ hrem => exact ⟨s₁, hrem, (Except.ok.inj h).symm⟩

/-- A dentry is removed. -/
lemma CacheInv.freeDentry (h : CacheInv s chain) (hfirst : FreedFirst s d)
    (hfree : freeDentry fuel s d = .ok s') : ∃ chain', CacheInv s' chain' := by
  obtain ⟨hleaf, b, fuel', _, hlookup⟩ := hfirst
  obtain ⟨pre, post, hchain, _, hpre⟩ := h.split_first hlookup
  obtain ⟨s₁, hrem, rfl⟩ := freeDentry_cases hfree
  obtain ⟨hsame, hdropLive⟩ := sameLive_dropInode s d
  have hdrop := h.other hsame hdropLive
  have hpre' : ∀ c ∈ pre,
      ((dropInode s d).dentry c).name ≠ ((dropInode s d).dentry d).name := by
    rw [dropInode_dentry]
    exact hpre
  obtain ⟨hkeys, hlive, chain', hch, hsub⟩ := hdrop.dcacheRemove hchain hpre' hrem
  refine ⟨chain', hch, ?_, ?_, ?_⟩
  · intro b' c hc
    obtain ⟨hold, hne⟩ := hsub b' c hc
    show c ∈ s₁.live.erase d
    rw [mem_erase_of_ne hne, hlive]
    exact hdrop.live hold
  · intro b' c hc
    show homeBucket s₁ c = .ok b'
    rw [hkeys.homeBucket]
    exact hdrop.home (hsub b' c hc).1
  · intro c hc p hp
    have hcs : c ∈ s.live := by
      rw [← hdropLive, ← hlive]
      exact mem_of_mem_erase hc
    have hps : (s.dentry c).parent = some p := by
      rw [← dropInode_dentry s d, ← hkeys.parent c]
      exact hp
    -- the freed dentry is nobody's parent
    have hne : p ≠ d := fun hpd => hleaf c hcs (hpd ▸ hps)
    show p ∈ s₁.live.erase d
    rw [mem_erase_of_ne hne, hlive, hdropLive]
    exact h.parents c hcs p hps

/-! ## `path_walk` -/

lemma stopAtFind_lookup {dir : ℕ} (h : drv.stopAtFind.lookup s dir name = .ok (r, s')) :
    r = none ∧ drv.lookup s dir name = .ok (none, s') := by
  have hmatch : (match drv.lookup s dir name with
      | .ok (some _, _) => .error .fault
      | r => r) = Except.ok (r, s') := h
  cases hlookup : drv.lookup s dir name with
  | error e =>
    rw [hlookup] at hmatch
    cases hmatch
  | ok res =>
    obtain ⟨found, s₁⟩ := res
    rw [hlookup] at hmatch
    cases found with
    | none =>
      cases hmatch
      exact ⟨rfl, rfl⟩
    | some c => cases hmatch

/-- A walk for which the file system finds nothing changes reference counts only. -/
lemma BuildsWithAlloc.walkInv (hdrv : BuildsWithAlloc drv) (chain : Bucket → List ℕ) :
    WalkInv drv.stopAtFind fun _ s _ => CacheInv s chain := by
  constructor
  · exact fun h => h.other (sameLive_addRef 1) rfl
  · exact fun h => h.other (sameLive_addRef (-1)) rfl
  · exact fun _ h => h
  · intro _ fuel s s' parent token r _ hchild h
    obtain ⟨_, rfl⟩ | ⟨dir, ⟨_, hlookup⟩ | ⟨current, s₁, _, hlookup, _⟩⟩ :=
      lookupChild_cases hchild
    · exact h
    · obtain ⟨_, hnone⟩ := stopAtFind_lookup hlookup
      obtain ⟨_, rfl⟩ | ⟨d, _, _, _, hd, _⟩ := hdrv hnone
      · exact h
      · cases hd
    · exact absurd (stopAtFind_lookup hlookup).1 (by simp)

/-! ## The main theorem -/

/-- One call keeps the chains. -/
lemma CacheInv.step (h : CacheInv s chain) (hst : CacheStep FreedFirst FindsNothing s s') :
    ∃ chain', CacheInv s' chain' := by
  cases hst with
  | alloc hmem hparent halloc => exact h.allocDentry hmem hparent halloc
  | instantiate _ hleaf => exact ⟨chain, h.other (sameLive_instantiate hleaf) rfl⟩
  | free _ hfirst hfree => exact h.freeDentry hfirst hfree
  | walk hdrv _ hnothing =>
    exact ⟨chain, WalkInv.run (hdrv.walkInv chain) [] hnothing h⟩
  | other hs hlive => exact ⟨chain, h.other hs hlive⟩

/-- The chains hold in every run. -/
lemma CacheReachable.inv (hr : CacheReachable FreedFirst FindsNothing s) :
    ∃ chain, CacheInv s chain := by
  refine hr.invariant (fun s hs => ?_) fun s s' h hst => ?_
  · obtain ⟨s₀, hnew, rfl⟩ := hs
    exact ⟨_, CacheInv.init hnew⟩
  · obtain ⟨chain, h⟩ := h
    exact h.step hst

/-- Every chain ends and has no dentry twice, no dentry is in two chains, and the searches in the
chains return. -/
structure FiniteChains (s : VfsState) : Prop where
  chains : ∃ chain : Bucket → List ℕ,
    (∀ b, Leads s.cache.next (s.table b) (chain b) ∧ (chain b).Nodup) ∧
      ∀ d b b', d ∈ chain b → d ∈ chain b' → b = b'
  lookup : ∀ p name, ∃ fuel, dcacheLookup fuel s p name ≠ .error .hang
  remove : ∀ d, ∃ fuel, dcacheRemove fuel s d ≠ .error .hang

lemma dentryHtBucket_ne_hang :
    dentryHtBucket s parent name ≠ .error .hang := by
  cases parent with
  | none => simp [dentryHtBucket]
  | some p =>
    cases hi : (s.dentry p).inode with
    | none =>
      rw [dentryHtBucket_null hi]
      simp
    | some i =>
      rw [dentryHtBucket_some hi]
      simp

/-- The chains come to an end. -/
lemma CacheInv.finiteChains (h : CacheInv s chain) : FiniteChains s := by
  constructor
  · refine ⟨chain, fun b => ⟨h.chained.leads b, (h.chained.leads b).nodup⟩, ?_⟩
    exact fun d b b' hb hb' => h.chained.disjoint hb hb'
  · intro p name
    cases hb : dentryHtBucket s (some p) name with
    | error e =>
      refine ⟨0, ?_⟩
      unfold dcacheLookup
      rw [hb]
      intro he
      exact dentryHtBucket_ne_hang (hb.trans (congrArg Except.error (Except.error.inj he)))
    | ok b =>
      have hleads : Leads s.cache.next (s.table b) (chain b) := h.chained.leads b
      refine ⟨(chain b).length + 1, ?_⟩
      unfold dcacheLookup
      rw [hb]
      simp only
      rw [lookupLoop_find hleads (Nat.lt_succ_self _)]
      simp
  · intro d
    cases hb : homeBucket s d with
    | error e =>
      refine ⟨0, ?_⟩
      unfold homeBucket at hb
      unfold Vfs.dcacheRemove
      rw [hb]
      intro he
      exact dentryHtBucket_ne_hang (hb.trans (congrArg Except.error (Except.error.inj he)))
    | ok b =>
      have hleads : Leads s.cache.next (s.readLink (.head b)) (chain b) := h.chained.leads b
      refine ⟨(chain b).length + 1, ?_⟩
      obtain ⟨s', hs'⟩ : ∃ s', removeLoop s (s.dentry d).name ((chain b).length + 1) (.head b) =
          .ok s' := removeLoop_ends hleads (Nat.lt_succ_self _)
      unfold homeBucket at hb
      unfold Vfs.dcacheRemove
      rw [hb]
      simp only
      rw [hs']
      simp

/-- In runs that free only dentries which are the first with their name in their bucket, and where
walks find nothing new, the chains stay finite. -/
theorem chains_stay_finite (hr : CacheReachable FreedFirst FindsNothing s) : FiniteChains s := by
  obtain ⟨chain, h⟩ := hr.inv
  exact h.finiteChains

/-! ## A dentry in the cache twice -/

/-- The bucket of a dentry does not depend on its own inode. -/
lemma homeBucket_instantiate {i p : ℕ} (hp : (s.dentry d).parent = some p) (hpd : p ≠ d) :
    homeBucket (instantiateDentry s d i) d = homeBucket s d := by
  unfold homeBucket
  rw [instantiateDentry_dentry, if_pos rfl]
  apply dentryHtBucket_congr
  intro q hq
  have hqd : q ≠ d := by
    cases hp.symm.trans hq
    exact hpd
  constructor
  · rw [instantiateDentry_dentry, if_neg hqd]
  · intro j _
    exact addInodeRef_number 1 i j

/-- What the lookup of a file system builds and `path_walk` adds again points to itself: the dentry
is the head of its bucket already. -/
lemma find_makes_loop (hdrv : BuildsWithAlloc drv) {dir : ℕ} {s₁ : VfsState}
    (hlookup : drv.lookup s dir name = .ok (some d, s₁)) (hadd : dcacheAdd s₁ d = .ok s') :
    ∃ b, s'.table b = some d ∧ (s'.dentry d).dHashNext = some d := by
  obtain ⟨hnone, _⟩ | ⟨d', p, i, s₂, hd, hnew, hp, _, halloc, rfl⟩ := hdrv hlookup
  · cases hnone
  cases hd
  obtain ⟨hnone, _⟩ | ⟨d', s₃, hmem, _, hadd₃, _, _, _, hparent, _⟩ := allocDentry_cases halloc
  · cases hnone
  cases hmem
  have hpd : p ≠ d := by
    rintro rfl
    exact hnew hp
  obtain ⟨b, hb, rfl⟩ := dcacheAdd_eq_ok.mp hadd₃
  obtain ⟨b', hb', rfl⟩ := dcacheAdd_eq_ok.mp hadd
  -- both times it goes into the same bucket
  have hbucket : b' = b := by
    have hparent' : ((linkBucket s₃ d b).dentry d).parent = some p := by
      rw [linkBucket_sameKeys.parent]
      exact hparent
    rw [homeBucket_instantiate hparent' hpd, linkBucket_sameKeys.homeBucket, hb] at hb'
    exact (Except.ok.inj hb').symm
  rw [hbucket, linkBucket_dentry, if_pos rfl]
  exact ⟨b, update_self b _ _, update_self b _ _⟩

/-- A search for another name never leaves a dentry that points to itself. -/
lemma lookupLoop_self (hself : (s.dentry d).dHashNext = some d) (hname : (s.dentry d).name ≠ name)
    (fuel : ℕ) : lookupLoop s name fuel (some d) = .error .hang := by
  induction fuel with
  | zero => rfl
  | succ fuel ih =>
    unfold lookupLoop
    rw [if_neg hname, hself]
    exact ih

/-- A loop has no end. -/
lemma not_finiteChains_of_self (hb : s.table b = some d) (hself : (s.dentry d).dHashNext = some d) :
    ¬FiniteChains s := by
  intro h
  obtain ⟨chain, hchain, _⟩ := h.chains
  have hleads := (hchain b).1
  rw [hb] at hleads
  exact not_leads_of_self hself hleads

/-! ## One file -/

/-- Before anything is cached. Inode `i` has number `i`, and dentry 1 is going to be the root. -/
def oneFileBoot : VfsState where
  dentry _ := ⟨[], none, none, 0, 0, none⟩
  inode i := ⟨UInt64.ofNat i, 0o040755, 1, none⟩
  file _ := ⟨0, 0, 0, 0, 0, none⟩
  table _ := none
  lists := ⟨id, id⟩
  rootDentry := some 1
  live := []

/-- A file system with one file `a` in the root directory, which has inode 1. The dentry for the file
is at address 2 when that is free. -/
def oneFileDriver : Driver where
  lookup s dir name :=
    if dir = 1 ∧ name = [97] ∧ 2 ∉ s.live ∧ 1 ∈ s.live ∧ (s.dentry 1).inode = some 1 then
      match allocDentry s (some 2) true (some 1) name with
      | .ok (some d, s) => .ok (some d, instantiateDentry s d 2)
      | _ => .ok (none, s)
    else .ok (none, s)
  fopen s _ _ := .ok (vfsOk, s)
  fclose s _ _ := .ok (vfsOk, s)

lemma oneFileDriver_buildsWithAlloc : BuildsWithAlloc oneFileDriver := by
  intro s s' dir name r h
  unfold oneFileDriver at h
  simp only at h
  split_ifs at h with hif
  · obtain ⟨rfl, _, hnew, hroot, hinode⟩ := hif
    split at h
    · next d s₁ halloc =>
      cases h
      obtain ⟨hnone, _⟩ | ⟨d', _, hmem, hd', _⟩ := allocDentry_cases halloc
      · cases hnone
      · obtain rfl : d = 2 := Option.some.inj (hd'.trans hmem.symm)
        exact Or.inr ⟨2, 1, 2, s₁, rfl, hnew, hroot, hinode, halloc, rfl⟩
    · cases h
      exact Or.inl ⟨rfl, rfl⟩
  · cases h
    exact Or.inl ⟨rfl, rfl⟩

/-- The state a call leaves. -/
def afterCall (x : Except Stop (Option ℕ × VfsState)) : VfsState :=
  match x with
  | .ok (_, s) => s
  | .error _ => oneFileBoot

lemma eq_afterCall {x : Except Stop (Option ℕ × VfsState)} (h : x.map Prod.fst = .ok r) :
    x = .ok (r, afterCall x) := by
  cases x with
  | error e => exact absurd h (by simp [Except.map])
  | ok res =>
    have hr : res.1 = r := Except.ok.inj h
    rw [← hr]
    rfl

/-- The root has been made. -/
def oneFileRoot : VfsState :=
  instantiateDentry (afterCall (allocDentry (dcacheInit oneFileBoot) (some 1) true none [47])) 1 1

lemma oneFileRoot_reachable {F : VfsState → ℕ → Prop}
    {W : WalkCall → VfsState → Option ℕ × VfsState → Prop} : CacheReachable F W oneFileRoot := by
  have halloc : allocDentry (dcacheInit oneFileBoot) (some 1) true none [47] =
      .ok (some 1, afterCall (allocDentry (dcacheInit oneFileBoot) (some 1) true none [47])) :=
    eq_afterCall (by decide +kernel)
  have hinit : CacheReachable F W (dcacheInit oneFileBoot) := .init ⟨_, rfl, rfl⟩
  have hroot := hinit.step (CacheStep.alloc (fun _ _ => not_mem_nil)
    (fun p hp => absurd hp (by simp)) halloc)
  have hlive : (afterCall (allocDentry (dcacheInit oneFileBoot) (some 1) true none [47])).live =
      [1] := by decide +kernel
  apply hroot.step
  apply CacheStep.instantiate
  · rw [hlive]
    exact mem_singleton.mpr rfl
  · intro c hc
    rw [hlive, mem_singleton] at hc
    rw [hc]
    decide +kernel

/-- The file has been put into the cache without a walk. -/
def oneFileAdded : VfsState := afterCall (allocDentry oneFileRoot (some 2) true (some 1) [97])

lemma oneFileAdded_reachable {F : VfsState → ℕ → Prop}
    {W : WalkCall → VfsState → Option ℕ × VfsState → Prop} : CacheReachable F W oneFileAdded := by
  have hlive : oneFileRoot.live = [1] := by decide +kernel
  have halloc : allocDentry oneFileRoot (some 2) true (some 1) [97] = .ok (some 2, oneFileAdded) :=
    eq_afterCall (by decide +kernel)
  have hmem : ∀ d, some 2 = some d → d ∉ oneFileRoot.live := by
    rintro d ⟨⟩
    rw [hlive]
    decide
  have hparent : ∀ p, some 1 = some p → p ∈ oneFileRoot.live := by
    rintro p ⟨⟩
    rw [hlive]
    decide
  exact oneFileRoot_reachable.step (CacheStep.alloc hmem hparent halloc)

/-- After a walk of `/.`, which asks for no name. -/
def oneFileWalked : VfsState := oneFileAdded.addRef 1 1

lemma oneFileWalked_reachable : CacheReachable FreedFirst FindsNothing oneFileWalked := by
  have hstart : startDentry oneFileAdded none = some 1 := by decide +kernel
  have hwalk : ∀ drv, WalkCall.run ⟨drv, 1, some [slash, dot], none, true⟩ oneFileAdded =
      .ok (some 1, oneFileWalked) := fun _ => pathWalk_slashDot hstart
  exact oneFileAdded_reachable.step
    (CacheStep.walk oneFileDriver_buildsWithAlloc (hwalk oneFileDriver) (hwalk _))

theorem chains_stay_finite_freed :
    ∃ s, freeDentry 2 oneFileWalked 2 = .ok s ∧ FiniteChains s := by
  cases hfree : freeDentry 2 oneFileWalked 2 with
  | error e =>
    have hok : (freeDentry 2 oneFileWalked 2).map (fun _ => ()) = .ok () := by decide +kernel
    rw [hfree] at hok
    exact absurd hok (by simp [Except.map])
  | ok s =>
    have hlive : oneFileWalked.live = [2, 1] := by decide +kernel
    have hleaf : Leaf oneFileWalked 2 := by
      intro c hc
      rw [hlive, mem_pair] at hc
      obtain rfl | rfl := hc
      · decide +kernel
      · decide +kernel
    have hfirst : FreedFirst oneFileWalked 2 :=
      ⟨hleaf, 255, 2, by decide +kernel, by decide +kernel⟩
    have h2 : 2 ∈ oneFileWalked.live := by
      rw [hlive]
      decide
    have hr := oneFileWalked_reachable.step (CacheStep.free h2 hfirst hfree)
    exact ⟨s, rfl, chains_stay_finite hr⟩

/-- `path_walk` of `/a`. -/
def oneFileWalk : WalkCall := ⟨oneFileDriver, 2, some [slash, 97], none, true⟩

/-- After the walk. -/
def oneFileLoop : VfsState := afterCall (oneFileWalk.run oneFileRoot)

/-- One walk to a file that was not in the cache. The dentry of the file then points to itself, and a
lookup of the name `cl`, which belongs in the same bucket, does not return. -/
theorem walk_makes_loop :
    CacheReachable (fun _ _ => True) (fun _ _ _ => True) oneFileLoop ∧
      (oneFileLoop.dentry 2).dHashNext = some 2 ∧ ¬FiniteChains oneFileLoop ∧
      ∀ fuel, dcacheLookup fuel oneFileLoop 1 [99, 108] = .error .hang := by
  have hwalk : oneFileWalk.run oneFileRoot = .ok (some 2, oneFileLoop) :=
    eq_afterCall (by decide +kernel)
  have hself : (oneFileLoop.dentry 2).dHashNext = some 2 := by decide +kernel
  have hhead : oneFileLoop.table 255 = some 2 := by decide +kernel
  have hbucket : dentryHtBucket oneFileLoop (some 1) [99, 108] = .ok 255 := by decide +kernel
  have hname : (oneFileLoop.dentry 2).name ≠ [99, 108] := by decide +kernel
  refine ⟨oneFileRoot_reachable.step (CacheStep.walk oneFileDriver_buildsWithAlloc hwalk trivial),
    hself, not_finiteChains_of_self hhead hself, fun fuel => ?_⟩
  unfold dcacheLookup
  rw [hbucket]
  simp only
  rw [hhead]
  exact lookupLoop_self hself hname fuel

end LunOS.Vfs
