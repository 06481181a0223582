import LunOS.Vfs.Common

/-!
# The dentry cache

The table of the cache with the links in the dentries is a hash table with intrusive chains. What
`dcache_add`, `dcache_lookup` and `dcache_remove` do is said on the chains:

- `dcacheAdd_ok`: the entry is linked at the head of its bucket.
- `lookupLoop_find`: the first entry of the chain that has the name.
- `removeLoop_first`: the first entry of the chain that has the name is unlinked, whichever entry
  the removal is for.

A lookup compares names only, and so does not tell the directories apart that share a bucket. After
entries were inserted into an empty cache, `lookup_exact_iff` says when a lookup is right.
-/

namespace LunOS.Vfs
open LunOS.Klib LunOS.Buckets Function List

/-- The heads of the buckets and the links of the dentries. -/
def VfsState.cache (s : VfsState) : Table ℕ Bucket := ⟨s.table, fun d => (s.dentry d).dHashNext⟩

/-- The bucket that an entry is put into. -/
def homeBucket (s : VfsState) (d : ℕ) : Except Stop Bucket :=
  dentryHtBucket s (s.dentry d).parent (s.dentry d).name

variable {s s' : VfsState} {d p i : ℕ} {b : Bucket} {name : CString} {chain : Bucket → List ℕ}

/-! ## Buckets -/

lemma dentryHtBucket_some (hi : (s.dentry p).inode = some i) :
    dentryHtBucket s (some p) name = .ok (hashBucket (s.inode i).inodeNumber name) := by
  simp only [dentryHtBucket, VfsState.inodeOf, hi]

lemma dentryHtBucket_null (hi : (s.dentry p).inode = none) :
    dentryHtBucket s (some p) name = .error .fault := by
  simp only [dentryHtBucket, VfsState.inodeOf, hi]

/-- The bucket depends on the inode number of the parent only. -/
lemma dentryHtBucket_congr {parent : Option ℕ}
    (h : ∀ p, parent = some p → (s'.dentry p).inode = (s.dentry p).inode ∧
      ∀ i, (s.dentry p).inode = some i → (s'.inode i).inodeNumber = (s.inode i).inodeNumber) :
    dentryHtBucket s' parent name = dentryHtBucket s parent name := by
  cases parent with
  | none => rfl
  | some p =>
    obtain ⟨hinode, hnumber⟩ := h p rfl
    cases hi : (s.dentry p).inode with
    | none => rw [dentryHtBucket_null hi, dentryHtBucket_null (hinode.trans hi)]
    | some i =>
      rw [dentryHtBucket_some hi, dentryHtBucket_some (hinode.trans hi), hnumber i hi]

/-- The fields that decide where an entry is and what it is found by are the same. -/
structure SameKeys (s s' : VfsState) : Prop where
  name : ∀ d, (s'.dentry d).name = (s.dentry d).name
  parent : ∀ d, (s'.dentry d).parent = (s.dentry d).parent
  inode : ∀ d, (s'.dentry d).inode = (s.dentry d).inode
  inodeNumber : ∀ i, (s'.inode i).inodeNumber = (s.inode i).inodeNumber

lemma SameKeys.rfl : SameKeys s s := ⟨fun _ => .refl _, fun _ => .refl _, fun _ => .refl _,
  fun _ => .refl _⟩

lemma SameKeys.trans {t : VfsState} (h : SameKeys s s') (h' : SameKeys s' t) : SameKeys s t :=
  ⟨fun d => (h'.name d).trans (h.name d), fun d => (h'.parent d).trans (h.parent d),
    fun d => (h'.inode d).trans (h.inode d), fun i => (h'.inodeNumber i).trans (h.inodeNumber i)⟩

lemma SameKeys.dentryHtBucket (h : SameKeys s s') {parent : Option ℕ} :
    dentryHtBucket s' parent name = Vfs.dentryHtBucket s parent name :=
  dentryHtBucket_congr fun p _ => ⟨h.inode p, fun i _ => h.inodeNumber i⟩

lemma SameKeys.homeBucket (h : SameKeys s s') : homeBucket s' d = Vfs.homeBucket s d := by
  unfold Vfs.homeBucket
  rw [h.parent, h.name, h.dentryHtBucket]

/-- A write to other fields of a dentry. -/
lemma sameKeys_setDentry {r : Dentry} (hname : r.name = (s.dentry d).name)
    (hparent : r.parent = (s.dentry d).parent) (hinode : r.inode = (s.dentry d).inode) :
    SameKeys s (s.setDentry d r) := by
  have hdentry : ∀ c, (s.setDentry d r).dentry c = if c = d then r else s.dentry c :=
    fun c => update_apply s.dentry d r c
  refine ⟨fun c => ?_, fun c => ?_, fun c => ?_, fun _ => rfl⟩
  all_goals
    rw [hdentry]
    split_ifs with hc
    · rw [hc]
      assumption
    · rfl

lemma addRef_dentry (k : ℤ) (c : ℕ) : (s.addRef d k).dentry c =
    if c = d then { s.dentry d with refcount := (s.dentry d).refcount + k } else s.dentry c :=
  update_apply s.dentry d _ c

lemma addRef_sameKeys (k : ℤ) : SameKeys s (s.addRef d k) := sameKeys_setDentry rfl rfl rfl

lemma addRef_cache (k : ℤ) : (s.addRef d k).cache = s.cache := by
  show Table.mk _ _ = Table.mk _ _
  congr 1
  funext c
  rw [addRef_dentry]
  split_ifs with hc
  · rw [hc]
  · rfl

lemma dropInode_dentry (s : VfsState) (d : ℕ) : (dropInode s d).dentry = s.dentry := by
  unfold dropInode
  split <;> rfl

lemma addInodeRef_number (k : ℤ) (i j : ℕ) :
    ((s.addInodeRef i k).inode j).inodeNumber = (s.inode j).inodeNumber := by
  show (update s.inode i _ j).inodeNumber = _
  rw [update_apply]
  split_ifs with h
  · rw [h]
  · rfl

lemma dropInode_sameKeys (s : VfsState) (d : ℕ) : SameKeys s (dropInode s d) := by
  unfold dropInode
  split
  · exact SameKeys.rfl
  · exact ⟨fun _ => rfl, fun _ => rfl, fun _ => rfl, fun j => addInodeRef_number _ _ j⟩

/-! ## The functions on chains -/

/-- What `dcache_add` does. -/
lemma dcacheAdd_eq_ok : dcacheAdd s d = .ok s' ↔
    ∃ b, homeBucket s d = .ok b ∧ s' = linkBucket s d b := by
  unfold dcacheAdd homeBucket
  cases dentryHtBucket s (s.dentry d).parent (s.dentry d).name with
  | error e => simp
  | ok b =>
    constructor
    · intro h
      exact ⟨b, rfl, (Except.ok.inj h).symm⟩
    · rintro ⟨b', hb, rfl⟩
      rw [Except.ok.inj hb]

lemma linkBucket_dentry {c : ℕ} : (linkBucket s d b).dentry c =
    if c = d then { s.dentry d with dHashNext := s.table b } else s.dentry c := by
  show update s.dentry d _ c = _
  rw [update_apply]

lemma linkBucket_sameKeys : SameKeys s (linkBucket s d b) := by
  have h : SameKeys s (s.setDentry d { s.dentry d with dHashNext := s.table b }) :=
    sameKeys_setDentry rfl rfl rfl
  exact ⟨h.name, h.parent, h.inode, h.inodeNumber⟩

lemma linkBucket_cache : (linkBucket s d b).cache =
    ⟨update s.cache.head b (some d),
      update s.cache.next d (s.cache.head b)⟩ := by
  show Table.mk _ _ = Table.mk _ _
  congr 1
  funext c
  rw [linkBucket_dentry, update_apply]
  split_ifs <;> rfl

/-- An entry that is in no chain is linked in. -/
lemma dcacheAdd_chained (h : Chained s.cache chain) (hd : ∀ b, d ∉ chain b)
    (hadd : dcacheAdd s d = .ok s') :
    ∃ b, homeBucket s d = .ok b ∧ SameKeys s s' ∧
      Chained s'.cache (update chain b (d :: chain b)) := by
  obtain ⟨b, hb, rfl⟩ := dcacheAdd_eq_ok.mp hadd
  refine ⟨b, hb, linkBucket_sameKeys, ?_⟩
  rw [linkBucket_cache]
  exact h.push hd

variable {l : List ℕ} {fuel : ℕ} {q : Option ℕ}

/-- On a chain that ends, the search returns the first entry with the name. -/
lemma lookupLoop_find (h : Leads s.cache.next q l) (hfuel : l.length < fuel) :
    lookupLoop s name fuel q = .ok (l.find? fun d => (s.dentry d).name = name) := by
  induction l generalizing q fuel with
  | nil =>
    obtain ⟨fuel, rfl⟩ := Nat.exists_eq_add_of_lt hfuel
    have hq : q = none := h
    rw [hq]
    rfl
  | cons c l ih =>
    obtain ⟨hq, hl⟩ := h
    cases fuel with
    | zero => exact absurd hfuel (Nat.not_lt_zero _)
    | succ fuel =>
      rw [hq, List.find?_cons]
      unfold lookupLoop
      by_cases hc : (s.dentry c).name = name
      · rw [if_pos hc]
        simp only [hc, decide_true]
      · rw [if_neg hc]
        simp only [hc, decide_false]
        exact ih hl (Nat.lt_of_succ_lt_succ hfuel)

/-- A search that returns has returned the first entry with the name. -/
lemma lookupLoop_ok {r : Option ℕ} (hok : lookupLoop s name fuel q = .ok r)
    (h : Leads s.cache.next q l) :
    r = l.find? fun d => (s.dentry d).name = name := by
  induction fuel generalizing q l with
  | zero => exact absurd hok (by simp [lookupLoop])
  | succ fuel ih =>
    cases l with
    | nil =>
      have hq : q = none := h
      rw [hq] at hok
      exact (Except.ok.inj hok).symm
    | cons c l =>
      rw [h.1] at hok
      rw [List.find?_cons]
      unfold lookupLoop at hok
      by_cases hc : (s.dentry c).name = name
      · rw [if_pos hc] at hok
        simp only [hc, decide_true]
        exact (Except.ok.inj hok).symm
      · rw [if_neg hc] at hok
        simp only [hc, decide_false]
        exact ih hok h.2

/-- On a chain that ends, the removal returns. -/
lemma removeLoop_ends {cur : Link ℕ Bucket} (h : Leads s.cache.next (s.readLink cur) l)
    (hfuel : l.length < fuel) :
    ∃ s', removeLoop s name fuel cur = .ok s' := by
  induction l generalizing cur fuel with
  | nil =>
    obtain ⟨fuel, rfl⟩ := Nat.exists_eq_add_of_lt hfuel
    have hq : s.readLink cur = none := h
    unfold removeLoop
    rw [hq]
    exact ⟨s, rfl⟩
  | cons c l ih =>
    cases fuel with
    | zero => exact absurd hfuel (Nat.not_lt_zero _)
    | succ fuel =>
      unfold removeLoop
      rw [h.1]
      simp only
      split_ifs
      · exact ⟨_, rfl⟩
      · exact ih h.2 (Nat.lt_of_succ_lt_succ hfuel)

/-- A removal that returns has unlinked the first entry with the name. -/
lemma removeLoop_first {cur : Link ℕ Bucket} {pre post : List ℕ}
    (hok : removeLoop s name fuel cur = .ok s')
    (h : Leads s.cache.next (s.readLink cur) (pre ++ d :: post))
    (hne : ∀ c ∈ pre, (s.dentry c).name ≠ name) (hd : (s.dentry d).name = name) :
    s' = s.writeLink (s.dentry d).dHashNext (linkAfter cur pre) := by
  induction fuel generalizing cur pre with
  | zero => exact absurd hok (by simp [removeLoop])
  | succ fuel ih =>
    unfold removeLoop at hok
    cases pre with
    | nil =>
      rw [h.1] at hok
      simp only at hok
      rw [if_pos hd] at hok
      exact (Except.ok.inj hok).symm
    | cons c pre =>
      rw [h.1] at hok
      simp only at hok
      rw [if_neg (hne c mem_cons_self)] at hok
      have hrest := ih hok h.2 fun c' hc' => hne c' (mem_cons_of_mem c hc')
      exact hrest

lemma writeLink_cache (cur : Link ℕ Bucket) :
    (s.writeLink q cur).cache = s.cache.write q cur := by
  cases cur with
  | head b => rfl
  | next c =>
    show Table.mk s.table _ = Table.mk s.table _
    congr 1
    funext c'
    show (update s.dentry c _ c').dHashNext = update s.cache.next c q c'
    rw [update_apply, update_apply]
    split_ifs <;> rfl

lemma writeLink_sameKeys (cur : Link ℕ Bucket) : SameKeys s (s.writeLink q cur) := by
  cases cur with
  | head b => exact ⟨fun _ => rfl, fun _ => rfl, fun _ => rfl, fun _ => rfl⟩
  | next c => exact sameKeys_setDentry rfl rfl rfl

/-! ## Insertions into an empty cache -/

/-- `dcache_add` for one entry after the other. -/
def insertAll : VfsState → List ℕ → Except Stop VfsState
  | s, [] => .ok s
  | s, d :: l =>
    match dcacheAdd s d with
    | .error e => .error e
    | .ok s => insertAll s l

/-- The entries of a list that belong in a bucket, the last one first. -/
def bucketOf (s : VfsState) (l : List ℕ) (b : Bucket) : List ℕ :=
  l.reverse.filter fun d => homeBucket s d = .ok b

lemma bucketOf_cons (l : List ℕ) : bucketOf s (d :: l) b =
    bucketOf s l b ++ if homeBucket s d = .ok b then [d] else [] := by
  unfold bucketOf
  rw [reverse_cons, filter_append]
  congr 1
  by_cases h : homeBucket s d = .ok b
  · rw [if_pos h, filter_singleton]
    simp [h]
  · rw [if_neg h, filter_singleton]
    simp [h]

/-- The chains after the insertions. The induction carries the chains that were there before. -/
lemma insertAll_chained (h : Chained s.cache chain) (hl : l.Nodup)
    (hnew : ∀ d ∈ l, ∀ b, d ∉ chain b) (hins : insertAll s l = .ok s') :
    SameKeys s s' ∧ Chained s'.cache fun b => bucketOf s' l b ++ chain b := by
  induction l generalizing s chain with
  | nil =>
    cases hins
    exact ⟨SameKeys.rfl, h⟩
  | cons d l ih =>
    obtain ⟨hdl, hl⟩ := nodup_cons.mp hl
    unfold insertAll at hins
    cases hadd : dcacheAdd s d with
    | error e =>
      rw [hadd] at hins
      cases hins
    | ok s₁ =>
      rw [hadd] at hins
      obtain ⟨b, hb, hkeys, hchain⟩ := dcacheAdd_chained h (hnew d mem_cons_self) hadd
      have hnew₁ : ∀ c ∈ l, ∀ b', c ∉ update chain b (d :: chain b) b' := by
        intro c hc b' hmem
        have hold := hnew c (mem_cons_of_mem d hc)
        rw [mem_update_chain, mem_cons] at hmem
        obtain ⟨_, rfl | hmem⟩ | ⟨_, hmem⟩ := hmem
        · exact hdl hc
        · exact hold b hmem
        · exact hold b' hmem
      obtain ⟨hkeys', hchain'⟩ := ih hchain hl hnew₁ hins
      have hhome : homeBucket s' d = .ok b := by
        rw [hkeys'.homeBucket, hkeys.homeBucket]
        exact hb
      refine ⟨hkeys.trans hkeys', ?_⟩
      convert hchain' using 2 with b'
      rw [bucketOf_cons, hhome, append_assoc]
      by_cases hbb : b' = b
      · rw [hbb, update_self, if_pos rfl]
        rfl
      · rw [update_of_ne hbb, if_neg fun he => hbb (Except.ok.inj he).symm]
        rfl

/-- The entry is the one of this directory with this name. -/
def Names (s : VfsState) (p : ℕ) (name : CString) (d : ℕ) : Prop :=
  (s.dentry d).parent = some p ∧ (s.dentry d).name = name

/-- A lookup returns only an entry of that directory with that name, and `NULL` only if none was
inserted. -/
def LookupExact (fuel : ℕ) (s : VfsState) (inserted : List ℕ) (p : ℕ) (name : CString) : Prop :=
  ∃ r, dcacheLookup fuel s p name = .ok r ∧ (∀ d, r = some d → Names s p name d) ∧
    (r = none → ∀ d ∈ inserted, ¬Names s p name d)

/-- The entry has the name and is in the bucket where a lookup in this directory searches. -/
def Collides (s : VfsState) (p : ℕ) (name : CString) (d : ℕ) : Prop :=
  (s.dentry d).name = name ∧ homeBucket s d = dentryHtBucket s (some p) name

lemma Names.collides (h : Names s p name d) : Collides s p name d := by
  obtain ⟨hparent, hname⟩ := h
  constructor
  · exact hname
  · unfold homeBucket
    rw [hparent, hname]

instance : Decidable (Collides s p name d) := by
  unfold Collides
  infer_instance

/-- A lookup returns the entry that was inserted last among those with the name in the bucket. -/
lemma dcacheLookup_last (h : Chained s.cache (bucketOf s l)) (hi : (s.dentry p).inode = some i)
    (hfuel : l.length < fuel) :
    dcacheLookup fuel s p name = .ok (l.reverse.find? fun d => Collides s p name d) := by
  obtain ⟨b, hb⟩ : ∃ b, dentryHtBucket s (some p) name = .ok b := ⟨_, dentryHtBucket_some hi⟩
  have hlen : (bucketOf s l b).length < fuel := by
    have hle := length_filter_le (fun d => decide (homeBucket s d = .ok b)) l.reverse
    rw [length_reverse] at hle
    exact lt_of_le_of_lt hle hfuel
  have hleads : Leads s.cache.next (s.table b) (bucketOf s l b) := h.leads b
  unfold dcacheLookup
  rw [hb]
  simp only
  rw [lookupLoop_find hleads hlen]
  unfold bucketOf
  rw [List.find?_filter]
  congr 2
  funext d
  rw [decide_eq_decide, decide_eq_true_iff, decide_eq_true_iff]
  unfold Collides
  rw [hb]
  exact and_comm

/-- The search from the end finds the last element with the property. -/
lemma find?_reverse_eq_some {α : Type*} {q : α → Bool} {l : List α} {a : α} :
    l.reverse.find? q = some a ↔
      q a ∧ ∃ pre post, l = pre ++ a :: post ∧ ∀ e ∈ post, q e = false := by
  rw [List.find?_eq_some_iff_append]
  constructor
  · rintro ⟨ha, after, before, hl, hafter⟩
    refine ⟨ha, before.reverse, after.reverse, ?_, ?_⟩
    · have hrev := congrArg List.reverse hl
      simpa using hrev
    · intro e he
      have hq := hafter e (mem_reverse.mp he)
      simpa using hq
  · rintro ⟨ha, pre, post, rfl, hpost⟩
    refine ⟨ha, post.reverse, pre.reverse, by simp, ?_⟩
    intro e he
    rw [hpost e (mem_reverse.mp he)]
    rfl

/-- Of two elements of a list without duplicates, the one that does not come after the other comes
before it. -/
lemma mem_after_of_split {α : Type*} {l pre post pre' post' : List α} {a c : α} (hl : l.Nodup)
    (hc : l = pre ++ c :: post) (ha : l = pre' ++ a :: post') (hne : a ≠ c) (hafter : c ∉ post') :
    a ∈ post := by
  have hmem : a ∈ pre ++ c :: post := by
    rw [← hc, ha]
    simp
  rw [mem_append, mem_cons] at hmem
  obtain hpre | heq | hpost := hmem
  · -- then `c` would follow `a`
    obtain ⟨x, y, rfl⟩ := append_of_mem hpre
    have hsplit : x ++ a :: (y ++ c :: post) = pre' ++ a :: post' := by
      rw [← ha, hc, append_assoc]
      rfl
    rw [hc, append_assoc, cons_append] at hl
    have hx : a ∉ x := fun h => disjoint_of_nodup_append hl h mem_cons_self
    have hy : a ∉ y ++ c :: post := (nodup_cons.mp hl.of_append_right).1
    obtain ⟨_, _, hpost⟩ := (append_cons_inj_of_notMem hx hy).mp hsplit
    apply absurd _ hafter
    rw [← hpost]
    simp
  · exact absurd heq hne
  · exact hpost

/-- After the insertions a lookup is exact if and only if every entry of another directory that
collides was inserted before one that the lookup is for. -/
theorem lookup_exact_iff {s₀ : VfsState} {l : List ℕ} {fuel : ℕ} (hl : l.Nodup)
    (hins : insertAll (dcacheInit s₀) l = .ok s) (hi : (s.dentry p).inode = some i)
    (hfuel : l.length < fuel) :
    LookupExact fuel s l p name ↔
      ∀ pre e post, l = pre ++ e :: post → Collides s p name e → (s.dentry e).parent ≠ some p →
        ∃ d ∈ post, Names s p name d := by
  have hempty : Chained (dcacheInit s₀).cache fun _ => [] := chained_empty fun _ => rfl
  have hchain : Chained s.cache (bucketOf s l) := by
    have h := (insertAll_chained hempty hl (fun _ _ _ => not_mem_nil) hins).2
    simpa using h
  have hlookup : dcacheLookup fuel s p name = .ok (l.reverse.find? fun d => Collides s p name d) :=
    dcacheLookup_last hchain hi hfuel
  constructor
  · rintro ⟨r, hr, hsome, hnone⟩ pre e post hsplit hcoll hparent
    rw [hlookup] at hr
    have hr := Except.ok.inj hr
    cases r with
    | none =>
      -- the colliding entry would have been found
      have he : e ∈ l.reverse := by
        rw [hsplit]
        simp
      have hq := List.find?_eq_none.mp hr e he
      exact absurd hcoll (by simpa using hq)
    | some d =>
      have hd := hsome d rfl
      obtain ⟨_, pre', post', hsplit', hlast⟩ := find?_reverse_eq_some.mp hr
      have hne : d ≠ e := by
        rintro rfl
        exact hparent hd.1
      have he : e ∉ post' := by
        intro he
        have hq := hlast e he
        exact absurd hcoll (by simpa using hq)
      exact ⟨d, mem_after_of_split hl hsplit hsplit' hne he, hd⟩
  · intro hcond
    refine ⟨_, hlookup, ?_, ?_⟩
    · intro d hd
      obtain ⟨hcoll, pre, post, hsplit, hlast⟩ := find?_reverse_eq_some.mp hd
      have hcoll : Collides s p name d := by simpa using hcoll
      by_contra hnot
      have hparent : (s.dentry d).parent ≠ some p := fun hp => hnot ⟨hp, hcoll.1⟩
      -- then an entry inserted later collides too, and is found first
      obtain ⟨e, he, hnames⟩ := hcond pre d post hsplit hcoll hparent
      have hq := hlast e he
      exact absurd hnames.collides (by simpa using hq)
    · intro hnone d hd hnames
      have hq := List.find?_eq_none.mp hnone d (mem_reverse.mpr hd)
      exact absurd hnames.collides (by simpa using hq)

/-! ## Two volumes -/

/-- The directories 1 and 2 are on different volumes, where both have inode number 5. The entries 3
and 4 are files `a` in them. -/
def twoVolumes : VfsState where
  dentry d := ⟨if d < 3 then [100] else [97], some d, if d < 3 then none else some (d - 2), 1, 0, none⟩
  inode i := ⟨if i < 3 then 5 else UInt64.ofNat i, 0o040755, 1, none⟩
  file _ := ⟨0, 0, 0, 0, 0, none⟩
  table _ := none
  lists := ⟨id, id⟩
  rootDentry := none
  live := []

/-- Both files are in the cache. -/
def twoFiles : VfsState :=
  linkBucket (linkBucket (dcacheInit twoVolumes) 3 (hashBucket 5 [97])) 4 (hashBucket 5 [97])

lemma insertAll_twoFiles : insertAll (dcacheInit twoVolumes) [3, 4] = .ok twoFiles := rfl

theorem lookup_exact_twoFiles : LookupExact 3 twoFiles [3, 4] 2 [97] := by
  have hi : (twoFiles.dentry 2).inode = some 2 := rfl
  apply (lookup_exact_iff (by decide) insertAll_twoFiles hi (by decide)).mpr
  intro pre e post hsplit _ hparent
  -- entry 4 is the one of directory 2, and it was inserted last
  have he : e = 3 := by
    have hmem : e ∈ [3, 4] := by
      rw [hsplit]
      simp
    rw [mem_pair] at hmem
    obtain rfl | rfl := hmem
    · rfl
    · exact absurd rfl hparent
  have hlast : [3, 4] = [3] ++ 4 :: ([] : List ℕ) := rfl
  have hpost : 4 ∈ post :=
    mem_after_of_split (by decide) hsplit hlast (by omega) not_mem_nil
  exact ⟨4, hpost, rfl, rfl⟩

/-- The lookup of `a` in directory 1 returns the file of directory 2. -/
theorem lookup_finds_other_volume :
    insertAll (dcacheInit twoVolumes) [3, 4] = .ok twoFiles ∧ Names twoFiles 1 [97] 3 ∧
      dcacheLookup 3 twoFiles 1 [97] = .ok (some 4) ∧ (twoFiles.dentry 4).parent = some 2 ∧
      ¬LookupExact 3 twoFiles [3, 4] 1 [97] := by
  have hlookup : dcacheLookup 3 twoFiles 1 [97] = .ok (some 4) := rfl
  refine ⟨rfl, ⟨rfl, rfl⟩, hlookup, rfl, ?_⟩
  rintro ⟨r, hr, hsome, _⟩
  rw [hlookup] at hr
  have hparent := (hsome 4 (Except.ok.inj hr).symm).1
  exact absurd hparent (by decide)

end LunOS.Vfs
