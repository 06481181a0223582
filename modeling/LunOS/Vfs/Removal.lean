import LunOS.Utils.CircularChains
import LunOS.Vfs.DentryCache

/-!
# Removal from the dentry cache

`dcache_remove` is called with an entry, but it searches for the entry's name: it unlinks the first
entry of the bucket that has the name. An entry may also have been added more than once, and then
its chain is circular.

- `Homed`: what hangs in a bucket belongs there, whatever was added how often.
- `removeLoop_begins`: the loop for a beginning of a chain.
- `removes_only_iff`: the entry and no other is taken out if and only if it is the first one with its
  name and hangs on one link.
-/

namespace LunOS.Vfs
open LunOS.Klib LunOS.Buckets Function List

variable {s s' : VfsState} {l pre : List ℕ} {b b' : Bucket} {c d e : ℕ} {name : CString}
  {lk : Link ℕ Bucket}

/-! ## What hangs in a bucket -/

/-- The entries that hang in a bucket belong there. The list has the entries that were added. -/
structure Homed (s : VfsState) (l : List ℕ) : Prop where
  head : ∀ b c, s.table b = some c → c ∈ l ∧ homeBucket s c = .ok b
  next : ∀ a ∈ l, ∀ c, (s.dentry a).dHashNext = some c → c ∈ l ∧ homeBucket s c = homeBucket s a

/-- A dentry goes to its bucket. -/
lemma Homed.dcacheAdd (h : Homed s l) (hadd : dcacheAdd s d = .ok s') : Homed s' (d :: l) := by
  obtain ⟨b, hb, rfl⟩ := dcacheAdd_eq_ok.mp hadd
  have hhome : ∀ c, homeBucket (linkBucket s d b) c = homeBucket s c := by
    intro c
    exact linkBucket_sameKeys.homeBucket
  refine ⟨fun b' c hc => ?_, fun a ha c hc => ?_⟩
  · rw [hhome]
    have hc' : update s.table b (some d) b' = some c := hc
    by_cases hbb : b' = b
    · rw [hbb, update_self] at hc'
      rw [← Option.some.inj hc', hbb]
      exact ⟨mem_cons_self, hb⟩
    · rw [update_of_ne hbb] at hc'
      exact (h.head b' c hc').imp_left (mem_cons_of_mem d)
  · rw [hhome, hhome]
    rw [linkBucket_dentry] at hc
    by_cases had : a = d
    · rw [if_pos had] at hc
      rw [had, hb]
      exact (h.head b c hc).imp_left (mem_cons_of_mem d)
    · rw [if_neg had] at hc
      have hal := (mem_cons.mp ha).resolve_left had
      exact (h.next a hal c hc).imp_left (mem_cons_of_mem d)

lemma insertAll_homed {l₀ : List ℕ} (h : Homed s l₀) (hins : insertAll s l = .ok s') :
    ∃ l₁, Homed s' l₁ := by
  induction l generalizing s l₀ with
  | nil =>
    cases hins
    exact ⟨l₀, h⟩
  | cons d l ih =>
    unfold insertAll at hins
    cases hadd : Vfs.dcacheAdd s d with
    | error x =>
      rw [hadd] at hins
      cases hins
    | ok s₁ =>
      rw [hadd] at hins
      exact ih (h.dcacheAdd hadd) hins

lemma homed_dcacheInit (s : VfsState) : Homed (dcacheInit s) [] :=
  ⟨fun _ _ hc => absurd hc (by simp [dcacheInit]), fun _ ha => absurd ha not_mem_nil⟩

lemma Homed.reached (h : Homed s l) (hlk : Reached s.cache b lk) (hc : s.cache.read lk = some c) :
    c ∈ l ∧ homeBucket s c = .ok b := by
  induction hlk generalizing c with
  | head => exact h.head b c hc
  | @next lk a _ ha ih =>
    obtain ⟨hal, hhome⟩ := ih ha
    rw [← hhome]
    exact h.next a hal c hc

/-- No link belongs to two buckets. -/
lemma Homed.bucket_unique (h : Homed s l) (hlk : Reached s.cache b lk)
    (hlk' : Reached s.cache b' lk) : b = b' := by
  cases hlk with
  | head =>
    cases hlk'
    rfl
  | next hbefore ha =>
    cases hlk' with
    | next hbefore' ha' =>
      have hhome := (h.reached hbefore ha).2
      exact Except.ok.inj (hhome.symm.trans (h.reached hbefore' ha').2)

/-! ## The removal -/

lemma readLink_eq_read (lk : Link ℕ Bucket) : s.readLink lk = s.cache.read lk := by
  cases lk <;> rfl

/-- The first entry with the name is unlinked. -/
lemma removeLoop_begins {fuel : ℕ} (h : Begins s.cache lk (pre ++ [d]))
    (hpre : ∀ c ∈ pre, (s.dentry c).name ≠ name) (hd : (s.dentry d).name = name) :
    removeLoop s name fuel lk =
      if pre.length < fuel then .ok (s.writeLink (s.dentry d).dHashNext (linkAfter lk pre))
      else .error .hang := by
  induction fuel generalizing lk pre with
  | zero => rfl
  | succ fuel ih =>
    unfold removeLoop
    rw [readLink_eq_read]
    cases pre with
    | nil =>
      rw [h.1]
      simp only
      have hpos : ([] : List ℕ).length < fuel + 1 := Nat.succ_pos fuel
      rw [if_pos hd, if_pos hpos]
      rfl
    | cons c pre =>
      have hrest := ih h.2 fun c' hc' => hpre c' (mem_cons_of_mem c hc')
      rw [h.1]
      simp only
      rw [if_neg (hpre c mem_cons_self), hrest, length_cons]
      simp only [Nat.add_lt_add_iff_right]
      rfl

/-- The call returns, and the chains are those from before with this entry taken out. -/
def RemovesOnly (s : VfsState) (e : ℕ) : Prop :=
  ∃ fuel s', dcacheRemove fuel s e = .ok s' ∧ ∀ b, TakenOut s.cache s'.cache (.head b) e

/-- The entry hangs in the bucket. -/
def InBucket (s : VfsState) (b : Bucket) (e : ℕ) : Prop :=
  ∃ lk, Reached s.cache b lk ∧ s.cache.read lk = some e

/-- No entry before this one in the bucket has its name. -/
def FirstOfName (s : VfsState) (b : Bucket) (e : ℕ) : Prop :=
  ∃ pre, Begins s.cache (.head b) (pre ++ [e]) ∧ ∀ c ∈ pre, (s.dentry c).name ≠ (s.dentry e).name

/-- The removal for `e` unlinks the first entry `d` with its name. The other buckets stay as they
are. -/
lemma removesOnly_iff_takenOut (h : Homed s l) (he : homeBucket s e = .ok b)
    (hd : Begins s.cache (.head b) (pre ++ [d])) (hname : (s.dentry d).name = (s.dentry e).name)
    (hpre : ∀ c ∈ pre, (s.dentry c).name ≠ (s.dentry e).name) :
    RemovesOnly s e ↔
      TakenOut s.cache (s.cache.write (s.cache.next d) (linkAfter (.head b) pre)) (.head b) e := by
  have hrun : ∀ fuel, dcacheRemove fuel s e =
      if pre.length < fuel then .ok (s.writeLink (s.dentry d).dHashNext (linkAfter (.head b) pre))
      else .error .hang := by
    intro fuel
    have hbucket : dentryHtBucket s (s.dentry e).parent (s.dentry e).name = .ok b := he
    unfold dcacheRemove
    rw [hbucket]
    exact removeLoop_begins hd hpre hname
  have hlink : Reached s.cache b (linkAfter (.head b) pre) := (begins_snoc.mp hd).1.reached .head
  constructor
  · rintro ⟨fuel, s', hok, hout⟩
    rw [hrun] at hok
    split_ifs at hok
    have hb := hout b
    rw [← Except.ok.inj hok, writeLink_cache] at hb
    exact hb
  · intro hout
    refine ⟨pre.length + 1, _, (hrun _).trans (if_pos (Nat.lt_succ_self _)), fun b' => ?_⟩
    rw [writeLink_cache]
    by_cases hbb : b' = b
    · rw [hbb]
      exact hout
    · apply takenOut_of_same
      · intro lk hlk
        apply read_write_of_ne
        rintro rfl
        exact hbb (h.bucket_unique hlk hlink)
      · intro lk hlk hread
        have hhome := (h.reached hlk hread).2
        exact hbb (Except.ok.inj (hhome.symm.trans he))

/-- Of the entries up to `e` there is a first one with the name of `e`. -/
lemma exists_first_of_name (he : InBucket s b e) : ∃ pre d, Begins s.cache (.head b) (pre ++ [d]) ∧
    (s.dentry d).name = (s.dentry e).name ∧
    ∀ c ∈ pre, (s.dentry c).name ≠ (s.dentry e).name := by
  obtain ⟨lk, hlk, hread⟩ := he
  obtain ⟨before, hbefore, rfl⟩ := hlk.exists_begins
  have hall := begins_snoc.mpr ⟨hbefore, hread⟩
  have hsome : ((before ++ [e]).find? fun c => (s.dentry c).name = (s.dentry e).name).isSome := by
    rw [List.find?_isSome]
    exact ⟨e, mem_append_right before mem_cons_self, by simp⟩
  obtain ⟨d, hd⟩ := Option.isSome_iff_exists.mp hsome
  obtain ⟨hname, pre, post, hsplit, hpre⟩ := List.find?_eq_some_iff_append.mp hd
  rw [hsplit, append_cons, begins_append] at hall
  refine ⟨pre, d, hall.1, by simpa using hname, fun c hc => ?_⟩
  simpa using hpre c hc

/-- Whatever was added to the empty cache, in any order and also repeatedly, removing an entry takes
out this entry and no other if and only if no entry with the same name is before it in its bucket,
and one link of the bucket leads to it. -/
theorem removes_only_iff {s₀ : VfsState} (hins : insertAll (dcacheInit s₀) l = .ok s)
    (he : InBucket s b e) : RemovesOnly s e ↔ FirstOfName s b e ∧ OneLink s.cache b e := by
  obtain ⟨l₁, hhomed⟩ := insertAll_homed (homed_dcacheInit s₀) hins
  obtain ⟨lk, hlk, hread⟩ := he
  have hhome : homeBucket s e = .ok b := (hhomed.reached hlk hread).2
  constructor
  · intro hremoves
    obtain ⟨pre, d, hd, hname, hpre⟩ := exists_first_of_name ⟨lk, hlk, hread⟩
    have hout := (removesOnly_iff_takenOut hhomed hhome hd hname hpre).mp hremoves
    have hepre : e ∉ pre := fun hmem => hpre e hmem rfl
    by_cases hde : d = e
    · rw [hde] at hd hout
      exact ⟨⟨pre, hd, hpre⟩, (takenOut_unlink_iff hd hepre).mp hout⟩
    · exact absurd hout (not_takenOut_unlink hd hepre hde hlk hread)
  · rintro ⟨⟨pre, hbegins, hpre⟩, hone⟩
    have hepre : e ∉ pre := fun hmem => hpre e hmem rfl
    apply (removesOnly_iff_takenOut hhomed hhome hbegins rfl hpre).mpr
    exact (takenOut_unlink_iff hbegins hepre).mpr hone

/-! ## Two files in one bucket -/

lemma twoFiles_leads : Leads twoFiles.cache.next (twoFiles.cache.head (hashBucket 5 [97])) [4, 3] :=
  ⟨rfl, rfl, rfl⟩

theorem removes_only_twoFiles : RemovesOnly twoFiles 4 := by
  have hbegins : Begins twoFiles.cache (.head (hashBucket 5 [97])) [4, 3] := twoFiles_leads.begins rfl
  apply (removes_only_iff insertAll_twoFiles ⟨_, .head, hbegins.1⟩).mpr
  exact ⟨⟨[], ⟨hbegins.1, trivial⟩, fun c hc => absurd hc not_mem_nil⟩, twoFiles_leads.oneLink⟩

/-- The removal of the file in directory 1 takes out the one in directory 2 instead. -/
theorem removes_other_entry :
    insertAll (dcacheInit twoVolumes) [3, 4] = .ok twoFiles ∧
      (∃ s', dcacheRemove 3 twoFiles 3 = .ok s' ∧
        Leads s'.cache.next (s'.cache.head (hashBucket 5 [97])) [3]) ∧
      ¬RemovesOnly twoFiles 3 := by
  refine ⟨insertAll_twoFiles, ⟨twoFiles.writeLink (some 3) (.head (hashBucket 5 [97])), rfl, rfl, rfl⟩,
    fun hremoves => ?_⟩
  obtain ⟨l, hhomed⟩ := insertAll_homed (homed_dcacheInit twoVolumes) insertAll_twoFiles
  have hbegins : Begins twoFiles.cache (.head (hashBucket 5 [97])) [4, 3] := twoFiles_leads.begins rfl
  have hfirst : Begins twoFiles.cache (.head (hashBucket 5 [97])) ([] ++ [4]) := ⟨hbegins.1, trivial⟩
  have hread : twoFiles.cache.read (.next 4) = some 3 := hbegins.2.1
  have hout := (removesOnly_iff_takenOut (e := 3) hhomed rfl hfirst rfl (by simp)).mp hremoves
  exact not_takenOut_unlink hfirst not_mem_nil (by decide) (Reached.head.next hbegins.1) hread hout

end LunOS.Vfs
