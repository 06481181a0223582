import LunOS.Vfs.DentryCache
import LunOS.Vfs.Opening

/-!
# Path resolution

What a path means in a tree of directories and files: the components between the slashes lead from
the root from node to node. `path_walk` is compared with this, over any cache and file system that
answer according to the tree.

The two differ on one kind of paths. `path_walk` takes a name for the last one only when at most one
slash follows, so it returns `NULL` for a file with two slashes behind it.

- `resolve`: the meaning of a path.
- `Serves`: the cache and the file system answer according to the tree.
- `walkTurn_spec`, `walkLoop_spec`: one turn of the loop and the whole loop.
- `path_walk_resolves_iff`: when `path_walk` returns what the path means.
-/

namespace LunOS.Vfs
open LunOS.Klib LunOS.Buckets Function List

/-! ## Trees -/

/-- A tree of directories and files. -/
structure Tree (ν : Type*) where
  root : ν
  parent : ν → Option ν
  child : ν → CString → Option ν
  isDir : ν → Bool
  root_isDir : isDir root = true
  root_parent : parent root = none
  child_parent : ∀ {n m name}, child n name = some m → parent m = some n
  parent_isDir : ∀ {n m}, parent n = some m → isDir m = true

variable {ν : Type*} {T : Tree ν} {n m : ν}

/-- Where a component leads: nothing but an empty component may follow what is no directory. -/
def component (T : Tree ν) (n : ν) (name : CString) : Option ν :=
  if name = [] then some n
  else if T.isDir n = false then none
  else if name = [dot] then some n
  else if name = [dot, dot] then some ((T.parent n).getD n)
  else T.child n name

/-- The node that a path leads to. -/
def resolveFrom (T : Tree ν) (n : ν) (path : CString) : Option ν :=
  (path.splitOn slash).foldlM (component T) n

/-- What a path means. -/
def resolve (T : Tree ν) (path : CString) : Option ν := resolveFrom T T.root path

@[simp] lemma component_nil : component T n [] = some n := rfl

variable {rest name token path : CString}

/-- The first component and the rest. -/
lemma resolveFrom_append (hname : slash ∉ name) :
    resolveFrom T n (name ++ slash :: rest) = (component T n name).bind (resolveFrom T · rest) := by
  unfold resolveFrom
  rw [splitOn_append_cons_self_of_not_mem hname, foldlM_cons]
  rfl

lemma resolveFrom_single (hname : slash ∉ name) :
    resolveFrom T n name = component T n name := by
  unfold resolveFrom
  rw [splitOn_eq_singleton hname, foldlM_cons]
  cases component T n name <;> rfl

lemma resolveFrom_nil : resolveFrom T n [] = some n := resolveFrom_single not_mem_nil

/-- A slash in front changes nothing. -/
lemma resolveFrom_slash : resolveFrom T n (slash :: rest) = resolveFrom T n rest :=
  resolveFrom_append not_mem_nil

/-! ## Tokens -/

/-- A token and what is behind it. -/
lemma nextToken_split (str : CString) : ∃ token rest, nextToken [slash] str = (token, rest) ∧
    slash ∉ token ∧ ((str = token ∧ rest = []) ∨ str = token ++ slash :: rest) := by
  have hsplit := takeWhile_append_dropWhile (p := fun c => c ∉ [slash]) (l := str)
  have hnone : slash ∉ str.takeWhile fun c => c ∉ [slash] := by
    intro hmem
    have hne := mem_takeWhile_imp hmem
    simp at hne
  unfold nextToken
  cases hdrop : str.dropWhile fun c => c ∉ [slash] with
  | nil =>
    rw [hdrop, append_nil] at hsplit
    exact ⟨_, [], rfl, hnone, Or.inl ⟨hsplit.symm, rfl⟩⟩
  | cons c rest =>
    have hc : c = slash := by
      have hhead := List.head?_dropWhile_not (fun c => c ∉ [slash]) str
      rw [hdrop] at hhead
      simpa using hhead
    rw [hdrop, hc] at hsplit
    exact ⟨_, rest, rfl, hnone, Or.inr hsplit.symm⟩

/-- Two slashes at the end, behind a token. -/
lemma twoSlashes_append (htoken : slash ∉ token) :
    [slash, slash] <:+ token ++ slash :: rest ↔ rest = [slash] ∨ [slash, slash] <:+ rest := by
  induction token with
  | nil =>
    rw [nil_append, suffix_cons_iff]
    simp [eq_comm]
  | cons c token ih =>
    obtain ⟨hc, htoken⟩ := not_or.mp fun h => htoken (mem_cons.mpr h)
    rw [cons_append, suffix_cons_iff, ih htoken]
    constructor
    · rintro (heq | h)
      · exact absurd (List.cons.inj heq).1 hc
      · exact h
    · exact Or.inr

lemma twoSlashes_of_forall (h : ∀ c ∈ path, c = slash) (hne : path ≠ []) :
    path = [slash] ∨ [slash, slash] <:+ path := by
  induction path with
  | nil => exact absurd rfl hne
  | cons c path ih =>
    obtain ⟨rfl, hrest⟩ := forall_mem_cons.mp h
    cases path with
    | nil => exact Or.inl rfl
    | cons d path =>
      right
      rw [suffix_cons_iff]
      rcases ih hrest (cons_ne_nil d path) with heq | hsuffix
      · rw [heq]
        exact Or.inl rfl
      · exact Or.inr hsuffix

/-- A file is followed by slashes only. -/
lemma slashes_of_resolveFrom (hn : T.isDir n = false) (h : resolveFrom T n path = some m) :
    m = n ∧ ∀ c ∈ path, c = slash := by
  induction path with
  | nil =>
    rw [resolveFrom_nil] at h
    exact ⟨(Option.some.inj h).symm, fun c hc => absurd hc not_mem_nil⟩
  | cons c path ih =>
    by_cases hc : c = slash
    · rw [hc, resolveFrom_slash] at h
      obtain ⟨hm, hslashes⟩ := ih h
      exact ⟨hm, forall_mem_cons.mpr ⟨hc, hslashes⟩⟩
    · -- the component that starts here is not empty
      obtain ⟨token, rest, -, htoken, hsplit⟩ := nextToken_split (c :: path)
      have hne : token ≠ [] := by
        rintro rfl
        rcases hsplit with ⟨hnil, -⟩ | hslash
        · cases hnil
        · exact hc (List.cons.inj hslash).1
      have hnone : component T n token = none := by
        unfold component
        rw [if_neg hne, if_pos hn]
      rcases hsplit with ⟨hstr, -⟩ | hstr
      · rw [hstr, resolveFrom_single htoken, hnone] at h
        cases h
      · rw [hstr, resolveFrom_append htoken, hnone] at h
        cases h

/-- The first component of a path, as the tokenizer has split it off. -/
lemma resolveFrom_token (htoken : slash ∉ token)
    (hsplit : (path = token ∧ rest = []) ∨ path = token ++ slash :: rest) :
    resolveFrom T n path = (component T n token).bind (resolveFrom T · rest) := by
  rcases hsplit with ⟨rfl, rfl⟩ | rfl
  · rw [resolveFrom_single htoken]
    cases component T n path with
    | none => rfl
    | some m => exact resolveFrom_nil.symm
  · exact resolveFrom_append htoken

/-! ## A cache and a file system for a tree -/

/-- What can be the name of a child. -/
def IsName (name : CString) : Prop :=
  name ≠ [] ∧ name ≠ [dot] ∧ name ≠ [dot, dot] ∧ slash ∉ name

/-- The state is consistent with the tree, and dentries stand for the nodes they stood for. -/
structure Kept (I : VfsState → Prop) (Rep : VfsState → ℕ → ν → Prop) (s s' : VfsState) : Prop where
  inv : I s'
  rep : ∀ {d n}, Rep s d n → Rep s' d n

/-- The cache and the file system answer according to the tree. `I` says that a state is consistent
with the tree, and `Rep s d n` that the dentry `d` stands for the node `n`. -/
structure Serves (T : Tree ν) (drv : Driver) (fuel : ℕ) (I : VfsState → Prop)
    (Rep : VfsState → ℕ → ν → Prop) : Prop where
  addRef : ∀ {s} d k, I s → Kept I Rep s (s.addRef d k)
  root : ∀ {s}, I s → ∃ d, s.rootDentry = some d ∧ Rep s d T.root
  parent : ∀ {s d n}, I s → Rep s d n → Option.Rel (Rep s) (s.dentry d).parent (T.parent n)
  mode : ∀ {s d n}, I s → Rep s d n →
    ∃ i, (s.dentry d).inode = some i ∧ isDirectory (s.inode i).mode = T.isDir n
  cached : ∀ {s d n name}, I s → Rep s d n → T.isDir n = true → IsName name →
    ∃ r, dcacheLookup fuel s d name = .ok r ∧
      ∀ c, r = some c → ∃ m, T.child n name = some m ∧ Rep s c m
  asked : ∀ {s d n name i}, I s → Rep s d n → T.isDir n = true → IsName name →
    dcacheLookup fuel s d name = .ok none → (s.dentry d).inode = some i →
    (∃ s₁, drv.lookup s i name = .ok (none, s₁) ∧ T.child n name = none ∧ Kept I Rep s s₁) ∨
      ∃ c m s₁ s₂, drv.lookup s i name = .ok (some c, s₁) ∧ dcacheAdd s₁ c = .ok s₂ ∧
        T.child n name = some m ∧ Rep s₂ c m ∧ Kept I Rep s s₂

variable {drv : Driver} {fuel : ℕ} {I : VfsState → Prop} {Rep : VfsState → ℕ → ν → Prop}
  {s s' : VfsState} {d : ℕ}

lemma Kept.addRef (hk : Kept I Rep s s') (h : Serves T drv fuel I Rep) (d : ℕ) (k : ℤ) :
    Kept I Rep s (s'.addRef d k) :=
  ⟨(h.addRef d k hk.inv).inv, fun hrep => (h.addRef d k hk.inv).rep (hk.rep hrep)⟩

/-- A child is found as in the tree. -/
lemma Serves.lookupChild (h : Serves T drv fuel I Rep) (hs : I s) (hrep : Rep s d n)
    (hdir : T.isDir n = true) (hname : IsName name) :
    ∃ r s', lookupChild drv fuel s d name = .ok (r, s') ∧ Kept I Rep s s' ∧
      Option.Rel (Rep s') r (T.child n name) := by
  obtain ⟨r, hcache, hr⟩ := h.cached hs hrep hdir hname
  cases r with
  | some c =>
    obtain ⟨m, hchild, hc⟩ := hr c rfl
    refine ⟨some c, s, bind_eq_ok.mpr ⟨some c, hcache, rfl⟩, ⟨hs, id⟩, ?_⟩
    rw [hchild]
    exact .some hc
  | none =>
    obtain ⟨i, hi, -⟩ := h.mode hs hrep
    have hinode : s.inodeOf d = .ok i := by
      unfold VfsState.inodeOf
      rw [hi]
    rcases h.asked hs hrep hdir hname hcache hi with
      ⟨s₁, hlookup, hchild, hkept⟩ | ⟨c, m, s₁, s₂, hlookup, hadd, hchild, hc, hkept⟩
    · refine ⟨none, s₁, bind_eq_ok.mpr ⟨none, hcache, bind_eq_ok.mpr ⟨i, hinode,
        bind_eq_ok.mpr ⟨_, hlookup, rfl⟩⟩⟩, hkept, ?_⟩
      rw [hchild]
      exact .none
    · refine ⟨some c, s₂, bind_eq_ok.mpr ⟨none, hcache, bind_eq_ok.mpr ⟨i, hinode,
        bind_eq_ok.mpr ⟨_, hlookup, bind_eq_ok.mpr ⟨s₂, hadd, rfl⟩⟩⟩⟩, hkept, ?_⟩
      rw [hchild]
      exact .some hc

lemma rel_getD {α β : Type*} {r : α → β → Prop} {p : Option α} {q : Option β} {a : α} {b : β}
    (h : Option.Rel r p q) (hab : r a b) : r (p.getD a) (q.getD b) := by
  cases h with
  | none => exact hab
  | some hp => exact hp

/-- The directory above, or the directory itself. -/
lemma Serves.prevDir (h : Serves T drv fuel I Rep) (hs : I s) (hrep : Rep s d n) :
    Rep s (prevDir s d) ((T.parent n).getD n) :=
  rel_getD (h.parent hs hrep) hrep

lemma isDir_getD_parent (hdir : T.isDir n = true) : T.isDir ((T.parent n).getD n) = true := by
  cases hparent : T.parent n with
  | none => exact hdir
  | some m => exact T.parent_isDir hparent

/-! ## One turn -/

/-- What a turn does for a component that leads to `m`, with the dentry `c` for it: it goes on from a
directory, or returns. A file that is not last is given up. -/
def TurnsTo (T : Tree ν) (m : ν) (c : ℕ) (last : Bool) (t : WalkTurn) : Prop :=
  (t = .go c ∧ T.isDir m = true) ∨ (last = true ∧ t = .ret (some c)) ∨
    (last = false ∧ T.isDir m = false ∧ t = .ret none)

/-- The walk goes to the child. -/
lemma Serves.enterChild (h : Serves T drv fuel I Rep) (hs : I s) (hrep : Rep s d n)
    (hdir : T.isDir n = true) (hname : IsName token) (last : Bool) :
    ∃ t s', enterChild drv fuel s d token last = .ok (t, s') ∧ I s' ∧
      ((T.child n token = none ∧ t = .ret none) ∨
        ∃ m c, T.child n token = some m ∧ Rep s' c m ∧ TurnsTo T m c last t) := by
  obtain ⟨r, s₁, hlookup, hkept, hrel⟩ := h.lookupChild hs hrep hdir hname
  generalize hchild : T.child n token = o at hrel ⊢
  cases hrel with
  | none =>
    exact ⟨_, _, bind_eq_ok.mpr ⟨_, hlookup, rfl⟩, (hkept.addRef h d (-1)).inv, Or.inl ⟨rfl, rfl⟩⟩
  | @some c m hc =>
    have hentered : Kept I Rep s₁ ((s₁.addRef d (-1)).addRef c 1) :=
      ((h.addRef d (-1) hkept.inv)).addRef h c 1
    by_cases hlast : last = true
    · refine ⟨.ret (some c), _, bind_eq_ok.mpr ⟨_, hlookup, if_pos hlast⟩, hentered.inv,
        Or.inr ⟨m, c, rfl, hentered.rep hc, Or.inr (Or.inl ⟨hlast, rfl⟩)⟩⟩
    · obtain ⟨i, hi, hmode⟩ := h.mode hkept.inv hc
      have hinode : s₁.inodeOf c = .ok i := by
        unfold VfsState.inodeOf
        rw [hi]
      have hnotlast : last = false := by simpa using hlast
      by_cases hm : T.isDir m = true
      · have hkeep : ¬isDirectory (s₁.inode i).mode = false := by simp [hmode, hm]
        refine ⟨.go c, _, bind_eq_ok.mpr ⟨_, hlookup, (if_neg hlast).trans
          (bind_eq_ok.mpr ⟨i, hinode, if_neg hkeep⟩)⟩, hentered.inv,
          Or.inr ⟨m, c, rfl, hentered.rep hc, Or.inl ⟨rfl, hm⟩⟩⟩
      · have hfile : T.isDir m = false := by simpa using hm
        have hleft := h.addRef d (-1) hkept.inv
        refine ⟨.ret none, _, bind_eq_ok.mpr ⟨_, hlookup, (if_neg hlast).trans
          (bind_eq_ok.mpr ⟨i, hinode, if_pos (hmode.trans hfile)⟩)⟩, hleft.inv,
          Or.inr ⟨m, c, rfl, hleft.rep hc, Or.inr (Or.inr ⟨hnotlast, hfile, rfl⟩)⟩⟩

/-- One turn follows the tree. -/
lemma Serves.walkTurn (h : Serves T drv fuel I Rep) (hs : I s) (hrep : Rep s d n)
    (hdir : T.isDir n = true) (htoken : slash ∉ token) (last : Bool) :
    ∃ t s', walkTurn drv fuel s d token last = .ok (t, s') ∧ I s' ∧
      ((component T n token = none ∧ t = .ret none) ∨
        ∃ m c, component T n token = some m ∧ Rep s' c m ∧ TurnsTo T m c last t) := by
  have hnotfile : ¬T.isDir n = false := by simp [hdir]
  unfold Vfs.walkTurn component
  by_cases hnil : token = []
  · rw [if_pos hnil, if_pos hnil]
    exact ⟨.go d, s, rfl, hs, Or.inr ⟨n, d, rfl, hrep, Or.inl ⟨rfl, hdir⟩⟩⟩
  rw [if_neg hnil, if_neg hnil, if_neg hnotfile]
  by_cases hdot : token = [dot]
  · rw [if_pos hdot, if_pos hdot]
    exact ⟨.go d, s, rfl, hs, Or.inr ⟨n, d, rfl, hrep, Or.inl ⟨rfl, hdir⟩⟩⟩
  rw [if_neg hdot, if_neg hdot]
  by_cases hup : token = [dot, dot]
  · rw [if_pos hup, if_pos hup]
    have hmoved := (h.addRef (Vfs.prevDir s d) 1 hs).addRef h d (-1)
    have hprev := hmoved.rep (h.prevDir hs hrep)
    exact ⟨.go (Vfs.prevDir s d), _, rfl, hmoved.inv,
      Or.inr ⟨_, _, rfl, hprev, Or.inl ⟨rfl, isDir_getD_parent hdir⟩⟩⟩
  · rw [if_neg hup, if_neg hup]
    exact h.enterChild hs hrep hdir ⟨hnil, hdot, hup, htoken⟩ last

/-! ## Whole walks -/

/-- The path leads to a file and ends with two slashes. -/
def FileTwoSlashes (T : Tree ν) (n : ν) (path : CString) : Prop :=
  [slash, slash] <:+ path ∧ ∃ m, resolveFrom T n path = some m ∧ T.isDir m = false

/-- What a walk from the node `n` returns. -/
def WalksTo (T : Tree ν) (Rep : VfsState → ℕ → ν → Prop) (s' : VfsState) (n : ν) (path : CString)
    (r : Option ℕ) : Prop :=
  (FileTwoSlashes T n path → r = none) ∧
    (¬FileTwoSlashes T n path → Option.Rel (Rep s') r (resolveFrom T n path))

lemma walksTo_of_isDir {c : ℕ} (hres : resolveFrom T n path = some m) (hdir : T.isDir m = true)
    (hc : Rep s' c m) : WalksTo T Rep s' n path (some c) := by
  constructor
  · rintro ⟨-, m', hm', hfile⟩
    rw [hres] at hm'
    rw [← Option.some.inj hm', hdir] at hfile
    cases hfile
  · intro _
    rw [hres]
    exact .some hc

lemma walkLoop_none {turns : ℕ} {saveptr : Option CString} :
    walkLoop drv fuel turns s d (none, saveptr) = .ok (some d, s) := by
  cases turns <;> rfl

/-- The next call of the tokenizer is like a first one on the rest. -/
lemma kstrtokR_rest (hrest : rest ≠ []) :
    kstrtokR none [slash] (some rest) = kstrtokR (some rest) [slash] none := by
  cases rest with
  | nil => exact absurd rfl hrest
  | cons c rest => rfl

/-- Behind a component that leads to a directory, the rest of the path decides. -/
lemma WalksTo.of_rest {r : Option ℕ} (htoken : slash ∉ token) (hm : component T n token = some m)
    (hdir : T.isDir m = true) (h : WalksTo T Rep s' m rest r) :
    WalksTo T Rep s' n (token ++ slash :: rest) r := by
  have hres : resolveFrom T n (token ++ slash :: rest) = resolveFrom T m rest := by
    rw [resolveFrom_append htoken, hm]
    rfl
  have hiff : FileTwoSlashes T n (token ++ slash :: rest) ↔ FileTwoSlashes T m rest := by
    unfold FileTwoSlashes
    rw [hres, twoSlashes_append htoken]
    constructor
    · rintro ⟨hslash | hsuffix, m', hm', hfile⟩
      · -- one slash stays at the directory
        rw [hslash, resolveFrom_slash, resolveFrom_nil] at hm'
        rw [← Option.some.inj hm', hdir] at hfile
        cases hfile
      · exact ⟨hsuffix, m', hm', hfile⟩
    · exact fun h => ⟨Or.inr h.1, h.2⟩
  unfold WalksTo
  rw [hiff, hres]
  exact h

/-- The induction is on the turns. Every turn takes a token with its slash from the path. -/
lemma Serves.walkLoop (h : Serves T drv fuel I Rep) {turns : ℕ} (hturns : path.length < turns)
    (hs : I s) (hrep : Rep s d n) (hdir : T.isDir n = true) :
    ∃ r s', walkLoop drv fuel turns s d (kstrtokR (some path) [slash] none) = .ok (r, s') ∧
      WalksTo T Rep s' n path r := by
  induction turns generalizing s d n path with
  | zero => exact absurd hturns (Nat.not_lt_zero _)
  | succ turns ih =>
    obtain ⟨token, rest, hnext, htoken, hsplit⟩ := nextToken_split path
    have hres := resolveFrom_token (T := T) (n := n) htoken hsplit
    have htok : kstrtokR (some path) [slash] none = (some token, some rest) := by
      unfold kstrtokR
      simp only
      rw [hnext]
    obtain ⟨t, s₁, hturn, hs₁, hcases⟩ :=
      h.walkTurn hs hrep hdir htoken (decide (some rest = some []))
    rw [htok]
    rcases hcases with ⟨hnone, rfl⟩ | ⟨m, c, hm, hc, hturns'⟩
    · -- no such child
      rw [hnone] at hres
      refine ⟨none, s₁, bind_eq_ok.mpr ⟨_, hturn, rfl⟩, fun _ => rfl, fun _ => ?_⟩
      rw [hres]
      exact .none
    · have hres : resolveFrom T n path = resolveFrom T m rest := by
        rw [hres, hm]
        rfl
      rcases hturns' with ⟨rfl, hmdir⟩ | ⟨hlast, rfl⟩ | ⟨hlast, hfile, rfl⟩
      · by_cases hrest : rest = []
        · refine ⟨some c, s₁, bind_eq_ok.mpr ⟨_, hturn, ?_⟩, ?_⟩
          · rw [hrest]
            exact walkLoop_none
          · rw [hrest, resolveFrom_nil] at hres
            exact walksTo_of_isDir hres hmdir hc
        · have hpath : path = token ++ slash :: rest := hsplit.resolve_left fun h => hrest h.2
          have hlen : rest.length < turns := by
            rw [hpath, length_append, length_cons] at hturns
            omega
          obtain ⟨r, s', hloop, hwalks⟩ := ih hlen hs₁ hc hmdir
          refine ⟨r, s', bind_eq_ok.mpr ⟨_, hturn, ?_⟩, ?_⟩
          · rw [← hloop, ← kstrtokR_rest hrest]
          · rw [hpath]
            exact hwalks.of_rest htoken hm hmdir
      · -- the last name, with at most one slash behind it
        have hrest : rest = [] := by simpa using hlast
        refine ⟨some c, s₁, bind_eq_ok.mpr ⟨_, hturn, rfl⟩, fun htwo => ?_, fun _ => ?_⟩
        · exfalso
          have hsuffix := htwo.1
          rcases hsplit with ⟨hpath, -⟩ | hpath
          · rw [hpath] at hsuffix
            exact htoken (hsuffix.subset mem_cons_self)
          · rw [hpath, twoSlashes_append htoken, hrest] at hsuffix
            exact absurd hsuffix (by simp)
        · rw [hres, hrest, resolveFrom_nil]
          exact .some hc
      · -- a file with more behind it than one slash
        have hrest : rest ≠ [] := by simpa using hlast
        have hpath : path = token ++ slash :: rest := hsplit.resolve_left fun h => hrest h.2
        refine ⟨none, s₁, bind_eq_ok.mpr ⟨_, hturn, rfl⟩, fun _ => rfl, fun hnot => ?_⟩
        have hnone : resolveFrom T m rest = none := by
          cases hsome : resolveFrom T m rest with
          | none => rfl
          | some m' =>
            obtain ⟨rfl, hslashes⟩ := slashes_of_resolveFrom hfile hsome
            have hsuffix : [slash, slash] <:+ path := by
              rw [hpath, twoSlashes_append htoken]
              exact twoSlashes_of_forall hslashes hrest
            exact absurd ⟨hsuffix, m', hres.trans hsome, hfile⟩ hnot
        rw [hres, hnone]
        exact .none

/-- From the root. A slash at the beginning is skipped. -/
lemma Serves.pathWalk (h : Serves T drv fuel I Rep) (hs : I s) (path : CString) :
    ∃ r s', pathWalk drv fuel s (some path) none true = .ok (r, s') ∧
      WalksTo T Rep s' T.root path r := by
  obtain ⟨d, hroot, hrep⟩ := h.root hs
  have htaken := h.addRef d 1 hs
  unfold Vfs.pathWalk
  simp only
  by_cases hslash : path = [slash]
  · rw [if_pos hslash, hroot, hslash]
    have hres : resolveFrom T T.root [slash] = some T.root := by
      rw [resolveFrom_slash, resolveFrom_nil]
    exact ⟨some d, _, rfl, walksTo_of_isDir hres T.root_isDir (htaken.rep hrep)⟩
  have hstart : startDentry s none = some d := hroot
  rw [if_neg hslash, hstart]
  simp only
  unfold walkPath
  by_cases hup : path = [dot, dot]
  · rw [if_pos hup, hup]
    have hres : resolveFrom T T.root [dot, dot] = some ((T.parent T.root).getD T.root) := by
      rw [resolveFrom_single (by decide)]
      unfold component
      rw [T.root_isDir]
      rfl
    have hprev := (h.addRef (Vfs.prevDir s d) 1 hs).rep (h.prevDir hs hrep)
    exact ⟨some (Vfs.prevDir s d), _, rfl,
      walksTo_of_isDir hres (isDir_getD_parent T.root_isDir) hprev⟩
  rw [if_neg hup]
  by_cases hdot : path = [dot]
  · rw [if_pos hdot, hdot]
    have hres : resolveFrom T T.root [dot] = some T.root := by
      rw [resolveFrom_single (by decide)]
      unfold component
      rw [T.root_isDir]
      rfl
    exact ⟨some d, _, rfl, walksTo_of_isDir hres T.root_isDir (htaken.rep hrep)⟩
  rw [if_neg hdot]
  have hwalk : ∀ path : CString, ∃ r s', walkFrom drv fuel s d path true = .ok (r, s') ∧
      WalksTo T Rep s' T.root path r := by
    intro path
    have hcopy : kstrndup path path.length = path := take_length
    unfold walkFrom
    simp only
    rw [if_neg (by simp), hcopy]
    exact h.walkLoop (Nat.lt_succ_self _) htaken.inv (htaken.rep hrep) T.root_isDir
  by_cases hhead : path.head? = some slash
  · obtain ⟨rest, rfl⟩ := List.head?_eq_some_iff.mp hhead
    rw [if_pos hhead]
    obtain ⟨r, s', hok, hwalks⟩ := hwalk rest
    have htoken : slash ∉ ([] : CString) := not_mem_nil
    exact ⟨r, s', hok, hwalks.of_rest htoken component_nil T.root_isDir⟩
  · rw [if_neg hhead]
    exact hwalk path

/-- Over every tree, for every path, `path_walk` without a working directory returns, and it returns
what the path means if and only if the path does not lead to a file with two slashes at the end. -/
theorem path_walk_resolves_iff (h : Serves T drv fuel I Rep) (hs : I s) (path : CString) :
    (∃ r s', pathWalk drv fuel s (some path) none true = .ok (r, s') ∧
        Option.Rel (Rep s') r (resolve T path)) ↔
      ¬([slash, slash] <:+ path ∧ ∃ m, resolve T path = some m ∧ T.isDir m = false) := by
  obtain ⟨r, s', hok, hnull, hfound⟩ := h.pathWalk hs path
  constructor
  · rintro ⟨r', s'', hok', hrel⟩ htwo
    cases hok.symm.trans hok'
    obtain ⟨-, m, hm, -⟩ := id htwo
    rw [hnull htwo, hm] at hrel
    cases hrel
  · intro hnot
    exact ⟨r, s', hok, hfound hnot⟩

/-! ## A directory with a file -/

/-- The tree of `fileInRoot`: the file 2, named `d`, in the root 1. -/
def fileTree : Tree ℕ where
  root := 1
  parent n := if n = 2 then some 1 else none
  child n name := if n = 1 ∧ name = [100] then some 2 else none
  isDir n := n ≠ 2
  root_isDir := rfl
  root_parent := rfl
  child_parent := by
    intro n m name h
    split_ifs at h with hn
    rw [hn.1, ← Option.some.inj h]
    rfl
  parent_isDir := by
    intro n m h
    split_ifs at h
    cases h
    rfl

/-- What does not change in `fileInRoot` when references are taken. -/
structure IsFileInRoot (s : VfsState) : Prop where
  table : s.table = update (fun _ => none) (hashBucket 1 [100]) (some 2)
  inodes : s.inode = fileInRoot.inode
  rootDentry : s.rootDentry = some 1
  name : (s.dentry 2).name = [100]
  next : (s.dentry 2).dHashNext = none
  inode : ∀ d, (s.dentry d).inode = some d
  parent : ∀ d, (s.dentry d).parent = if d = 1 then none else some 1

/-- The two nodes are the dentries. -/
def IsNode (_ : VfsState) (d n : ℕ) : Prop := d = n ∧ (n = 1 ∨ n = 2)

lemma isFileInRoot_self : IsFileInRoot fileInRoot where
  table := rfl
  inodes := rfl
  rootDentry := rfl
  name := rfl
  next := rfl
  inode := linkBucket_sameKeys.inode
  parent := linkBucket_sameKeys.parent

lemma IsFileInRoot.addRef (h : IsFileInRoot s) (d : ℕ) (k : ℤ) : IsFileInRoot (s.addRef d k) := by
  have hdentry : ∀ c, (s.addRef d k).dentry c = s.dentry c ∨ (s.addRef d k).dentry c =
      { s.dentry c with refcount := (s.dentry c).refcount + k } := by
    intro c
    by_cases hc : c = d
    · right
      rw [hc]
      exact update_self d _ s.dentry
    · left
      exact update_of_ne hc _ s.dentry
  refine ⟨h.table, h.inodes, h.rootDentry, ?_, ?_, fun c => ?_, fun c => ?_⟩
  · rcases hdentry 2 with hc | hc <;> exact (congrArg Dentry.name hc).trans h.name
  · rcases hdentry 2 with hc | hc <;> exact (congrArg Dentry.dHashNext hc).trans h.next
  · rcases hdentry c with hc | hc <;> exact (congrArg Dentry.inode hc).trans (h.inode c)
  · rcases hdentry c with hc | hc <;> exact (congrArg Dentry.parent hc).trans (h.parent c)

lemma IsFileInRoot.dcacheLookup (h : IsFileInRoot s) (name : CString) :
    dcacheLookup 2 s 1 name = .ok (if name = [100] then some 2 else none) := by
  have hnumber : (s.inode 1).inodeNumber = 1 := by
    rw [h.inodes]
    rfl
  unfold Vfs.dcacheLookup
  rw [dentryHtBucket_some (h.inode 1), hnumber, h.table]
  simp only
  by_cases hbucket : hashBucket 1 name = hashBucket 1 [100]
  · have hleads : Leads s.cache.next (some 2) [2] := ⟨rfl, h.next⟩
    rw [hbucket, update_self, lookupLoop_find hleads (by decide), List.find?_singleton]
    by_cases hname : name = [100]
    · rw [if_pos hname, if_pos (by simp [h.name, hname])]
    · rw [if_neg hname, if_neg (by simp [h.name, Ne.symm hname])]
  · have hname : name ≠ [100] := by
      rintro rfl
      exact hbucket rfl
    rw [update_of_ne hbucket, if_neg hname]
    rfl

lemma fileInRoot_serves : Serves fileTree emptyDriver 2 IsFileInRoot IsNode where
  addRef := fun d k hs => ⟨hs.addRef d k, id⟩
  root := fun hs => ⟨1, hs.rootDentry, rfl, Or.inl rfl⟩
  parent := by
    rintro s d n hs ⟨rfl, rfl | rfl⟩
    · rw [hs.parent]
      exact .none
    · rw [hs.parent]
      exact .some ⟨rfl, Or.inl rfl⟩
  mode := by
    rintro s d n hs ⟨rfl, hn⟩
    refine ⟨d, hs.inode d, ?_⟩
    rw [hs.inodes]
    rcases hn with rfl | rfl
    · rfl
    · rfl
  cached := by
    rintro s d n name hs ⟨rfl, rfl | rfl⟩ hdir -
    · refine ⟨_, hs.dcacheLookup name, fun c hc => ?_⟩
      split_ifs at hc with hname
      cases hc
      exact ⟨2, if_pos ⟨rfl, hname⟩, rfl, Or.inr rfl⟩
    · exact absurd hdir (by decide)
  asked := by
    rintro s d n name i hs ⟨rfl, rfl | rfl⟩ hdir - hcache -
    · have hname : name ≠ [100] := by
        intro hname
        rw [hs.dcacheLookup, if_pos hname] at hcache
        exact absurd (Except.ok.inj hcache) (by simp)
      exact Or.inl ⟨s, rfl, if_neg fun h => hname h.2, hs, id⟩
    · exact absurd hdir (by decide)

/-- The path `/d/` leads to the file. -/
theorem path_walk_resolves_file :
    ∃ r s', pathWalk emptyDriver 2 fileInRoot (some [slash, 100, slash]) none true = .ok (r, s') ∧
      Option.Rel (IsNode s') r (resolve fileTree [slash, 100, slash]) := by
  apply (path_walk_resolves_iff fileInRoot_serves isFileInRoot_self _).mpr
  rintro ⟨hsuffix, -⟩
  exact absurd hsuffix (by decide)

/-- The path `/d//` means the same, but `path_walk` returns `NULL`. -/
theorem path_walk_two_slashes :
    resolve fileTree [slash, 100, slash] = some 2 ∧
      resolve fileTree [slash, 100, slash, slash] = some 2 ∧
      (pathWalk emptyDriver 2 fileInRoot (some [slash, 100, slash]) none true).map Prod.fst =
        .ok (some 2) ∧
      (pathWalk emptyDriver 2 fileInRoot (some [slash, 100, slash, slash]) none true).map Prod.fst =
        .ok none :=
  ⟨rfl, rfl, rfl, rfl⟩

end LunOS.Vfs
