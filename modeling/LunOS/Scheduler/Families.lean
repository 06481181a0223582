import LunOS.Scheduler.Queues

/-!
# The lists of a task

A live task has a node on `all_tasks`, one for a run queue, one for its parent's children and one
for its parent's zombies, and is itself the head of two lists.

- `TaskLists`: what the four kinds of lists contain.
- What each function of `tasks.c` does to them; a function that changes lists of one kind leaves the
  others alone.
-/

namespace LunOS.Scheduler
open LunOS.Ds Function List

/-! ## Four kinds of lists -/

/-- The kinds of lists that a task is on. -/
inductive ListKind
  | all
  | queue
  | kid
  | zombie
deriving DecidableEq

/-- The kind of list a node is for. -/
def Node.listKind : Node → ListKind
  | .allTasks | .tasks _ => .all
  | .cpuRunqueue _ | .tasksRunnable _ => .queue
  | .children _ | .siblings _ => .kid
  | .zombieChildren _ | .zombieSiblings _ => .zombie

/-- `all_tasks` -/
def allKind : Kind Node Unit ℕ where
  head _ := .allTasks
  node := .tasks
  head_inj _ _ _ := rfl
  node_inj _ _ h := Node.tasks.inj h
  apart _ _ := Node.noConfusion

/-- The children of a task. -/
def kidKind : Kind Node ℕ ℕ where
  head := .children
  node := .siblings
  head_inj _ _ h := Node.children.inj h
  node_inj _ _ h := Node.siblings.inj h
  apart _ _ := Node.noConfusion

/-- The zombies of a task. -/
def zombieKind : Kind Node ℕ ℕ where
  head := .zombieChildren
  node := .zombieSiblings
  head_inj _ _ h := Node.zombieChildren.inj h
  node_inj _ _ h := Node.zombieSiblings.inj h
  apart _ _ := Node.noConfusion

lemma allKind_covers {z : Node} : allKind.Covers z ↔ z.listKind = .all := by
  cases z <;> simp [Kind.Covers, allKind, Node.listKind]

lemma queueKind_covers {z : Node} : queueKind.Covers z ↔ z.listKind = .queue := by
  cases z <;> simp [Kind.Covers, queueKind, Node.listKind]

lemma kidKind_covers {z : Node} : kidKind.Covers z ↔ z.listKind = .kid := by
  cases z <;> simp [Kind.Covers, kidKind, Node.listKind]

lemma zombieKind_covers {z : Node} : zombieKind.Covers z ↔ z.listKind = .zombie := by
  cases z <;> simp [Kind.Covers, zombieKind, Node.listKind]

/-- The contents of the run queues and of the lists of each task. -/
structure Family where
  queue : CpuId → List ℕ
  kids : ℕ → List ℕ
  zombies : ℕ → List ℕ

/-- The lists in the heap: `all_tasks` has the live tasks, and each live task has its lists. -/
structure TaskLists (h : ListHeap Node) (live : List ℕ) (A : Family) : Prop where
  all : Rings allKind h (fun _ => True) (· ∈ live) fun _ => live
  queues : Rings queueKind h (fun _ => True) (· ∈ live) A.queue
  kids : Rings kidKind h (· ∈ live) (· ∈ live) A.kids
  zombies : Rings zombieKind h (· ∈ live) (· ∈ live) A.zombies

variable {h h' : ListHeap Node} {live : List ℕ} {A : Family} {t p : ℕ}

namespace TaskLists

section
variable (hl : TaskLists h live A)
include hl

/-- No task is live twice. -/
lemma nodup : live.Nodup := hl.all.nodup (b := ()) trivial

/-- Other lists stay. -/
lemma of_queues {queue : CpuId → List ℕ} (hr : Rings queueKind h' (fun _ => True) (· ∈ live) queue)
    (hframe : ∀ z, ¬ queueKind.Covers z → SameAt h h' z) :
    TaskLists h' live { A with queue := queue } := by
  simp only [queueKind_covers] at hframe
  constructor
  · exact hl.all.congr_of_ne allKind_covers (by decide) hframe
  · exact hr
  · exact hl.kids.congr_of_ne kidKind_covers (by decide) hframe
  · exact hl.zombies.congr_of_ne zombieKind_covers (by decide) hframe

lemma of_kids {kids : ℕ → List ℕ} (hr : Rings kidKind h' (· ∈ live) (· ∈ live) kids)
    (hframe : ∀ z, ¬ kidKind.Covers z → SameAt h h' z) :
    TaskLists h' live { A with kids := kids } := by
  simp only [kidKind_covers] at hframe
  constructor
  · exact hl.all.congr_of_ne allKind_covers (by decide) hframe
  · exact hl.queues.congr_of_ne queueKind_covers (by decide) hframe
  · exact hr
  · exact hl.zombies.congr_of_ne zombieKind_covers (by decide) hframe

lemma of_zombies {zombies : ℕ → List ℕ} (hr : Rings zombieKind h' (· ∈ live) (· ∈ live) zombies)
    (hframe : ∀ z, ¬ zombieKind.Covers z → SameAt h h' z) :
    TaskLists h' live { A with zombies := zombies } := by
  simp only [zombieKind_covers] at hframe
  constructor
  · exact hl.all.congr_of_ne allKind_covers (by decide) hframe
  · exact hl.queues.congr_of_ne queueKind_covers (by decide) hframe
  · exact hl.kids.congr_of_ne kidKind_covers (by decide) hframe
  · exact hr

/-! ## One list at a time -/

/-- A task goes on a run queue. -/
lemma enqueue (ht : t ∈ live) (hout : ∀ c, t ∉ A.queue c) (c : CpuId) :
    TaskLists (listAddTail h (.tasksRunnable t) (.cpuRunqueue c)) live
      { A with queue := update A.queue c (A.queue c ++ [t]) } :=
  hl.of_queues (hl.queues.add trivial ht fun c _ => hout c) fun _ =>
    hl.queues.add_frame (b := c) (t := t) trivial

/-- A task leaves its run queue. -/
lemma dequeue (ht : t ∈ live) :
    TaskLists (listDel h (.tasksRunnable t)) live
      { A with queue := fun c => (A.queue c).erase t } :=
  hl.of_queues (hl.queues.del ht) fun _ => hl.queues.del_frame ht

/-- A child is linked. -/
lemma addKid (hp : p ∈ live) (ht : t ∈ live) (hout : ∀ p ∈ live, t ∉ A.kids p) :
    TaskLists (listAddTail h (.siblings t) (.children p)) live
      { A with kids := update A.kids p (A.kids p ++ [t]) } :=
  hl.of_kids (hl.kids.add hp ht hout) fun _ => hl.kids.add_frame (b := p) (t := t) hp

/-- A child is unlinked. -/
lemma removeKid (ht : t ∈ live) :
    TaskLists (listDel h (.siblings t)) live { A with kids := fun p => (A.kids p).erase t } :=
  hl.of_kids (hl.kids.del ht) fun _ => hl.kids.del_frame ht

/-- A zombie is linked. -/
lemma addZombie (hp : p ∈ live) (ht : t ∈ live) (hout : ∀ p ∈ live, t ∉ A.zombies p) :
    TaskLists (listAddTail h (.zombieSiblings t) (.zombieChildren p)) live
      { A with zombies := update A.zombies p (A.zombies p ++ [t]) } :=
  hl.of_zombies (hl.zombies.add hp ht hout) fun _ => hl.zombies.add_frame (b := p) (t := t) hp

/-- A zombie is unlinked. -/
lemma removeZombie (ht : t ∈ live) :
    TaskLists (listDel h (.zombieSiblings t)) live
      { A with zombies := fun p => (A.zombies p).erase t } :=
  hl.of_zombies (hl.zombies.del ht) fun _ => hl.zombies.del_frame ht

end

/-! ## Orphaning -/

end TaskLists

/-- The loop of `task_orphan_children` takes the nodes out one after the other, and ends. -/
lemma orphanLoop_eq {head : Node} {l : List Node} (hc : Circular h head l) : ∀ {turns : ℕ},
    l.length < turns → orphanLoop head turns (h.next head) h = some (l.foldl listDel h) := by
  induction l generalizing h with
  | nil =>
    intro turns hturns
    obtain ⟨turns, rfl⟩ : ∃ n, turns = n + 1 := ⟨turns - 1, by omega⟩
    unfold orphanLoop
    rw [if_pos hc.seg.1]
    rfl
  | cons x l ih =>
    intro turns hturns
    rw [length_cons] at hturns
    obtain ⟨turns, rfl⟩ : ∃ n, turns = n + 1 := ⟨turns - 1, by omega⟩
    have hne : x ≠ head :=
      (ne_of_mem_of_not_mem mem_cons_self (nodup_cons.mp hc.nodup).1)
    have hrest : Circular (listDel h x) head l := by
      have hdel := hc.listDel mem_cons_self
      rw [erase_cons_head] at hdel
      exact hdel
    -- the successor is read before the node is unlinked
    have hnext : (listDel h x).next head = h.next x := by
      rw [listDel_next, if_neg hne.symm, if_pos hc.seg.1.2.symm]
    unfold orphanLoop
    rw [hc.next_head, if_neg hne, ← hnext]
    exact ih hrest (by omega)

namespace TaskLists

/-- `task_orphan_children` leaves the task without children. -/
lemma orphan (hl : TaskLists h live A) (ht : t ∈ live) {turns : ℕ}
    (hturns : (A.kids t).length < turns) :
    ∃ h', orphanLoop (.children t) turns (h.next (.children t)) h = some h' ∧
      TaskLists h' live { A with kids := update A.kids t [] } := by
  -- the loop walks over nodes, the list is one of tasks
  have hclear := hl.kids.clear ht
  refine ⟨_, orphanLoop_eq (hl.kids.ring t ht) (by rw [length_map]; exact hturns), ?_⟩
  rw [foldl_map]
  exact hl.of_kids hclear.1 hclear.2

/-! ## Creation and destruction -/

/-- Lists of a kind that every task has a head and a node of: those of the new task are linked to
themselves, the others are left alone. -/
lemma extendFresh {K : Kind Node ℕ ℕ} {q : ℕ → List ℕ} (hr : Rings K h (· ∈ live) (· ∈ live) q)
    (ht : t ∉ live) (hhead : ∀ t', K.head t' ∈ freshNodes t ↔ t' = t)
    (hnode : ∀ t', K.node t' ∈ freshNodes t ↔ t' = t) :
    Rings K ((freshNodes t).foldl listInit h) (· ∈ live ++ [t]) (· ∈ live ++ [t])
      (update q t []) := by
  have hne : ∀ t' ∈ live, t' ≠ t := fun t' ht' => ne_of_mem_of_not_mem ht' ht
  have hmono : ∀ t', t' ∈ live → t' ∈ live ++ [t] := fun t' => mem_append_left [t]
  have hupdate : ∀ t' ∈ live, update q t [] t' = q t' :=
    fun t' ht' => update_of_ne (hne t' ht') _ _
  refine hr.extend (fun b hb => ?_) (fun b hb => ⟨hmono b hb, hupdate b hb⟩) (fun t' ht' => ?_)
    hmono (fun b hb => ?_) fun t' ht' => ?_
  · rcases mem_append.mp hb with hold | hnew
    · exact Or.inl ⟨hold, hupdate b hold⟩
    · rw [mem_singleton.mp hnew]
      exact Or.inr ⟨update_self .., foldl_listInit_of_mem ((hhead t).mpr rfl) h⟩
  · rcases mem_append.mp ht' with hold | hnew
    · exact Or.inl hold
    · rw [mem_singleton.mp hnew]
      exact Or.inr (foldl_listInit_of_mem ((hnode t).mpr rfl) h)
  · exact foldl_listInit_of_notMem (fun hmem => hne b hb ((hhead b).mp hmem)) h
  · exact foldl_listInit_of_notMem (fun hmem => hne t' ht' ((hnode t').mp hmem)) h

section
variable (hl : TaskLists h live A)
include hl

/-- The node of the new task for the run queues. -/
lemma extendFresh_queues (ht : t ∉ live) :
    Rings queueKind ((freshNodes t).foldl listInit h) (fun _ => True) (· ∈ live ++ [t])
      A.queue := by
  refine hl.queues.extend (fun b _ => Or.inl ⟨trivial, rfl⟩) (fun b _ => ⟨trivial, rfl⟩)
    (fun t' ht' => ?_) (fun t' => mem_append_left [t]) (fun b _ => ?_) fun t' ht' => ?_
  · rcases mem_append.mp ht' with hold | hnew
    · exact Or.inl hold
    · rw [mem_singleton.mp hnew]
      exact Or.inr (foldl_listInit_of_mem (by simp [freshNodes, queueKind]) h)
  · exact foldl_listInit_of_notMem (by simp [freshNodes, queueKind]) h
  · have hne : t' ≠ t := ne_of_mem_of_not_mem ht' ht
    exact foldl_listInit_of_notMem (by simpa [freshNodes, queueKind] using hne) h

/-- The new task's node for `all_tasks` is not written yet. -/
lemma extendFresh_all (t : ℕ) :
    Rings allKind ((freshNodes t).foldl listInit h) (fun _ => True) (· ∈ live) fun _ => live := by
  apply hl.all.congr
  intro z hz
  apply foldl_listInit_of_notMem
  rw [allKind_covers] at hz
  cases z <;> simp_all [freshNodes, Node.listKind]

/-- The heap `create_kernel_task` leaves: the new task is on `all_tasks` and on no other list. -/
lemma create (ht : t ∉ live) :
    TaskLists (listAddTail ((freshNodes t).foldl listInit h) (.tasks t) .allTasks) (live ++ [t])
      { A with
        kids := update A.kids t [], zombies := update A.zombies t [] } := by
  have hall := hl.extendFresh_all t
  have hkids := extendFresh hl.kids ht (fun t' => by simp [freshNodes, kidKind])
    fun t' => by simp [freshNodes, kidKind]
  have hzombies := extendFresh hl.zombies ht (fun t' => by simp [freshNodes, zombieKind])
    fun t' => by simp [freshNodes, zombieKind]
  have hframe : ∀ z, z.listKind ≠ .all → SameAt ((freshNodes t).foldl listInit h)
      (listAddTail ((freshNodes t).foldl listInit h) (.tasks t) .allTasks) z := by
    intro z hz
    exact hall.add_frame (b := ()) (t := t) trivial fun hcov => hz (allKind_covers.mp hcov)
  -- `create_task` does not initialize `tasks`, and `list_add_tail` overwrites both its pointers
  have hadd := hall.add_new (b := ()) (t := t) trivial fun _ _ => ht
  have hlive : (fun t' => t' ∈ live ∨ t' = t) = (· ∈ live ++ [t]) := by
    funext t'
    rw [mem_append, mem_singleton]
  have hlist : update (fun _ : Unit => live) () (live ++ [t]) = fun _ => live ++ [t] := by
    funext b
    exact update_self ..
  rw [hlive, hlist] at hadd
  constructor
  · exact hadd
  · exact (hl.extendFresh_queues ht).congr_of_ne queueKind_covers (by decide) hframe
  · exact hkids.congr_of_ne kidKind_covers (by decide) hframe
  · exact hzombies.congr_of_ne zombieKind_covers (by decide) hframe

/-- `task_destroy` of a task that is on no run queue, no zombie of a live task, and has neither
children nor zombies. -/
lemma destroy (ht : t ∈ live) (hqueue : ∀ c, t ∉ A.queue c) (hzombie : ∀ p ∈ live, t ∉ A.zombies p)
    (hkids : A.kids t = []) (hzombies : A.zombies t = []) :
    TaskLists (listDel (listDel h (.tasks t)) (.siblings t)) (live.erase t)
      { A with kids := fun p => (A.kids p).erase t } := by
  have hnodup := hl.nodup
  have hin : ∀ t', t' ∈ live.erase t ↔ t' ≠ t ∧ t' ∈ live := fun t' => hnodup.mem_erase_iff
  have hold : ∀ t', t' ∈ live.erase t → t' ∈ live := fun t' ht' => ((hin t').mp ht').2
  have hgone : ∀ b, b ∈ live → b ∉ live.erase t → b = t := by
    intro b hb hout
    by_contra hne
    exact hout ((hin b).mpr ⟨hne, hb⟩)
  -- first off `all_tasks`, then off the parent's children
  have hdel := hl.all.del ht
  have hframe : ∀ z, z.listKind ≠ .all → SameAt h (listDel h (.tasks t)) z :=
    fun z hz => hl.all.del_frame ht fun hcov => hz (allKind_covers.mp hcov)
  have hmid : Rings kidKind (listDel h (.tasks t)) (· ∈ live) (· ∈ live) A.kids :=
    hl.kids.congr_of_ne kidKind_covers (by decide) hframe
  have hframe' : ∀ z, z.listKind ≠ .kid →
      SameAt (listDel h (.tasks t)) (listDel (listDel h (.tasks t)) (.siblings t)) z :=
    fun z hz => hmid.del_frame ht fun hcov => hz (kidKind_covers.mp hcov)
  have hqueues' := (hl.queues.congr_of_ne queueKind_covers (by decide) hframe).congr_of_ne
    queueKind_covers (by decide) hframe'
  have hzombies' := (hl.zombies.congr_of_ne zombieKind_covers (by decide) hframe).congr_of_ne
    zombieKind_covers (by decide) hframe'
  -- then its memory is given back: no list of a task that stays has a node of it
  refine ⟨?_, ?_, ?_, ?_⟩
  · exact (hdel.congr_of_ne allKind_covers (by decide) hframe').restrict (fun b hb => hb) hold
      (fun b _ t' ht' => ht') fun b hb hnot => absurd hb hnot
  · refine hqueues'.restrict (fun b hb => hb) hold (fun b _ t' ht' => ?_)
      fun b hb hnot => absurd hb hnot
    have hne : t' ≠ t := fun heq => hqueue b (heq ▸ ht')
    exact (hin t').mpr ⟨hne, hl.queues.mem b trivial t' ht'⟩
  · refine (hmid.del ht).restrict hold hold (fun b hb t' ht' => ?_) fun b hb hnot => ?_
    · have hmem := ((hl.kids.nodup (hold b hb)).mem_erase_iff).mp ht'
      exact (hin t').mpr ⟨hmem.1, hl.kids.mem b (hold b hb) t' hmem.2⟩
    · rw [hgone b hb hnot, hkids]
      rfl
  · refine hzombies'.restrict hold hold (fun b hb t' ht' => ?_) fun b hb hnot => ?_
    · have hne : t' ≠ t := fun heq => hzombie b (hold b hb) (heq ▸ ht')
      exact (hin t').mpr ⟨hne, hl.zombies.mem b (hold b hb) t' ht'⟩
    · rw [hgone b hb hnot]
      exact hzombies

end

end TaskLists

end LunOS.Scheduler
