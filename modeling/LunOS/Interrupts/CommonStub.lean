import LunOS.Interrupts.Common

/-!
# The common stub

What `isr_common_stub` does on any stack: it takes the five words on top of the stack for `int_no`,
`err_code`, `rip`, `cs` and `rflags`, whatever they are.

- `StubEntry`: what the stub needs of memory.
- `isrCommonStub_user`: where it goes if `cs` is a user selector.
- `isrCommonStub_dispatch`: what is in the context and in the frame of `isr_dispatch`.
- `Entered`: the machine when some words were pushed on interrupt entry.
-/

namespace LunOS.Interrupts
open LunOS.Memory LunOS.X86 Function List

variable {c d : Cpu} {table ctx : Word}

/-- The slot of the current task in `__percpu_current_task`. -/
def taskSlot (table : Word) (c : Cpu) : Word :=
  table + BitVec.ofNat 64 (readLE c.mem c.gsBase.toNat 4) * 8

/-- The current task has its context at `ctx`, apart from the five words on top of the stack and from
the word below them; this word is not in the CPU number and in the slot either. -/
structure StubEntry (d : Cpu) (table ctx : Word) : Prop where
  fits : Fits ctx contextSize
  room : 8 ≤ (d.reg .rsp).toNat
  top : (d.reg .rsp).toNat + 40 < 2 ^ 64
  context : (d.reg .rsp).toNat + 40 ≤ ctx.toNat ∨
    ctx.toNat + contextSize ≤ (d.reg .rsp).toNat - 8
  cpu : Below (d.reg .rsp) 8 d.gsBase 4
  slot : Below (d.reg .rsp) 8 (taskSlot table d) 8
  current : loadWord d.mem (taskSlot table d) = ctx

/-! ## Finding the context -/

/-- The machine when `rax` points to the context. -/
structure AtContext (d d' : Cpu) (ctx : Word) : Prop where
  rax : d'.reg .rax = ctx
  rsp : d'.reg .rsp = d.reg .rsp - BitVec.ofNat 64 8
  regs : ∀ r, r ≠ .rax → r ≠ .rsp → d'.reg r = d.reg r
  mem : d'.mem = storeWord d.mem (d.reg .rsp - BitVec.ofNat 64 8) (d.reg .rax)

/-- A pushed word is below the stack pointer. -/
lemma StubEntry.pushed_outside (h : StubEntry d table ctx) (v : Word) {z : ℕ}
    (hz : z < (d.reg .rsp).toNat - 8 ∨ (d.reg .rsp).toNat ≤ z) :
    storeWord d.mem (d.reg .rsp - BitVec.ofNat 64 8) v z = d.mem z := by
  have hroom := h.room
  apply writeLE_of_outside
  rw [toNat_sub_ofNat hroom]
  omega

/-- The context of the current task. -/
lemma findContext_spec (h : StubEntry d table ctx) :
    AtContext d (run (findContext table) d) ctx := by
  have hrun : run (findContext table) d =
      exec (exec (d.pushWord (d.reg .rax)) (.loadGs .rax)) (.loadIndexed table .rax .rax) := rfl
  have hout : ∀ (a : Word) (k : ℕ), Below (d.reg .rsp) 8 a k →
      ∀ z, a.toNat ≤ z → z < a.toNat + k → (d.pushWord (d.reg .rax)).mem z = d.mem z := by
    intro a k hb z hz hz'
    unfold Below at hb
    exact h.pushed_outside (d.reg .rax) (by omega)
  -- the CPU number and the slot are not where `rax` was pushed
  have hcpu : readLE (d.pushWord (d.reg .rax)).mem d.gsBase.toNat 4 =
      readLE d.mem d.gsBase.toNat 4 := readLE_congr (hout _ _ h.cpu)
  have hslot : loadWord (d.pushWord (d.reg .rax)).mem (taskSlot table d) = ctx :=
    (loadWord_congr (hout _ _ h.slot)).trans h.current
  rw [hrun]
  refine ⟨?_, ?_, fun r hr hr' => ?_, rfl⟩
  · simp only [exec, Cpu.setReg_self]
    show loadWord (d.pushWord (d.reg .rax)).mem (table +
      BitVec.ofNat 64 (readLE (d.pushWord (d.reg .rax)).mem d.gsBase.toNat 4) * 8) = ctx
    rw [hcpu]
    exact hslot
  · simp only [exec]
    rw [Cpu.setReg_of_ne _ _ (by decide), Cpu.setReg_of_ne _ _ (by decide), Cpu.pushWord_rsp]
  · simp only [exec]
    rw [Cpu.setReg_of_ne _ _ hr, Cpu.setReg_of_ne _ _ hr, Cpu.pushWord_of_ne _ _ hr']

/-! ## Saving -/

variable {l : List (ℕ × Word)} {o : ℕ} {m : Mem}

/-- Words at other offsets of the context lie apart from the one at `o'`. -/
lemma offsets_apart {o' : ℕ} (offsets : List ℕ) (hl : l.map Prod.fst = offsets)
    (h : ∀ o ∈ offsets, o + 8 ≤ contextSize ∧ (o' + 8 ≤ o ∨ o + 8 ≤ o')) :
    ∀ x ∈ l, x.1 + 8 ≤ contextSize ∧ (o' + 8 ≤ x.1 ∨ x.1 + 8 ≤ o') := by
  intro x hx
  apply h
  rw [← hl]
  exact mem_map_of_mem hx

/-- One word of the stack goes into the context through `rcx`. -/
lemma run_saveWord {o' : ℕ} {v : Word} (hfits : Fits ctx contextSize) (hrax : c.reg .rax = ctx)
    (hst : Stored m c.mem ctx contextSize l) (hv : fieldAt c.mem (c.reg .rsp) o = v)
    (ho : o' + 8 ≤ contextSize)
    (hap : ∀ x ∈ l, x.1 + 8 ≤ contextSize ∧ (o' + 8 ≤ x.1 ∨ x.1 + 8 ≤ o')) :
    ∃ c', run [.load o .rsp .rcx, .store .rcx o' .rax] c = c' ∧
      c'.reg = update c.reg .rcx v ∧ Stored m c'.mem ctx contextSize (l ++ [(o', v)]) := by
  refine ⟨_, rfl, ?_, ?_⟩
  · show update c.reg .rcx (fieldAt c.mem (c.reg .rsp) o) = _
    rw [hv]
  · have hstep := hst.store hfits ho hap v
    have hmem : (run [.load o .rsp .rcx, .store .rcx o' .rax] c).mem
        = storeWord c.mem (ctx + BitVec.ofNat 64 o') v := by
      show storeWord c.mem ((c.setReg .rcx _).reg .rax + _) ((c.setReg .rcx _).reg .rcx) = _
      rw [Cpu.setReg_of_ne _ _ (by decide), Cpu.setReg_self, hrax, hv]
    rw [hmem]
    exact hstep

/-- A word of the stack. -/
def stackWord (d : Cpu) (o : ℕ) : Word := fieldAt d.mem (d.reg .rsp) o

lemma StubEntry.stack_addr (h : StubEntry d table ctx) (ho : o + 8 ≤ 40) :
    (d.reg .rsp + BitVec.ofNat 64 o).toNat = (d.reg .rsp).toNat + o := by
  have htop : Fits (d.reg .rsp) 40 := h.top.le
  exact htop.toNat_add (by omega)

/-- The words on the stack are still there while the context is filled. -/
lemma StubEntry.stackWord_eq (h : StubEntry d table ctx) {d' : Cpu} (hat : AtContext d d' ctx)
    (hst : Stored d'.mem m ctx contextSize l) (ho : o + 8 ≤ 40) :
    fieldAt m (d.reg .rsp) o = stackWord d o := by
  have hcontext := h.context
  apply loadWord_congr
  rw [h.stack_addr ho]
  intro z hz hz'
  rw [hst.outside z (by omega), hat.mem]
  exact h.pushed_outside _ (by omega)

/-- So is the value of `rax`. -/
lemma StubEntry.rax_eq (h : StubEntry d table ctx) {d' : Cpu} (hat : AtContext d d' ctx)
    (hst : Stored d'.mem m ctx contextSize l) :
    loadWord m (d.reg .rsp - BitVec.ofNat 64 8) = d.reg .rax := by
  have hcontext := h.context
  have hroom := h.room
  have hpushed : loadWord d'.mem (d.reg .rsp - BitVec.ofNat 64 8) = d.reg .rax := by
    rw [hat.mem]
    exact loadWord_storeWord_same _ _ _
  refine (loadWord_congr fun z hz hz' => ?_).trans hpushed
  rw [toNat_sub_ofNat hroom] at hz hz'
  exact hst.outside z (by omega)

/-- The words that the stub stores into the context. -/
def stubWords (d : Cpu) : List (ℕ × Word) :=
  (savedRegs.map fun x => (x.2, d.reg x.1)) ++
    [(112, d.reg .rax), (120, stackWord d 16), (136, stackWord d 32), (128, stackWord d 24)]

/-- The offsets of the words stored into the context. -/
def savedOffsets : List ℕ := savedRegs.map Prod.snd ++ [112, 120, 136, 128]

lemma stubWords_offsets (d : Cpu) : (stubWords d).map Prod.fst = savedOffsets := rfl

/-- What `saveFrame` adds. The stack pointer moves over the pushed `rax`, and `cs` stays in
`rcx`. -/
lemma run_saveFrame (h : StubEntry d table ctx) {d₁ : Cpu} (hat : AtContext d d₁ ctx) (d₂ : Cpu)
    (hreg : d₂.reg = d₁.reg)
    (hst : Stored d₁.mem d₂.mem ctx contextSize (savedRegs.map fun x => (x.2, d.reg x.1))) :
    (run saveFrame d₂).reg .rcx = stackWord d 24 ∧
      (run saveFrame d₂).reg .rsp = d.reg .rsp ∧
      Stored d₁.mem (run saveFrame d₂).mem ctx contextSize (stubWords d) := by
  have hrax : d₂.reg .rax = ctx := by rw [hreg, hat.rax]
  have hrsp : d₂.reg .rsp = d.reg .rsp - BitVec.ofNat 64 8 := by rw [hreg, hat.rsp]
  -- `popq %rcx; movq %rcx, 112(%rax)`
  have hpop : loadWord d₂.mem (d₂.reg .rsp) = d.reg .rax := by
    rw [hrsp]
    exact h.rax_eq hat hst
  generalize hc₃ : run [.popq .rcx, .store .rcx 112 .rax] d₂ = c₃
  have hreg₃ : c₃.reg = update (update d₂.reg .rsp
      (d₂.reg .rsp + BitVec.ofNat 64 8)) .rcx (d.reg .rax) := by
    rw [← hc₃, ← hpop]
    rfl
  have hrax₃ : c₃.reg .rax = ctx := by
    rw [hreg₃, update_of_ne (by decide), update_of_ne (by decide), hrax]
  have hrsp₃ : c₃.reg .rsp = d.reg .rsp := by
    rw [hreg₃, update_of_ne (by decide), update_self, hrsp]
    bv_omega
  have hst₃ := hst.store h.fits (o := 112) (by decide)
    (offsets_apart (savedRegs.map Prod.snd) rfl (by decide)) (d.reg .rax)
  have hmem₃ : c₃.mem = storeWord d₂.mem (ctx + BitVec.ofNat 64 112) (d.reg .rax) := by
    rw [← hc₃, ← hpop, ← hrax]
    rfl
  rw [← hmem₃] at hst₃
  -- rip, then rflags, then cs
  rcases run_saveWord h.fits hrax₃ hst₃ (hrsp₃ ▸ h.stackWord_eq hat hst₃ (o := 16) (by decide))
    (show 120 + 8 ≤ contextSize by decide)
    (offsets_apart (savedRegs.map Prod.snd ++ [112]) rfl (by decide)) with ⟨c₄, hc₄, hreg₄, hst₄⟩
  have hrax₄ : c₄.reg .rax = ctx := by rw [hreg₄, update_of_ne (by decide), hrax₃]
  have hrsp₄ : c₄.reg .rsp = d.reg .rsp := by
    rw [hreg₄, update_of_ne (by decide), hrsp₃]
  rcases run_saveWord h.fits hrax₄ hst₄ (hrsp₄ ▸ h.stackWord_eq hat hst₄ (o := 32) (by decide))
    (show 136 + 8 ≤ contextSize by decide)
    (offsets_apart (savedRegs.map Prod.snd ++ [112, 120]) rfl (by decide))
    with ⟨c₅, hc₅, hreg₅, hst₅⟩
  have hrax₅ : c₅.reg .rax = ctx := by rw [hreg₅, update_of_ne (by decide), hrax₄]
  have hrsp₅ : c₅.reg .rsp = d.reg .rsp := by
    rw [hreg₅, update_of_ne (by decide), hrsp₄]
  rcases run_saveWord h.fits hrax₅ hst₅ (hrsp₅ ▸ h.stackWord_eq hat hst₅ (o := 24) (by decide))
    (show 128 + 8 ≤ contextSize by decide)
    (offsets_apart (savedRegs.map Prod.snd ++ [112, 120, 136]) rfl (by decide))
    with ⟨c₆, hc₆, hreg₆, hst₆⟩
  have hrun : run saveFrame d₂ = c₆ := by
    have hsplit : saveFrame = List.append [.popq .rcx, .store .rcx 112 .rax]
        (List.append [.load 16 .rsp .rcx, .store .rcx 120 .rax]
          (List.append [.load 32 .rsp .rcx, .store .rcx 136 .rax]
            [.load 24 .rsp .rcx, .store .rcx 128 .rax])) := rfl
    rw [hsplit]
    simp only [append_eq]
    rw [run_append, hc₃, run_append, hc₄, run_append, hc₅, hc₆]
  rw [hrun]
  refine ⟨?_, ?_, ?_⟩
  · rw [hreg₆, update_self]
  · rw [hreg₆, update_of_ne (by decide), hrsp₅]
  · have hwords : stubWords d = savedRegs.map (fun x => (x.2, d.reg x.1)) ++ [(112, d.reg .rax)] ++
        [(120, stackWord d 16)] ++ [(136, stackWord d 32)] ++ [(128, stackWord d 24)] := rfl
    rw [hwords]
    exact hst₆

/-- The machine behind everything that is stored into the context. -/
def savedState (table : Word) (d : Cpu) : Cpu :=
  run saveFrame (run (stores .rax savedRegs) (run (findContext table) d))

/-- No instruction changes `cr2`. -/
lemma run_cr2 (is : List Instr) (c : Cpu) : (run is c).cr2 = c.cr2 := by
  unfold run
  induction is generalizing c with
  | nil => rfl
  | cons i is ih =>
    rw [foldl_cons, ih]
    cases i <;> rfl

/-- What the stub has saved. -/
lemma savedState_spec (h : StubEntry d table ctx) :
    (savedState table d).reg .rcx = stackWord d 24 ∧
      (savedState table d).reg .rsp = d.reg .rsp ∧
      ∃ d₁, AtContext d d₁ ctx ∧
        Stored d₁.mem (savedState table d).mem ctx contextSize (stubWords d) := by
  have hat := findContext_spec h
  generalize hd₁ : run (findContext table) d = d₁ at hat
  rcases run_stores (l := savedRegs) (n := contextSize) (by decide) (c := d₁)
    (by rw [hat.rax]; exact h.fits) (Stored.nil d₁.mem _ _)
    (fun y hy => absurd hy not_mem_nil) with ⟨m₂, hrun₂, hst₂⟩
  rw [hat.rax, nil_append] at hst₂
  have hregs : (savedRegs.map fun x => (x.2, d₁.reg x.1))
      = savedRegs.map fun x => (x.2, d.reg x.1) := by
    apply map_congr_left
    intro x hx
    have hne : ∀ x ∈ savedRegs, x.1 ≠ .rax ∧ x.1 ≠ .rsp := by decide
    rw [hat.regs x.1 (hne x hx).1 (hne x hx).2]
  rw [hregs] at hst₂
  have hsave := run_saveFrame h hat { d₁ with mem := m₂ } rfl hst₂
  unfold savedState
  rw [hd₁, hrun₂]
  exact ⟨hsave.1, hsave.2.1, d₁, hat, hsave.2.2⟩

/-! ## The end of the stub -/

lemma exec_popq (c : Cpu) (r : Reg) : exec c (.popq r) =
    (c.setReg .rsp (c.reg .rsp + BitVec.ofNat 64 8)).setReg r (loadWord c.mem (c.reg .rsp)) := rfl

/-- `int_no` goes to `rax` and `err_code` to `rbx`. -/
lemma run_popFrame (c : Cpu) :
    (run popFrame c).reg .rax = loadWord c.mem (c.reg .rsp) ∧
      (run popFrame c).reg .rbx = loadWord c.mem (c.reg .rsp + BitVec.ofNat 64 8) ∧
      (run popFrame c).reg .rsp = c.reg .rsp + BitVec.ofNat 64 40 ∧
      (run popFrame c).mem = c.mem := by
  have hsum : ∀ k : ℕ, c.reg .rsp + BitVec.ofNat 64 k + BitVec.ofNat 64 8 =
      c.reg .rsp + BitVec.ofNat 64 (k + 8) := by
    intro k
    rw [BitVec.ofNat_add, BitVec.add_assoc]
  simp only [run, popFrame, foldl_cons, foldl_nil, exec_popq, Cpu.setReg,
    update_apply, reduceCtorEq, if_false, if_true, hsum, and_self]

lemma run_pushInterruptFrame (c : Cpu) :
    (run pushInterruptFrame c).mem = (c.pushWords [c.reg .rbx, c.reg .rax, c.cr2]).mem ∧
      (run pushInterruptFrame c).reg .rsp = c.reg .rsp - BitVec.ofNat 64 24 ∧
      (run pushInterruptFrame c).reg .rdi = (run pushInterruptFrame c).reg .rsp := by
  have hsub : c.reg .rsp - BitVec.ofNat 64 8 - BitVec.ofNat 64 8 - BitVec.ofNat 64 8 =
      c.reg .rsp - BitVec.ofNat 64 24 := by bv_omega
  refine ⟨rfl, ?_, ?_⟩
  · rw [← hsub]
    simp [run, pushInterruptFrame, exec, Cpu.pushWord, Cpu.setReg]
  · simp [run, pushInterruptFrame, exec, Cpu.pushWord, Cpu.setReg]

/-- `test $15, %rsp` -/
lemma and_fifteen (x : Word) : (x &&& 15 ≠ 0) ↔ x.toNat % 16 ≠ 0 := by
  have hmod : (x &&& 15).toNat = x.toNat % 16 := by
    rw [BitVec.toNat_and]
    exact Nat.and_two_pow_sub_one_eq_mod x.toNat 4
  rw [← hmod]
  exact not_congr ⟨fun h => by rw [h]; rfl, fun h => BitVec.eq_of_toNat_eq h⟩

/-- The stack pointer is put right for the call. -/
def alignStack (c : Cpu) : Cpu := if c.reg .rsp &&& 15 ≠ 0 then c else run [.subq 8 .rsp] c

/-- The stack pointer is aligned. -/
lemma alignStack_spec (hroom : 8 ≤ (c.reg .rsp).toNat) :
    ((alignStack c).reg .rsp).toNat =
        (if (c.reg .rsp).toNat % 16 ≠ 0 then (c.reg .rsp).toNat else (c.reg .rsp).toNat - 8) ∧
      (∀ r, r ≠ .rsp → (alignStack c).reg r = c.reg r) ∧ (alignStack c).mem = c.mem ∧
      (alignStack c).cr2 = c.cr2 := by
  unfold alignStack
  simp only [and_fifteen]
  by_cases hodd : (c.reg .rsp).toNat % 16 ≠ 0
  · rw [if_pos hodd, if_pos hodd]
    exact ⟨rfl, fun _ _ => rfl, rfl, rfl⟩
  · rw [if_neg hodd, if_neg hodd]
    have hsub : (run [.subq 8 .rsp] c).reg .rsp = c.reg .rsp - BitVec.ofNat 64 8 :=
      Cpu.setReg_self _ _ _
    refine ⟨?_, fun r hr => Cpu.setReg_of_ne _ _ hr, rfl, rfl⟩
    rw [hsub, toNat_sub_ofNat hroom]

/-- The end of the stub: the five words on top of the stack make room for the frame. -/
def buildFrame (c : Cpu) : Cpu := run pushInterruptFrame (alignStack (run popFrame c))

/-- The frame is where the five words were, and holds two of them. -/
structure FrameBuilt (c e : Cpu) : Prop where
  argument : e.reg .rdi = e.reg .rsp
  cr2 : fieldAt e.mem (e.reg .rsp) 0 = c.cr2
  intNo : fieldAt e.mem (e.reg .rsp) 8 = loadWord c.mem (c.reg .rsp)
  errCode : fieldAt e.mem (e.reg .rsp) 16 = loadWord c.mem (c.reg .rsp + BitVec.ofNat 64 8)
  aligned : (c.reg .rsp).toNat % 8 = 0 → (e.reg .rsp).toNat % 16 = 0
  outside : ∀ z, z < (c.reg .rsp).toNat + 8 ∨ (c.reg .rsp).toNat + 40 ≤ z → e.mem z = c.mem z

/-- The frame for the handler. -/
lemma buildFrame_spec (htop : (c.reg .rsp).toNat + 40 < 2 ^ 64) :
    FrameBuilt c (buildFrame c) := by
  unfold buildFrame
  -- the five words are popped
  obtain ⟨hrax₄, hrbx₄, hrsp₄, hmem₄⟩ := run_popFrame c
  have hcr2₄ := run_cr2 popFrame c
  generalize run popFrame c = c₄ at hrax₄ hrbx₄ hrsp₄ hmem₄ hcr2₄
  have hsp₄ : (c₄.reg .rsp).toNat = (c.reg .rsp).toNat + 40 := by
    rw [hrsp₄, BitVec.toNat_add, BitVec.toNat_ofNat]
    omega
  -- the frame is pushed where they were
  obtain ⟨hsp₅, hregs₅, hmem₅, hcr2₅⟩ := alignStack_spec (c := c₄) (by omega)
  generalize alignStack c₄ = c₅ at hsp₅ hregs₅ hmem₅ hcr2₅
  have hbounds : (c.reg .rsp).toNat + 32 ≤ (c₅.reg .rsp).toNat ∧
      (c₅.reg .rsp).toNat ≤ (c.reg .rsp).toNat + 40 := by
    rw [hsp₅, hsp₄]
    split_ifs <;> omega
  obtain ⟨hmem₆, hrsp₆, hrdi₆⟩ := run_pushInterruptFrame c₅
  have hroom : 8 * [c₅.reg .rbx, c₅.reg .rax, c₅.cr2].length ≤ (c₅.reg .rsp).toNat := by
    simp only [length_cons, length_nil]
    omega
  obtain ⟨m, hpush, hpushed⟩ := pushWords_spec hroom
  rw [hpush] at hmem₆
  generalize run pushInterruptFrame c₅ = e at hmem₆ hrsp₆ hrdi₆
  rw [hregs₅ .rbx (by decide), hregs₅ .rax (by decide), hrax₄, hrbx₄, hcr2₅, hcr2₄, hmem₅,
    hmem₄] at hpushed
  have hsp₆ : (e.reg .rsp).toNat = (c₅.reg .rsp).toNat - 24 := by
    rw [hrsp₆, toNat_sub_ofNat (by omega)]
  have hframe : ∀ (i o : ℕ) (v : Word), o + 8 * (i + 1) = 24 →
      [loadWord c.mem (c.reg .rsp + BitVec.ofNat 64 8), loadWord c.mem (c.reg .rsp),
        c.cr2][i]? = some v → fieldAt e.mem (e.reg .rsp) o = v := by
    intro i o v hio hv
    have htop := hpushed.fieldAt_top (o := o) (by simpa using hroom) (by simpa using hio) hv
    rw [hmem₆, hrsp₆]
    simpa using htop
  refine ⟨hrdi₆, hframe 2 0 _ rfl rfl, hframe 1 8 _ rfl rfl, hframe 0 16 _ rfl rfl,
    fun height => ?_, fun z hz => ?_⟩
  · rw [hsp₆, hsp₅, hsp₄]
    split_ifs <;> omega
  · rw [hmem₆]
    apply hpushed.outside
    simp only [length_cons, length_nil]
    omega

/-- What the stub leaves in the context and in the frame, whose address is the argument of
`isr_dispatch`. -/
structure Dispatched (d e : Cpu) (ctx : Word) : Prop where
  words : ∀ x ∈ stubWords d, fieldAt e.mem ctx x.1 = x.2
  other : ∀ o, o + 8 ≤ contextSize → (∀ x ∈ stubWords d, o + 8 ≤ x.1 ∨ x.1 + 8 ≤ o) →
    fieldAt e.mem ctx o = fieldAt d.mem ctx o
  argument : e.reg .rdi = e.reg .rsp
  cr2 : fieldAt e.mem (e.reg .rsp) 0 = d.cr2
  intNo : fieldAt e.mem (e.reg .rsp) 8 = stackWord d 0
  errCode : fieldAt e.mem (e.reg .rsp) 16 = stackWord d 8
  aligned : (d.reg .rsp).toNat % 8 = 0 → (e.reg .rsp).toNat % 16 = 0

/-- The stub by its parts. -/
lemma isrCommonStub_eq (table : Word) (d : Cpu) : isrCommonStub table d =
    if (savedState table d).reg .rcx &&& 3 ≠ 0 then (.userModeInterrupt, savedState table d)
    else (.isrDispatch, buildFrame (savedState table d)) := rfl

/-- A user selector in the place of `cs`. -/
lemma isrCommonStub_user (h : StubEntry d table ctx) (hcs : stackWord d 24 &&& 3 ≠ 0) :
    (isrCommonStub table d).1 = .userModeInterrupt := by
  rw [isrCommonStub_eq, (savedState_spec h).1, if_pos hcs]

/-- A kernel selector in the place of `cs`. -/
lemma isrCommonStub_dispatch (h : StubEntry d table ctx) (hcs : stackWord d 24 &&& 3 = 0) :
    (isrCommonStub table d).1 = .isrDispatch ∧ Dispatched d (isrCommonStub table d).2 ctx := by
  obtain ⟨hrcx, hrsp, d₁, hat, hst⟩ := savedState_spec h
  rw [isrCommonStub_eq, hrcx, if_neg (not_not.mpr hcs)]
  refine ⟨rfl, ?_⟩
  have hcr2 : (savedState table d).cr2 = d.cr2 := by
    unfold savedState
    rw [run_cr2, run_cr2, run_cr2]
  generalize savedState table d = c₃ at hrcx hrsp hst hcr2
  have htop := h.top
  have hcontext := h.context
  have hbuilt := @buildFrame_spec c₃ (by rw [hrsp]; exact htop)
  have houtside := hbuilt.outside
  rw [hrsp] at houtside
  have hfield : ∀ o, o + 8 ≤ contextSize →
      fieldAt (buildFrame c₃).mem ctx o = fieldAt c₃.mem ctx o := by
    intro o ho
    apply h.fits.fieldAt_congr ho
    intro z hz hz'
    exact houtside z (by omega)
  refine ⟨fun x hx => ?_, fun o ho hout => ?_, hbuilt.argument, hbuilt.cr2.trans hcr2, ?_, ?_, ?_⟩
  · have happart : x.1 + 8 ≤ contextSize ∧ (144 + 8 ≤ x.1 ∨ x.1 + 8 ≤ 144) :=
      offsets_apart savedOffsets (stubWords_offsets d) (by decide) x hx
    rw [hfield x.1 happart.1]
    exact hst.field x hx
  · rw [hfield o ho, hst.other o ho hout, hat.mem]
    apply h.fits.fieldAt_congr ho
    intro z hz hz'
    exact h.pushed_outside _ (by omega)
  · rw [hbuilt.intNo, hrsp, ← h.stackWord_eq hat hst (by decide)]
    unfold fieldAt
    rw [BitVec.add_zero]
  · rw [hbuilt.errCode, hrsp]
    exact h.stackWord_eq hat hst (by decide)
  · rw [← hrsp]
    exact hbuilt.aligned

/-! ## Entry -/

/-- The stack pointer from which the CPU pushes. -/
def alignedSp (c : Cpu) : Word := c.reg .rsp &&& ~~~15

/-- The words `ws` were pushed on the way to the common stub, the first one at the highest
address. -/
structure Entered (c d : Cpu) (ws : List Word) : Prop where
  rsp : d.reg .rsp = alignedSp c - BitVec.ofNat 64 (8 * ws.length)
  regs : ∀ r, r ≠ .rsp → d.reg r = c.reg r
  cr2 : d.cr2 = c.cr2
  gsBase : d.gsBase = c.gsBase
  stack : Pushed c.mem d.mem (alignedSp c) ws

/-- The state when a stub starts. -/
lemma entered_pushWords {ws : List Word} (hroom : 8 * ws.length ≤ (alignedSp c).toNat)
    (rip rflags : Word) :
    Entered c (((c.setReg .rsp (alignedSp c)).pushWords ws).withPos rip rflags) ws := by
  obtain ⟨m, hpush, hpushed⟩ := @pushWords_spec (c.setReg .rsp (alignedSp c)) ws (by
    rw [Cpu.setReg_self]
    exact hroom)
  rw [Cpu.setReg_self] at hpush hpushed
  refine ⟨?_, fun r hr => ?_, ?_, ?_, ?_⟩
  · have hset := Cpu.setReg_self (c.setReg .rsp (alignedSp c)) .rsp
      (alignedSp c - BitVec.ofNat 64 (8 * ws.length))
    rw [hpush]
    exact hset
  · rw [Cpu.withPos_reg, Cpu.pushWords_of_ne hr, Cpu.setReg_of_ne _ _ hr]
  · rw [hpush]
    rfl
  · rw [hpush]
    rfl
  · rw [hpush]
    exact hpushed

/-- A kernel task with its context at `ctx` is the current task, and the `n` bytes below its stack
pointer are not in the context, the CPU number or the slot. -/
structure Trappable (c : Cpu) (table ctx : Word) (n : ℕ) : Prop where
  kernel : c.cs &&& 3 = 0
  fits : Fits ctx contextSize
  room : n ≤ (alignedSp c).toNat
  context : Below (alignedSp c) n ctx contextSize
  cpu : Below (alignedSp c) n c.gsBase 4
  slot : Below (alignedSp c) n (taskSlot table c) 8
  current : loadWord c.mem (taskSlot table c) = ctx

/-- The CPU aligns the stack. -/
lemma alignedSp_mod (c : Cpu) : (alignedSp c).toNat % 16 = 0 := by
  have hclear : alignedSp c &&& 15 = 0 := by
    unfold alignedSp
    rw [BitVec.and_assoc]
    simp
  by_contra hne
  exact (and_fifteen _).mpr hne hclear

variable {ws : List Word}

lemma Entered.toNat_rsp (h : Entered c d ws) (hroom : 8 * ws.length ≤ (alignedSp c).toNat) :
    (d.reg .rsp).toNat = (alignedSp c).toNat - 8 * ws.length := by
  rw [h.rsp, toNat_sub_ofNat hroom]

/-- The words on the stack, counted from the last one. -/
lemma Entered.stackWord (h : Entered c d ws) (hroom : 8 * ws.length ≤ (alignedSp c).toNat)
    {o i : ℕ} {v : Word} (hio : o + 8 * (i + 1) = 8 * ws.length) (hi : ws[i]? = some v) :
    stackWord d o = v := by
  unfold Interrupts.stackWord
  rw [h.rsp]
  exact h.stack.fieldAt_top hroom hio hi

/-- The common stub is entered as it should be. -/
lemma Entered.stubEntry (h : Entered c d ws) (hlen : 5 ≤ ws.length)
    (ht : Trappable c table ctx (8 * (ws.length + 1))) : StubEntry d table ctx := by
  have hroom := ht.room
  have hrsp := h.toNat_rsp (by omega)
  have hlt := (alignedSp c).isLt
  have hmod := alignedSp_mod c
  have hout : ∀ (a : Word) (k : ℕ), Below (alignedSp c) (8 * (ws.length + 1)) a k →
      ∀ z, a.toNat ≤ z → z < a.toNat + k → d.mem z = c.mem z := by
    intro a k hb z hz hz'
    apply h.stack.outside
    unfold Below at hb
    omega
  have hbelow : ∀ (a : Word) (k : ℕ), Below (alignedSp c) (8 * (ws.length + 1)) a k →
      Below (d.reg .rsp) 8 a k := by
    intro a k hb
    unfold Below at hb ⊢
    omega
  have hslot : taskSlot table d = taskSlot table c := by
    unfold taskSlot
    rw [h.gsBase, readLE_congr (hout _ _ ht.cpu)]
  have hcontext := ht.context
  unfold Below at hcontext
  refine ⟨ht.fits, by omega, by omega, by omega, ?_, ?_, ?_⟩
  · rw [h.gsBase]
    exact hbelow _ _ ht.cpu
  · rw [hslot]
    exact hbelow _ _ ht.slot
  · rw [hslot, loadWord_congr (hout _ _ ht.slot)]
    exact ht.current

/-- The context is where it was while the words are pushed. -/
lemma Entered.fieldAt_context (h : Entered c d ws)
    (ht : Trappable c table ctx (8 * (ws.length + 1))) (ho : o + 8 ≤ contextSize) :
    fieldAt d.mem ctx o = fieldAt c.mem ctx o := by
  have hcontext := ht.context
  refine h.stack.fieldAt ht.fits ?_ ho
  unfold Below at hcontext ⊢
  omega

/-! ## The stubs -/

/-- The words that the CPU pushes for every interrupt, first pushed first. -/
def frameWords (c : Cpu) : List Word :=
  [c.ss.zeroExtend 64, c.reg .rsp, c.rflags, c.cs.zeroExtend 64, c.rip]

lemma interruptEntry_eq (c : Cpu) (handler : Word) : interruptEntry c handler =
    ((c.setReg .rsp (alignedSp c)).pushWords (frameWords c)).withPos handler c.rflags := rfl

lemma run_isrNoErr (c : Cpu) (n : Word) : run (isrNoErr n) c =
    (c.pushWords [0, n]).withPos c.rip (c.rflags &&& ~~~0x200) := rfl

lemma interruptible_iff_trappable : Interruptible c table ctx ↔ Trappable c table ctx 64 :=
  ⟨fun h => ⟨h.kernel, h.fits, h.room, h.context, h.cpu, h.slot, h.current⟩,
    fun h => ⟨h.kernel, h.fits, h.room, h.context, h.cpu, h.slot, h.current⟩⟩

end LunOS.Interrupts
