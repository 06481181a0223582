import LunOS.Interrupts.CommonStub

/-!
# The round trip of a context

- `timerInterrupt_saves`: what the stub of the timer interrupt leaves in the context of the current
  task. The fields `stack_ptr` and `ss` stay as they were.
- `loadNextTask_restores`: what `load_next_task` takes from a context.
- `resume_sameRegisters_iff`: a task resumes as it was interrupted exactly when its context already
  held its stack pointer and stack segment.
-/

namespace LunOS.Interrupts
open LunOS.Memory LunOS.X86

variable {c : Cpu} {table handler ctx : Word}

/-! ## Saving -/

/-- The words stored into the context, as offset and value. -/
def savedWords (c : Cpu) : List (ℕ × Word) :=
  (savedRegs.map fun x => (x.2, c.reg x.1)) ++
    [(112, c.reg .rax), (120, c.rip), (136, c.rflags), (128, c.cs.zeroExtend 64)]

lemma savedWords_offsets (c : Cpu) : (savedWords c).map Prod.fst = savedOffsets := rfl

/-- What the context of a task holds after it was interrupted in state `c`, when `m₀` was memory
before. -/
structure Saved (c : Cpu) (m₀ m : Mem) (ctx : Word) : Prop where
  words : ∀ x ∈ savedWords c, fieldAt m ctx x.1 = x.2
  stackPtr : fieldAt m ctx 144 = fieldAt m₀ ctx 144
  ss : fieldAt m ctx 152 = fieldAt m₀ ctx 152

lemma and_three_zeroExtend {x : BitVec 16} (h : x &&& 3 = 0) : x.zeroExtend 64 &&& 3 = 0 := by
  have hnat : x.toNat &&& 3 = 0 := by simpa using congrArg BitVec.toNat h
  apply BitVec.eq_of_toNat_eq
  have hlt := x.isLt
  rw [BitVec.toNat_and, BitVec.zeroExtend, BitVec.toNat_setWidth, Nat.mod_eq_of_lt (by omega)]
  exact hnat

/-- The timer's state in the stub. -/
lemma timerInterrupt_entered (handler : Word) (h : Interruptible c table ctx) :
    Entered c (run (isrNoErr 64) (interruptEntry c handler)) (frameWords c ++ [0, 64]) := by
  have hroom : 64 ≤ (alignedSp c).toNat := h.room
  have hlen : (frameWords c ++ [0, 64]).length = 7 := rfl
  rw [run_isrNoErr, interruptEntry_eq, Cpu.pushWords_withPos, Cpu.pushWords_append,
    Cpu.withPos_withPos]
  exact entered_pushWords (by omega) _ _

/-- The stub of the timer interrupt saves everything but the stack pointer and the stack segment,
and goes on to `isr_dispatch`. -/
lemma timerInterrupt_saves (handler : Word) (h : Interruptible c table ctx) :
    (timerInterrupt table handler c).1 = .isrDispatch ∧
      Saved c c.mem (timerInterrupt table handler c).2.mem ctx := by
  have hd := timerInterrupt_entered handler h
  have ht := interruptible_iff_trappable.mp h
  have hroom : 8 * (frameWords c ++ [0, 64]).length ≤ (alignedSp c).toNat :=
    (by decide : 8 * 7 ≤ 64).trans ht.room
  unfold timerInterrupt
  generalize run (isrNoErr 64) (interruptEntry c handler) = d at hd
  have hentry := hd.stubEntry (by decide : 5 ≤ 7) ht
  have hrip : stackWord d 16 = c.rip := hd.stackWord hroom (i := 4) rfl rfl
  have hcs : stackWord d 24 = c.cs.zeroExtend 64 := hd.stackWord hroom (i := 3) rfl rfl
  have hflags : stackWord d 32 = c.rflags := hd.stackWord hroom (i := 2) rfl rfl
  have hwords : stubWords d = savedWords c := by
    have hregs : (savedRegs.map fun x => (x.2, d.reg x.1)) =
        savedRegs.map fun x => (x.2, c.reg x.1) := by
      apply List.map_congr_left
      intro x hx
      have hne : ∀ x ∈ savedRegs, x.1 ≠ .rsp := by decide
      rw [hd.regs x.1 (hne x hx)]
    unfold stubWords savedWords
    rw [hregs, hrip, hcs, hflags, hd.regs .rax (by decide)]
  obtain ⟨hexit, hdispatched⟩ := isrCommonStub_dispatch hentry (by
    rw [hcs]
    exact and_three_zeroExtend h.kernel)
  have hfresh : ∀ o, o + 8 ≤ contextSize → (∀ x ∈ savedWords c, o + 8 ≤ x.1 ∨ x.1 + 8 ≤ o) →
      fieldAt (isrCommonStub table d).2.mem ctx o = fieldAt c.mem ctx o := by
    intro o ho hout
    rw [hdispatched.other o ho (hwords ▸ hout)]
    exact hd.fieldAt_context ht ho
  refine ⟨hexit, fun x hx => hdispatched.words x (hwords ▸ hx), ?_, ?_⟩
  · refine hfresh 144 (by decide) fun x hx => ?_
    exact (offsets_apart savedOffsets (savedWords_offsets c) (by decide) x hx).2
  · refine hfresh 152 (by decide) fun x hx => ?_
    exact (offsets_apart savedOffsets (savedWords_offsets c) (by decide) x hx).2

/-! ## Restoring -/

/-- Every register of `load_next_task` comes from its field of the context. -/
structure Restored (c' : Cpu) (m : Mem) (ctx : Word) : Prop where
  regs : ∀ x ∈ loadedRegs, c'.reg x.1 = fieldAt m ctx x.2
  rdi : c'.reg .rdi = fieldAt m ctx 72
  rip : c'.rip = fieldAt m ctx 120
  cs : c'.cs = (fieldAt m ctx 128).truncate 16
  rflags : c'.rflags = fieldAt m ctx 136
  rsp : c'.reg .rsp = fieldAt m ctx 144
  ss : c'.ss = (fieldAt m ctx 152).truncate 16

/-- The next task gets its registers. -/
lemma loadNextTask_restores (h : Loadable c ctx) : Restored (loadNextTask c) c.mem ctx := by
  have hloaded : ∀ x ∈ loadedRegs, x.1 ≠ .rdi ∧ x.1 ≠ .rsp := by decide
  rcases @run_loads .rdi loadedRegs (fun x hx => (hloaded x hx).1) (by decide) c with
    ⟨val, hrun, hval, hother⟩
  have hrdi : val .rdi = ctx := (hother .rdi (by decide)).trans h.arg
  have hrsp : val .rsp = c.reg .rsp := hother .rsp (by decide)
  have hframe : run pushContextFrame { c with reg := val } =
      Cpu.pushWords { c with reg := val }
        ([152, 144, 136, 128, 120].map (fieldAt c.mem (val .rdi))) := by
    have hbase : Reg.rdi ≠ .rsp := by decide
    have hoffs : ∀ o ∈ [152, 144, 136, 128, 120], o + 8 ≤ contextSize := by decide
    refine run_pushMem hbase hoffs (c := { c with reg := val }) ?_ ?_ ?_
    · show Fits (val .rdi) contextSize
      rw [hrdi]
      exact h.fits
    · show 40 ≤ (val .rsp).toNat
      rw [hrsp]
      exact h.room
    · show Below (val .rsp) 40 (val .rdi) contextSize
      rw [hrsp, hrdi]
      exact h.context
  rw [hrdi] at hframe
  rcases @pushWords_spec { c with reg := val }
    ([152, 144, 136, 128, 120].map (fieldAt c.mem ctx)) (by
      show 40 ≤ (val .rsp).toNat
      rw [hrsp]
      exact h.room) with ⟨m, hpush, hpushed⟩
  generalize hc₂ : run [.load 72 .rdi .rdi] (run pushContextFrame (run (loads .rdi loadedRegs) c))
    = c₂
  rw [hrun, hframe, hpush] at hc₂
  have hmem : c₂.mem = m := by
    rw [← hc₂]
    rfl
  have hrsp₂ : c₂.reg .rsp = val .rsp - BitVec.ofNat 64 40 := by
    rw [← hc₂]
    rfl
  have hrdi₂ : c₂.reg .rdi = fieldAt m ctx 72 := by
    rw [← hc₂, ← hrdi]
    rfl
  have hregs₂ : ∀ r, r ≠ .rsp → r ≠ .rdi → c₂.reg r = val r := by
    intro r hr hr'
    rw [← hc₂]
    show (Cpu.setReg _ .rdi _).reg r = val r
    rw [Cpu.setReg_of_ne _ _ hr']
    exact Cpu.setReg_of_ne { c with reg := val } _ hr
  have hback := iretq_pushed hmem hrsp₂ hpushed
  have hload : loadNextTask c = iretq c₂ := by
    unfold loadNextTask
    simp only [hrun, hframe, hpush, hc₂]
  rw [hload]
  refine ⟨fun x hx => ?_, ?_, hback.1, hback.2.1, hback.2.2.1, hback.2.2.2.1, hback.2.2.2.2.1⟩
  · have hne := hloaded x hx
    rw [hback.2.2.2.2.2 _ hne.2, hregs₂ _ hne.2 hne.1, hval x hx, h.arg]
  · rw [hback.2.2.2.2.2 _ (by decide), hrdi₂]
    refine hpushed.fieldAt h.fits ?_ (by decide)
    show Below (val .rsp) 40 ctx contextSize
    rw [hrsp]
    exact h.context

/-! ## The round trip -/

/-- `load_next_task` loads every register but `rsp`, and `rdi` on its own. -/
lemma exists_loaded {r : Reg} (hr : r ≠ .rsp) (hr' : r ≠ .rdi) : ∃ x ∈ loadedRegs, x.1 = r := by
  cases r <;> first | exact absurd rfl hr | exact absurd rfl hr' | decide

/-- The stub stores a register where `load_next_task` looks for it. -/
lemma mem_savedWords_of_loaded (c : Cpu) {x : Reg × ℕ} (hx : x ∈ loadedRegs) :
    x.2 + 8 ≤ contextSize ∧ (x.2, c.reg x.1) ∈ savedWords c := by
  have htables : ∀ x ∈ loadedRegs, x.2 + 8 ≤ contextSize ∧ (x ∈ savedRegs ∨ x = (.rax, 112)) := by
    decide
  refine ⟨(htables x hx).1, ?_⟩
  unfold savedWords
  rcases (htables x hx).2 with hmem | heq
  · exact List.mem_append_left _ (List.mem_map.mpr ⟨x, hmem, rfl⟩)
  · rw [heq]
    exact List.mem_append_right _ List.mem_cons_self

/-- The stack pointer and the stack segment of the resumed task are those its context held before
the interrupt: the stub stores neither. -/
lemma resume_stack (handler : Word) (h : Interruptible c table ctx) {c₂ : Cpu}
    (hload : Loadable c₂ ctx)
    (hkept : ∀ z, ctx.toNat ≤ z → z < ctx.toNat + contextSize →
      c₂.mem z = (timerInterrupt table handler c).2.mem z) :
    (loadNextTask c₂).reg .rsp = fieldAt c.mem ctx 144 ∧
      (loadNextTask c₂).ss = (fieldAt c.mem ctx 152).truncate 16 := by
  have hsaved := (timerInterrupt_saves handler h).2
  have hback := loadNextTask_restores hload
  constructor
  · rw [hback.rsp, h.fits.fieldAt_congr (by decide) hkept, hsaved.stackPtr]
  · rw [hback.ss, h.fits.fieldAt_congr (by decide) hkept, hsaved.ss]

/-- A kernel task that is interrupted by the timer and later loaded again, its context untouched in
between, has all its registers, its position and its flags back; its stack pointer and stack
segment come from what the context held before, so it resumes as it was exactly when these were
right already. -/
theorem resume_sameRegisters_iff (handler : Word) (h : Interruptible c table ctx) {c₂ : Cpu}
    (hload : Loadable c₂ ctx)
    (hkept : ∀ z, ctx.toNat ≤ z → z < ctx.toNat + contextSize →
      c₂.mem z = (timerInterrupt table handler c).2.mem z) :
    (timerInterrupt table handler c).1 = .isrDispatch ∧
      ((∀ r, r ≠ .rsp → (loadNextTask c₂).reg r = c.reg r) ∧ (loadNextTask c₂).rip = c.rip ∧
        (loadNextTask c₂).cs = c.cs ∧ (loadNextTask c₂).rflags = c.rflags) ∧
      (SameRegisters c (loadNextTask c₂) ↔
        fieldAt c.mem ctx 144 = c.reg .rsp ∧ (fieldAt c.mem ctx 152).truncate 16 = c.ss) := by
  rcases timerInterrupt_saves handler h with ⟨hexit, hsaved⟩
  have hback := loadNextTask_restores hload
  have hword : ∀ o v, (o, v) ∈ savedWords c → o + 8 ≤ contextSize → fieldAt c₂.mem ctx o = v := by
    intro o v hx ho
    rw [h.fits.fieldAt_congr ho hkept]
    exact hsaved.words (o, v) hx
  have hregs : ∀ r, r ≠ .rsp → (loadNextTask c₂).reg r = c.reg r := by
    intro r hr
    by_cases hrdi : r = .rdi
    · rw [hrdi, hback.rdi]
      exact hword 72 _ (by simp [savedWords, savedRegs]) (by decide)
    · rcases exists_loaded hr hrdi with ⟨x, hx, hxr⟩
      have hsave := mem_savedWords_of_loaded c hx
      rw [← hxr, hback.regs x hx]
      exact hword _ _ hsave.2 hsave.1
  have hrip : (loadNextTask c₂).rip = c.rip := by
    rw [hback.rip]
    exact hword 120 _ (by simp [savedWords]) (by decide)
  have hcs : (loadNextTask c₂).cs = c.cs := by
    rw [hback.cs, hword 128 (c.cs.zeroExtend 64) (by simp [savedWords]) (by decide)]
    simp
  have hflags : (loadNextTask c₂).rflags = c.rflags := by
    rw [hback.rflags]
    exact hword 136 _ (by simp [savedWords]) (by decide)
  rcases resume_stack handler h hload hkept with ⟨hrsp, hss⟩
  refine ⟨hexit, ⟨hregs, hrip, hcs, hflags⟩, fun hsame => ?_, fun hright => ?_⟩
  · rw [← hrsp, ← hss]
    exact ⟨hsame.1 .rsp, hsame.2.2.2.2⟩
  · refine ⟨fun r => ?_, hrip, hcs, hflags, hss.trans hright.2⟩
    by_cases hr : r = .rsp
    · rw [hr, hrsp]
      exact hright.1
    · exact hregs r hr

/-- Memory with one kernel task, its context at `0x2000`: the slot of `__percpu_current_task` at
`0x3000` points to it, and the context holds the top of the task's stack, `0x104000`, and the kernel
data segment, as `create_kernel_task` left them. -/
def taskMem : Mem :=
  writeLE (writeLE (writeLE (fun _ => 0) 0x3000 8 0x2000) 0x2090 8 0x104000) 0x2098 8 0x10

/-- The task running with its stack pointer at `sp`. -/
def kernelTask (sp : Word) : Cpu where
  reg r := if r = .rsp then sp else 0
  rip := 0xFFFFFFFF80001000
  rflags := 0x202
  cs := 0x08
  ss := 0x10
  cr2 := 0
  gsBase := 0x4000
  mem := taskMem

/-- The CPU that loads the task again, on another stack. -/
def resumingCpu (sp : Word) : Cpu where
  reg r := if r = .rsp then 0x200000 else 0x2000
  rip := 0
  rflags := 0
  cs := 0x08
  ss := 0x10
  cr2 := 0
  gsBase := 0x4000
  mem := (timerInterrupt 0x3000 0 (kernelTask sp)).2.mem

lemma contextFits : Fits 0x2000 contextSize := by
  unfold Fits
  decide

/-- The task may be interrupted. -/
lemma kernelTask_trappable {sp : Word} (h : sp = 0x103FF8 ∨ sp = 0x104000) {n : ℕ} (hn : n ≤ 72) :
    Trappable (kernelTask sp) 0x3000 0x2000 n := by
  have hslot : taskSlot 0x3000 (kernelTask sp) = 0x3000 := by
    have hcpu : readLE taskMem 0x4000 4 = 0 := by decide
    show (0x3000 : Word) + BitVec.ofNat 64 (readLE taskMem 0x4000 4) * 8 = 0x3000
    rw [hcpu]
    rfl
  have hstack : 0x5000 + 72 ≤ (alignedSp (kernelTask sp)).toNat := by
    show 0x5000 + 72 ≤ (sp &&& ~~~15).toNat
    rcases h with h | h <;> rw [h] <;> decide
  have hbelow : ∀ (a : Word) (k : ℕ), a.toNat + k ≤ 0x5000 →
      Below (alignedSp (kernelTask sp)) n a k := by
    intro a k hk
    unfold Below
    omega
  refine ⟨(by decide : (0x08 : BitVec 16) &&& 3 = 0), contextFits, by omega,
    hbelow 0x2000 _ (by decide), hbelow 0x4000 _ (by decide), ?_, ?_⟩
  · rw [hslot]
    exact hbelow 0x3000 8 (by decide)
  · rw [hslot]
    show loadWord taskMem 0x3000 = 0x2000
    decide

lemma kernelTask_interruptible {sp : Word} (h : sp = 0x103FF8 ∨ sp = 0x104000) :
    Interruptible (kernelTask sp) 0x3000 0x2000 :=
  interruptible_iff_trappable.mpr (kernelTask_trappable h (by decide))

lemma resumingCpu_loadable (sp : Word) : Loadable (resumingCpu sp) 0x2000 :=
  ⟨rfl, contextFits, (by decide : 40 ≤ (0x200000 : Word).toNat),
    Or.inr (by decide : (0x2000 : Word).toNat + contextSize ≤ (0x200000 : Word).toNat - 40)⟩

/-- At the top of its stack the task resumes as it was. -/
theorem resume_sameRegisters_stackTop :
    SameRegisters (kernelTask 0x104000) (loadNextTask (resumingCpu 0x104000)) := by
  have hresume := resume_sameRegisters_iff 0 (kernelTask_interruptible (Or.inr rfl))
    (resumingCpu_loadable 0x104000) (fun _ _ _ => rfl)
  refine hresume.2.2.mpr ⟨?_, ?_⟩
  · show fieldAt taskMem 0x2000 144 = 0x104000
    decide
  · show (fieldAt taskMem 0x2000 152).truncate 16 = 0x10
    decide

/-- A task interrupted with one word on its stack resumes with its stack empty. -/
theorem resume_drops_stack :
    Interruptible (kernelTask 0x103FF8) 0x3000 0x2000 ∧ Loadable (resumingCpu 0x103FF8) 0x2000 ∧
      (resumingCpu 0x103FF8).mem = (timerInterrupt 0x3000 0 (kernelTask 0x103FF8)).2.mem ∧
      (kernelTask 0x103FF8).reg .rsp = 0x103FF8 ∧
      (loadNextTask (resumingCpu 0x103FF8)).reg .rsp = 0x104000 ∧
      ¬SameRegisters (kernelTask 0x103FF8) (loadNextTask (resumingCpu 0x103FF8)) := by
  have hint := kernelTask_interruptible (Or.inl rfl)
  have hrsp := (resume_stack 0 hint (resumingCpu_loadable 0x103FF8) (fun _ _ _ => rfl)).1
  have hctx : fieldAt taskMem 0x2000 144 = 0x104000 := by decide
  rw [show (kernelTask 0x103FF8).mem = taskMem from rfl, hctx] at hrsp
  refine ⟨hint, resumingCpu_loadable _, rfl, rfl, hrsp, fun hsame => ?_⟩
  have heq := hsame.1 .rsp
  rw [hrsp] at heq
  exact absurd heq (by decide : (0x104000 : Word) ≠ 0x103FF8)

end LunOS.Interrupts
