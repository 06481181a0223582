import LunOS.Utils.X86

/-!
# Interrupt stubs and `load_next_task`

The assembly of `isr_stubs.S` and `context_switch.S`, instruction by instruction. A task context is
the record of `regs.h`, 160 bytes: `r15` at 0 up to `rax` at 112, then `rip` at 120, `cs` at 128,
`rflags` at 136, `stack_ptr` at 144 and `ss` at 152. `table` is the address of
`__percpu_current_task`; `gs:0` holds the number of the CPU.
-/

namespace LunOS.Interrupts
open LunOS.Memory LunOS.X86

/-- `sizeof(struct task_context)`. -/
def contextSize : ℕ := 160

/-! ## Saving -/

/-- `isr\n` without an error code from the CPU. -/
def isrNoErr (n : Word) : List Instr := [.cli, .pushImm 0, .pushImm n]

/-- The registers the common stub stores before it needs one of them. -/
def savedRegs : List (Reg × ℕ) :=
  [(.r15, 0), (.r14, 8), (.r13, 16), (.r12, 24), (.r11, 32), (.r10, 40), (.r9, 48), (.r8, 56),
    (.rbp, 64), (.rdi, 72), (.rsi, 80), (.rdx, 88), (.rcx, 96), (.rbx, 104)]

/-- `rax` is pushed and then points to the context of the current task. -/
def findContext (table : Word) : List Instr :=
  [.pushq .rax, .loadGs .rax, .loadIndexed table .rax .rax]

/-- `rax` and the words of the interrupt frame go through `rcx`. -/
def saveFrame : List Instr :=
  [.popq .rcx, .store .rcx 112 .rax,
    .load 16 .rsp .rcx, .store .rcx 120 .rax,
    .load 32 .rsp .rcx, .store .rcx 136 .rax,
    .load 24 .rsp .rcx, .store .rcx 128 .rax]

/-- `int_no`, `err_code` and the three words above them are popped. -/
def popFrame : List Instr := [.popq .rax, .popq .rbx, .popq .rcx, .popq .rcx, .popq .rcx]

/-- The `struct interrupt_frame` for `isr_dispatch`, and its address as the argument. -/
def pushInterruptFrame : List Instr :=
  [.pushq .rbx, .pushq .rax, .movCr2 .rax, .pushq .rax, .movq .rsp .rdi]

/-- Where the common stub ends. -/
inductive StubExit
  | isrDispatch
  | userModeInterrupt
deriving DecidableEq

/-- `isr_common_stub` up to the call it ends in. -/
def isrCommonStub (table : Word) (c : Cpu) : StubExit × Cpu :=
  let c := run (findContext table) c
  let c := run (stores .rax savedRegs) c
  let c := run saveFrame c
  if c.reg .rcx &&& 3 ≠ 0 then (.userModeInterrupt, c)
  else
    let c := run popFrame c
    -- the stack is aligned for the call
    let c := if c.reg .rsp &&& 15 ≠ 0 then c else run [.subq 8 .rsp] c
    (.isrDispatch, run pushInterruptFrame c)

/-- The timer interrupt (vector 64) up to the call in the common stub. -/
def timerInterrupt (table handler : Word) (c : Cpu) : StubExit × Cpu :=
  isrCommonStub table (run (isrNoErr 64) (interruptEntry c handler))

/-! ## Restoring -/

/-- The registers `load_next_task` loads before it builds the frame. -/
def loadedRegs : List (Reg × ℕ) :=
  [(.r15, 0), (.r14, 8), (.r13, 16), (.r12, 24), (.r11, 32), (.r10, 40), (.r9, 48), (.r8, 56),
    (.rbp, 64), (.rsi, 80), (.rdx, 88), (.rcx, 96), (.rbx, 104), (.rax, 112)]

/-- The interrupt frame of the context. -/
def pushContextFrame : List Instr :=
  [.pushMem 152 .rdi, .pushMem 144 .rdi, .pushMem 136 .rdi, .pushMem 128 .rdi, .pushMem 120 .rdi]

/-- `load_next_task`, with the address of the context in `rdi`. -/
def loadNextTask (c : Cpu) : Cpu :=
  let c := run (loads .rdi loadedRegs) c
  let c := run pushContextFrame c
  let c := run [.load 72 .rdi .rdi] c
  iretq c

/-! ## Assumptions about memory -/

/-- A task with its context at `ctx` can be interrupted: it is the current task of its CPU, it runs
in kernel mode, and the words the interrupt and the stub push do not overwrite the context, the CPU
number or the slot of `__percpu_current_task`. Eight words are pushed before the stub has read the
last of the frame. -/
structure Interruptible (c : Cpu) (table ctx : Word) : Prop where
  kernel : c.cs &&& 3 = 0
  fits : Fits ctx contextSize
  room : 64 ≤ (c.reg .rsp &&& ~~~15).toNat
  context : Below (c.reg .rsp &&& ~~~15) 64 ctx contextSize
  cpu : Below (c.reg .rsp &&& ~~~15) 64 c.gsBase 4
  slot : Below (c.reg .rsp &&& ~~~15) 64
    (table + BitVec.ofNat 64 (readLE c.mem c.gsBase.toNat 4) * 8) 8
  current : loadWord c.mem (table + BitVec.ofNat 64 (readLE c.mem c.gsBase.toNat 4) * 8) = ctx

/-- A CPU about to run `load_next_task(ctx)`: five words are pushed, away from the context. -/
structure Loadable (c : Cpu) (ctx : Word) : Prop where
  arg : c.reg .rdi = ctx
  fits : Fits ctx contextSize
  room : 40 ≤ (c.reg .rsp).toNat
  context : Below (c.reg .rsp) 40 ctx contextSize

/-- The registers a task computes with, and where it is. -/
def SameRegisters (c c' : Cpu) : Prop :=
  (∀ r, c'.reg r = c.reg r) ∧ c'.rip = c.rip ∧ c'.cs = c.cs ∧ c'.rflags = c.rflags ∧ c'.ss = c.ss

end LunOS.Interrupts
