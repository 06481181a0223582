import LunOS.Interrupts.Theorems

/-!
# Exceptions

The 32 gates of `init_idt` and the stubs behind them. The common stub reads the stack at fixed
offsets, so each stub has to leave the same layout, whether or not the CPU pushed an error code.

- `initIdt_present_iff`, `initIdt_handler`: the gates that are installed, and where they lead.
- `exception_entered`: the words on the stack when a stub is done.
- `entryCorrect_iff`: what the common stub needs of these words.
- `exception_correct_iff`: four vectors have an error code from the CPU and a stub that pushes
  another one. For these the context gets the error code as `rip`, `rip` as `cs` and `cs` as
  `rflags`.
-/

namespace LunOS.Interrupts
open LunOS.Memory LunOS.X86 Function List

variable {c d : Cpu} {table ctx : Word} {v : BitVec 8} {err : Word}

/-! ## The interrupt descriptor table -/

/-- `struct idt_entry_t`. -/
structure IdtEntry where
  isrLow : BitVec 16
  kernelCs : BitVec 16
  ist : BitVec 8
  attributes : BitVec 8
  isrMid : BitVec 16
  isrHigh : BitVec 32
  reserved : BitVec 32

/-- An entry of the table after its `memset`. -/
def zeroEntry : IdtEntry := ⟨0, 0, 0, 0, 0, 0, 0⟩

/-- The entry that `create_gate_entry` writes. -/
def gateEntry (handler : Word) (segSelector : BitVec 16) (attributes : BitVec 8) : IdtEntry where
  isrLow := (handler &&& 0xFFFF).truncate 16
  isrMid := ((handler >>> 16) &&& 0xFFFF).truncate 16
  isrHigh := ((handler >>> 32) &&& 0xFFFFFFFF).truncate 32
  kernelCs := segSelector
  ist := 0
  attributes := attributes
  reserved := 0

/-- `create_gate_entry`. -/
def createGateEntry (idt : BitVec 8 → IdtEntry) (entryIndex : BitVec 8) (handler : Word)
    (segSelector : BitVec 16) (attributes : BitVec 8) : BitVec 8 → IdtEntry :=
  update idt entryIndex (gateEntry handler segSelector attributes)

/-- The vectors of the exceptions. -/
def exceptionVectors : List (BitVec 8) := (List.range 32).map (BitVec.ofNat 8)

/-- The table of `init_idt`, with the stub `isr\n` at `isr n`. -/
def initIdt (isr : BitVec 8 → Word) : BitVec 8 → IdtEntry :=
  -- present interrupt gates of ring 0, into the kernel's code segment
  exceptionVectors.foldl (fun idt n => createGateEntry idt n (isr n) 0x08 0x8E) fun _ => zeroEntry

/-- The CPU goes through a gate only if its present bit is set. -/
def IdtEntry.present (e : IdtEntry) : Prop := e.attributes &&& 0x80 ≠ 0

/-- The address that the CPU puts together from a gate. -/
def IdtEntry.handler (e : IdtEntry) : Word :=
  (e.isrHigh.zeroExtend 64 <<< 32) ||| (e.isrMid.zeroExtend 64 <<< 16) ||| e.isrLow.zeroExtend 64

lemma truncate_and_mask {n : ℕ} (x m : Word) (hm : m.truncate n = BitVec.allOnes n) :
    (x &&& m).truncate n = x.truncate n := by
  unfold BitVec.truncate at hm ⊢
  rw [BitVec.setWidth_and, hm, BitVec.and_allOnes]

/-- The three parts of an address make the address. -/
lemma gateEntry_handler (handler : Word) (s : BitVec 16) (a : BitVec 8) :
    (gateEntry handler s a).handler = handler := by
  unfold gateEntry IdtEntry.handler
  dsimp only
  rw [truncate_and_mask _ 0xFFFF (by decide), truncate_and_mask _ 0xFFFF (by decide),
    truncate_and_mask _ 0xFFFFFFFF (by decide)]
  apply BitVec.eq_of_getLsbD_eq
  intro i hi
  simp only [BitVec.getLsbD_or, BitVec.getLsbD_shiftLeft, BitVec.zeroExtend, BitVec.truncate,
    BitVec.getLsbD_setWidth, BitVec.getLsbD_ushiftRight]
  obtain hlow | hmid | hhigh : i < 16 ∨ (16 ≤ i ∧ i < 32) ∨ 32 ≤ i := by omega
  · simp [hlow, hi, show i < 32 by omega]
  · have hback : 16 + (i - 16) = i := by omega
    simp [hmid, hback, hi, show ¬i < 16 by omega, show i - 16 < 16 by omega,
      show i - 16 < 64 by omega]
  · have hback : 32 + (i - 32) = i := by omega
    simp [hback, hi, show ¬i < 32 by omega, show ¬i < 16 by omega, show ¬i - 16 < 16 by omega,
      show i - 32 < 32 by omega, show i - 32 < 64 by omega]

lemma foldl_createGateEntry (isr : BitVec 8 → Word) (s : BitVec 16) (a : BitVec 8)
    (l : List (BitVec 8)) (idt : BitVec 8 → IdtEntry) (v : BitVec 8) :
    l.foldl (fun idt n => createGateEntry idt n (isr n) s a) idt v =
      if v ∈ l then gateEntry (isr v) s a else idt v := by
  induction l generalizing idt with
  | nil => rfl
  | cons n l ih =>
    rw [foldl_cons, ih]
    by_cases hl : v ∈ l
    · rw [if_pos hl, if_pos (mem_cons_of_mem n hl)]
    · rw [if_neg hl]
      unfold createGateEntry
      by_cases hn : v = n
      · rw [hn, update_self, if_pos mem_cons_self]
      · rw [update_of_ne hn, if_neg (by simp [hn, hl])]

/-- The vectors below 32. -/
lemma mem_exceptionVectors : v ∈ exceptionVectors ↔ v.toNat < 32 := by
  unfold exceptionVectors
  rw [mem_map]
  constructor
  · rintro ⟨n, hn, rfl⟩
    rw [mem_range] at hn
    rw [BitVec.toNat_ofNat]
    omega
  · intro hv
    exact ⟨v.toNat, mem_range.mpr hv, (BitVec.ofNat_toNat 8 v).trans v.setWidth_eq⟩

/-- The gates of the 32 exceptions are the ones that are installed. -/
lemma initIdt_present_iff {isr : BitVec 8 → Word} : (initIdt isr v).present ↔ v.toNat < 32 := by
  unfold initIdt
  rw [foldl_createGateEntry, ← mem_exceptionVectors]
  split_ifs with hv
  · exact ⟨fun _ => hv, fun _ => (by decide : (0x8E : BitVec 8) &&& 0x80 ≠ 0)⟩
  · exact ⟨fun h => absurd rfl h, fun h => absurd h hv⟩

/-- Each of them leads to the stub with its number. -/
lemma initIdt_handler {isr : BitVec 8 → Word} (hv : (initIdt isr v).present) :
    (initIdt isr v).handler = isr v := by
  have hlt := initIdt_present_iff.mp hv
  unfold initIdt
  rw [foldl_createGateEntry, if_pos (mem_exceptionVectors.mpr hlt)]
  exact gateEntry_handler _ _ _

/-! ## The stubs -/

/-- The vectors for which the CPU pushes an error code. -/
def errorCodeVectors : List (BitVec 8) := [8, 10, 11, 12, 13, 14, 17, 21, 29, 30]

/-- The vectors with a stub from `ISR_ERR`. -/
def isrErrVectors : List (BitVec 8) := [8, 10, 11, 12, 13, 14]

/-- The vectors with an error code from the CPU and a stub from `ISR_NOERR`. -/
def doubledVectors : List (BitVec 8) := [17, 21, 29, 30]

/-- `isr\n` with an error code from the CPU. -/
def isrErr (n : Word) : List Instr := [.cli, .pushImm n]

/-- The stub `isr\n` of an exception. -/
def isrStub (n : BitVec 8) : List Instr :=
  if n ∈ isrErrVectors then isrErr (n.zeroExtend 64) else isrNoErr (n.zeroExtend 64)

/-- The CPU takes the exception `v` in kernel mode: its frame goes to the stack in use (the gates
have no stack of their own), with the error code below it. The selector of the gate is left out, the
stubs do not read `cs`. -/
def exceptionEntry (idt : BitVec 8 → IdtEntry) (v : BitVec 8) (err : Word) (c : Cpu) : Cpu :=
  let c' := interruptEntry c (idt v).handler
  if v ∈ errorCodeVectors then c'.pushWord err else c'

/-- An exception up to the call in the common stub, with the code of the kernel in `code`. -/
def exception (code : Word → List Instr) (idt : BitVec 8 → IdtEntry) (table : Word) (v : BitVec 8)
    (err : Word) (c : Cpu) : StubExit × Cpu :=
  let c' := exceptionEntry idt v err c
  isrCommonStub table (run (code c'.rip) c')

/-- The stub of each exception is the code at its address. -/
def StubsAt (code : Word → List Instr) (isr : BitVec 8 → Word) : Prop :=
  ∀ v : BitVec 8, v.toNat < 32 → code (isr v) = isrStub v

/-- What the CPU pushes below its frame. -/
def cpuWords (v : BitVec 8) (err : Word) : List Word := if v ∈ errorCodeVectors then [err] else []

/-- What the stub pushes. -/
def stubPushes (v : BitVec 8) : List Word :=
  if v ∈ isrErrVectors then [v.zeroExtend 64] else [0, v.zeroExtend 64]

/-- The stack at the common stub. -/
def entryWords (c : Cpu) (v : BitVec 8) (err : Word) : List Word :=
  frameWords c ++ cpuWords v err ++ stubPushes v

/-- What the CPU does at an exception. -/
lemma exceptionEntry_eq (idt : BitVec 8 → IdtEntry) (v : BitVec 8) (err : Word) (c : Cpu) :
    exceptionEntry idt v err c =
      ((c.setReg .rsp (alignedSp c)).pushWords (frameWords c ++ cpuWords v err)).withPos
        (idt v).handler c.rflags := by
  unfold exceptionEntry cpuWords
  rw [interruptEntry_eq]
  split_ifs
  · rw [← Cpu.pushWords_append]
    rfl
  · rw [append_nil]

/-- What a stub pushes. -/
lemma run_isrStub (v : BitVec 8) (c : Cpu) : run (isrStub v) c =
    (c.pushWords (stubPushes v)).withPos c.rip (c.rflags &&& ~~~0x200) := by
  unfold isrStub stubPushes
  split_ifs
  · rfl
  · rfl

/-- The state in the common stub. -/
lemma exception_entered {idt : BitVec 8 → IdtEntry}
    (hroom : 8 * (entryWords c v err).length ≤ (alignedSp c).toNat) :
    Entered c (run (isrStub v) (exceptionEntry idt v err c)) (entryWords c v err) := by
  rw [run_isrStub, exceptionEntry_eq, Cpu.pushWords_withPos, Cpu.pushWords_append,
    Cpu.withPos_withPos]
  exact entered_pushWords hroom _ _

/-! ## Entry -/

/-- The `err_code` for `isr_dispatch`: zero if the CPU has none. -/
def errorCode (v : BitVec 8) (err : Word) : Word := if v ∈ errorCodeVectors then err else 0

/-- `isr_dispatch` is called with the frame of exception `v` on an aligned stack, and the context
holds where the task was. -/
structure EntryCorrect (c : Cpu) (v : BitVec 8) (err ctx : Word) (r : StubExit × Cpu) : Prop where
  exit : r.1 = .isrDispatch
  rip : fieldAt r.2.mem ctx 120 = c.rip
  cs : fieldAt r.2.mem ctx 128 = c.cs.zeroExtend 64
  rflags : fieldAt r.2.mem ctx 136 = c.rflags
  argument : r.2.reg .rdi = r.2.reg .rsp
  cr2 : fieldAt r.2.mem (r.2.reg .rsp) 0 = c.cr2
  intNo : fieldAt r.2.mem (r.2.reg .rsp) 8 = v.zeroExtend 64
  errCode : fieldAt r.2.mem (r.2.reg .rsp) 16 = errorCode v err
  aligned : (r.2.reg .rsp).toNat % 16 = 0

/-- The five words on top of the stack decide. -/
lemma entryCorrect_iff {ws : List Word} (hd : Entered c d ws) (hlen : 5 ≤ ws.length)
    (ht : Trappable c table ctx (8 * (ws.length + 1))) :
    EntryCorrect c v err ctx (isrCommonStub table d) ↔
      stackWord d 0 = v.zeroExtend 64 ∧ stackWord d 8 = errorCode v err ∧
        stackWord d 16 = c.rip ∧ stackWord d 24 = c.cs.zeroExtend 64 ∧
        stackWord d 32 = c.rflags := by
  have hentry := hd.stubEntry hlen ht
  by_cases hcs : stackWord d 24 &&& 3 = 0
  · obtain ⟨hexit, hdisp⟩ := isrCommonStub_dispatch hentry hcs
    have hfields : ∀ x ∈ [(120, stackWord d 16), (136, stackWord d 32), (128, stackWord d 24)],
        fieldAt (isrCommonStub table d).2.mem ctx x.1 = x.2 := fun x hx =>
      hdisp.words x (mem_append_right _ (mem_cons_of_mem _ hx))
    have hrip := hfields (120, stackWord d 16) (by simp)
    have hflags := hfields (136, stackWord d 32) (by simp)
    have hseg := hfields (128, stackWord d 24) (by simp)
    have haligned : (d.reg .rsp).toNat % 8 = 0 := by
      have hroom := ht.room
      have hmod := alignedSp_mod c
      rw [hd.toNat_rsp (by omega)]
      omega
    constructor
    · intro h
      exact ⟨hdisp.intNo.symm.trans h.intNo, hdisp.errCode.symm.trans h.errCode,
        hrip.symm.trans h.rip, hseg.symm.trans h.cs, hflags.symm.trans h.rflags⟩
    · rintro ⟨hv, herr, h₁, h₂, h₃⟩
      exact ⟨hexit, hrip.trans h₁, hseg.trans h₂, hflags.trans h₃, hdisp.argument,
        hdisp.cr2.trans hd.cr2, hdisp.intNo.trans hv, hdisp.errCode.trans herr,
        hdisp.aligned haligned⟩
  · -- the stub leaves for `user_mode_interrupt`, and the word is not the `cs` of a kernel task
    constructor
    · intro h
      have huser := isrCommonStub_user hentry hcs
      rw [h.exit] at huser
      cases huser
    · rintro ⟨-, -, -, h₂, -⟩
      rw [h₂] at hcs
      exact absurd (and_three_zeroExtend ht.kernel) hcs

/-- If the CPU and the stub agree about the error code, there is one. -/
lemma entryWords_single (c : Cpu) (err : Word) (hv : v ∉ doubledVectors) :
    entryWords c v err = frameWords c ++ [errorCode v err, v.zeroExtend 64] := by
  have hsplit : errorCodeVectors = isrErrVectors ++ doubledVectors := rfl
  have hiff : v ∈ errorCodeVectors ↔ v ∈ isrErrVectors := by
    rw [hsplit, mem_append, or_iff_left hv]
  unfold entryWords cpuWords stubPushes errorCode
  by_cases hmem : v ∈ isrErrVectors
  · rw [if_pos (hiff.mpr hmem), if_pos hmem, if_pos (hiff.mpr hmem)]
    rfl
  · rw [if_neg (mt hiff.mp hmem), if_neg hmem, if_neg (mt hiff.mp hmem)]
    rfl

lemma doubledVectors_errorCode : ∀ v ∈ doubledVectors, v ∈ errorCodeVectors := by decide

/-- Four vectors have two. -/
lemma entryWords_doubled (c : Cpu) (err : Word) (hv : v ∈ doubledVectors) :
    entryWords c v err = frameWords c ++ [err, 0, v.zeroExtend 64] := by
  have hstub : ∀ v ∈ doubledVectors, v ∉ isrErrVectors := by decide
  unfold entryWords cpuWords stubPushes
  rw [if_pos (doubledVectors_errorCode v hv), if_neg (hstub v hv), append_assoc]
  rfl

section

variable {code : Word → List Instr} {isr : BitVec 8 → Word}

/-- The common stub is entered with these words on the stack. -/
lemma exception_enters (hcode : StubsAt code isr) (hv : (initIdt isr v).present)
    (hroom : 8 * (entryWords c v err).length ≤ (alignedSp c).toNat) :
    ∃ d, exception code (initIdt isr) table v err c = isrCommonStub table d ∧
      Entered c d (entryWords c v err) := by
  have hrip : (exceptionEntry (initIdt isr) v err c).rip = isr v := by
    rw [exceptionEntry_eq, Cpu.withPos_rip, initIdt_handler hv]
  refine ⟨run (isrStub v) (exceptionEntry (initIdt isr) v err c), ?_, exception_entered hroom⟩
  unfold exception
  dsimp only
  rw [hrip, hcode v (initIdt_present_iff.mp hv)]

/-- Vectors with one error code. -/
lemma exception_single (hcode : StubsAt code isr) (hv : (initIdt isr v).present)
    (ht : Trappable c table ctx (8 * ((entryWords c v err).length + 1)))
    (hmem : v ∉ doubledVectors) :
    EntryCorrect c v err ctx (exception code (initIdt isr) table v err c) := by
  have hroom : 8 * (entryWords c v err).length ≤ (alignedSp c).toNat :=
    (Nat.mul_le_mul_left 8 (Nat.le_succ _)).trans ht.room
  obtain ⟨d, hrun, hd⟩ := exception_enters hcode hv hroom
  rw [entryWords_single c err hmem] at hd ht hroom
  have hlen : 5 ≤ (frameWords c ++ [errorCode v err, v.zeroExtend 64]).length :=
    (by decide : 5 ≤ 7)
  have hstack := @Entered.stackWord _ _ _ hd hroom
  rw [hrun]
  -- the seven words from the last one: `int_no`, `err_code`, `rip`, `cs`, `rflags`
  refine (entryCorrect_iff hd hlen ht).mpr ⟨?_, ?_, ?_, ?_, ?_⟩
  · exact hstack (i := 6) rfl rfl
  · exact hstack (i := 5) rfl rfl
  · exact hstack (i := 4) rfl rfl
  · exact hstack (i := 3) rfl rfl
  · exact hstack (i := 2) rfl rfl

/-- With two error codes each word is read in the place of the next one: the error code as `rip`,
`rip` as `cs` and `cs` as `rflags`. -/
lemma exception_doubled (hcode : StubsAt code isr) (hv : (initIdt isr v).present)
    (ht : Trappable c table ctx (8 * ((entryWords c v err).length + 1)))
    (hmem : v ∈ doubledVectors) :
    EntryCorrect c v err ctx (exception code (initIdt isr) table v err c) ↔
      0 = err ∧ err = c.rip ∧ c.rip = c.cs.zeroExtend 64 ∧ c.cs.zeroExtend 64 = c.rflags := by
  have hroom : 8 * (entryWords c v err).length ≤ (alignedSp c).toNat :=
    (Nat.mul_le_mul_left 8 (Nat.le_succ _)).trans ht.room
  obtain ⟨d, hrun, hd⟩ := exception_enters hcode hv hroom
  rw [entryWords_doubled c err hmem] at hd ht hroom
  have hlen : 5 ≤ (frameWords c ++ [err, 0, v.zeroExtend 64]).length := (by decide : 5 ≤ 8)
  have hstack := @Entered.stackWord _ _ _ hd hroom
  -- with eight words, all but `int_no` are one word higher than the common stub takes them to be
  have hint : stackWord d 0 = v.zeroExtend 64 := hstack (i := 7) rfl rfl
  have herr : stackWord d 8 = 0 := hstack (i := 6) rfl rfl
  have hrip : stackWord d 16 = err := hstack (i := 5) rfl rfl
  have hcs : stackWord d 24 = c.rip := hstack (i := 4) rfl rfl
  have hflags : stackWord d 32 = c.cs.zeroExtend 64 := hstack (i := 3) rfl rfl
  have hpushed : errorCode v err = err := if_pos (doubledVectors_errorCode v hmem)
  rw [hrun, entryCorrect_iff hd hlen ht, hint, herr, hrip, hcs, hflags, hpushed]
  exact ⟨fun h => h.2, fun h => ⟨rfl, h⟩⟩

/-- The entry of an exception is correct exactly when its stub leaves one error code, or the words
that are mixed up are all zero (so never on a real CPU, where a bit of `rflags` is always set). -/
theorem exception_correct_iff (hcode : StubsAt code isr) (hv : (initIdt isr v).present)
    (ht : Trappable c table ctx (8 * ((entryWords c v err).length + 1))) :
    EntryCorrect c v err ctx (exception code (initIdt isr) table v err c) ↔
      v ∉ doubledVectors ∨
        (err = 0 ∧ c.rip = 0 ∧ c.cs = 0 ∧ c.rflags = 0) := by
  by_cases hmem : v ∈ doubledVectors
  · rw [exception_doubled hcode hv ht hmem, or_iff_right (not_not.mpr hmem)]
    constructor
    · rintro ⟨herr, hrip, hcs, hflags⟩
      have hzero : c.cs.zeroExtend 64 = 0 := by rw [← hcs, ← hrip, ← herr]
      refine ⟨herr.symm, hrip.symm.trans herr.symm, ?_, hflags.symm.trans hzero⟩
      have htrunc := congrArg (BitVec.truncate 16) hzero
      simpa [BitVec.zeroExtend, BitVec.truncate] using htrunc
    · rintro ⟨herr, hrip, hcs, hflags⟩
      rw [herr, hrip, hcs, hflags]
      exact ⟨rfl, rfl, rfl, rfl⟩
  · exact ⟨fun _ => Or.inl hmem, fun _ => exception_single hcode hv ht hmem⟩

end

/-! ## A kernel with its stubs in a row -/

/-- The address of a stub, sixteen bytes for each. -/
def stubAddress (v : BitVec 8) : Word := 0xFFFFFFFF80200000 + v.zeroExtend 64 * 16

/-- The code behind these addresses. -/
def stubCode (a : Word) : List Instr := isrStub (((a - 0xFFFFFFFF80200000) / 16).truncate 8)

lemma stubsAt_stubCode : StubsAt stubCode stubAddress := by
  intro v _
  have hlt := v.isLt
  have hback : ((stubAddress v - 0xFFFFFFFF80200000) / 16).truncate 8 = v := by
    have hdiff : stubAddress v - 0xFFFFFFFF80200000 = v.zeroExtend 64 * 16 := by
      unfold stubAddress
      rw [BitVec.add_comm, BitVec.add_sub_cancel]
    have hsize : (16 : Word).toNat = 16 := rfl
    apply BitVec.eq_of_toNat_eq
    rw [hdiff, BitVec.truncate, BitVec.zeroExtend, BitVec.toNat_setWidth, BitVec.toNat_udiv,
      BitVec.toNat_mul, BitVec.toNat_setWidth, hsize]
    omega
  unfold stubCode
  rw [hback]

/-- A page fault in the middle of a task. -/
theorem exception_correct_pageFault :
    EntryCorrect (kernelTask 0x103FF8) 14 2 0x2000
      (exception stubCode (initIdt stubAddress) 0x3000 14 2 (kernelTask 0x103FF8)) :=
  (exception_correct_iff stubsAt_stubCode (initIdt_present_iff.mpr (by decide))
    (kernelTask_trappable (Or.inl rfl) (by decide))).mpr (Or.inl (by decide))

/-- An alignment check: its error code is zero, and so is the saved `rip`. -/
theorem exception_alignmentCheck :
    StubsAt stubCode stubAddress ∧ (initIdt stubAddress 17).present ∧
      Trappable (kernelTask 0x103FF8) 0x3000 0x2000
        (8 * ((entryWords (kernelTask 0x103FF8) 17 0).length + 1)) ∧
      ¬EntryCorrect (kernelTask 0x103FF8) 17 0 0x2000
        (exception stubCode (initIdt stubAddress) 0x3000 17 0 (kernelTask 0x103FF8)) := by
  have hv : (initIdt stubAddress 17).present := initIdt_present_iff.mpr (by decide)
  have ht : Trappable (kernelTask 0x103FF8) 0x3000 0x2000
      (8 * ((entryWords (kernelTask 0x103FF8) 17 0).length + 1)) :=
    kernelTask_trappable (Or.inl rfl) (by decide)
  refine ⟨stubsAt_stubCode, hv, ht, fun h => ?_⟩
  have hrip := ((exception_doubled stubsAt_stubCode hv ht (by decide)).mp h).2.1
  exact absurd hrip (by decide : (0 : Word) ≠ 0xFFFFFFFF80001000)

end LunOS.Interrupts
