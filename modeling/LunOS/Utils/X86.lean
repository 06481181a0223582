import LunOS.Utils.Memory

/-!
# A small x86-64 machine

The registers, the memory and the instructions that stack-switching code is made of: moves between
registers and memory, pushes and pops, interrupt entry and `iretq`. Segment selectors have 16 bits;
everything else is a 64-bit word. Instructions are run as lists, so the instruction pointer only
moves on interrupt entry and `iretq`.

- `fieldAt m a o`: the word at offset `o` of a record at `a`.
- `run_stores`, `run_loads`: a row of stores into, or loads from, one record.
-/

namespace LunOS.X86
open LunOS.Memory Function List

abbrev Word := BitVec 64

/-- The registers that the stubs use. -/
inductive Reg
  | rax
  | rbx
  | rcx
  | rdx
  | rsi
  | rdi
  | rbp
  | rsp
  | r8
  | r9
  | r10
  | r11
  | r12
  | r13
  | r14
  | r15
deriving DecidableEq

/-- The CPU and memory. -/
structure Cpu where
  reg : Reg → Word
  rip : Word
  rflags : Word
  cs : BitVec 16
  ss : BitVec 16
  cr2 : Word
  gsBase : Word
  mem : Mem

/-- Eight bytes, the lowest first. -/
def loadWord (m : Mem) (a : Word) : Word := BitVec.ofNat 64 (readLE m a.toNat 8)

/-- Eight bytes, the lowest first. -/
def storeWord (m : Mem) (a v : Word) : Mem := writeLE m a.toNat 8 v.toNat

/-- The word at an offset of a record. -/
def fieldAt (m : Mem) (a : Word) (o : ℕ) : Word := loadWord m (a + BitVec.ofNat 64 o)

namespace Cpu

def setReg (c : Cpu) (r : Reg) (v : Word) : Cpu := { c with reg := update c.reg r v }

/-- The machine at another position with other flags. -/
def withPos (c : Cpu) (rip rflags : Word) : Cpu := { c with rip := rip, rflags := rflags }

def pushWord (c : Cpu) (v : Word) : Cpu :=
  let sp := c.reg .rsp - BitVec.ofNat 64 8
  { c.setReg .rsp sp with mem := storeWord c.mem sp v }

/-- The word on top of the stack, and the machine without it. -/
def popWord (c : Cpu) : Word × Cpu :=
  (loadWord c.mem (c.reg .rsp), c.setReg .rsp (c.reg .rsp + BitVec.ofNat 64 8))

end Cpu

/-- The instructions, operands in the order of AT&T syntax. `loadIndexed t i r` is
`movq t(, %i, 8), %r` and `loadGs r` is `movl %gs:0, %r`, which clears the upper half of `r`. -/
inductive Instr
  | cli
  | pushq (r : Reg)
  | pushImm (v : Word)
  | pushMem (o : ℕ) (base : Reg)
  | popq (r : Reg)
  | store (r : Reg) (o : ℕ) (base : Reg)
  | load (o : ℕ) (base r : Reg)
  | loadIndexed (table : Word) (index r : Reg)
  | loadGs (r : Reg)
  | movq (src dst : Reg)
  | movCr2 (dst : Reg)
  | subq (v : Word) (dst : Reg)

/-- Bit 9 of the flags is the interrupt flag. -/
def exec (c : Cpu) : Instr → Cpu
  | .cli => { c with rflags := c.rflags &&& ~~~0x200 }
  | .pushq r => c.pushWord (c.reg r)
  | .pushImm v => c.pushWord v
  | .pushMem o base => c.pushWord (fieldAt c.mem (c.reg base) o)
  | .popq r => c.popWord.2.setReg r c.popWord.1
  | .store r o base => { c with mem := storeWord c.mem (c.reg base + BitVec.ofNat 64 o) (c.reg r) }
  | .load o base r => c.setReg r (fieldAt c.mem (c.reg base) o)
  | .loadIndexed table index r => c.setReg r (loadWord c.mem (table + c.reg index * 8))
  | .loadGs r => c.setReg r (BitVec.ofNat 64 (readLE c.mem c.gsBase.toNat 4))
  | .movq src dst => c.setReg dst (c.reg src)
  | .movCr2 dst => c.setReg dst c.cr2
  | .subq v dst => c.setReg dst (c.reg dst - v)

/-- Instructions one after the other. -/
def run (is : List Instr) (c : Cpu) : Cpu := is.foldl exec c

/-- Interrupt entry in long mode without a change of privilege: the stack pointer is aligned down
to 16 and the interrupted position is pushed. -/
def interruptEntry (c : Cpu) (handler : Word) : Cpu :=
  let sp := c.reg .rsp
  let c' := c.setReg .rsp (sp &&& ~~~15)
  let c' := c'.pushWord (c.ss.zeroExtend 64)
  let c' := c'.pushWord sp
  let c' := c'.pushWord c.rflags
  let c' := c'.pushWord (c.cs.zeroExtend 64)
  let c' := c'.pushWord c.rip
  { c' with rip := handler }

/-- `iretq`: the five words of an interrupt frame are popped. -/
def iretq (c : Cpu) : Cpu :=
  let (rip, c) := c.popWord
  let (cs, c) := c.popWord
  let (rflags, c) := c.popWord
  let (sp, c) := c.popWord
  let (ss, c) := c.popWord
  { c.setReg .rsp sp with rip := rip, cs := cs.truncate 16, rflags := rflags,
                          ss := ss.truncate 16 }

lemma run_append (is js : List Instr) (c : Cpu) : run (is ++ js) c = run js (run is c) :=
  foldl_append

@[simp] lemma Cpu.setReg_self (c : Cpu) (r : Reg) (v : Word) : (c.setReg r v).reg r = v := by
  simp [Cpu.setReg]

variable {r base : Reg} {m m' : Mem} {a sp : Word} {n o : ℕ} {c : Cpu} {vs : List Word}

lemma Cpu.setReg_of_ne (c : Cpu) {r' : Reg} (v : Word) (h : r' ≠ r) :
    (c.setReg r v).reg r' = c.reg r' := by
  simp [Cpu.setReg, h]

@[simp] lemma Cpu.pushWord_rsp (c : Cpu) (v : Word) :
    (c.pushWord v).reg .rsp = c.reg .rsp - BitVec.ofNat 64 8 := by
  simp [Cpu.pushWord, Cpu.setReg]

lemma Cpu.pushWord_of_ne (c : Cpu) (v : Word) (h : r ≠ .rsp) :
    (c.pushWord v).reg r = c.reg r :=
  update_of_ne h _ c.reg

@[simp] lemma Cpu.withPos_reg (c : Cpu) (a b : Word) : (c.withPos a b).reg = c.reg := rfl
@[simp] lemma Cpu.withPos_rip (c : Cpu) (a b : Word) : (c.withPos a b).rip = a := rfl
@[simp] lemma Cpu.withPos_withPos (c : Cpu) (a b a' b' : Word) :
    (c.withPos a b).withPos a' b' = c.withPos a' b' := rfl

/-! ## Words in memory -/

/-- What was stored is loaded. -/
lemma loadWord_storeWord_same (m : Mem) (a v : Word) : loadWord (storeWord m a v) a = v := by
  unfold loadWord storeWord
  rw [readLE_writeLE_same (by exact v.isLt), BitVec.ofNat_toNat, BitVec.setWidth_eq]

lemma loadWord_congr (h : ∀ z, a.toNat ≤ z → z < a.toNat + 8 → m z = m' z) :
    loadWord m a = loadWord m' a := by
  unfold loadWord
  rw [readLE_congr h]

/-- A store elsewhere. -/
lemma loadWord_storeWord_of_disjoint {b v : Word}
    (h : a.toNat + 8 ≤ b.toNat ∨ b.toNat + 8 ≤ a.toNat) :
    loadWord (storeWord m b v) a = loadWord m a := by
  unfold loadWord storeWord
  rw [readLE_writeLE_of_disjoint h]

/-- A record of `n` bytes at `a` does not wrap around. -/
def Fits (a : Word) (n : ℕ) : Prop := a.toNat + n ≤ 2 ^ 64

lemma Fits.toNat_add (h : Fits a n) (ho : o < n) :
    (a + BitVec.ofNat 64 o).toNat = a.toNat + o := by
  unfold Fits at h
  rw [BitVec.toNat_add, BitVec.toNat_ofNat]
  omega

/-- A field only depends on the bytes of the record. -/
lemma Fits.fieldAt_congr (h : Fits a n) (ho : o + 8 ≤ n)
    (hm : ∀ z, a.toNat ≤ z → z < a.toNat + n → m z = m' z) : fieldAt m a o = fieldAt m' a o := by
  apply loadWord_congr
  rw [h.toNat_add (by omega)]
  intro z hz hz'
  exact hm z (by omega) (by omega)

/-! ## Filling a record -/

/-- `m'` is `m` with the words `l` (offset and value) put into a record of `n` bytes at `a`. -/
structure Stored (m m' : Mem) (a : Word) (n : ℕ) (l : List (ℕ × Word)) : Prop where
  field : ∀ x ∈ l, fieldAt m' a x.1 = x.2
  other : ∀ o, o + 8 ≤ n → (∀ x ∈ l, o + 8 ≤ x.1 ∨ x.1 + 8 ≤ o) → fieldAt m' a o = fieldAt m a o
  outside : ∀ z, z < a.toNat ∨ a.toNat + n ≤ z → m' z = m z

lemma Stored.nil (m : Mem) (a : Word) (n : ℕ) : Stored m m a n [] :=
  ⟨fun _ hx => absurd hx not_mem_nil, fun _ _ _ => rfl, fun _ _ => rfl⟩

/-- One more word, apart from those before. -/
lemma Stored.store {l : List (ℕ × Word)} (h : Stored m m' a n l) (hfits : Fits a n) (ho : o + 8 ≤ n)
    (hap : ∀ x ∈ l, x.1 + 8 ≤ n ∧ (o + 8 ≤ x.1 ∨ x.1 + 8 ≤ o)) (v : Word) :
    Stored m (storeWord m' (a + BitVec.ofNat 64 o) v) a n (l ++ [(o, v)]) := by
  have haddr := hfits.toNat_add (show o < n by omega)
  have hkeep : ∀ p, p + 8 ≤ n → o + 8 ≤ p ∨ p + 8 ≤ o →
      fieldAt (storeWord m' (a + BitVec.ofNat 64 o) v) a p = fieldAt m' a p := by
    intro p hp hop
    apply loadWord_storeWord_of_disjoint
    rw [haddr, hfits.toNat_add (show p < n by omega)]
    omega
  refine ⟨fun x hx => ?_, fun p hp hout => ?_, fun z hz => ?_⟩
  · rcases mem_append.mp hx with hx | hx
    · have hxo := hap x hx
      rw [hkeep x.1 hxo.1 hxo.2]
      exact h.field x hx
    · rw [mem_singleton.mp hx]
      exact loadWord_storeWord_same _ _ _
  · have hpo := hout (o, v) (mem_append_right _ mem_cons_self)
    rw [hkeep p hp (by omega)]
    exact h.other p hp fun x hx => hout x (mem_append_left _ hx)
  · rw [← h.outside z hz]
    apply writeLE_of_outside
    rw [haddr]
    omega

/-! ## Rows of stores and loads -/

/-- The stores of the registers of `l` at their offsets. -/
def stores (base : Reg) (l : List (Reg × ℕ)) : List Instr := l.map fun x => .store x.1 x.2 base

/-- The loads of the registers of `l` from their offsets. -/
def loads (base : Reg) (l : List (Reg × ℕ)) : List Instr := l.map fun x => .load x.2 base x.1

/-- Words at these offsets of a record of `n` bytes do not overlap. -/
def WordsApart (n : ℕ) : List ℕ → Prop
  | [] => True
  | o :: l => o + 8 ≤ n ∧ (∀ p ∈ l, o + 8 ≤ p ∨ p + 8 ≤ o) ∧ WordsApart n l

instance (n : ℕ) : ∀ l, Decidable (WordsApart n l)
  | [] => inferInstanceAs (Decidable True)
  | o :: l =>
    have := instDecidableWordsApart n l
    inferInstanceAs (Decidable (o + 8 ≤ n ∧ (∀ p ∈ l, o + 8 ≤ p ∨ p + 8 ≤ o) ∧ WordsApart n l))

/-- A row of stores through `base` keeps the registers and fills the record. -/
lemma run_stores {l : List (Reg × ℕ)} (hl : WordsApart n (l.map Prod.snd))
    (hfits : Fits (c.reg base) n) {l₀ : List (ℕ × Word)} (h : Stored m c.mem (c.reg base) n l₀)
    (hap : ∀ y ∈ l₀, y.1 + 8 ≤ n ∧ ∀ x ∈ l, x.2 + 8 ≤ y.1 ∨ y.1 + 8 ≤ x.2) :
    ∃ m', run (stores base l) c = { c with mem := m' } ∧
      Stored m m' (c.reg base) n (l₀ ++ l.map fun x => (x.2, c.reg x.1)) := by
  induction l generalizing c l₀ with
  | nil =>
    rw [map_nil, append_nil]
    exact ⟨c.mem, rfl, h⟩
  | cons x l ih =>
    have hst := h.store hfits hl.1
      (fun y hy => ⟨(hap y hy).1, (hap y hy).2 x mem_cons_self⟩) (c.reg x.1)
    rcases ih hl.2.2 (c := exec c (.store x.1 x.2 base)) hfits hst (by
      intro y hy
      rcases mem_append.mp hy with hy | hy
      · exact ⟨(hap y hy).1, fun z hz => (hap y hy).2 z (mem_cons_of_mem _ hz)⟩
      · rw [mem_singleton.mp hy]
        refine ⟨hl.1, fun z hz => ?_⟩
        have := hl.2.1 z.2 (mem_map.mpr ⟨z, hz, rfl⟩)
        omega) with ⟨m', hrun, hst'⟩
    refine ⟨m', hrun, ?_⟩
    rw [map_cons, append_cons]
    exact hst'

/-- A row of loads through `base` fills the registers and keeps everything else. -/
lemma run_loads {l : List (Reg × ℕ)} (hb : ∀ x ∈ l, x.1 ≠ base) (hp : (l.map Prod.fst).Nodup)
    (c : Cpu) :
    ∃ val, run (loads base l) c = { c with reg := val } ∧
      (∀ x ∈ l, val x.1 = fieldAt c.mem (c.reg base) x.2) ∧
      ∀ r, r ∉ l.map Prod.fst → val r = c.reg r := by
  induction l generalizing c with
  | nil => exact ⟨c.reg, rfl, fun x hx => absurd hx not_mem_nil, fun _ _ => rfl⟩
  | cons x l ih =>
    have hnd := nodup_cons.mp hp
    have hbase : (exec c (.load x.2 base x.1)).reg base = c.reg base :=
      update_of_ne (hb x mem_cons_self).symm _ _
    rcases ih (fun y hy => hb y (mem_cons_of_mem _ hy)) hnd.2
      (exec c (.load x.2 base x.1)) with ⟨val, hrun, hval, hother⟩
    refine ⟨val, hrun, fun y hy => ?_, fun r hr => ?_⟩
    · rcases mem_cons.mp hy with heq | hy
      · rw [heq, hother x.1 hnd.1]
        exact update_self _ _ _
      · rw [hval y hy, hbase]
        rfl
    · rw [hother r fun hmem => hr (mem_cons_of_mem _ hmem)]
      refine update_of_ne ?_ _ _
      intro heq
      exact hr (heq ▸ mem_cons_self)

/-! ## The stack -/

/-- The `n` bytes below `sp` and the `k` bytes at `a` have nothing in common. -/
def Below (sp : Word) (n : ℕ) (a : Word) (k : ℕ) : Prop :=
  sp.toNat ≤ a.toNat ∨ a.toNat + k ≤ sp.toNat - n

def Cpu.pushWords (c : Cpu) (vs : List Word) : Cpu := vs.foldl Cpu.pushWord c

lemma Cpu.pushWords_append (c : Cpu) (vs ws : List Word) :
    (c.pushWords vs).pushWords ws = c.pushWords (vs ++ ws) :=
  (foldl_append).symm

lemma Cpu.pushWords_of_ne (h : r ≠ .rsp) (vs : List Word) (c : Cpu) :
    (c.pushWords vs).reg r = c.reg r := by
  induction vs generalizing c with
  | nil => rfl
  | cons v vs ih => exact (ih (c.pushWord v)).trans (c.pushWord_of_ne v h)

/-- Pushing words does not look at the position and the flags. -/
lemma Cpu.pushWords_withPos (rip rflags : Word) (vs : List Word) (c : Cpu) :
    (c.withPos rip rflags).pushWords vs = (c.pushWords vs).withPos rip rflags := by
  induction vs generalizing c with
  | nil => rfl
  | cons v vs ih => exact ih (c.pushWord v)

/-- `m'` is `m` with the words `vs` pushed below `sp`, the first one on top. -/
structure Pushed (m m' : Mem) (sp : Word) (vs : List Word) : Prop where
  word : ∀ i v, vs[i]? = some v → loadWord m' (sp - BitVec.ofNat 64 (8 * (i + 1))) = v
  outside : ∀ z, z < sp.toNat - 8 * vs.length ∨ sp.toNat ≤ z → m' z = m z

lemma toNat_sub_ofNat {k : ℕ} (h : k ≤ sp.toNat) :
    (sp - BitVec.ofNat 64 k).toNat = sp.toNat - k := by
  have := sp.isLt
  rw [BitVec.toNat_sub, BitVec.toNat_ofNat]
  omega

/-- Pushing words moves the stack pointer and writes below it. -/
lemma pushWords_spec (hroom : 8 * vs.length ≤ (c.reg .rsp).toNat) :
    ∃ m, c.pushWords vs =
        { c.setReg .rsp (c.reg .rsp - BitVec.ofNat 64 (8 * vs.length)) with mem := m } ∧
      Pushed c.mem m (c.reg .rsp) vs := by
  induction vs generalizing c with
  | nil =>
    refine ⟨c.mem, ?_, fun i v hv => absurd hv (by simp), fun _ _ => rfl⟩
    show c = _
    simp [Cpu.setReg]
  | cons v vs ih =>
    rw [length_cons] at hroom
    have hsp := c.pushWord_rsp v
    have htop := @toNat_sub_ofNat (c.reg .rsp) 8 (by omega)
    rcases ih (c := c.pushWord v) (by rw [hsp, htop]; omega) with ⟨m, hrun, hpushed⟩
    rw [hsp] at hrun hpushed
    refine ⟨m, ?_, fun i w hw => ?_, fun z hz => ?_⟩
    · show (c.pushWord v).pushWords vs = _
      rw [hrun]
      have hsub : c.reg .rsp - BitVec.ofNat 64 8 - BitVec.ofNat 64 (8 * vs.length)
          = c.reg .rsp - BitVec.ofNat 64 (8 * (vs.length + 1)) := by
        apply BitVec.eq_of_toNat_eq
        rw [toNat_sub_ofNat (by rw [htop]; omega), htop, toNat_sub_ofNat (by omega)]
        omega
      simp only [Cpu.pushWord, Cpu.setReg, update_idem, hsub, length_cons]
    · cases i with
      | zero =>
        -- the words pushed later lie below
        rw [List.getElem?_cons_zero] at hw
        cases hw
        refine (loadWord_congr fun z hz hz' => ?_).trans
          (loadWord_storeWord_same c.mem (c.reg .rsp - BitVec.ofNat 64 8) v)
        apply hpushed.outside
        exact Or.inr hz
      | succ i =>
        rw [List.getElem?_cons_succ] at hw
        have hi : i < vs.length := (List.getElem?_eq_some_iff.mp hw).1
        refine Eq.trans ?_ (hpushed.word i w hw)
        congr 1
        apply BitVec.eq_of_toNat_eq
        rw [toNat_sub_ofNat (by omega), toNat_sub_ofNat (by rw [htop]; omega), htop]
        omega
    · rw [length_cons] at hz
      refine (hpushed.outside z (by rw [htop]; omega)).trans ?_
      apply writeLE_of_outside
      show z < (c.reg .rsp - BitVec.ofNat 64 8).toNat ∨ _
      rw [htop]
      omega

/-- The pushed words, counted from the last one. -/
lemma Pushed.fieldAt_top {v : Word} (h : Pushed m m' sp vs) (hroom : 8 * vs.length ≤ sp.toNat)
    {i : ℕ} (hio : o + 8 * (i + 1) = 8 * vs.length) (hi : vs[i]? = some v) :
    fieldAt m' (sp - BitVec.ofNat 64 (8 * vs.length)) o = v := by
  have haddr : sp - BitVec.ofNat 64 (8 * vs.length) + BitVec.ofNat 64 o =
      sp - BitVec.ofNat 64 (8 * (i + 1)) := by
    have hlt := sp.isLt
    apply BitVec.eq_of_toNat_eq
    rw [BitVec.toNat_add, toNat_sub_ofNat hroom, toNat_sub_ofNat (by omega), BitVec.toNat_ofNat]
    omega
  unfold LunOS.X86.fieldAt
  rw [haddr]
  exact h.word i v hi

/-- A record away from the stack keeps its words. -/
lemma Pushed.fieldAt (h : Pushed m m' sp vs) (hfits : Fits a n) (hb : Below sp (8 * vs.length) a n)
    (ho : o + 8 ≤ n) : fieldAt m' a o = fieldAt m a o := by
  apply hfits.fieldAt_congr ho
  intro z hz hz'
  apply h.outside
  unfold Below at hb
  omega

/-- Pushing words of a record away from the stack. -/
lemma run_pushMem (hbase : base ≠ .rsp) {os : List ℕ} (hos : ∀ o ∈ os, o + 8 ≤ n)
    (hfits : Fits (c.reg base) n) (hroom : 8 * os.length ≤ (c.reg .rsp).toNat)
    (hb : Below (c.reg .rsp) (8 * os.length) (c.reg base) n) :
    run (os.map fun o => .pushMem o base) c
      = c.pushWords (os.map (X86.fieldAt c.mem (c.reg base))) := by
  induction os generalizing c with
  | nil => rfl
  | cons o os ih =>
    have hsp : (exec c (.pushMem o base)).reg .rsp = c.reg .rsp - BitVec.ofNat 64 8 :=
      c.pushWord_rsp _
    have hreg : (exec c (.pushMem o base)).reg base = c.reg base := c.pushWord_of_ne _ hbase
    rw [length_cons] at hroom hb
    have htop := @toNat_sub_ofNat (c.reg .rsp) 8 (by omega)
    unfold Below at hb
    have hfields : ∀ p ∈ os, X86.fieldAt (exec c (.pushMem o base)).mem (c.reg base) p
        = X86.fieldAt c.mem (c.reg base) p := by
      intro p hp
      apply hfits.fieldAt_congr (hos p (mem_cons_of_mem _ hp))
      intro z hz hz'
      apply writeLE_of_outside
      show z < (c.reg .rsp - BitVec.ofNat 64 8).toNat ∨
        (c.reg .rsp - BitVec.ofNat 64 8).toNat + 8 ≤ z
      rw [htop]
      omega
    have hrest := ih (fun p hp => hos p (mem_cons_of_mem _ hp))
      (c := exec c (.pushMem o base)) (by rw [hreg]; exact hfits) (by rw [hsp, htop]; omega)
      (by rw [hsp, hreg]; unfold Below; rw [htop]; omega)
    rw [hreg, map_congr_left hfields] at hrest
    exact hrest

/-- `iretq` takes back the five words of a frame that was pushed. -/
lemma iretq_pushed {ss rsp rflags cs rip : Word} (hmem : c.mem = m')
    (hsp : c.reg .rsp = sp - BitVec.ofNat 64 40) (h : Pushed m m' sp [ss, rsp, rflags, cs, rip]) :
    (iretq c).rip = rip ∧ (iretq c).cs = cs.truncate 16 ∧ (iretq c).rflags = rflags ∧
      (iretq c).reg .rsp = rsp ∧ (iretq c).ss = ss.truncate 16 ∧
      ∀ r, r ≠ .rsp → (iretq c).reg r = c.reg r := by
  have haddr : ∀ i k : ℕ, k + 8 * (i + 1) = 40 →
      sp - BitVec.ofNat 64 40 + BitVec.ofNat 64 k = sp - BitVec.ofNat 64 (8 * (i + 1)) := by
    intro i k hik
    have hk : 40 = k + 8 * (i + 1) := hik.symm
    rw [hk, BitVec.ofNat_add]
    bv_omega
  have hword : ∀ (i k : ℕ) (v : Word), k + 8 * (i + 1) = 40 →
      [ss, rsp, rflags, cs, rip][i]? = some v →
      loadWord m' (sp - BitVec.ofNat 64 40 + BitVec.ofNat 64 k) = v := by
    intro i k v hik hv
    rw [haddr i k hik]
    exact h.word i v hv
  have hsum : ∀ (x : Word) (k : ℕ), x + BitVec.ofNat 64 k + BitVec.ofNat 64 8
      = x + BitVec.ofNat 64 (k + 8) := by
    intro x k
    rw [BitVec.ofNat_add, BitVec.add_assoc]
  have h0 := hword 4 0 rip rfl rfl
  have h8 := hword 3 8 cs rfl rfl
  have h16 := hword 2 16 rflags rfl rfl
  have h24 := hword 1 24 rsp rfl rfl
  have h32 := hword 0 32 ss rfl rfl
  rw [BitVec.add_zero] at h0
  unfold iretq
  simp only [Cpu.popWord, Cpu.setReg_self, hsum, hsp]
  refine ⟨?_, ?_, ?_, ?_, ?_, fun r hr => ?_⟩
  · rw [hmem, h0]
  · show (loadWord c.mem _).truncate 16 = _
    rw [hmem, h8]
  · show loadWord c.mem _ = _
    rw [hmem, h16]
  · show loadWord c.mem _ = _
    rw [hmem, h24]
  · show (loadWord c.mem _).truncate 16 = _
    rw [hmem, h32]
  · simp only [Cpu.setReg_of_ne _ _ hr]

end LunOS.X86
