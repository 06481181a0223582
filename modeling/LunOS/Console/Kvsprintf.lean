import LunOS.Klib.Numbers

/-!
# `kvsprintf`

The format interpreter of `klogging.c` with the macros of `bufferutils.h`. The format is the object
with its bytes and its terminator, and a position in it is what is left of the object from there on:
nothing is left behind the terminator. Strings that `%s` prints are read from memory.
-/

namespace LunOS.Console
open LunOS.Buffers LunOS.Memory LunOS.Klib

/-- `KPRINTF_BUF_SIZE` -/
def kprintfBufSize : ℕ := 1024

/-- `MAX_INT_DIGITS` -/
def maxIntDigits : ℕ := 21

/-- `MAX_HEX_DIGITS` -/
def maxHexDigits : ℕ := 17

/-- `EOVERFLOW` -/
def eoverflow : ℤ := 75

/-- `buf`, `len` and the arguments that were not yet taken, one word each. -/
structure Printer where
  buf : List UInt8
  len : ℕ
  args : ℕ → BitVec 64

/-- Memory, and what a local array holds before it is written to, which may be different each time:
for each `len` at which it is declared and for each index. -/
structure Env where
  mem : Mem
  stack : ℕ → ℕ → UInt8

/-- A local array of `n` bytes. -/
def Env.array (env : Env) (p : Printer) (n : ℕ) : List UInt8 := (List.range n).map (env.stack p.len)

/-- `va_arg` -/
def Printer.vaArg (p : Printer) : BitVec 64 × Printer :=
  (p.args 0, { p with args := fun i => p.args (i + 1) })

/-! ## Writing -/

/-- `BUFFER_SAFE_WRITE_CH` -/
def bufferSafeWriteCh (p : Printer) (ch : UInt8) : Except Object (Bool × Printer) :=
  if p.len < kprintfBufSize then do
    let buf ← write .buf p.buf p.len ch
    return (true, { p with buf := buf, len := p.len + 1 })
  else .ok (false, p)

/-- `while(*s && (len) < (max)-1) (buf)[(len)++] = *s++;` with `turns` turns left until `len` is
`max - 1`: where `s` ends up. -/
def writeStrLoop (s : ℕ → Except Object UInt8) : ℕ → ℕ → Printer → Except Object (ℕ × Printer)
  | 0, i, p => do
    -- `*s` is read before the room is looked at
    let _ ← s i
    return (i, p)
  | turns + 1, i, p => do
    let c ← s i
    if c = 0 then .ok (i, p)
    else do
      let buf ← write .buf p.buf p.len c
      writeStrLoop s turns (i + 1) { p with buf := buf, len := p.len + 1 }

/-- `BUFFER_SAFE_WRITE_STR` -/
def bufferSafeWriteStr (p : Printer) (s : ℕ → Except Object UInt8) :
    Except Object (Bool × Printer) := do
  let (i, p) ← writeStrLoop s (kprintfBufSize - 1 - p.len) 0 p
  let c ← s i
  -- the string goes on, and the buffer is full up to its last byte
  return (decide ¬(c ≠ 0 ∧ kprintfBufSize - 1 ≤ p.len), p)

/-- The bytes of a local array. -/
def inArray (str : List UInt8) (i : ℕ) : Except Object UInt8 := read .str str i

/-- The bytes at an address. -/
def inMemory (m : Mem) (a : BitVec 64) (i : ℕ) : Except Object UInt8 := .ok (m (a.toNat + i))

/-- `if(!first) return -EOVERFLOW;` and what follows. -/
def andThen (first : Except Object (Bool × Printer))
    (next : Printer → Except Object (Bool × Printer)) : Except Object (Bool × Printer) := do
  let (ok, p) ← first
  if ok then next p else .ok (false, p)

/-! ## Conversions -/

/-- The cases of the `switch` that take an argument. -/
inductive Conversion
  | d
  | s
  | c
  | p
  | x
  | u
  | lu
  | lx
deriving DecidableEq

/-- `for(int i = 0; i < int_str_len; i++)` over the characters of `num_buf`. -/
def writeChars (numBuf : List UInt8) : ℕ → ℕ → Printer → Except Object (Bool × Printer)
  | 0, _, p => .ok (true, p)
  | n + 1, i, p => do
    let c ← read .str numBuf i
    andThen (bufferSafeWriteCh p c) fun p => writeChars numBuf n (i + 1) p

/-- A number that is printed as the string in its array. -/
def writeNumber (p : Printer) (number : Except Object (ℕ × List UInt8)) :
    Except Object (Bool × Printer) := do
  let (_, str) ← number
  bufferSafeWriteStr p (inArray str)

/-- The 32 bits of an `unsigned int` argument. -/
def unsignedArg (arg : BitVec 64) : BitVec 64 := (arg.setWidth 32).setWidth 64

/-- The body of a case, with the argument that it took. -/
def convert (env : Env) (p : Printer) (arg : BitVec 64) : Conversion →
    Except Object (Bool × Printer)
  | .d => do
    let (intStrLen, numBuf) ← itoa (arg.setWidth 32) (env.array p maxIntDigits)
    writeChars numBuf intStrLen 0 p
  | .s => bufferSafeWriteStr p (inMemory env.mem arg)
  | .c => bufferSafeWriteCh p (UInt8.ofNat arg.toNat)
  | .p =>
    -- only `NULL` is printed with "0x"
    if arg = 0 then bufferSafeWriteStr p (inArray [48, 120, 48, 0])
    else writeNumber p (ui64ToHexStr arg (env.array p maxHexDigits))
  | .x => writeNumber p (ui64ToHexStr (unsignedArg arg) (env.array p maxHexDigits))
  | .u => writeNumber p (ulToStr (unsignedArg arg) (env.array p maxIntDigits))
  | .lu => writeNumber p (ulToStr arg (env.array p 32))
  | .lx => writeNumber p (ui64ToHexStr arg (env.array p maxHexDigits))

/-- One conversion; true when the buffer is full. -/
def print (env : Env) (conv : Conversion) (p : Printer) : Except Object (Bool × Printer) :=
  let (arg, p) := p.vaArg
  convert env p arg conv

/-- The letter behind `%`. -/
def conversionOf (ch : UInt8) : Option Conversion :=
  if ch = 100 then some .d
  else if ch = 115 then some .s
  else if ch = 99 then some .c
  else if ch = 112 then some .p
  else if ch = 120 then some .x
  else if ch = 117 then some .u
  else none

/-- The letter behind `%l`. -/
def longConversionOf (ch : UInt8) : Option Conversion :=
  if ch = 117 then some .lu
  else if ch = 120 then some .lx
  else none

/-- The default case. -/
def printUnknown (ch : UInt8) (p : Printer) : Except Object (Bool × Printer) :=
  andThen (bufferSafeWriteCh p 37) fun p => bufferSafeWriteCh p ch

/-- The end of the case `l`. -/
def printUnknownLong (ch : UInt8) (p : Printer) : Except Object (Bool × Printer) :=
  andThen (bufferSafeWriteStr p (inArray [37, 108, 0])) fun p => bufferSafeWriteCh p ch

/-- What stands behind `%`, if it is not `l`. -/
def printSpecifier (env : Env) (ch : UInt8) (p : Printer) : Except Object (Bool × Printer) :=
  match conversionOf ch with
  | some conv => print env conv p
  | none => printUnknown ch p

/-- What stands behind `%l`. -/
def printLongSpecifier (env : Env) (ch : UInt8) (p : Printer) : Except Object (Bool × Printer) :=
  match longConversionOf ch with
  | some conv => print env conv p
  | none => printUnknownLong ch p

/-! ## The format -/

/-- The `while` loop. The result says whether it ended at a terminator. -/
def formatLoop (env : Env) : List UInt8 → Printer → Except Object (Bool × Printer)
  | [], _ => .error .format
  | currCh :: format, p =>
    if currCh = 0 then .ok (true, p)
    else if currCh ≠ 37 then
      andThen (bufferSafeWriteCh p currCh) fun p => formatLoop env format p
    else
      -- the byte behind `%` is taken, the terminator as well
      match format with
      | [] => .error .format
      | spec :: format =>
        if spec = 37 then andThen (bufferSafeWriteCh p currCh) fun p => formatLoop env format p
        else if spec = 108 then
          -- and one more behind `%l`
          match format with
          | [] => .error .format
          | ch :: format => andThen (printLongSpecifier env ch p) fun p => formatLoop env format p
        else andThen (printSpecifier env spec p) fun p => formatLoop env format p

/-- The result and the buffer. -/
def kvsprintf (env : Env) (format : List UInt8) (args : ℕ → BitVec 64) (buf : List UInt8) :
    Except Object (ℤ × List UInt8) := do
  let (ok, p) ← formatLoop env format ⟨buf, 0, args⟩
  return (if ok then p.len else -eoverflow, p.buf)

/-! ## One step of the loop -/

variable {env : Env} {p : Printer} {format : List UInt8}

/-- The terminator ends the loop. -/
lemma formatLoop_end (env : Env) (p : Printer) (format : List UInt8) :
    formatLoop env (0 :: format) p = .ok (true, p) := by
  rw [formatLoop.eq_def]
  rfl

/-- An ordinary character. -/
lemma formatLoop_literal {c : UInt8} (h0 : c ≠ 0) (hc : c ≠ 37) : formatLoop env (c :: format) p =
    andThen (bufferSafeWriteCh p c) (formatLoop env format) := by
  rw [formatLoop.eq_def]
  simp only [if_neg h0, if_pos hc]

/-- The specifier `%%`. -/
lemma formatLoop_percent : formatLoop env (37 :: 37 :: format) p =
    andThen (bufferSafeWriteCh p 37) (formatLoop env format) := by
  rw [formatLoop.eq_def]
  rfl

/-- A specifier of two characters. -/
lemma formatLoop_long {c : UInt8} : formatLoop env (37 :: 108 :: c :: format) p =
    andThen (printLongSpecifier env c p) (formatLoop env format) := by
  rw [formatLoop.eq_def]
  rfl

/-- A specifier of one character. -/
lemma formatLoop_specifier {c : UInt8} (hc : c ≠ 37) (hl : c ≠ 108) :
    formatLoop env (37 :: c :: format) p =
      andThen (printSpecifier env c p) (formatLoop env format) := by
  rw [formatLoop.eq_def]
  simp only [if_neg hc, if_neg hl]
  rfl

lemma andThen_ok (p : Printer) (next : Printer → Except Object (Bool × Printer)) :
    andThen (.ok (true, p)) next = next p := rfl

lemma andThen_assoc (first : Except Object (Bool × Printer))
    (next last : Printer → Except Object (Bool × Printer)) :
    andThen (andThen first next) last = andThen first fun p => andThen (next p) last := by
  rcases first with e | ⟨ok, p⟩
  · rfl
  · cases ok <;> rfl

end LunOS.Console
