import LunOS.Console.Kvsprintf

/-!
# What `kvsprintf` prints

A format is made of pieces: literal characters, `%%`, conversions and unknown specifiers.

- `Piece.format`, `Piece.render`: what a piece looks like in the format and in the output.
- `Printed orig t p`: `t` was printed into a buffer that held `orig`.
- `Writes`: one piece is printed, or the buffer has no room for it.
- `kvsprintf_renders`: the output is the concatenation of what the pieces render to.
-/

namespace LunOS.Console
open LunOS.Buffers LunOS.Memory LunOS.Klib List

/-! ## Pieces -/

/-- Memory holds the string `s` at an address. -/
def HoldsAt (m : Mem) (a : BitVec 64) (s : CString) : Prop :=
  0 ∉ s ∧ (∀ i c, s[i]? = some c → m (a.toNat + i) = c) ∧ m (a.toNat + s.length) = 0

/-- How a conversion is written. -/
def Conversion.format : Conversion → CString
  | .d => [37, 100]
  | .s => [37, 115]
  | .c => [37, 99]
  | .p => [37, 112]
  | .x => [37, 120]
  | .u => [37, 117]
  | .lu => [37, 108, 117]
  | .lx => [37, 108, 120]

/-- What a conversion prints for an argument; `s` is the string at this address. -/
def Conversion.render (arg : BitVec 64) (s : CString) : Conversion → CString
  | .d => decimal (arg.setWidth 32).toInt
  | .s => s
  | .c => [UInt8.ofNat arg.toNat]
  | .p => if arg = 0 then [48, 120, 48] else numeral 16 arg.toNat
  | .x => numeral 16 (unsignedArg arg).toNat
  | .u => numeral 10 (unsignedArg arg).toNat
  | .lu => numeral 10 arg.toNat
  | .lx => numeral 16 arg.toNat

/-- An argument that a conversion can print. -/
def Conversion.Matches (m : Mem) (arg : BitVec 64) (s : CString) : Conversion → Prop
  | .d => arg.setWidth 32 ≠ BitVec.intMin 32
  | .s => arg ≠ 0 ∧ HoldsAt m arg s
  | _ => True

/-- A piece of a format: plain characters or a conversion. -/
inductive Piece
  | literal (c : UInt8)
  | percent
  | conversion (conv : Conversion) (arg : BitVec 64) (s : CString)
  | unknown (c : UInt8)
  | unknownLong (c : UInt8)

namespace Piece

/-- The piece as it stands in the format. -/
def format : Piece → CString
  | literal c => [c]
  | percent => [37, 37]
  | conversion conv _ _ => conv.format
  | unknown c => [37, c]
  | unknownLong c => [37, 108, c]

/-- What is printed for the piece. -/
def render : Piece → CString
  | literal c => [c]
  | percent => [37]
  | conversion conv arg s => conv.render arg s
  | unknown c => [37, c]
  | unknownLong c => [37, 108, c]

/-- The arguments that a piece takes. -/
def args : Piece → List (BitVec 64)
  | conversion _ arg _ => [arg]
  | _ => []

/-- A literal is neither `%` nor the terminator, and an unknown letter is none of the known ones. -/
def Shaped : Piece → Prop
  | literal c => c ≠ 0 ∧ c ≠ 37
  | percent => True
  | conversion _ _ _ => True
  | unknown c => c ≠ 0 ∧ c ≠ 37 ∧ c ≠ 108 ∧ conversionOf c = none
  | unknownLong c => c ≠ 0 ∧ longConversionOf c = none

/-- The argument of a conversion is one that can be printed. -/
def Valid (m : Mem) : Piece → Prop
  | conversion conv arg s => conv.Matches m arg s
  | piece => piece.Shaped

/-- The branch of the loop that handles a piece. -/
def run (env : Env) (p : Printer) : Piece → Except Object (Bool × Printer)
  | literal c => bufferSafeWriteCh p c
  | percent => bufferSafeWriteCh p 37
  | conversion conv _ _ => print env conv p
  | unknown c => printUnknown c p
  | unknownLong c => printUnknownLong c p

/-- A valid piece has a good form. -/
lemma Valid.shaped {m : Mem} {piece : Piece} (h : piece.Valid m) : piece.Shaped := by
  cases piece with
  | conversion conv arg s => exact trivial
  | literal c => exact h
  | percent => exact h
  | unknown c => exact h
  | unknownLong c => exact h

end Piece

variable {piece : Piece} {env : Env} {p : Printer} {conv : Conversion} {r₂ : CString}
  {args : ℕ → BitVec 64}

lemma printSpecifier_conversion {c : UInt8} (h : conversionOf c = some conv) :
    printSpecifier env c p = print env conv p := by
  unfold printSpecifier
  rw [h]

lemma printLongSpecifier_conversion {c : UInt8} (h : longConversionOf c = some conv) :
    printLongSpecifier env c p = print env conv p := by
  unfold printLongSpecifier
  rw [h]

/-- The loop reads one piece and goes on behind it. -/
lemma formatLoop_piece (h : piece.Shaped) (format : List UInt8) :
    formatLoop env (piece.format ++ format) p =
      andThen (piece.run env p) (formatLoop env format) := by
  cases piece with
  | literal c => exact formatLoop_literal h.1 h.2
  | percent => exact formatLoop_percent
  | conversion conv arg s =>
    have hshort : ∀ c, c ≠ 37 → c ≠ 108 → conversionOf c = some conv →
        formatLoop env (37 :: c :: format) p =
          andThen (print env conv p) (formatLoop env format) := by
      intro c hc hl hconv
      rw [formatLoop_specifier hc hl, printSpecifier_conversion hconv]
    have hlong : ∀ c, longConversionOf c = some conv →
        formatLoop env (37 :: 108 :: c :: format) p =
          andThen (print env conv p) (formatLoop env format) := by
      intro c hconv
      rw [formatLoop_long, printLongSpecifier_conversion hconv]
    cases conv with
    | lu => exact hlong 117 rfl
    | lx => exact hlong 120 rfl
    | d => exact hshort 100 (by decide) (by decide) rfl
    | s => exact hshort 115 (by decide) (by decide) rfl
    | c => exact hshort 99 (by decide) (by decide) rfl
    | p => exact hshort 112 (by decide) (by decide) rfl
    | x => exact hshort 120 (by decide) (by decide) rfl
    | u => exact hshort 117 (by decide) (by decide) rfl
  | unknown c =>
    obtain ⟨-, hc, hl, hnone⟩ := h
    refine (formatLoop_specifier hc hl).trans ?_
    unfold printSpecifier
    rw [hnone]
    rfl
  | unknownLong c =>
    refine formatLoop_long.trans ?_
    unfold printLongSpecifier
    rw [h.2]
    rfl

/-- The pieces are printed before what stands behind them. -/
lemma formatLoop_pieces {ps : List Piece} (h : ∀ piece ∈ ps, piece.Shaped) (rest : List UInt8)
    (p : Printer) : formatLoop env (ps.flatMap Piece.format ++ rest) p =
      andThen (formatLoop env (ps.flatMap Piece.format ++ [0]) p) (formatLoop env rest) := by
  induction ps generalizing p with
  | nil => rw [flatMap_nil, nil_append, nil_append, formatLoop_end, andThen_ok]
  | cons piece ps ih =>
    obtain ⟨hpiece, hps⟩ := forall_mem_cons.mp h
    rw [flatMap_cons, append_assoc, append_assoc, formatLoop_piece hpiece,
      formatLoop_piece hpiece, andThen_assoc]
    exact congrArg _ (funext (ih hps))

/-! ## Printing -/

/-- The buffer begins with `t`, which was printed, and goes on as it was. -/
structure Printed (orig t : CString) (p : Printer) : Prop where
  size : orig.length = kprintfBufSize
  buf : p.buf = t ++ orig.drop t.length
  len : p.len = t.length
  fits : t.length ≤ kprintfBufSize

/-- `r` is printed behind `t`, or there is no room; the last byte is not used by everything. -/
def Writes (orig t r : CString) (args : ℕ → BitVec 64)
    (result : Except Object (Bool × Printer)) : Prop :=
  ∃ ok p, result = .ok (ok, p) ∧ (ok = true → Printed orig (t ++ r) p ∧ p.args = args) ∧
    (t.length + r.length < kprintfBufSize → ok = true)

/-- The bytes of a string, and its terminator. -/
def Reads (s : ℕ → Except Object UInt8) (r : CString) : Prop :=
  (∀ i c, r[i]? = some c → s i = .ok c ∧ c ≠ 0) ∧ s r.length = .ok 0

variable {env : Env} {orig t r : CString} {p : Printer}

/-- A string in an array. -/
lemma reads_inArray (h0 : 0 ∉ r) (rest : List UInt8) :
    Reads (inArray (r ++ 0 :: rest)) r := by
  refine ⟨fun i c hc => ⟨?_, ?_⟩, read_append _ _ _⟩
  · apply read_of_getElem?
    rw [List.getElem?_append_left (List.getElem?_eq_some_iff.mp hc).1]
    exact hc
  · exact ne_of_mem_of_not_mem (mem_of_getElem? hc) h0

/-- A string in memory. -/
lemma HoldsAt.reads {m : Mem} {a : BitVec 64} (h : HoldsAt m a r) : Reads (inMemory m a) r := by
  obtain ⟨h0, hbytes, hend⟩ := h
  refine ⟨fun i c hc => ⟨?_, ?_⟩, ?_⟩
  · exact congrArg Except.ok (hbytes i c hc)
  · exact ne_of_mem_of_not_mem (mem_of_getElem? hc) h0
  · exact congrArg Except.ok hend

/-- One byte more. -/
lemma Printed.write (h : Printed orig t p) (hroom : t.length < kprintfBufSize) (c : UInt8) :
    ∃ buf, Buffers.write Object.buf p.buf p.len c = .ok buf ∧
      Printed orig (t ++ [c]) { p with buf := buf, len := p.len + 1 } := by
  have hdrop := drop_eq_getElem_cons (l := orig) (i := t.length) (by rw [h.size]; exact hroom)
  refine ⟨t ++ c :: orig.drop (t.length + 1), ?_, h.size, ?_, ?_, ?_⟩
  · rw [h.buf, h.len, hdrop]
    exact write_append _ _ _ _
  · simp
  · rw [length_append, length_singleton, h.len]
  · rw [length_append, length_singleton]
    omega

/-- `BUFFER_SAFE_WRITE_CH`. -/
lemma writeCh_writes (h : Printed orig t p) (c : UInt8) :
    Writes orig t [c] p.args (bufferSafeWriteCh p c) := by
  unfold bufferSafeWriteCh
  rw [h.len]
  by_cases hroom : t.length < kprintfBufSize
  · obtain ⟨buf, hbuf, hprinted⟩ := h.write hroom c
    rw [h.len] at hbuf hprinted
    rw [if_pos hroom, hbuf, ok_bind]
    exact ⟨true, _, rfl, fun _ => ⟨hprinted, rfl⟩, fun _ => rfl⟩
  · rw [if_neg hroom]
    refine ⟨false, p, rfl, fun hfalse => absurd hfalse (by decide), fun hlen => ?_⟩
    exact absurd hlen (by omega)

/-- The loop of `BUFFER_SAFE_WRITE_STR` with room for `turns` bytes, where `r₁` is written. -/
lemma writeStrLoop_printed {s : ℕ → Except Object UInt8} (r₁ : CString)
    (hreads : Reads s (r₁ ++ r₂)) {turns : ℕ} (h : Printed orig (t ++ r₁) p)
    (hturns : turns = kprintfBufSize - 1 - (t ++ r₁).length) :
    ∃ p', writeStrLoop s turns r₁.length p = .ok (r₁.length + min turns r₂.length, p') ∧
      Printed orig (t ++ r₁ ++ r₂.take turns) p' ∧ p'.args = p.args := by
  induction turns generalizing r₁ r₂ p with
  | zero =>
    obtain ⟨c, hc⟩ : ∃ c, s r₁.length = .ok c := by
      cases r₂ with
      | nil =>
        rw [append_nil] at hreads
        exact ⟨0, hreads.2⟩
      | cons c r₂ => exact ⟨c, (hreads.1 r₁.length c (by simp)).1⟩
    refine ⟨p, ?_, ?_, rfl⟩
    · rw [writeStrLoop, hc, Nat.zero_min]
      rfl
    · rw [take_zero, append_nil]
      exact h
  | succ turns ih =>
    cases r₂ with
    | nil =>
      rw [append_nil] at hreads
      refine ⟨p, ?_, ?_, rfl⟩
      · rw [writeStrLoop, hreads.2]
        rfl
      · rw [take_nil, append_nil]
        exact h
    | cons c r₂ =>
      -- `c` goes from what is left to what is printed
      obtain ⟨hread, hc⟩ := hreads.1 r₁.length c (by simp)
      have hroom : (t ++ r₁).length < kprintfBufSize := by
        unfold kprintfBufSize at hturns ⊢
        omega
      obtain ⟨buf, hbuf, hprinted⟩ := h.write hroom c
      rw [append_assoc t r₁ [c]] at hprinted
      have hmove : r₁ ++ c :: r₂ = (r₁ ++ [c]) ++ r₂ := by simp
      have hlength : r₁.length + 1 = (r₁ ++ [c]).length := by simp
      have hturns' : turns = kprintfBufSize - 1 - (t ++ (r₁ ++ [c])).length := by
        rw [length_append, ← hlength]
        rw [length_append] at hturns
        omega
      rw [hmove] at hreads
      obtain ⟨p', hloop, hprinted', hargs⟩ := ih _ hreads hprinted hturns'
      refine ⟨p', ?_, ?_, hargs⟩
      · rw [writeStrLoop, hread, ok_bind, if_neg hc, hbuf, ok_bind, hlength, hloop, ← hlength,
          length_cons, Nat.succ_min_succ, Nat.add_assoc, Nat.add_comm 1]
      · rw [take_succ_cons]
        simpa using hprinted'

/-- `BUFFER_SAFE_WRITE_STR`. -/
lemma writeStr_writes (h : Printed orig t p) {s : ℕ → Except Object UInt8} (hreads : Reads s r) :
    Writes orig t r p.args (bufferSafeWriteStr p s) := by
  obtain ⟨p', hloop, hprinted, hargs⟩ := writeStrLoop_printed [] hreads
    (p := p) (by rw [append_nil]; exact h) (by rw [append_nil])
  rw [length_nil, Nat.zero_add, ← h.len] at hloop
  rw [append_nil, ← h.len] at hprinted
  unfold bufferSafeWriteStr
  rw [hloop, ok_bind]
  simp only
  by_cases hall : r.length ≤ kprintfBufSize - 1 - p.len
  · rw [min_eq_right hall, hreads.2, ok_bind]
    rw [take_of_length_le hall] at hprinted
    exact ⟨true, p', rfl, fun _ => ⟨hprinted, hargs⟩, fun _ => rfl⟩
  · -- the loop stopped at a byte of the string
    have hstop : kprintfBufSize - 1 - p.len < r.length := by omega
    obtain ⟨hread, hc⟩ := hreads.1 _ _ (List.getElem?_eq_getElem hstop)
    have hlen : kprintfBufSize - 1 ≤ p'.len := by
      rw [hprinted.len, length_append, length_take, ← h.len]
      omega
    rw [min_eq_left (by omega), hread, ok_bind]
    refine ⟨false, p', ?_, fun hfalse => absurd hfalse (by decide), fun hroom => ?_⟩
    · have hfull : r[kprintfBufSize - 1 - p.len] ≠ 0 ∧ kprintfBufSize - 1 ≤ p'.len := ⟨hc, hlen⟩
      rw [decide_eq_false (not_not.mpr hfull)]
      rfl
    · rw [← h.len] at hroom
      omega

/-- Two pieces of text, one behind the other. -/
lemma Writes.andThen {args' : ℕ → BitVec 64} {r₁ : CString} {first : Except Object (Bool × Printer)}
    {next : Printer → Except Object (Bool × Printer)} (h : Writes orig t r₁ args first)
    (hnext : ∀ p, Printed orig (t ++ r₁) p → p.args = args →
      Writes orig (t ++ r₁) r₂ args' (next p)) :
    Writes orig t (r₁ ++ r₂) args' (Console.andThen first next) := by
  obtain ⟨ok, p, hfirst, hprinted, hroom⟩ := h
  rw [hfirst]
  cases ok with
  | false =>
    refine ⟨false, p, rfl, fun hfalse => absurd hfalse (by decide), fun hlen => ?_⟩
    rw [length_append] at hlen
    exact hroom (by omega)
  | true =>
    obtain ⟨hp, hargs⟩ := hprinted rfl
    obtain ⟨ok, p', hsecond, hprinted', hroom'⟩ := hnext p hp hargs
    refine ⟨ok, p', hsecond, fun hok => ?_, fun hlen => hroom' ?_⟩
    · rw [← append_assoc]
      exact hprinted' hok
    · rw [length_append] at hlen ⊢
      omega

/-- One character behind a text. -/
lemma Writes.andThenCh {first : Except Object (Bool × Printer)} (h : Writes orig t r args first)
    (c : UInt8) :
    Writes orig t (r ++ [c]) args (Console.andThen first fun p => bufferSafeWriteCh p c) := by
  refine h.andThen fun p hp hargs => ?_
  rw [← hargs]
  exact writeCh_writes hp c

/-! ## Conversions -/

/-- The characters of `num_buf` from `r₁` on. -/
lemma writeChars_writes (r₁ : CString) (rest : List UInt8) (h : Printed orig t p) :
    Writes orig t r₂ p.args (writeChars (r₁ ++ (r₂ ++ rest)) r₂.length r₁.length p) := by
  induction r₂ generalizing r₁ t p with
  | nil =>
    refine ⟨true, p, rfl, fun _ => ⟨?_, rfl⟩, fun _ => rfl⟩
    rw [append_nil]
    exact h
  | cons c r₂ ih =>
    have hread : read Object.str (r₁ ++ (c :: r₂ ++ rest)) r₁.length = .ok c := read_append _ _ _
    have hmove : r₁ ++ (c :: r₂ ++ rest) = (r₁ ++ [c]) ++ (r₂ ++ rest) := by simp
    have hlength : r₁.length + 1 = (r₁ ++ [c]).length := by simp
    rw [length_cons, writeChars, hread, ok_bind]
    refine (writeCh_writes h c).andThen fun p' hp' hargs => ?_
    rw [hmove, hlength, ← hargs]
    exact ih _ hp'

lemma env_array_length (env : Env) (p : Printer) (n : ℕ) : (env.array p n).length = n := by
  unfold Env.array
  rw [length_map, length_range]

/-- A number as the string in its array. -/
lemma writeNumber_writes (h : Printed orig t p) (h0 : 0 ∉ r) {n : ℕ} {rest : List UInt8}
    {number : Except Object (ℕ × List UInt8)}
    (hnumber : number = .ok (n, r ++ 0 :: rest)) :
    Writes orig t r p.args (writeNumber p number) := by
  rw [hnumber]
  exact writeStr_writes h (reads_inArray h0 rest)

lemma zero_notMem_numeral {b : ℕ} (hb : 2 ≤ b) (hb' : b ≤ 16) (n : ℕ) : 0 ∉ numeral b n := by
  unfold numeral Numerals.numeral
  split_ifs
  · decide
  · rw [mem_reverse]
    exact zero_notMem_digits hb hb' n

/-- Hexadecimal numbers. -/
lemma hex_writes (h : Printed orig t p) (val : BitVec 64) :
    Writes orig t (numeral 16 val.toNat) p.args
      (writeNumber p (ui64ToHexStr val (env.array p maxHexDigits))) := by
  have hlen := hexNumeral_length_le val
  refine writeNumber_writes h (zero_notMem_numeral (by omega) (by omega) _)
    (ui64ToHexStr_eq ?_)
  rw [env_array_length]
  unfold maxHexDigits
  omega

/-- Unsigned numbers. -/
lemma ul_writes (h : Printed orig t p) (val : BitVec 64)
    {n : ℕ} (hn : maxIntDigits ≤ n) :
    Writes orig t (numeral 10 val.toNat) p.args (writeNumber p (ulToStr val (env.array p n))) := by
  have hlen := decNumeral_length_le val.isLt
  refine writeNumber_writes h (zero_notMem_numeral (by omega) (by omega) _) (ulToStr_eq ?_)
  rw [env_array_length]
  unfold maxIntDigits at hn
  omega

/-- `%d`, for the least `int` as well. -/
lemma int_writes (h : Printed orig t p) (arg : BitVec 64) :
    Writes orig t (itoaText (arg.setWidth 32)) p.args (convert env p arg .d) := by
  have hlen := itoaText_length_le (arg.setWidth 32)
  have hroom : (itoaText (arg.setWidth 32)).length < (env.array p maxIntDigits).length := by
    rw [env_array_length]
    unfold maxIntDigits
    omega
  unfold convert
  simp only
  rw [itoa_eq hroom (by omega), ok_bind]
  exact writeChars_writes [] _ h

/-- A conversion is rendered. -/
lemma convert_writes (env : Env) (h : Printed orig t p) {arg : BitVec 64} {s : CString}
    (hmatch : conv.Matches env.mem arg s) :
    Writes orig t (conv.render arg s) p.args (convert env p arg conv) := by
  cases conv with
  | d =>
    have htext : itoaText (arg.setWidth 32) = decimal (arg.setWidth 32).toInt := if_neg hmatch
    unfold Conversion.render
    rw [← htext]
    exact int_writes h arg
  | s => exact writeStr_writes h hmatch.2.reads
  | c => exact writeCh_writes h _
  | p =>
    unfold Conversion.render convert
    by_cases harg : arg = 0
    · simp only [if_pos harg]
      exact writeStr_writes h (reads_inArray (r := [48, 120, 48]) (by decide) [])
    · simp only [if_neg harg]
      exact hex_writes h arg
  | x => exact hex_writes h _
  | u => exact ul_writes h _ le_rfl
  | lu => exact ul_writes h _ (by decide)
  | lx => exact hex_writes h _

/-! ## The whole format -/

/-- The arguments begin with these. -/
def Supplies (args : ℕ → BitVec 64) (ws : List (BitVec 64)) : Prop :=
  ∀ i w, ws[i]? = some w → args i = w

/-- One piece, with its argument. -/
lemma Piece.run_writes (h : Printed orig t p) (hvalid : piece.Valid env.mem)
    (hargs : Supplies p.args piece.args) :
    Writes orig t piece.render (fun i => p.args (i + piece.args.length)) (piece.run env p) := by
  cases piece with
  | literal c => exact writeCh_writes h c
  | percent => exact writeCh_writes h 37
  | conversion conv arg s =>
    have harg : p.args 0 = arg := hargs 0 arg rfl
    have hrest : Printed orig t { p with args := fun i => p.args (i + 1) } :=
      ⟨h.size, h.buf, h.len, h.fits⟩
    have hconvert := convert_writes env hrest hvalid
    unfold Piece.run print Printer.vaArg
    simp only
    rw [harg]
    exact hconvert
  | unknown c =>
    have hfirst := writeCh_writes h 37
    exact hfirst.andThenCh c
  | unknownLong c =>
    have hfirst := writeStr_writes h (reads_inArray (r := [37, 108]) (by decide) [])
    exact hfirst.andThenCh c

lemma Supplies.append {ws ws' : List (BitVec 64)} (h : Supplies args (ws ++ ws')) :
    Supplies args ws ∧ Supplies (fun i => args (i + ws.length)) ws' := by
  constructor
  · intro i w hw
    apply h
    rw [List.getElem?_append_left (List.getElem?_eq_some_iff.mp hw).1]
    exact hw
  · intro i w hw
    apply h
    rw [List.getElem?_append_right (by omega), Nat.add_sub_cancel]
    exact hw

/-- The branch for a piece writes the text `r`, wherever the loop is. -/
def WritesPiece (env : Env) (orig : CString) (piece : Piece) (r : CString) : Prop :=
  ∀ t p, Printed orig t p → Supplies p.args piece.args →
    Writes orig t r (fun i => p.args (i + piece.args.length)) (piece.run env p)

/-- The loop over all pieces, with their texts. -/
lemma formatLoop_writes {text : Piece → CString} {ps : List Piece}
    (hshaped : ∀ piece ∈ ps, piece.Shaped)
    (htext : ∀ piece ∈ ps, WritesPiece env orig piece (text piece)) (h : Printed orig t p)
    (hargs : Supplies p.args (ps.flatMap Piece.args)) :
    ∃ args', Writes orig t (ps.flatMap text) args'
      (formatLoop env (ps.flatMap Piece.format ++ [0]) p) := by
  induction ps generalizing t p with
  | nil =>
    refine ⟨p.args, true, p, formatLoop_end env p [], fun _ => ⟨?_, rfl⟩, fun _ => rfl⟩
    rw [flatMap_nil, append_nil]
    exact h
  | cons piece ps ih =>
    rw [flatMap_cons] at hargs
    obtain ⟨hfirst, hrest⟩ := hargs.append
    obtain ⟨hpiece, hps⟩ := forall_mem_cons.mp hshaped
    obtain ⟨hwrites, hrests⟩ := forall_mem_cons.mp htext
    have hrun := hwrites t p h hfirst
    rw [flatMap_cons, flatMap_cons, append_assoc, formatLoop_piece hpiece]
    -- the arguments that are left at the end depend on where the loop stops
    obtain ⟨ok, p', hresult, hprinted, hroom⟩ := hrun
    cases ok with
    | false =>
      refine ⟨p.args, false, p', by rw [hresult]; rfl, fun hfalse => absurd hfalse (by decide),
        fun hlen => ?_⟩
      rw [length_append] at hlen
      exact hroom (by omega)
    | true =>
      obtain ⟨hp', hargs'⟩ := hprinted rfl
      obtain ⟨args', ok, p'', hloop, hprinted', hroom'⟩ := ih hps hrests hp' (by rw [hargs']; exact hrest)
      refine ⟨args', ok, p'', by rw [hresult, andThen_ok, hloop], fun hok => ?_, fun hlen => ?_⟩
      · rw [← append_assoc]
        exact hprinted' hok
      · apply hroom'
        rw [length_append] at hlen ⊢
        omega

/-- `kvsprintf` prints what the pieces render to. All accesses are inside of their objects; with at
most 1023 characters the result is their number and they are in the buffer, with more than 1024 it
is `-EOVERFLOW`. -/
theorem kvsprintf_renders (env : Env) {ps : List Piece}
    (hvalid : ∀ piece ∈ ps, piece.Valid env.mem) {args : ℕ → BitVec 64}
    (hargs : Supplies args (ps.flatMap Piece.args)) {buf : List UInt8}
    (hbuf : buf.length = kprintfBufSize) :
    ∃ ret buf', kvsprintf env (ps.flatMap Piece.format ++ [0]) args buf = .ok (ret, buf') ∧
      ((ps.flatMap Piece.render).length ≤ 1023 →
        ret = (ps.flatMap Piece.render).length ∧
          buf' = ps.flatMap Piece.render ++ buf.drop (ps.flatMap Piece.render).length) ∧
      (1024 < (ps.flatMap Piece.render).length → ret = -eoverflow) := by
  have hstart : Printed buf [] ⟨buf, 0, args⟩ := ⟨hbuf, rfl, rfl, Nat.zero_le _⟩
  obtain ⟨args', ok, p, hloop, hprinted, hroom⟩ := formatLoop_writes
    (fun piece hp => (hvalid piece hp).shaped)
    (fun piece hp t p h => Piece.run_writes h (hvalid piece hp)) hstart hargs
  refine ⟨if ok then p.len else -eoverflow, p.buf, ?_, fun hshort => ?_, fun hlong => ?_⟩
  · unfold kvsprintf
    rw [hloop]
    rfl
  · have hok : ok = true := hroom (by rw [length_nil]; unfold kprintfBufSize; omega)
    obtain ⟨hp, -⟩ := hprinted hok
    rw [if_pos hok, hp.len]
    exact ⟨rfl, hp.buf⟩
  · cases ok with
    | false => rfl
    | true =>
      have hfits := (hprinted rfl).1.fits
      unfold kprintfBufSize at hfits
      rw [nil_append] at hfits
      omega

/-- `"n=%d%%%q"` with `-42`. -/
def sampleFormat : List Piece :=
  [.literal 110, .literal 61, .conversion .d (-42) [], .percent, .unknown 113]

theorem kvsprintf_renders_sample :
    sampleFormat.flatMap Piece.render = [110, 61, 45, 52, 50, 37, 37, 113] ∧
    ∃ buf', kvsprintf ⟨fun _ => 0, fun _ _ => 0⟩ (sampleFormat.flatMap Piece.format ++ [0])
      (fun _ => -42) (List.replicate 1024 7) = .ok (8, buf') := by
  have htext : sampleFormat.flatMap Piece.render = [110, 61, 45, 52, 50, 37, 37, 113] := by decide
  have hvalid : ∀ piece ∈ sampleFormat, piece.Valid fun _ => 0 := by
    unfold sampleFormat
    simp only [forall_mem_cons, Piece.Valid, Piece.Shaped, Conversion.Matches,
      not_mem_nil, false_implies, implies_true]
    decide
  have hargs : Supplies (fun _ => -42) (sampleFormat.flatMap Piece.args) := by
    intro i w hw
    exact (mem_singleton.mp (mem_of_getElem? hw)).symm
  obtain ⟨ret, buf', hrun, hshort, -⟩ := kvsprintf_renders ⟨fun _ => 0, fun _ _ => 0⟩ hvalid hargs
    (length_replicate (a := 7))
  rw [htext] at hshort
  rw [(hshort (by decide)).1] at hrun
  exact ⟨htext, buf', hrun⟩

end LunOS.Console
