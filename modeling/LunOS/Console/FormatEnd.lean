import LunOS.Console.Rendering

/-!
# The end of the format

`kvsprintf` moves on behind the character that follows `%` or `%l` before it looks at it. Where this
is the terminator, the loop goes on behind it.

- `Piece.text`: what a piece prints for any argument, also for one that it cannot print properly.
- `exists_pieces`: every format is made of pieces, up to a specifier that its end cuts off.
- `kvsprintf_inside_format_iff`: the format is left exactly if it ends inside a specifier for which
  there is room behind the text of the pieces.
-/

namespace LunOS.Console
open LunOS.Buffers LunOS.Memory LunOS.Klib List

/-! ## The text of a piece -/

/-- The bytes from `a` on up to a terminator, at most `n`. -/
def bytesAt (m : Mem) : ℕ → ℕ → CString
  | _, 0 => []
  | a, n + 1 => if m a = 0 then [] else m a :: bytesAt m (a + 1) n

/-- What a conversion prints for any argument: the least `int` as well, and the bytes at any address,
of which a buffer can hold no more than its size. -/
def Conversion.text (m : Mem) (arg : BitVec 64) : Conversion → CString
  | .d => itoaText (arg.setWidth 32)
  | .s => bytesAt m arg.toNat kprintfBufSize
  | conv => conv.render arg []

/-- What a piece prints. -/
def Piece.text (m : Mem) : Piece → CString
  | conversion conv arg _ => conv.text m arg
  | piece => piece.render

/-- There is a terminator behind the bytes, or none among the first `n`. -/
lemma bytesAt_cases (m : Mem) (a n : ℕ) :
    ((∀ i c, (bytesAt m a n)[i]? = some c → m (a + i) = c ∧ c ≠ 0) ∧
      m (a + (bytesAt m a n).length) = 0) ∨
    (bytesAt m a n).length = n ∧ ∀ i < n, m (a + i) ≠ 0 := by
  induction n generalizing a with
  | zero => exact Or.inr ⟨rfl, fun i hi => absurd hi (Nat.not_lt_zero i)⟩
  | succ n ih =>
    unfold bytesAt
    by_cases hzero : m a = 0
    · rw [if_pos hzero]
      exact Or.inl ⟨fun i c hc => absurd hc (by simp), hzero⟩
    · rw [if_neg hzero, length_cons, ← Nat.add_assoc, Nat.add_right_comm]
      rcases ih (a + 1) with ⟨hbytes, hend⟩ | ⟨hlength, hbytes⟩
      · refine Or.inl ⟨fun i c hc => ?_, hend⟩
        cases i with
        | zero =>
          rw [List.getElem?_cons_zero, Option.some.injEq] at hc
          exact ⟨hc, hc ▸ hzero⟩
        | succ i =>
          rw [List.getElem?_cons_succ] at hc
          rw [← Nat.add_assoc, Nat.add_right_comm]
          exact hbytes i c hc
      · refine Or.inr ⟨by rw [hlength], fun i hi => ?_⟩
        cases i with
        | zero => exact hzero
        | succ i =>
          rw [← Nat.add_assoc, Nat.add_right_comm]
          exact hbytes i (Nat.lt_of_succ_lt_succ hi)

variable {env : Env} {orig t : CString} {p : Printer}

/-- The loop of `BUFFER_SAFE_WRITE_STR` over bytes without a terminator. -/
lemma writeStrLoop_endless {m : Mem} {a : BitVec 64} (turns i : ℕ) (h : Printed orig t p)
    (hturns : turns + t.length ≤ kprintfBufSize) (hbytes : ∀ j < i + turns, m (a.toNat + j) ≠ 0) :
    ∃ p', writeStrLoop (inMemory m a) turns i p = .ok (i + turns, p') ∧ p'.len = p.len + turns := by
  induction turns generalizing i t p with
  | zero => exact ⟨p, rfl, rfl⟩
  | succ turns ih =>
    obtain ⟨buf, hbuf, hprinted⟩ := h.write (by omega) (m (a.toNat + i))
    obtain ⟨p', hloop, hlen⟩ := ih (i + 1) hprinted
      (by rw [length_append, length_singleton]; omega) fun j hj => hbytes j (by omega)
    refine ⟨p', ?_, hlen.trans (Nat.add_right_comm _ _ _)⟩
    unfold writeStrLoop inMemory
    rw [ok_bind, if_neg (hbytes i (by omega)), hbuf, ok_bind]
    exact hloop.trans (by rw [Nat.add_right_comm, Nat.add_assoc])

/-- The bytes at any address, whether or not there is a terminator among them. -/
lemma writeStr_memory_writes (h : Printed orig t p) (m : Mem) (a : BitVec 64) :
    Writes orig t (bytesAt m a.toNat kprintfBufSize) p.args
      (bufferSafeWriteStr p (inMemory m a)) := by
  rcases bytesAt_cases m a.toNat kprintfBufSize with ⟨hbytes, hend⟩ | ⟨hlength, hbytes⟩
  · refine writeStr_writes h ⟨fun i c hc => ?_, congrArg Except.ok hend⟩
    exact ⟨congrArg Except.ok (hbytes i c hc).1, (hbytes i c hc).2⟩
  · -- the buffer is full before the bytes end
    have hfits := h.fits
    have hlen := h.len
    obtain ⟨p', hloop, hlen'⟩ := writeStrLoop_endless (kprintfBufSize - 1 - p.len) 0
      h (a := a) (m := m) (by unfold kprintfBufSize at hfits ⊢; omega) fun j hj =>
        hbytes j (by unfold kprintfBufSize at hj ⊢; omega)
    refine ⟨false, p', ?_, fun hfalse => absurd hfalse (by decide), fun hroom => ?_⟩
    · have hstop : m (a.toNat + (0 + (kprintfBufSize - 1 - p.len))) ≠ 0 ∧
          kprintfBufSize - 1 ≤ p'.len :=
        ⟨hbytes _ (by unfold kprintfBufSize; omega), by omega⟩
      unfold bufferSafeWriteStr
      rw [hloop, ok_bind]
      simp only [inMemory, ok_bind]
      rw [decide_eq_false (not_not.mpr hstop)]
      rfl
    · rw [hlength] at hroom
      omega

/-- A conversion prints its text. -/
lemma convert_writes_text (h : Printed orig t p) (arg : BitVec 64) (conv : Conversion) :
    Writes orig t (conv.text env.mem arg) p.args (convert env p arg conv) := by
  have hrender : ∀ conv : Conversion, conv.Matches env.mem arg [] →
      Writes orig t (conv.render arg []) p.args (convert env p arg conv) :=
    fun _ => convert_writes env h
  cases conv with
  | d => exact int_writes h arg
  | s => exact writeStr_memory_writes h env.mem arg
  | c => exact hrender .c trivial
  | p => exact hrender .p trivial
  | x => exact hrender .x trivial
  | u => exact hrender .u trivial
  | lu => exact hrender .lu trivial
  | lx => exact hrender .lx trivial

/-- A piece prints its text. -/
lemma Piece.writes_text {piece : Piece} (hshaped : piece.Shaped) :
    WritesPiece env orig piece (piece.text env.mem) := by
  intro t p h hargs
  have hrender : ∀ piece : Piece, piece.Valid env.mem → Supplies p.args piece.args →
      Writes orig t piece.render (fun i => p.args (i + piece.args.length)) (piece.run env p) :=
    fun _ => Piece.run_writes h
  cases piece with
  | conversion conv arg s =>
    have harg : p.args 0 = arg := hargs 0 arg rfl
    have hrest : Printed orig t { p with args := fun i => p.args (i + 1) } :=
      ⟨h.size, h.buf, h.len, h.fits⟩
    unfold Piece.run print Printer.vaArg
    simp only
    rw [harg]
    exact convert_writes_text hrest arg conv
  | literal c => exact hrender (.literal c) hshaped hargs
  | percent => exact hrender .percent hshaped hargs
  | unknown c => exact hrender (.unknown c) hshaped hargs
  | unknownLong c => exact hrender (.unknownLong c) hshaped hargs

/-! ## The pieces of a format -/

/-- A specifier that the end of the format cuts off. -/
def CutOff (tail : CString) : Prop := tail = [37] ∨ tail = [37, 108]

/-- The format is made of these pieces, with these arguments, and of the tail. -/
structure MadeOf (fmt : CString) (args : ℕ → BitVec 64) (ps : List Piece) (tail : CString) :
    Prop where
  format : fmt = ps.flatMap Piece.format ++ tail
  shaped : ∀ piece ∈ ps, piece.Shaped
  supplies : Supplies args (ps.flatMap Piece.args)

variable {args : ℕ → BitVec 64} {fmt tail : CString} {c : UInt8} {buf : List UInt8}

/-- One more piece in front. -/
lemma MadeOf.cons {ps : List Piece} {piece : Piece} (hshaped : piece.Shaped)
    (hargs : Supplies args piece.args)
    (h : MadeOf fmt (fun i => args (i + piece.args.length)) ps tail) :
    MadeOf (piece.format ++ fmt) args (piece :: ps) tail := by
  refine ⟨?_, forall_mem_cons.mpr ⟨hshaped, h.shaped⟩, fun i w hw => ?_⟩
  · rw [flatMap_cons, append_assoc, ← h.format]
  · rw [flatMap_cons, List.getElem?_append] at hw
    split at hw
    · exact hargs i w hw
    · have hrest := h.supplies _ w hw
      rwa [Nat.sub_add_cancel (by omega)] at hrest

lemma supplies_nil (args : ℕ → BitVec 64) : Supplies args [] :=
  fun i w hw => absurd hw (by simp)

lemma supplies_first (args : ℕ → BitVec 64) : Supplies args [args 0] := by
  intro i w hw
  obtain ⟨hi, hw⟩ := List.getElem?_eq_some_iff.mp hw
  obtain rfl : i = 0 := Nat.lt_one_iff.mp hi
  exact hw

lemma format_of_conversionOf {conv : Conversion} (h : conversionOf c = some conv) :
    conv.format = [37, c] := by
  unfold conversionOf at h
  split_ifs at h with hc hc hc hc hc hc <;> cases h <;> rw [hc] <;> rfl

lemma format_of_longConversionOf {conv : Conversion} (h : longConversionOf c = some conv) :
    conv.format = [37, 108, c] := by
  unfold longConversionOf at h
  split_ifs at h with hc hc <;> cases h <;> rw [hc] <;> rfl

/-- The piece that begins with `%` and a letter, with its argument. -/
lemma exists_specifier (h0 : c ≠ 0) (hl : c ≠ 108) (args : ℕ → BitVec 64) :
    ∃ piece : Piece, piece.format = [37, c] ∧ piece.Shaped ∧ Supplies args piece.args := by
  by_cases hc : c = 37
  · exact ⟨.percent, by rw [hc]; rfl, trivial, supplies_nil args⟩
  · cases hconv : conversionOf c with
    | none => exact ⟨.unknown c, rfl, ⟨h0, hc, hl, hconv⟩, supplies_nil args⟩
    | some conv =>
      exact ⟨.conversion conv (args 0) [], format_of_conversionOf hconv, trivial,
        supplies_first args⟩

/-- What `%l` and a character print. -/
lemma exists_longSpecifier (h0 : c ≠ 0) (args : ℕ → BitVec 64) :
    ∃ piece : Piece, piece.format = [37, 108, c] ∧ piece.Shaped ∧ Supplies args piece.args := by
  cases hconv : longConversionOf c with
  | none => exact ⟨.unknownLong c, rfl, ⟨h0, hconv⟩, supplies_nil args⟩
  | some conv =>
    exact ⟨.conversion conv (args 0) [], format_of_longConversionOf hconv, trivial,
      supplies_first args⟩

/-- Every format is made of pieces and ends with the last one or inside a specifier. -/
lemma exists_pieces : ∀ (fmt : CString) (args : ℕ → BitVec 64), 0 ∉ fmt →
    ∃ ps tail, MadeOf fmt args ps tail ∧ (tail = [] ∨ CutOff tail)
  | [], args, _ => ⟨[], [], ⟨rfl, forall_mem_nil _, supplies_nil args⟩, .inl rfl⟩
  | c :: fmt, args, h0 => by
    have hcut : ∀ {tail}, CutOff tail →
        ∃ ps tail', MadeOf tail args ps tail' ∧ (tail' = [] ∨ CutOff tail') := fun {tail} htail =>
      ⟨[], tail, ⟨rfl, forall_mem_nil _, supplies_nil args⟩, .inr htail⟩
    have hbehind : ∀ (piece : Piece) {rest : CString}, piece.Shaped → Supplies args piece.args →
        (∃ ps tail, MadeOf rest (fun i => args (i + piece.args.length)) ps tail ∧
          (tail = [] ∨ CutOff tail)) →
        ∃ ps tail, MadeOf (piece.format ++ rest) args ps tail ∧ (tail = [] ∨ CutOff tail) := by
      rintro piece rest hshaped hargs ⟨ps, tail, hmade, htail⟩
      exact ⟨_, tail, hmade.cons hshaped hargs, htail⟩
    by_cases hc : c = 37
    · subst hc
      match fmt with
      | [] => exact hcut (.inl rfl)
      | c :: fmt =>
        by_cases hl : c = 108
        · subst hl
          match fmt with
          | [] => exact hcut (.inr rfl)
          | c :: fmt =>
            obtain ⟨piece, hformat, hshaped, hargs⟩ :=
              exists_longSpecifier (c := c) (fun hc => h0 (by simp [hc])) args
            have hrest := hbehind _ hshaped hargs
              (exists_pieces fmt _ fun hmem => h0 (by simp [hmem]))
            rwa [hformat] at hrest
        · obtain ⟨piece, hformat, hshaped, hargs⟩ :=
            exists_specifier (c := c) (fun hc => h0 (by simp [hc])) hl args
          have hrest := hbehind _ hshaped hargs
            (exists_pieces fmt _ fun hmem => h0 (by simp [hmem]))
          rwa [hformat] at hrest
    · exact hbehind (.literal c) ⟨fun hzero => h0 (by simp [hzero]), hc⟩
        (supplies_nil args) (exists_pieces fmt _ fun hmem => h0 (by simp [hmem]))

/-! ## Behind the terminator -/

/-- A character for which there is room. -/
lemma writeCh_room (h : Printed orig t p) (hroom : t.length < kprintfBufSize) (c : UInt8) :
    ∃ p', bufferSafeWriteCh p c = .ok (true, p') ∧ Printed orig (t ++ [c]) p' := by
  obtain ⟨buf, hbuf, hprinted⟩ := h.write hroom c
  refine ⟨_, ?_, hprinted⟩
  unfold bufferSafeWriteCh
  rw [if_pos (by rw [h.len]; exact hroom), hbuf]
  rfl

/-- Too long a text overflows. -/
lemma Writes.full {r : CString} {result : Except Object (Bool × Printer)}
    (h : Writes orig t r args result) (hfull : ¬t.length + r.length ≤ kprintfBufSize) :
    ∃ p, result = .ok (false, p) := by
  obtain ⟨ok, p, hresult, hprinted, -⟩ := h
  cases ok with
  | false => exact ⟨p, hresult⟩
  | true =>
    have hfits := (hprinted rfl).1.fits
    rw [length_append] at hfits
    exact absurd hfits hfull

/-- `"%l"` is written. -/
lemma writeLong_writes (h : Printed orig t p) :
    Writes orig t [37, 108] p.args (bufferSafeWriteStr p (inArray [37, 108, 0])) :=
  writeStr_writes h (reads_inArray (r := [37, 108]) (by decide) [])

/-- `%` takes the terminator along. -/
lemma formatLoop_percent_end : formatLoop env [37, 0] p =
    andThen (printUnknown 0 p) (formatLoop env []) :=
  formatLoop_specifier (by decide) (by decide)

/-- So does `%l`. -/
lemma formatLoop_long_end : formatLoop env [37, 108, 0] p =
    andThen (printUnknownLong 0 p) (formatLoop env []) := formatLoop_long

/-- With room for the specifier and the terminator the loop goes on behind the format. -/
lemma formatLoop_cutOff_room (env : Env) (htail : CutOff tail) (h : Printed orig t p)
    (hroom : t.length + tail.length + 1 ≤ kprintfBufSize) :
    formatLoop env (tail ++ [0]) p = .error .format := by
  rcases htail with rfl | rfl
  · simp only [length_cons, length_nil] at hroom
    obtain ⟨p₁, hfirst, hp₁⟩ := writeCh_room h (by omega) 37
    obtain ⟨p₂, hsecond, -⟩ := writeCh_room hp₁ (by simp; omega) 0
    refine formatLoop_percent_end.trans ?_
    unfold printUnknown
    rw [hfirst, andThen_ok, hsecond]
    rfl
  · simp only [length_cons, length_nil] at hroom
    obtain ⟨ok, p₁, hfirst, hprinted, hok⟩ := writeLong_writes h
    obtain rfl := hok hroom
    obtain ⟨p₂, hsecond, -⟩ := writeCh_room (hprinted rfl).1 (by simp; omega) 0
    refine formatLoop_long_end.trans ?_
    unfold printUnknownLong
    rw [hfirst, andThen_ok, hsecond]
    rfl

/-- Without room the loop stops. -/
lemma formatLoop_cutOff_full (env : Env) (htail : CutOff tail) (h : Printed orig t p)
    (hfull : ¬t.length + tail.length + 1 ≤ kprintfBufSize) :
    ∃ p', formatLoop env (tail ++ [0]) p = .ok (false, p') := by
  rw [Nat.add_assoc] at hfull
  rcases htail with rfl | rfl
  · obtain ⟨p', hstop⟩ := ((writeCh_writes h 37).andThenCh 0).full hfull
    refine ⟨p', formatLoop_percent_end.trans ?_⟩
    unfold printUnknown
    rw [hstop]
    rfl
  · obtain ⟨p', hstop⟩ := ((writeLong_writes h).andThenCh 0).full hfull
    refine ⟨p', formatLoop_long_end.trans ?_⟩
    unfold printUnknownLong
    rw [hstop]
    rfl

/-! ## The call -/

/-- The format ends inside a specifier, and the text of the pieces before it leaves room for the
specifier and for the terminator. -/
def EndsInSpecifier (m : Mem) (fmt : CString) (args : ℕ → BitVec 64) : Prop :=
  ∃ ps tail, MadeOf fmt args ps tail ∧ CutOff tail ∧
    (ps.flatMap (Piece.text m)).length + tail.length + 1 ≤ kprintfBufSize

lemma kvsprintf_of_formatLoop {fmt : List UInt8} {ok : Bool}
    (h : formatLoop env fmt ⟨buf, 0, args⟩ = .ok (ok, p)) :
    kvsprintf env fmt args buf = .ok (if ok then p.len else -eoverflow, p.buf) := by
  unfold kvsprintf
  rw [h]
  rfl

/-- The pieces are printed with their texts, before the tail. -/
lemma MadeOf.formatLoop (env : Env) {ps : List Piece} (h : MadeOf fmt args ps tail)
    (hbuf : buf.length = kprintfBufSize) :
    ∃ args', Writes buf [] (ps.flatMap (Piece.text env.mem)) args'
        (Console.formatLoop env (ps.flatMap Piece.format ++ [0]) ⟨buf, 0, args⟩) ∧
      Console.formatLoop env (fmt ++ [0]) ⟨buf, 0, args⟩ =
        andThen (Console.formatLoop env (ps.flatMap Piece.format ++ [0]) ⟨buf, 0, args⟩)
          (Console.formatLoop env (tail ++ [0])) := by
  have hstart : Printed buf [] ⟨buf, 0, args⟩ := ⟨hbuf, rfl, rfl, Nat.zero_le _⟩
  have htext : ∀ piece ∈ ps, WritesPiece env buf piece (piece.text env.mem) :=
    fun piece hp => Piece.writes_text (h.shaped piece hp)
  obtain ⟨args', hwrites⟩ := formatLoop_writes h.shaped htext hstart h.supplies
  refine ⟨args', hwrites, ?_⟩
  rw [h.format, append_assoc]
  exact formatLoop_pieces h.shaped _ _

/-- Then the format is left. -/
lemma EndsInSpecifier.leaves (hbuf : buf.length = kprintfBufSize)
    (hends : EndsInSpecifier env.mem fmt args) :
    kvsprintf env (fmt ++ [0]) args buf = .error .format := by
  obtain ⟨ps, tail, hmade, htail, hroom⟩ := hends
  obtain ⟨args', ⟨ok, p, hloop, hprinted, hok⟩, hwhole⟩ := hmade.formatLoop env hbuf
  obtain rfl := hok (by rw [length_nil]; omega)
  have hend := formatLoop_cutOff_room env htail (hprinted rfl).1 hroom
  unfold kvsprintf
  rw [hwhole, hloop, andThen_ok, hend]
  rfl

/-- Else it is not. -/
lemma kvsprintf_stays (h0 : 0 ∉ fmt) (hbuf : buf.length = kprintfBufSize)
    (hnot : ¬EndsInSpecifier env.mem fmt args) :
    ∃ r, kvsprintf env (fmt ++ [0]) args buf = .ok r := by
  obtain ⟨ps, tail, hmade, htail⟩ := exists_pieces fmt args h0
  obtain ⟨args', ⟨ok, p, hloop, hprinted, -⟩, hwhole⟩ := hmade.formatLoop env hbuf
  rw [hloop] at hwhole
  cases ok with
  | false => exact ⟨_, kvsprintf_of_formatLoop hwhole⟩
  | true =>
    rw [andThen_ok] at hwhole
    rcases htail with rfl | htail
    · rw [nil_append, formatLoop_end] at hwhole
      exact ⟨_, kvsprintf_of_formatLoop hwhole⟩
    · obtain ⟨p', hstop⟩ := formatLoop_cutOff_full env htail (hprinted rfl).1
        fun hroom => hnot ⟨ps, tail, hmade, htail, hroom⟩
      rw [hstop] at hwhole
      exact ⟨_, kvsprintf_of_formatLoop hwhole⟩

/-- `kvsprintf` reads its format up to the terminator, and nothing outside of the other objects, but
for a format that ends inside a specifier for which there is room: then it goes on behind the
terminator. -/
theorem kvsprintf_inside_format_iff (env : Env) {fmt : CString} (h0 : 0 ∉ fmt)
    (args : ℕ → BitVec 64) {buf : List UInt8} (hbuf : buf.length = kprintfBufSize) :
    ((∃ r, kvsprintf env (fmt ++ [0]) args buf = .ok r) ↔ ¬EndsInSpecifier env.mem fmt args) ∧
    (kvsprintf env (fmt ++ [0]) args buf = .error .format ↔
      EndsInSpecifier env.mem fmt args) := by
  refine ⟨⟨?_, kvsprintf_stays h0 hbuf⟩, ?_, EndsInSpecifier.leaves hbuf⟩
  · rintro ⟨r, hr⟩ hends
    rw [hends.leaves hbuf] at hr
    cases hr
  · intro herror
    by_contra hnot
    obtain ⟨r, hr⟩ := kvsprintf_stays h0 hbuf hnot
    rw [herror] at hr
    cases hr

theorem kvsprintf_inside_format_iff_sample :
    ∃ r, kvsprintf ⟨fun _ => 0, fun _ _ => 0⟩ ([37, 100] ++ [0]) (fun _ => 7)
      (List.replicate 1024 0) = .ok r := by
  refine (kvsprintf_inside_format_iff ⟨fun _ => 0, fun _ _ => 0⟩ (by decide) _
    length_replicate).1.mpr ?_
  rintro ⟨ps, tail, hmade, htail, -⟩
  have hlast := congrArg List.getLast? hmade.format
  rcases htail with rfl | rfl <;> simp at hlast

/-- The formats `"%"` and `"%l"`. -/
theorem kvsprintf_leaves_format :
    kvsprintf ⟨fun _ => 0, fun _ _ => 0⟩ ([37] ++ [0]) (fun _ => 7) (List.replicate 1024 0) =
      .error .format ∧
    kvsprintf ⟨fun _ => 0, fun _ _ => 0⟩ ([37, 108] ++ [0]) (fun _ => 7) (List.replicate 1024 0) =
      .error .format := by
  have hstart : Printed (List.replicate 1024 0) [] ⟨List.replicate 1024 0, 0, fun _ => 7⟩ :=
    ⟨length_replicate, rfl, rfl, Nat.zero_le _⟩
  unfold kvsprintf
  rw [formatLoop_cutOff_room _ (.inl rfl) hstart (by decide),
    formatLoop_cutOff_room _ (.inr rfl) hstart (by decide)]
  exact ⟨rfl, rfl⟩

end LunOS.Console
