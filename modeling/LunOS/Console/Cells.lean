import LunOS.Console.Tty

/-!
# The indices of `terminal_buffer`

The buffer has 240 * 135 cells, whatever the framebuffer is.

- `InBounds`: all indices up to now were inside of `terminal_buffer`.
- `endsLine`, `lineEnds`: where the output goes to a new line.
- `terminalRun_inBounds_iff`: the indices stay inside exactly if the screen has at most as many cells
  as the buffer, and if a screen without rows gets no new line.
-/

namespace LunOS.Console
open LunOS.Loops LunOS.Klib List

/-- Every cell that was accessed is in `term_buffer`. -/
def InBounds (t : Terminal) : Prop := ∀ i ∈ t.indices, i < bufferCells

variable {t : Terminal}

/-! ## Indices are only added -/

/-- Indices of before stay recorded. -/
lemma InBounds.of_suffix {t' : Terminal} (hsuffix : t.indices <:+ t'.indices) (h : InBounds t') :
    InBounds t := fun i hi => h i (hsuffix.subset hi)

lemma loop_suffix {body : ℕ → Terminal → Terminal}
    (h : ∀ i t, t.indices <:+ (body i t).indices) (n : ℕ) (t : Terminal) :
    t.indices <:+ (loop body n t).indices :=
  loop_inv (P := fun _ t' => t.indices <:+ t'.indices) suffix_rfl
    fun i _ t' ht' => ht'.trans (h i t')

lemma writeCell_suffix (t : Terminal) (i : ℕ) (c : TermCell) :
    t.indices <:+ (writeCell t i c).indices := suffix_cons _ _

/-- Drawing a cell reads one index. -/
lemma renderCell_indices (y x : ℕ) (t : Terminal) :
    (renderCell y x t).indices = (y * t.totalColumns + x) :: t.indices := by
  unfold renderCell readCell
  rfl

lemma renderRow_suffix (y : ℕ) (t : Terminal) : t.indices <:+ (renderRow y t).indices := by
  refine loop_suffix (fun x t => ?_) _ t
  rw [renderCell_indices]
  exact suffix_cons _ _

lemma terminalRender_suffix (t : Terminal) : t.indices <:+ (terminalRender t).indices :=
  loop_suffix renderRow_suffix _ t

lemma fillBuffer_suffix (c : TermCell) (t : Terminal) : t.indices <:+ (fillBuffer c t).indices :=
  loop_suffix (fun i t => writeCell_suffix t i c) _ t

section
variable (t)

lemma moveLines_suffix : t.indices <:+ (moveLines t).indices := by
  unfold moveLines moveCells
  exact suffix_append _ _

lemma clearLastRow_suffix : t.indices <:+ (clearLastRow t).indices :=
  loop_suffix (fun _ t => writeCell_suffix t _ _) _ t

lemma terminalScroll_suffix : t.indices <:+ (terminalScroll t).indices := by
  unfold terminalScroll
  rw [moveTo_indices]
  exact (moveLines_suffix t).trans (clearLastRow_suffix _)

lemma terminalNewline_suffix : t.indices <:+ (terminalNewline t).indices := by
  unfold terminalNewline
  simp only
  split_ifs
  · refine List.IsSuffix.trans ?_ (terminalRender_suffix _)
    refine List.IsSuffix.trans ?_ (terminalScroll_suffix _)
    exact suffix_rfl
  · exact suffix_rfl

lemma wrap_suffix : t.indices <:+ (wrap t).indices := by
  unfold wrap
  split_ifs
  · exact terminalNewline_suffix t
  · exact suffix_rfl

lemma terminalPutentryat_suffix (c : TermCell) (x y : ℕ) :
    t.indices <:+ (terminalPutentryat t c x y).indices := by
  unfold terminalPutentryat
  split_ifs
  · exact suffix_rfl
  · exact suffix_cons _ _

lemma terminalPutchar_suffix (c : TermCell) : t.indices <:+ (terminalPutchar t c).indices := by
  unfold terminalPutchar
  split_ifs
  · exact terminalNewline_suffix t
  · refine List.IsSuffix.trans ?_ (wrap_suffix _)
    exact suffix_rfl
  · refine List.IsSuffix.trans ?_ (wrap_suffix _)
    exact terminalPutentryat_suffix t c _ _

lemma terminalWrite_suffix (data : List UInt8) : t.indices <:+ (terminalWrite t data).indices := by
  unfold terminalWrite
  induction data generalizing t with
  | nil => exact suffix_rfl
  | cons b data ih => exact (terminalPutchar_suffix t _).trans (ih _)

lemma terminalInitialize_suffix (fg bg : BitVec 32) :
    t.indices <:+ (terminalInitialize t fg bg).indices := by
  refine List.IsSuffix.trans ?_ (terminalRender_suffix _)
  refine List.IsSuffix.trans ?_ (fillBuffer_suffix _ _)
  exact suffix_rfl

lemma terminalClear_suffix : t.indices <:+ (terminalClear t).indices := by
  refine List.IsSuffix.trans ?_ (terminalRender_suffix _)
  exact fillBuffer_suffix _ t

/-- An operation only adds indices. -/
lemma Op.run_suffix (op : Op) : t.indices <:+ (op.run t).indices := by
  cases op with
  | init fg bg => exact terminalInitialize_suffix t fg bg
  | putchar c => exact terminalPutchar_suffix t c
  | newline => exact terminalNewline_suffix t
  | scroll => exact terminalScroll_suffix t
  | write data => exact terminalWrite_suffix t data
  | clear => exact terminalClear_suffix t
  | setcolor fg bg => exact suffix_rfl
  | render => exact terminalRender_suffix t

lemma terminalRun_suffix (ops : List Op) : t.indices <:+ (terminalRun t ops).indices := by
  unfold terminalRun
  induction ops generalizing t with
  | nil => exact suffix_rfl
  | cons op ops ih => exact (op.run_suffix t).trans (ih _)

end

/-! ## Numbers -/

lemma toSizeT_of_range {n : ℤ} (hlow : -2 ^ 31 ≤ n) (hhigh : n < 2 ^ 31) :
    (toSizeT n : ℤ) = n % 2 ^ 64 := by
  unfold toSizeT
  rw [BitVec.signExtend, BitVec.toInt_ofInt, BitVec.toNat_ofInt]
  rw [Int.bmod_eq_of_le (by omega) (by omega)]
  omega

/-- A product that is too large for the buffer stays too large when it wraps around. -/
lemma toSizeT_le_iff {n : ℕ} (hn : n < 2 ^ 32) : toSizeT n ≤ bufferCells ↔ n ≤ bufferCells := by
  by_cases hsmall : n < 2 ^ 31
  · have hsame := toSizeT_of_range (n := n) (by omega) (by omega)
    omega
  · have hlarge : toSizeT n = n + 2 ^ 64 - 2 ^ 32 := by
      unfold toSizeT
      rw [BitVec.signExtend, BitVec.toInt_ofInt, BitVec.toNat_ofInt, Int.bmod_def]
      omega
    unfold bufferCells
    omega

/-! ## Loops over the buffer -/

/-- A loop whose turns note one index each, which depends on the dimensions only. -/
lemma loop_inBounds (body : ℕ → Terminal → Terminal) (f : ℕ → ℕ × ℕ × ℕ × ℕ × ℕ → ℕ)
    (hframe : ∀ i t, (body i t).frame = t.frame)
    (hbody : ∀ i t, (body i t).indices = f i t.frame :: t.indices) (n : ℕ) (t : Terminal) :
    InBounds (loop body n t) ↔ (∀ i < n, f i t.frame < bufferCells) ∧ InBounds t := by
  induction n with
  | zero => simp [loop]
  | succ n ih =>
    have hsame : (loop body n t).frame = t.frame := loop_field body hframe n t
    unfold InBounds at ih ⊢
    rw [loop, hbody, forall_mem_cons, ih, hsame, ← and_assoc]
    refine and_congr_left fun _ => ⟨fun h i hi => ?_, fun h => ⟨h n (by omega), fun i hi => ?_⟩⟩
    · rcases Nat.lt_succ_iff_lt_or_eq.mp hi with hlt | rfl
      · exact h.2 i hlt
      · exact h.1
    · exact h i (by omega)

/-- The first loop over the buffer. -/
lemma fillBuffer_inBounds (c : TermCell) (t : Terminal)
    (hproduct : t.totalRows * t.totalColumns < 2 ^ 32) :
    InBounds (fillBuffer c t) ↔ t.totalRows * t.totalColumns ≤ bufferCells ∧ InBounds t := by
  have hloop := loop_inBounds (fun i t => writeCell t i c) (fun i _ => i) (fun _ _ => rfl)
    (fun _ _ => rfl) (toSizeT (t.totalRows * t.totalColumns)) t
  refine hloop.trans (and_congr_left fun _ => ?_)
  rw [← toSizeT_le_iff hproduct]
  constructor
  · intro hall
    by_contra hlarge
    have := hall bufferCells (by push_cast at hlarge; omega)
    omega
  · intro hle i hi
    push_cast at hle
    omega

/-- A screen that fits is drawn from inside of the buffer. -/
lemma terminalRender_inBounds (hfits : t.totalRows * t.totalColumns ≤ bufferCells)
    (h : InBounds t) : InBounds (terminalRender t) := by
  unfold terminalRender
  refine (loop_inv (P := fun _ (t' : Terminal) => t'.frame = t.frame ∧ InBounds t')
    ⟨rfl, h⟩ ?_).2
  rintro y hy t' ⟨hframe, hin⟩
  have hcolumns := columns_of_frame hframe
  have hrow := loop_inBounds (renderCell y) (fun x f => y * f.2.1 + x) (renderCell_frame y)
    (renderCell_indices y) t'.totalColumns t'
  have hlast : (y + 1) * t.totalColumns ≤ t.totalRows * t.totalColumns :=
    Nat.mul_le_mul_right _ hy
  refine ⟨(loop_field _ (renderCell_frame y) _ t').trans hframe, hrow.mpr ⟨fun x hx => ?_, hin⟩⟩
  rw [Nat.succ_mul] at hlast
  simp only [Terminal.frame]
  rw [hcolumns] at hx ⊢
  omega

/-- The screen has to fit the buffer. -/
lemma terminalInitialize_inBounds (t : Terminal) (fg bg : BitVec 32) :
    InBounds (terminalInitialize t fg bg) ↔
      screenRows t.fb * screenColumns t.fb ≤ bufferCells ∧ InBounds t := by
  have hproduct : screenRows t.fb * screenColumns t.fb < 2 ^ 32 := by
    have hrows : screenRows t.fb < 2 ^ 16 := Nat.mod_lt _ (Nat.two_pow_pos 16)
    have hcolumns : screenColumns t.fb < 2 ^ 16 := Nat.mod_lt _ (Nat.two_pow_pos 16)
    calc screenRows t.fb * screenColumns t.fb < 2 ^ 16 * 2 ^ 16 := Nat.mul_lt_mul'' hrows hcolumns
      _ = 2 ^ 32 := by norm_num
  unfold terminalInitialize
  constructor
  · intro h
    exact (fillBuffer_inBounds _ _ hproduct).mp (h.of_suffix (terminalRender_suffix _))
  · intro h
    refine terminalRender_inBounds ?_ ((fillBuffer_inBounds _ _ hproduct).mpr h)
    rw [fillBuffer_tty]
    exact h.1

/-- The cells of the screen fit into the buffer. -/
structure Fitting (t : Terminal) : Prop where
  columns : t.totalColumns < 2 ^ 16
  cells : t.totalRows * t.totalColumns ≤ bufferCells

lemma Fitting.of_frame {t' : Terminal} (h : Fitting t) (hframe : t'.frame = t.frame) :
    Fitting t' := by
  constructor
  · rw [columns_of_frame hframe]
    exact h.columns
  · rw [rows_of_frame hframe, columns_of_frame hframe]
    exact h.cells

/-! ## New lines -/

/-- A new line needs a row, unless there is nothing to scroll. -/
def HasRow (t : Terminal) : Prop := t.totalRows = 0 → t.totalColumns = 0

lemma hasRow_of_frame {t' : Terminal} (hframe : t'.frame = t.frame) : HasRow t' ↔ HasRow t := by
  unfold HasRow
  rw [rows_of_frame hframe, columns_of_frame hframe]

/-- The start of the last row. -/
lemma toSizeT_lastRow {rows : ℕ} (hrows : t.totalRows = rows + 1)
    (hfits : t.totalRows * t.totalColumns ≤ bufferCells) :
    toSizeT (lastRow t) = rows * t.totalColumns := by
  have hlast : lastRow t = ((rows * t.totalColumns : ℕ) : ℤ) := by
    unfold lastRow
    rw [hrows]
    push_cast
    ring
  rw [hrows, Nat.succ_mul] at hfits
  unfold bufferCells at hfits
  rw [hlast]
  have hsame := toSizeT_of_range (n := ((rows * t.totalColumns : ℕ) : ℤ)) (by omega) (by omega)
  omega

/-- `memmove` reads and writes cells. -/
lemma moveCells_inBounds_iff (dst src size : ℕ) : InBounds (moveCells t dst src size) ↔
    (∀ i < (size + cellBytes - 1) / cellBytes, dst + i < bufferCells ∧ src + i < bufferCells) ∧
      InBounds t := by
  unfold InBounds moveCells
  simp only [forall_mem_append, forall_mem_map, mem_range]
  refine and_congr_left fun _ => ⟨fun h i hi => ⟨h.1 i hi, h.2 i hi⟩, fun h => ?_⟩
  exact ⟨fun i hi => (h i hi).1, fun i hi => (h i hi).2⟩

/-- The blanks of the last row. -/
lemma clearLastRow_inBounds_iff : InBounds (clearLastRow t) ↔
    (∀ i < t.totalColumns, (toSizeT (lastRow t) + i) % 2 ^ 64 < bufferCells) ∧ InBounds t :=
  loop_inBounds clearLast (fun i f => (toSizeT ((f.1 - 1) * f.2.1) + i) % 2 ^ 64) clearLast_frame
    (fun _ _ => rfl) t.totalColumns t

lemma moveLines_inBounds_iff : InBounds (moveLines t) ↔
    (∀ i < (toSizeT (lastRow t) * cellBytes % 2 ^ 64 + cellBytes - 1) / cellBytes,
      0 + i < bufferCells ∧ t.totalColumns + i < bufferCells) ∧ InBounds t :=
  moveCells_inBounds_iff _ _ _

lemma lastRow_of_frame {t' : Terminal} (h : t'.frame = t.frame) : lastRow t' = lastRow t := by
  unfold lastRow
  rw [rows_of_frame h, columns_of_frame h]

/-- A `memmove` of whole cells touches these. -/
lemma touched_eq {n : ℕ} (hn : n ≤ bufferCells) :
    (n * cellBytes % 2 ^ 64 + cellBytes - 1) / cellBytes = n := by
  unfold cellBytes bufferCells at *
  omega

/-- A scroll needs a row. -/
lemma terminalScroll_inBounds_iff (hfit : Fitting t) :
    InBounds (terminalScroll t) ↔ HasRow t ∧ InBounds t := by
  have hframe := moveLines_frame t
  have hcursor : InBounds (terminalScroll t) ↔ InBounds (clearLastRow (moveLines t)) := by
    unfold terminalScroll InBounds
    rw [moveTo_indices]
  have hcolumns := hfit.columns
  have hcells := hfit.cells
  unfold HasRow
  rw [hcursor, clearLastRow_inBounds_iff, moveLines_inBounds_iff, lastRow_of_frame hframe,
    columns_of_frame hframe]
  by_cases hrows : t.totalRows = 0
  · by_cases hempty : t.totalColumns = 0
    · have hlast : toSizeT (lastRow t) = 0 := by
        unfold lastRow
        rw [hempty, Int.natCast_zero, mul_zero]
        rfl
      rw [hempty, hlast]
      simp [cellBytes]
    · -- the index of the first cell that is cleared is below zero
      have hlast : lastRow t = -(t.totalColumns : ℤ) := by
        unfold lastRow
        rw [hrows]
        push_cast
        ring
      have hnegative := toSizeT_of_range (n := lastRow t) (by omega) (by omega)
      refine iff_of_false (fun h => ?_) (fun h => hempty (h.1 hrows))
      have hfirst := h.1 0 (by omega)
      unfold bufferCells at hfirst
      omega
  · obtain ⟨rows, hsucc⟩ := Nat.exists_eq_succ_of_ne_zero hrows
    rw [toSizeT_lastRow hsucc hcells]
    rw [hsucc, Nat.succ_mul] at hcells
    rw [touched_eq (by omega)]
    constructor
    · exact fun h => ⟨fun hzero => absurd hzero hrows, h.2.2⟩
    · unfold bufferCells at *
      exact fun h => ⟨fun i hi => by omega, fun i hi => by omega, h.2⟩

/-- A new line needs a row. -/
lemma terminalNewline_inBounds_iff (hfit : Fitting t) :
    InBounds (terminalNewline t) ↔ HasRow t ∧ InBounds t := by
  have hfit' : Fitting (t.moveTo ((t.currentRow + 1) % 2 ^ 16) 0) :=
    hfit.of_frame (moveTo_frame _ _ _)
  have hscroll := terminalScroll_inBounds_iff hfit'
  unfold terminalNewline
  dsimp only
  split_ifs with hbelow
  · refine ⟨fun h => hscroll.mp (h.of_suffix (terminalRender_suffix _)), fun h => ?_⟩
    exact terminalRender_inBounds (hfit'.of_frame (terminalScroll_frame _)).cells (hscroll.mpr h)
  · have hsome : t.totalRows ≠ 0 := by
      intro hzero
      exact hbelow (hzero.le.trans (Nat.zero_le _))
    exact ⟨fun h => ⟨fun hzero => absurd hzero hsome, h⟩, fun h => h.2⟩

/-- So does a wrap. -/
lemma wrap_inBounds_iff (hfit : Fitting t) :
    InBounds (wrap t) ↔ (t.totalColumns ≤ t.currentColumn → HasRow t) ∧ InBounds t := by
  unfold wrap
  split_ifs with hwrap
  · rw [terminalNewline_inBounds_iff hfit]
    exact and_congr_left fun _ => ⟨fun h _ => h, fun h => h hwrap⟩
  · exact ⟨fun h => ⟨fun hle => absurd hle hwrap, h⟩, fun h => h.2⟩

lemma terminalPutentryat_inBounds_iff (hfit : Fitting t) (c : TermCell) (x y : ℕ) :
    InBounds (terminalPutentryat t c x y) ↔ InBounds t := by
  refine ⟨fun h => h.of_suffix (terminalPutentryat_suffix t c x y), fun h => ?_⟩
  unfold terminalPutentryat
  split_ifs with hout
  · exact h
  · obtain ⟨hx, hy⟩ := not_or.mp hout
    have hlast : (y + 1) * t.totalColumns ≤ t.totalRows * t.totalColumns :=
      Nat.mul_le_mul_right _ (by omega)
    have hcells := hfit.cells
    rw [Nat.succ_mul] at hlast
    exact forall_mem_cons.mpr ⟨by omega, h⟩

/-! ## Where lines end -/

/-- The column behind a character. -/
def advance (column : ℕ) (ch : UInt8) : ℕ :=
  if ch = 9 then (column + (tabWidth - column % tabWidth)) % 2 ^ 16 else (column + 1) % 2 ^ 16

/-- The character goes to a new line. -/
def endsLine (columns column : ℕ) (ch : UInt8) : Bool :=
  decide (ch = 10 ∨ columns ≤ advance column ch)

/-- The column after a character. -/
def columnAfter (columns column : ℕ) (ch : UInt8) : ℕ :=
  if endsLine columns column ch then 0 else advance column ch

/-- Some character of a text goes to a new line. -/
def textEnds (columns : ℕ) : List UInt8 → ℕ → Bool
  | [], _ => false
  | b :: text, column =>
    endsLine columns column b || textEnds columns text (columnAfter columns column b)

namespace Op

/-- What an operation prints. -/
def text : Op → List UInt8
  | putchar c => [c.ch]
  | newline => [10]
  | write data => data
  | _ => []

/-- The column after a call. -/
def column (columns column : ℕ) (op : Op) : ℕ :=
  match op with
  | init _ _ => 0
  | clear => 0
  | op => op.text.foldl (columnAfter columns) column

/-- The operation goes to a new line, or scrolls. -/
def ends (columns column : ℕ) : Op → Bool
  | scroll => true
  | op => textEnds columns op.text column

end Op

/-- Some operation goes to a new line, or scrolls. -/
def lineEnds (columns : ℕ) : List Op → ℕ → Bool
  | [], _ => false
  | op :: ops, column => op.ends columns column || lineEnds columns ops (op.column columns column)

/-- What follows the first `terminal_initialize`. -/
def afterInit : List Op → Option (List Op)
  | [] => none
  | .init _ _ :: ops => some ops
  | _ :: ops => afterInit ops

lemma clearLastRow_column (t : Terminal) : (clearLastRow t).currentColumn = t.currentColumn :=
  loop_field (f := fun t => t.currentColumn) clearLast (fun _ _ => rfl) _ t

lemma terminalScroll_column (t : Terminal) :
    (terminalScroll t).currentColumn = t.currentColumn := by
  unfold terminalScroll
  rw [moveTo_column, clearLastRow_column]
  unfold moveLines moveCells
  rfl

lemma terminalNewline_column (t : Terminal) : (terminalNewline t).currentColumn = 0 := by
  unfold terminalNewline
  dsimp only
  split_ifs
  · rw [terminalRender_tty, terminalScroll_column, moveTo_column]
  · rfl

lemma wrap_column (t : Terminal) : (wrap t).currentColumn =
    if t.totalColumns ≤ t.currentColumn then 0 else t.currentColumn := by
  unfold wrap
  split_ifs
  · exact terminalNewline_column t
  · rfl

lemma terminalPutentryat_column (t : Terminal) (c : TermCell) (x y : ℕ) :
    (terminalPutentryat t c x y).currentColumn = t.currentColumn := by
  unfold terminalPutentryat
  split_ifs <;> rfl

lemma terminalPutentryat_row (t : Terminal) (c : TermCell) (x y : ℕ) :
    (terminalPutentryat t c x y).currentRow = t.currentRow := by
  unfold terminalPutentryat
  split_ifs <;> rfl

lemma endsLine_newline {columns column : ℕ} {ch : UInt8} (hch : ch = 10) :
    endsLine columns column ch = true := decide_eq_true (.inl hch)

/-- A full line ends. -/
lemma endsLine_of_ne {columns column : ℕ} {ch : UInt8} (hch : ch ≠ 10) :
    endsLine columns column ch = true ↔ columns ≤ advance column ch := by
  unfold endsLine
  rw [decide_eq_true_eq, or_iff_right hch]

/-- The character is in its cell. A tab has none. -/
def typed (t : Terminal) (c : TermCell) : Terminal :=
  if c.ch = 9 then t else terminalPutentryat t c t.currentColumn t.currentRow

lemma typed_frame (t : Terminal) (c : TermCell) : (typed t c).frame = t.frame := by
  unfold typed
  split_ifs
  · rfl
  · exact terminalPutentryat_frame t c _ _

/-- All characters but the line feed: the cursor goes on, and perhaps to a new line. -/
lemma terminalPutchar_typed (t : Terminal) {c : TermCell} (hc : c.ch ≠ 10) :
    terminalPutchar t c =
      wrap ((typed t c).moveTo t.currentRow (advance t.currentColumn c.ch)) := by
  unfold terminalPutchar typed advance
  rw [if_neg hc]
  by_cases htab : c.ch = 9
  · rw [if_pos htab, if_pos htab, if_pos htab]
  · rw [if_neg htab, if_neg htab, if_neg htab]
    dsimp only
    rw [terminalPutentryat_row, terminalPutentryat_column]

/-- The dimensions before the cursor has moved on. -/
lemma typed_moveTo_frame (t : Terminal) (c : TermCell) (row column : ℕ) :
    ((typed t c).moveTo row column).frame = t.frame :=
  (moveTo_frame _ row column).trans (typed_frame t c)

/-- The column behind a character. -/
lemma terminalPutchar_column (t : Terminal) (c : TermCell) :
    (terminalPutchar t c).currentColumn = columnAfter t.totalColumns t.currentColumn c.ch := by
  unfold columnAfter
  by_cases hnewline : c.ch = 10
  · have hput : terminalPutchar t c = terminalNewline t := if_pos hnewline
    rw [hput, terminalNewline_column, if_pos (endsLine_newline hnewline)]
  · rw [terminalPutchar_typed t hnewline, wrap_column, moveTo_column,
      columns_of_frame (typed_moveTo_frame t c _ _)]
    exact ite_congr (propext (endsLine_of_ne hnewline)).symm (fun _ => rfl) fun _ => rfl

/-! ## Output -/

lemma typed_inBounds_iff (hfit : Fitting t) (c : TermCell) : InBounds (typed t c) ↔ InBounds t := by
  unfold typed
  split_ifs
  · rfl
  · exact terminalPutentryat_inBounds_iff hfit c _ _

/-- A character that ends a line needs a row. -/
lemma terminalPutchar_inBounds_iff (hfit : Fitting t) (c : TermCell) :
    InBounds (terminalPutchar t c) ↔
      (endsLine t.totalColumns t.currentColumn c.ch = true → HasRow t) ∧ InBounds t := by
  by_cases hnewline : c.ch = 10
  · have hput : terminalPutchar t c = terminalNewline t := if_pos hnewline
    rw [hput, terminalNewline_inBounds_iff hfit]
    exact and_congr_left fun _ => ⟨fun h _ => h, fun h => h (endsLine_newline hnewline)⟩
  · have hframe := typed_moveTo_frame t c t.currentRow (advance t.currentColumn c.ch)
    rw [terminalPutchar_typed t hnewline, wrap_inBounds_iff (hfit.of_frame hframe), moveTo_column,
      columns_of_frame hframe, hasRow_of_frame hframe, endsLine_of_ne hnewline]
    exact and_congr_right fun _ => typed_inBounds_iff hfit c

/-- The column behind a text. -/
lemma terminalWrite_column (t : Terminal) (data : List UInt8) :
    (terminalWrite t data).currentColumn =
      data.foldl (columnAfter t.totalColumns) t.currentColumn := by
  unfold terminalWrite
  induction data generalizing t with
  | nil => rfl
  | cons b data ih =>
    rw [foldl_cons, foldl_cons, ih, terminalPutchar_column,
      columns_of_frame (terminalPutchar_frame t _)]

/-- Some line ends in the text. -/
lemma terminalWrite_inBounds_iff (hfit : Fitting t) (data : List UInt8) :
    InBounds (terminalWrite t data) ↔
      (textEnds t.totalColumns data t.currentColumn = true → HasRow t) ∧ InBounds t := by
  induction data generalizing t with
  | nil => exact ⟨fun h => ⟨fun hfalse => absurd hfalse (by simp [textEnds]), h⟩, fun h => h.2⟩
  | cons b data ih =>
    have hframe := terminalPutchar_frame t ⟨b, t.terminalFgColor, t.terminalBgColor⟩
    have hrest := ih (hfit.of_frame hframe)
    rw [terminalPutchar_inBounds_iff hfit, hasRow_of_frame hframe, columns_of_frame hframe,
      terminalPutchar_column] at hrest
    rw [textEnds, Bool.or_eq_true, or_imp]
    refine hrest.trans ?_
    rw [← and_assoc, and_comm (a := _ → _)]

/-- Everything but `terminal_initialize`. -/
lemma Op.run_inBounds_iff (hfit : Fitting t) {op : Op} (hop : ∀ fg bg, op ≠ .init fg bg) :
    InBounds (op.run t) ↔
      (op.ends t.totalColumns t.currentColumn = true → HasRow t) ∧ InBounds t := by
  cases op with
  | init fg bg => exact absurd rfl (hop fg bg)
  | putchar c =>
    simp only [Op.ends, Op.text, textEnds, Bool.or_false]
    exact terminalPutchar_inBounds_iff hfit c
  | newline =>
    simp only [Op.ends, Op.text, textEnds, Bool.or_false]
    refine (terminalNewline_inBounds_iff hfit).trans (and_congr_left fun _ => ?_)
    exact ⟨fun h _ => h, fun h => h (endsLine_newline rfl)⟩
  | scroll =>
    refine (terminalScroll_inBounds_iff hfit).trans (and_congr_left fun _ => ?_)
    exact ⟨fun h _ => h, fun h => h rfl⟩
  | write data => exact terminalWrite_inBounds_iff hfit data
  | clear =>
    simp only [Op.ends, Op.text, textEnds, Bool.false_eq_true, false_implies, true_and]
    refine ⟨fun h => h.of_suffix (terminalClear_suffix t), fun h => ?_⟩
    have hproduct : t.totalRows * t.totalColumns < 2 ^ 32 :=
      hfit.cells.trans_lt (by decide)
    refine terminalRender_inBounds ?_ ?_
    · exact (hfit.of_frame (fillBuffer_frame _ t)).cells
    · exact (fillBuffer_inBounds _ t hproduct).mpr ⟨hfit.cells, h⟩
  | setcolor fg bg => simp [Op.ends, Op.text, textEnds, Op.run, terminalSetcolor, InBounds]
  | render =>
    simp only [Op.ends, Op.text, textEnds, Bool.false_eq_true, false_implies, true_and]
    exact ⟨fun h => h.of_suffix (terminalRender_suffix t), terminalRender_inBounds hfit.cells⟩

lemma terminalInitialize_column (t : Terminal) (fg bg : BitVec 32) :
    (terminalInitialize t fg bg).currentColumn = 0 := by
  refine (congrArg Tty.currentColumn (terminalRender_tty _)).trans ?_
  rw [fillBuffer_tty]
  rfl

/-- The column after an operation. -/
lemma Op.run_column (t : Terminal) {op : Op} (hop : ∀ fg bg, op ≠ .init fg bg) :
    (op.run t).currentColumn = op.column t.totalColumns t.currentColumn := by
  cases op with
  | init fg bg => exact absurd rfl (hop fg bg)
  | putchar c => exact terminalPutchar_column t c
  | newline =>
    have hends : endsLine t.totalColumns t.currentColumn 10 = true := endsLine_newline rfl
    have hafter : columnAfter t.totalColumns t.currentColumn 10 = 0 := if_pos hends
    exact (terminalNewline_column t).trans hafter.symm
  | scroll => exact terminalScroll_column t
  | write data => exact terminalWrite_column t data
  | clear => exact congrArg Tty.currentColumn (terminalRender_tty _)
  | setcolor fg bg => rfl
  | render => exact congrArg Tty.currentColumn (terminalRender_tty t)

/-! ## Runs -/

variable {fb : Framebuffer}

/-- One operation after `terminal_initialize`, on a screen that fits. -/
lemma Op.run_fitting (hfits : screenRows fb * screenColumns fb ≤ bufferCells)
    (hframe : t.frame = (screenRows fb, screenColumns fb, fb.mode)) (op : Op) :
    (op.run t).frame = (screenRows fb, screenColumns fb, fb.mode) ∧
    (op.run t).currentColumn = op.column (screenColumns fb) t.currentColumn ∧
    (InBounds (op.run t) ↔ (op.ends (screenColumns fb) t.currentColumn = true →
      screenRows fb = 0 → screenColumns fb = 0) ∧ InBounds t) := by
  have hmode : t.fb.mode = fb.mode := congrArg (fun f => f.2.2) hframe
  have hcolumns : t.totalColumns = screenColumns fb := congrArg (fun f => f.2.1) hframe
  have hrows : t.totalRows = screenRows fb := congrArg (fun f => f.1) hframe
  by_cases hop : ∃ fg bg, op = .init fg bg
  · obtain ⟨fg, bg, rfl⟩ := hop
    have hinit := terminalInitialize_inBounds t fg bg
    have hframe' := terminalInitialize_frame t fg bg
    rw [screenRows_of_mode hmode, screenColumns_of_mode hmode] at hinit hframe'
    rw [hmode] at hframe'
    refine ⟨hframe', terminalInitialize_column t fg bg, ?_⟩
    refine hinit.trans (and_congr_left fun _ => ⟨fun _ hfalse => ?_, fun _ => hfits⟩)
    exact absurd hfalse (by simp [Op.ends, Op.text, textEnds])
  · have hop : ∀ fg bg, op ≠ .init fg bg := fun fg bg heq => hop ⟨fg, bg, heq⟩
    have hfit : Fitting t := by
      constructor
      · rw [hcolumns]
        exact Nat.mod_lt _ (Nat.two_pow_pos 16)
      · rw [hrows, hcolumns]
        exact hfits
    have hrun := Op.run_inBounds_iff hfit hop
    unfold HasRow at hrun
    rw [hcolumns, hrows] at hrun
    have hcolumn := Op.run_column t hop
    rw [hcolumns] at hcolumn
    exact ⟨(Op.run_frame t hop).trans hframe, hcolumn, hrun⟩

/-- Runs on a screen that fits. -/
lemma terminalRun_inBounds_fitting (hfits : screenRows fb * screenColumns fb ≤ bufferCells)
    (hframe : t.frame = (screenRows fb, screenColumns fb, fb.mode)) (ops : List Op) :
    InBounds (terminalRun t ops) ↔ (lineEnds (screenColumns fb) ops t.currentColumn = true →
      screenRows fb = 0 → screenColumns fb = 0) ∧ InBounds t := by
  induction ops generalizing t with
  | nil => exact ⟨fun h => ⟨fun hfalse => absurd hfalse (by simp [lineEnds]), h⟩, fun h => h.2⟩
  | cons op ops ih =>
    obtain ⟨hframe', hcolumn, hrun⟩ := Op.run_fitting hfits hframe op
    rw [lineEnds, Bool.or_eq_true, or_imp, ← hcolumn]
    refine (ih hframe').trans ?_
    rw [hrun, ← and_assoc, and_comm (a := _ → _)]

/-- Before `terminal_initialize` the screen has no cells. -/
lemma terminalRun_inBounds_boot (fb : Framebuffer) (hframe : t.frame = (0, 0, fb.mode))
    (ops : List Op) : InBounds (terminalRun t ops) ↔ (∀ rest, afterInit ops = some rest →
      screenRows fb * screenColumns fb ≤ bufferCells ∧
      (lineEnds (screenColumns fb) rest 0 = true → screenRows fb = 0 → screenColumns fb = 0)) ∧
      InBounds t := by
  have hmode : t.fb.mode = fb.mode := congrArg (fun f => f.2.2) hframe
  have hcolumns : t.totalColumns = 0 := congrArg (fun f => f.2.1) hframe
  induction ops generalizing t with
  | nil => exact ⟨fun h => ⟨fun rest hrest => absurd hrest (by simp [afterInit]), h⟩, fun h => h.2⟩
  | cons op ops ih =>
    by_cases hop : ∃ fg bg, op = .init fg bg
    · obtain ⟨fg, bg, rfl⟩ := hop
      have hinit := terminalInitialize_inBounds t fg bg
      have hframe' := terminalInitialize_frame t fg bg
      rw [screenRows_of_mode hmode, screenColumns_of_mode hmode] at hinit hframe'
      rw [hmode] at hframe'
      simp only [afterInit, Option.some.injEq, forall_eq']
      by_cases hfits : screenRows fb * screenColumns fb ≤ bufferCells
      · refine (terminalRun_inBounds_fitting hfits hframe' ops).trans ?_
        rw [terminalInitialize_column, hinit]
        exact ⟨fun h => ⟨⟨hfits, h.1⟩, h.2.2⟩, fun h => ⟨h.1.2, hfits, h.2⟩⟩
      · refine iff_of_false (fun h => hfits ?_) (fun h => hfits h.1.1)
        exact (hinit.mp (h.of_suffix (terminalRun_suffix _ ops))).1
    · have hop : ∀ fg bg, op ≠ .init fg bg := fun fg bg heq => hop ⟨fg, bg, heq⟩
      have hfit : Fitting t := by
        constructor
        · rw [hcolumns]
          decide
        · rw [hcolumns, Nat.mul_zero]
          exact Nat.zero_le _
      have hafter : afterInit (op :: ops) = afterInit ops := by
        cases op with
        | init fg bg => exact absurd rfl (hop fg bg)
        | _ => rfl
      have hframe' := (Op.run_frame t hop).trans hframe
      have hrun := Op.run_inBounds_iff hfit hop
      have hrow : HasRow t := fun _ => hcolumns
      rw [hafter]
      refine (ih hframe' (congrArg (fun f => f.2.2) hframe')
        (congrArg (fun f => f.2.1) hframe')).trans ?_
      rw [hrun]
      exact and_congr_right fun _ => ⟨fun h => h.2, fun h => ⟨fun _ => hrow, h⟩⟩

/-- Every index into `terminal_buffer` is inside of it exactly if there is no `terminal_initialize`,
or if the screen has at most 240 * 135 cells and, should it have columns but no rows, nothing goes to
a new line or scrolls. -/
theorem terminalRun_inBounds_iff (fb : Framebuffer) (ops : List Op) :
    (∀ i ∈ (terminalRun (Terminal.boot fb) ops).indices, i < 240 * 135) ↔
      ∀ rest, afterInit ops = some rest → screenRows fb * screenColumns fb ≤ 240 * 135 ∧
        (lineEnds (screenColumns fb) rest 0 = true → screenRows fb = 0 → screenColumns fb = 0) := by
  have hboot : InBounds (Terminal.boot fb) := fun i hi => absurd hi not_mem_nil
  refine (terminalRun_inBounds_boot fb rfl ops).trans ?_
  exact ⟨fun h => h.1, fun h => ⟨h, hboot⟩⟩

/-- A larger screen goes beyond the buffer. -/
lemma terminalRun_init_leaves (t : Terminal) (fg bg : BitVec 32)
    (hlarge : bufferCells < screenRows t.fb * screenColumns t.fb) :
    ¬InBounds (terminalRun t [.init fg bg]) := by
  intro h
  have hfits := ((terminalInitialize_inBounds t fg bg).mp h).1
  omega

/-- A screen of 2560 by 1440 pixels has 320 by 180 cells. -/
theorem terminalInitialize_leaves_buffer :
    ¬∀ i ∈ (terminalRun (Terminal.boot ⟨2560, 1440, 10240, fun _ => 0⟩)
      [.init 0xFFFFFF 0x000035]).indices, i < 240 * 135 :=
  terminalRun_init_leaves _ _ _ (by decide)

end LunOS.Console
