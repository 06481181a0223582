import LunOS.Console.Framebuffer
import LunOS.Klib.Moves

/-!
# The terminal

`tty.c`. `terminal_buffer` is a map from indices to cells, and every access to it notes its index;
`terminal_buffer[240*135]` has the indices below `bufferCells`. The `memmove` of `terminal_scroll`
moves whole cells (`memmove_view`).

- `Op`, `terminalRun`: the operations of the terminal.
- `terminalRender_tty`: drawing changes nothing but the framebuffer.
-/

namespace LunOS.Console
open LunOS.Loops LunOS.Klib Function

/-- `TAB_WIDTH` -/
def tabWidth : ℕ := 8

/-- `struct term_cell_t`, of 12 bytes. -/
structure TermCell where
  ch : UInt8
  fg : BitVec 32
  bg : BitVec 32
deriving DecidableEq

def cellBytes : ℕ := 12

/-- The length of `terminal_buffer`. -/
def bufferCells : ℕ := 240 * 135

/-- The static variables. -/
structure Tty where
  totalRows : ℕ
  totalColumns : ℕ
  currentRow : ℕ
  currentColumn : ℕ
  terminalFgColor : BitVec 32
  terminalBgColor : BitVec 32
  terminalBuffer : ℕ → TermCell

/-- With the framebuffer, and the indices at which `terminal_buffer` was accessed. -/
structure Terminal extends Tty where
  fb : Framebuffer
  indices : List ℕ

/-- Before `terminal_initialize` all static variables are zero. -/
def Terminal.boot (fb : Framebuffer) : Terminal where
  totalRows := 0
  totalColumns := 0
  currentRow := 0
  currentColumn := 0
  terminalFgColor := 0
  terminalBgColor := 0
  terminalBuffer := fun _ => ⟨0, 0, 0⟩
  fb := fb
  indices := []

/-- The cursor goes to a place. -/
def Terminal.moveTo (t : Terminal) (row column : ℕ) : Terminal :=
  { t with currentRow := row, currentColumn := column }

/-! ## Accesses -/

/-- An `int` that is used as a `size_t`; its arithmetic wraps around. -/
def toSizeT (n : ℤ) : ℕ := ((BitVec.ofInt 32 n).signExtend 64).toNat

/-- A cell of `term_buffer` is read; its index is noted. -/
def readCell (t : Terminal) (i : ℕ) : TermCell × Terminal :=
  (t.terminalBuffer i, { t with indices := i :: t.indices })

/-- A cell of `term_buffer` is written; its index is noted. -/
def writeCell (t : Terminal) (i : ℕ) (c : TermCell) : Terminal :=
  { t with terminalBuffer := update t.terminalBuffer i c, indices := i :: t.indices }

/-- `memmove` inside of `terminal_buffer`, of `size` bytes. -/
def moveCells (t : Terminal) (dst src size : ℕ) : Terminal :=
  let touched := List.range ((size + cellBytes - 1) / cellBytes)
  { t with
    terminalBuffer := memmove t.terminalBuffer dst src (size / cellBytes)
    indices := touched.map (dst + ·) ++ touched.map (src + ·) ++ t.indices }

/-! ## `tty.c` -/

/-- `fb->width / FONT_WIDTH`, as a `uint16_t`. -/
def screenColumns (fb : Framebuffer) : ℕ := fb.width / fontWidth % 2 ^ 16

/-- The rows that fit on the screen, as a `uint16_t`. -/
def screenRows (fb : Framebuffer) : ℕ := fb.height / fontHeight % 2 ^ 16

/-- `get_screen_dimensions` -/
def getScreenDimensions (t : Terminal) : Terminal :=
  { t with totalColumns := screenColumns t.fb, totalRows := screenRows t.fb }

/-- The body of the inner loop of `terminal_render`. -/
def renderCell (y x : ℕ) (t : Terminal) : Terminal :=
  let (cell, t) := readCell t (y * t.totalColumns + x)
  { t with
    fb := fbPutChar t.fb cell.ch (x * fontWidth % 2 ^ 32) (y * fontHeight % 2 ^ 32) cell.fg cell.bg }

/-- One row of `terminal_render`. -/
def renderRow (y : ℕ) (t : Terminal) : Terminal := loop (renderCell y) t.totalColumns t

/-- `terminal_render` -/
def terminalRender (t : Terminal) : Terminal := loop renderRow t.totalRows t

/-- `for (size_t i = 0; i < buffer_size; i++)` with the same cell for each index. -/
def fillBuffer (c : TermCell) (t : Terminal) : Terminal :=
  loop (fun i t => writeCell t i c) (toSizeT (t.totalRows * t.totalColumns)) t

/-- `terminal_initialize` -/
def terminalInitialize (t : Terminal) (fg bg : BitVec 32) : Terminal :=
  let t := (getScreenDimensions t).moveTo 0 0
  let t := { t with terminalFgColor := fg, terminalBgColor := bg }
  terminalRender (fillBuffer ⟨32, fg, bg⟩ t)

/-- `terminal_putentryat` -/
def terminalPutentryat (t : Terminal) (c : TermCell) (x y : ℕ) : Terminal :=
  if t.totalColumns ≤ x ∨ t.totalRows ≤ y then t
  else
    let t := writeCell t (y * t.totalColumns + x) c
    { t with
      fb := fbPutChar t.fb c.ch (x * fontWidth % 2 ^ 32) (y * fontHeight % 2 ^ 32) c.fg c.bg }

/-- `(total_rows - 1) * total_columns`, as an `int`. -/
def lastRow (t : Terminal) : ℤ := (t.totalRows - 1) * t.totalColumns

/-- `terminal_buffer[(total_rows - 1) * total_columns + i].ch = ' ';` -/
def clearLast (i : ℕ) (t : Terminal) : Terminal :=
  let index := (toSizeT (lastRow t) + i) % 2 ^ 64
  -- the colours stay those of the line that was here
  writeCell t index { t.terminalBuffer index with ch := 32 }

/-- All lines go up by one row. -/
def moveLines (t : Terminal) : Terminal :=
  moveCells t 0 t.totalColumns (toSizeT (lastRow t) * cellBytes % 2 ^ 64)

def clearLastRow (t : Terminal) : Terminal := loop clearLast t.totalColumns t

/-- `terminal_scroll` -/
def terminalScroll (t : Terminal) : Terminal :=
  let t := clearLastRow (moveLines t)
  -- `current_row = total_rows - 1`, in 16 bits
  t.moveTo ((t.totalRows + 2 ^ 16 - 1) % 2 ^ 16) t.currentColumn

/-- `terminal_newline` -/
def terminalNewline (t : Terminal) : Terminal :=
  let t := t.moveTo ((t.currentRow + 1) % 2 ^ 16) 0
  if t.totalRows ≤ t.currentRow then terminalRender (terminalScroll t) else t

/-- `if (current_column >= total_columns) terminal_newline();` -/
def wrap (t : Terminal) : Terminal :=
  if t.totalColumns ≤ t.currentColumn then terminalNewline t else t

/-- `terminal_putchar` -/
def terminalPutchar (t : Terminal) (c : TermCell) : Terminal :=
  if c.ch = 10 then terminalNewline t
  else if c.ch = 9 then
    wrap (t.moveTo t.currentRow
      ((t.currentColumn + (tabWidth - t.currentColumn % tabWidth)) % 2 ^ 16))
  else
    let t := terminalPutentryat t c t.currentColumn t.currentRow
    wrap (t.moveTo t.currentRow ((t.currentColumn + 1) % 2 ^ 16))

/-- `terminal_write`, and `terminal_writestring` for the bytes of its string. -/
def terminalWrite (t : Terminal) (data : List UInt8) : Terminal :=
  data.foldl (fun t b => terminalPutchar t ⟨b, t.terminalFgColor, t.terminalBgColor⟩) t

/-- `terminal_clear` -/
def terminalClear (t : Terminal) : Terminal :=
  terminalRender ((fillBuffer ⟨32, 0xFFFFFF, 0x000035⟩ t).moveTo 0 0)

/-- `terminal_setcolor` -/
def terminalSetcolor (t : Terminal) (fg bg : BitVec 32) : Terminal :=
  { t with terminalFgColor := fg, terminalBgColor := bg }

/-- The calls of the terminal. -/
inductive Op
  | init (fg bg : BitVec 32)
  | putchar (c : TermCell)
  | newline
  | scroll
  | write (data : List UInt8)
  | clear
  | setcolor (fg bg : BitVec 32)
  | render

/-- One call. -/
def Op.run (t : Terminal) : Op → Terminal
  | init fg bg => terminalInitialize t fg bg
  | putchar c => terminalPutchar t c
  | newline => terminalNewline t
  | scroll => terminalScroll t
  | write data => terminalWrite t data
  | clear => terminalClear t
  | setcolor fg bg => terminalSetcolor t fg bg
  | render => terminalRender t

/-- Calls one after the other. -/
def terminalRun (t : Terminal) (ops : List Op) : Terminal := ops.foldl Op.run t

/-! ## What does not change -/

/-- The dimensions of the screen, in cells and in pixels. -/
def Terminal.frame (t : Terminal) : ℕ × ℕ × ℕ × ℕ × ℕ := (t.totalRows, t.totalColumns, t.fb.mode)

lemma rows_of_frame {t t' : Terminal} (h : t'.frame = t.frame) : t'.totalRows = t.totalRows :=
  congrArg (fun f => f.1) h

lemma columns_of_frame {t t' : Terminal} (h : t'.frame = t.frame) :
    t'.totalColumns = t.totalColumns := congrArg (fun f => f.2.1) h

lemma mode_of_frame {t t' : Terminal} (h : t'.frame = t.frame) : t'.fb.mode = t.fb.mode :=
  congrArg (fun f => f.2.2) h

lemma renderCell_tty (y x : ℕ) (t : Terminal) : (renderCell y x t).toTty = t.toTty := by
  unfold renderCell readCell
  rfl

lemma renderCell_frame (y x : ℕ) (t : Terminal) : (renderCell y x t).frame = t.frame := by
  unfold renderCell readCell Terminal.frame
  simp only [fbPutChar_mode]

lemma renderRow_tty (y : ℕ) (t : Terminal) : (renderRow y t).toTty = t.toTty :=
  loop_field _ (renderCell_tty y) _ t

/-- Drawing keeps the cells. -/
lemma terminalRender_tty (t : Terminal) : (terminalRender t).toTty = t.toTty :=
  loop_field _ renderRow_tty _ t

lemma renderRow_frame (y : ℕ) (t : Terminal) : (renderRow y t).frame = t.frame :=
  loop_field _ (renderCell_frame y) _ t

lemma terminalRender_frame (t : Terminal) : (terminalRender t).frame = t.frame :=
  loop_field _ renderRow_frame _ t

/-- Filling the buffer changes cells only. -/
lemma fillBuffer_tty (c : TermCell) (t : Terminal) : (fillBuffer c t).toTty =
    { t.toTty with terminalBuffer := fun i =>
        if i < toSizeT (t.totalRows * t.totalColumns) then c else t.terminalBuffer i } := by
  unfold fillBuffer
  refine loop_inv (P := fun n (t' : Terminal) => t'.toTty =
    { t.toTty with terminalBuffer := fun i => if i < n then c else t.terminalBuffer i }) ?_ ?_
  · simp
  · intro n _ t' ht'
    unfold writeCell
    rw [ht']
    simp only [Tty.mk.injEq, true_and]
    funext i
    rw [update_apply]
    by_cases hi : i = n
    · rw [if_pos hi, if_pos (by omega)]
    · rw [if_neg hi]
      by_cases hlt : i < n
      · rw [if_pos hlt, if_pos (by omega)]
      · rw [if_neg hlt, if_neg (by omega)]

lemma fillBuffer_frame (c : TermCell) (t : Terminal) : (fillBuffer c t).frame = t.frame :=
  loop_field (f := Terminal.frame) (fun i t => writeCell t i c) (fun _ _ => rfl) _ t

lemma moveTo_frame (t : Terminal) (row column : ℕ) : (t.moveTo row column).frame = t.frame := rfl

lemma moveTo_indices (t : Terminal) (row column : ℕ) : (t.moveTo row column).indices = t.indices :=
  rfl

lemma moveTo_buffer (t : Terminal) (row column : ℕ) :
    (t.moveTo row column).terminalBuffer = t.terminalBuffer := rfl

lemma moveTo_row (t : Terminal) (row column : ℕ) : (t.moveTo row column).currentRow = row := rfl

lemma moveTo_column (t : Terminal) (row column : ℕ) :
    (t.moveTo row column).currentColumn = column := rfl

lemma moveLines_frame (t : Terminal) : (moveLines t).frame = t.frame := by
  unfold moveLines moveCells
  rfl

lemma clearLast_frame (i : ℕ) (t : Terminal) : (clearLast i t).frame = t.frame := rfl

lemma clearLastRow_frame (t : Terminal) : (clearLastRow t).frame = t.frame :=
  loop_field clearLast clearLast_frame _ t

lemma terminalScroll_frame (t : Terminal) : (terminalScroll t).frame = t.frame := by
  unfold terminalScroll
  rw [moveTo_frame, clearLastRow_frame, moveLines_frame]

/-- The row is `total_rows - 1`. -/
lemma terminalScroll_row (t : Terminal) :
    (terminalScroll t).currentRow = (t.totalRows + 2 ^ 16 - 1) % 2 ^ 16 := by
  have hframe := (clearLastRow_frame (moveLines t)).trans (moveLines_frame t)
  unfold terminalScroll
  rw [moveTo_row, rows_of_frame hframe]

lemma terminalNewline_frame (t : Terminal) : (terminalNewline t).frame = t.frame := by
  unfold terminalNewline
  dsimp only
  split_ifs
  · exact (terminalRender_frame _).trans (terminalScroll_frame _)
  · rfl

lemma terminalPutentryat_frame (t : Terminal) (c : TermCell) (x y : ℕ) :
    (terminalPutentryat t c x y).frame = t.frame := by
  unfold terminalPutentryat
  split_ifs
  · rfl
  · unfold Terminal.frame
    simp only [fbPutChar_mode]
    rfl

/-- On the screen, one cell is written. -/
lemma terminalPutentryat_tty {t : Terminal} {x y : ℕ} (hx : x < t.totalColumns)
    (hy : y < t.totalRows) (c : TermCell) : (terminalPutentryat t c x y).toTty =
      { t.toTty with
        terminalBuffer := update t.terminalBuffer (y * t.totalColumns + x) c } := by
  unfold terminalPutentryat
  rw [if_neg (by omega)]
  rfl

/-- A cell after a write to a cell. -/
lemma update_cell (buffer : ℕ → TermCell) {columns x x' : ℕ} (hx : x < columns)
    (hx' : x' < columns) (y y' : ℕ) (c : TermCell) :
    update buffer (y * columns + x) c (y' * columns + x') =
      if x' = x ∧ y' = y then c else buffer (y' * columns + x') := by
  rw [update_apply]
  simp only [place_inj hx' hx]

lemma wrap_frame (t : Terminal) : (wrap t).frame = t.frame := by
  unfold wrap
  split_ifs
  · exact terminalNewline_frame t
  · rfl

lemma terminalPutchar_frame (t : Terminal) (c : TermCell) :
    (terminalPutchar t c).frame = t.frame := by
  unfold terminalPutchar
  split_ifs
  · exact terminalNewline_frame t
  · exact wrap_frame _
  · exact (wrap_frame _).trans (terminalPutentryat_frame t c _ _)

lemma terminalWrite_frame (t : Terminal) (data : List UInt8) :
    (terminalWrite t data).frame = t.frame := by
  unfold terminalWrite
  induction data generalizing t with
  | nil => rfl
  | cons b data ih => exact (ih _).trans (terminalPutchar_frame t _)

lemma terminalClear_frame (t : Terminal) : (terminalClear t).frame = t.frame :=
  (terminalRender_frame _).trans (fillBuffer_frame _ t)

/-- The screen after `terminal_initialize`. -/
lemma terminalInitialize_frame (t : Terminal) (fg bg : BitVec 32) :
    (terminalInitialize t fg bg).frame = (screenRows t.fb, screenColumns t.fb, t.fb.mode) :=
  (terminalRender_frame _).trans (fillBuffer_frame _ _)

/-- No operation but `terminal_initialize` changes the dimensions. -/
lemma Op.run_frame (t : Terminal) {op : Op} (hop : ∀ fg bg, op ≠ .init fg bg) :
    (op.run t).frame = t.frame := by
  cases op with
  | init fg bg => exact absurd rfl (hop fg bg)
  | putchar c => exact terminalPutchar_frame t c
  | newline => exact terminalNewline_frame t
  | scroll => exact terminalScroll_frame t
  | write data => exact terminalWrite_frame t data
  | clear => exact terminalClear_frame t
  | setcolor fg bg => rfl
  | render => exact terminalRender_frame t

lemma screenRows_of_mode {fb fb' : Framebuffer} (h : fb'.mode = fb.mode) :
    screenRows fb' = screenRows fb := congrArg (fun m => m.2.1 / fontHeight % 2 ^ 16) h

lemma screenColumns_of_mode {fb fb' : Framebuffer} (h : fb'.mode = fb.mode) :
    screenColumns fb' = screenColumns fb := congrArg (fun m => m.1 / fontWidth % 2 ^ 16) h

end LunOS.Console
