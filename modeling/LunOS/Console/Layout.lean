import LunOS.Console.Cells

/-!
# The text on the screen

What the terminal shows, as a function of the text alone: a text is laid out as lines, and the
screen shows the last of them.

- `Page`, `layout`: the lines of a text.
- `Draws`, `Shows`: the cells and the cursor are those of a page.
- `terminalPutchar_shows`: a character goes to the page and to the terminal in the same way.
- `terminalWrite_shows_tail`: the screen shows the end of what was written.
-/

namespace LunOS.Console
open LunOS.Loops LunOS.Klib List

/-! ## Pages -/

/-- The lines that are complete, and the one that is written to. -/
structure Page where
  done : List (List UInt8)
  current : List UInt8

namespace Page

/-- Nothing is written. -/
def empty : Page := ⟨[], []⟩

/-- The lines, the current one last. -/
def lines (p : Page) : List (List UInt8) := p.done ++ [p.current]

/-- The current line is done. -/
def newLine (p : Page) : Page := ⟨p.lines, []⟩

/-- Text is added to the current line, and a line that reaches the last column is complete. -/
def add (columns : ℕ) (p : Page) (text : List UInt8) : Page :=
  if columns ≤ (p.current ++ text).length then newLine ⟨p.done, p.current ++ text⟩
  else ⟨p.done, p.current ++ text⟩

/-- One byte of text. A tab is padded with blanks to the next multiple of eight. -/
def put (columns : ℕ) (p : Page) (ch : UInt8) : Page :=
  if ch = 10 then p.newLine
  else if ch = 9 then p.add columns (List.replicate (8 - p.current.length % 8) 32)
  else p.add columns [ch]

/-- The last lines of a page. -/
def tail (rows : ℕ) (p : Page) : List (List UInt8) := p.lines.drop (p.lines.length - rows)

/-- The character in a row and a column of a screen with the last lines; blank if there is none. -/
def shown (rows : ℕ) (p : Page) (r c : ℕ) : UInt8 := ((p.tail rows).getD r []).getD c 32

end Page

/-- The lines of a text. -/
def layout (columns : ℕ) (text : List UInt8) : Page := text.foldl (Page.put columns) .empty

example : (layout 10 [97, 9, 98, 10, 99]).lines = [[97, 32, 32, 32, 32, 32, 32, 32, 98], [99]] := by
  decide

variable {p : Page} {rows r c : ℕ}

/-- What is read behind the end does not change when the default is appended. -/
lemma getD_append_default {α : Type*} (l : List α) (n i : ℕ) (d : α) :
    (l ++ List.replicate n d).getD i d = l.getD i d := by
  simp only [getD_eq_getElem?_getD, List.getElem?_append, List.getElem?_replicate]
  split_ifs with hi hn
  · rfl
  · rw [List.getElem?_eq_none (by omega)]
    rfl
  · rw [List.getElem?_eq_none (by omega)]

lemma Page.lines_length (p : Page) : p.lines.length = p.done.length + 1 := by
  unfold Page.lines
  rw [length_append, length_singleton]

/-- The line in a row. -/
lemma Page.shown_eq (rows : ℕ) (p : Page) (r c : ℕ) : p.shown rows r c =
    (p.lines.getD (p.done.length + 1 - rows + r) []).getD c 32 := by
  have hline : ∀ n, (p.lines.drop n).getD r [] = p.lines.getD (n + r) [] := by
    intro n
    rw [getD_eq_getElem?_getD, List.getElem?_drop, ← getD_eq_getElem?_getD]
  unfold Page.shown Page.tail
  rw [hline, p.lines_length]

/-- The row with the cursor shows the current line. -/
lemma Page.shown_current (hr : r < rows) (hrow : r = min p.done.length (rows - 1)) :
    p.shown rows r c = p.current.getD c 32 := by
  have hindex : p.done.length + 1 - rows + r = p.done.length := by omega
  rw [Page.shown_eq, hindex]
  unfold Page.lines
  simp

/-- The other rows do not depend on it. -/
lemma Page.shown_other {current : List UInt8}
    (hrow : r ≠ min p.done.length (rows - 1)) :
    Page.shown rows ⟨p.done, current⟩ r c = p.shown rows r c := by
  have hindex : p.done.length + 1 - rows + r ≠ p.done.length := by omega
  have hsame : ∀ l : List UInt8, (p.done ++ [l])[p.done.length + 1 - rows + r]? =
      p.done[p.done.length + 1 - rows + r]? := by
    intro l
    rcases Nat.lt_or_gt_of_ne hindex with hlt | hgt
    · exact List.getElem?_append_left hlt
    · rw [List.getElem?_eq_none (by rw [length_append, length_singleton]; omega),
        List.getElem?_eq_none (by omega)]
  rw [Page.shown_eq, Page.shown_eq]
  unfold Page.lines
  simp only [getD_eq_getElem?_getD, hsame]

/-- A new line moves the lines up by one row once the screen is full. -/
lemma Page.shown_newLine (rows : ℕ) (p : Page) (r c : ℕ) : p.newLine.shown rows r c =
    (p.lines.getD (p.done.length + 2 - rows + r) []).getD c 32 := by
  have hlines : p.newLine.lines = p.lines ++ List.replicate 1 [] := rfl
  have hdone : p.newLine.done.length = p.done.length + 1 := p.lines_length
  rw [Page.shown_eq, hlines, getD_append_default, hdone]

lemma Page.shown_newLine_last (hrows : 1 ≤ rows) (hfull : rows ≤ p.done.length + 1) :
    p.newLine.shown rows (rows - 1) c = 32 := by
  have hindex : p.done.length + 2 - rows + (rows - 1) = p.lines.length := by
    rw [p.lines_length]
    omega
  have hnone : p.lines.getD p.lines.length [] = [] := getD_eq_default _ _ le_rfl
  rw [Page.shown_newLine, hindex, hnone]
  rfl

lemma Page.shown_newLine_up (hfull : rows ≤ p.done.length + 1) :
    p.newLine.shown rows r c = p.shown rows (r + 1) c := by
  have hindex : p.done.length + 2 - rows + r = p.done.length + 1 - rows + (r + 1) := by omega
  rw [Page.shown_newLine, Page.shown_eq, hindex]

lemma Page.shown_newLine_same (hroom : p.done.length + 1 < rows) :
    p.newLine.shown rows r c = p.shown rows r c := by
  have hindex : p.done.length + 2 - rows + r = p.done.length + 1 - rows + r := by omega
  rw [Page.shown_newLine, Page.shown_eq, hindex]

/-- Blanks at the end of a line do not show. -/
lemma Page.shown_blanks (hr : r < rows) (n : ℕ) :
    Page.shown rows ⟨p.done, p.current ++ List.replicate n 32⟩ r c = p.shown rows r c := by
  by_cases hrow : r = min p.done.length (rows - 1)
  · have hblanks := Page.shown_current (p := ⟨p.done, p.current ++ List.replicate n 32⟩) (c := c)
      hr hrow
    rw [hblanks, Page.shown_current hr hrow, getD_append_default]
  · exact Page.shown_other hrow

/-! ## Scrolling -/

variable {t : Terminal} {n : ℕ}

section
variable (hcells : t.totalRows * t.totalColumns ≤ bufferCells)
include hcells

/-- The last row gets blanks. -/
lemma clearLastRow_buffer (hrows : t.totalRows = n + 1) (i : ℕ) :
    (clearLastRow t).terminalBuffer i =
      if n * t.totalColumns ≤ i ∧ i < n * t.totalColumns + t.totalColumns then
        { t.terminalBuffer i with ch := 32 }
      else t.terminalBuffer i := by
  have hlast := toSizeT_lastRow hrows hcells
  rw [hrows, Nat.succ_mul] at hcells
  unfold bufferCells at hcells
  -- behind `k` turns the first `k` cells of the row are cleared
  refine (loop_inv (P := fun k (t' : Terminal) => t'.frame = t.frame ∧ t'.terminalBuffer i =
    if n * t.totalColumns ≤ i ∧ i < n * t.totalColumns + k then { t.terminalBuffer i with ch := 32 }
    else t.terminalBuffer i) ⟨rfl, by rw [if_neg (by omega)]⟩ ?_).2
  rintro k hk t' ⟨hframe, hbuffer⟩
  have hindex : (toSizeT (lastRow t') + k) % 2 ^ 64 = n * t.totalColumns + k := by
    rw [lastRow_of_frame hframe, hlast]
    exact Nat.mod_eq_of_lt (by omega)
  refine ⟨(clearLast_frame k t').trans hframe, ?_⟩
  unfold clearLast writeCell
  dsimp only
  rw [hindex, Function.update_apply]
  by_cases hi : i = n * t.totalColumns + k
  · rw [if_pos hi, if_pos (by omega), ← hi, hbuffer, if_neg (by omega)]
  · rw [if_neg hi, hbuffer]
    by_cases hdone : n * t.totalColumns ≤ i ∧ i < n * t.totalColumns + k
    · rw [if_pos hdone, if_pos (by omega)]
    · rw [if_neg hdone, if_neg (by omega)]

/-- The other rows move up. -/
lemma moveLines_buffer (hrows : t.totalRows = n + 1) (i : ℕ) : (moveLines t).terminalBuffer i =
      if i < n * t.totalColumns then t.terminalBuffer (t.totalColumns + i)
      else t.terminalBuffer i := by
  have hlast := toSizeT_lastRow hrows hcells
  have hsize : toSizeT (lastRow t) * cellBytes % 2 ^ 64 / cellBytes = n * t.totalColumns := by
    rw [hlast]
    rw [hrows, Nat.succ_mul] at hcells
    unfold cellBytes bufferCells at *
    omega
  unfold moveLines moveCells
  dsimp only
  rw [hsize, memmove_apply, Nat.zero_add, Nat.sub_zero]
  simp only [Nat.zero_le, true_and]

/-- Every row shows what the row below it showed, and the last one is blank. -/
lemma terminalScroll_ch (hrows : t.totalRows = n + 1) (hr : r ≤ n) (hc : c < t.totalColumns) :
    ((terminalScroll t).terminalBuffer (r * t.totalColumns + c)).ch =
      if r = n then 32 else (t.terminalBuffer ((r + 1) * t.totalColumns + c)).ch := by
  have hframe := moveLines_frame t
  have hcells' : (moveLines t).totalRows * (moveLines t).totalColumns ≤ bufferCells := by
    rw [rows_of_frame hframe, columns_of_frame hframe]
    exact hcells
  have hclear := clearLastRow_buffer hcells' ((rows_of_frame hframe).trans hrows)
    (r * t.totalColumns + c)
  rw [columns_of_frame hframe] at hclear
  unfold terminalScroll
  rw [moveTo_buffer, hclear]
  by_cases hlast : r = n
  · rw [if_pos hlast, if_pos (by rw [hlast]; omega)]
  · have hbelow : (r + 1) * t.totalColumns ≤ n * t.totalColumns :=
      Nat.mul_le_mul_right _ (by omega)
    rw [Nat.succ_mul] at hbelow ⊢
    rw [if_neg hlast, if_neg (by omega), moveLines_buffer hcells hrows, if_pos (by omega)]
    congr 2
    omega

/-- In bytes: the cells are read from the memory after the `memmove`. -/
lemma moveLines_bytes (hrows : t.totalRows = n + 1) (f : (Fin cellBytes → UInt8) → TermCell)
    {m : ℕ → UInt8} (hm : t.terminalBuffer = view cellBytes f m) : (moveLines t).terminalBuffer =
      view cellBytes f
        (memmove m 0 (cellBytes * t.totalColumns) (cellBytes * (n * t.totalColumns))) := by
  funext i
  rw [moveLines_buffer hcells hrows]
  have hview := congrFun (memmove_view cellBytes f m 0 t.totalColumns (n * t.totalColumns)) i
  rw [Nat.mul_zero] at hview
  rw [hview, memmove_apply, hm, Nat.zero_add, Nat.sub_zero]
  simp only [Nat.zero_le, true_and]

end

/-! ## The page on the screen -/

/-- The cells show a page, and the cursor is in the row of its current line. -/
structure Draws (p : Page) (t : Terminal) : Prop where
  row : t.currentRow = min p.done.length (t.totalRows - 1)
  cells : ∀ r < t.totalRows, ∀ c < t.totalColumns,
    (t.terminalBuffer (r * t.totalColumns + c)).ch = p.shown t.totalRows r c

/-- The cursor is behind the current line as well, inside of the screen. -/
structure Shows (p : Page) (t : Terminal) : Prop extends Draws p t where
  column : t.currentColumn = p.current.length
  inside : p.current.length < t.totalColumns

/-- The screens in question. -/
structure Usable (t : Terminal) : Prop where
  rows : 1 ≤ t.totalRows
  columns : 1 ≤ t.totalColumns
  cells : t.totalRows * t.totalColumns ≤ bufferCells

lemma Usable.of_frame {t' : Terminal} (h : Usable t) (hframe : t'.frame = t.frame) : Usable t' := by
  have hrows := rows_of_frame hframe
  have hcolumns := columns_of_frame hframe
  refine ⟨?_, ?_, ?_⟩
  · rw [hrows]
    exact h.rows
  · rw [hcolumns]
    exact h.columns
  · rw [hrows, hcolumns]
    exact h.cells

/-- The dimensions are small. -/
lemma Usable.le (h : Usable t) : t.totalRows ≤ bufferCells ∧ t.totalColumns ≤ bufferCells :=
  ⟨(Nat.le_mul_of_pos_right _ h.columns).trans h.cells,
    (Nat.le_mul_of_pos_left _ h.rows).trans h.cells⟩

lemma Shows.of_tty {t' : Terminal} (h : Shows p t) (htty : t'.toTty = t.toTty) : Shows p t' := by
  obtain ⟨⟨hrow, hcells⟩, hcolumn, hinside⟩ := h
  rw [← htty] at hrow hcells hcolumn hinside
  exact ⟨⟨hrow, hcells⟩, hcolumn, hinside⟩

section
variable (hu : Usable t)
include hu

lemma Draws.row_lt (h : Draws p t) : t.currentRow < t.totalRows := by
  have hrows := hu.rows
  rw [h.row]
  omega

lemma Usable.scroll_row : (terminalScroll t).currentRow = t.totalRows - 1 := by
  have hsmall := hu.le.1
  have hrows := hu.rows
  unfold bufferCells at hsmall
  rw [terminalScroll_row]
  omega

/-- A new line, wherever the cursor is in its row. -/
lemma terminalNewline_shows (h : Draws p t) : Shows p.newLine (terminalNewline t) := by
  have hrow := h.row
  have hsmall := hu.le.1
  have hrows := hu.rows
  have hlt := h.row_lt hu
  have hdone : p.newLine.done.length = p.done.length + 1 := p.lines_length
  have hnext : (t.currentRow + 1) % 2 ^ 16 = t.currentRow + 1 := by
    unfold bufferCells at hsmall
    exact Nat.mod_eq_of_lt (by omega)
  unfold terminalNewline
  dsimp only
  rw [hnext]
  split_ifs with hbelow
  · -- the page is full: every row takes the line of the next one
    have hfull : t.totalRows ≤ p.done.length + 1 := by
      have : t.totalRows ≤ t.currentRow + 1 := hbelow
      omega
    have hu' : Usable (t.moveTo (t.currentRow + 1) 0) := hu.of_frame (moveTo_frame _ _ _)
    have hframe := terminalScroll_frame (t.moveTo (t.currentRow + 1) 0)
    refine Shows.of_tty ⟨⟨?_, ?_⟩, ?_, ?_⟩ (terminalRender_tty _)
    · rw [hu'.scroll_row, rows_of_frame hframe, rows_of_frame (moveTo_frame _ _ _), hdone]
      omega
    · rw [rows_of_frame hframe, columns_of_frame hframe, rows_of_frame (moveTo_frame _ _ _),
        columns_of_frame (moveTo_frame _ _ _)]
      intro r hr c hc
      obtain ⟨n, hn⟩ := Nat.exists_eq_add_of_le' hrows
      refine (terminalScroll_ch hu'.cells hn (by omega) hc).trans ?_
      by_cases hlast : r = n
      · have hr' : r = t.totalRows - 1 := by omega
        rw [if_pos hlast, hr', Page.shown_newLine_last hrows hfull]
      · rw [if_neg hlast, Page.shown_newLine_up hfull]
        exact h.cells (r + 1) (by omega) c hc
    · rw [terminalScroll_column]
      rfl
    · rw [columns_of_frame hframe]
      exact hu.columns
  · -- the line that ends keeps its row
    have hroom : p.done.length + 1 < t.totalRows := by
      have : ¬t.totalRows ≤ t.currentRow + 1 := hbelow
      omega
    refine ⟨⟨?_, ?_⟩, rfl, hu.columns⟩
    · have hmin : t.currentRow + 1 = min (p.done.length + 1) (t.totalRows - 1) := by omega
      rw [hdone]
      exact hmin
    · intro r hr c hc
      exact (h.cells r hr c hc).trans (Page.shown_newLine_same hroom).symm

/-- The end of a character: text was added to the current line, and the cursor is behind it. -/
lemma wrap_shows (h : Draws p t) (hcolumn : t.currentColumn = p.current.length) :
    Shows (if t.totalColumns ≤ p.current.length then p.newLine else p) (wrap t) := by
  unfold wrap
  rw [hcolumn]
  split_ifs with hwrap
  · exact terminalNewline_shows hu h
  · exact ⟨h, hcolumn, by omega⟩

/-- A character goes to the end of the current line. -/
lemma terminalPutentryat_draws (h : Shows p t) (cell : TermCell) :
    Draws ⟨p.done, p.current ++ [cell.ch]⟩
      (terminalPutentryat t cell t.currentColumn t.currentRow) := by
  have hrow := h.row
  have hcolumn := h.column
  have hcol : t.currentColumn < t.totalColumns := hcolumn ▸ h.inside
  have htty := terminalPutentryat_tty hcol (h.toDraws.row_lt hu) cell
  constructor
  · rw [htty]
    exact hrow
  · rw [htty]
    dsimp only
    intro r hr c hc
    rw [update_cell _ hcol hc]
    by_cases hr' : r = t.currentRow
    · have hnew := Page.shown_current (p := ⟨p.done, p.current ++ [cell.ch]⟩) (c := c) hr
        (hr'.trans hrow)
      rw [hnew]
      by_cases hc' : c = t.currentColumn
      · rw [if_pos ⟨hc', hr'⟩, hc', hcolumn]
        simp
      · rw [if_neg (fun hboth => hc' hboth.1), h.cells r hr c hc,
          Page.shown_current hr (hr'.trans hrow)]
        simp only [getD_eq_getElem?_getD, List.getElem?_append]
        split_ifs with hlen
        · rfl
        · rw [List.getElem?_eq_none (by omega), List.getElem?_eq_none]
          rw [length_singleton]
          omega
    · rw [if_neg (fun hboth => hr' hboth.2), h.cells r hr c hc]
      exact (Page.shown_other (fun heq => hr' (heq.trans hrow.symm))).symm

/-- One byte of text. -/
lemma terminalPutchar_shows (h : Shows p t) (cell : TermCell) :
    Shows (p.put t.totalColumns cell.ch) (terminalPutchar t cell) := by
  have hcolumn := h.column
  have hinside := h.inside
  have hsmall := hu.le.2
  unfold bufferCells at hsmall
  unfold terminalPutchar Page.put Page.add
  by_cases hnewline : cell.ch = 10
  · rw [if_pos hnewline, if_pos hnewline]
    exact terminalNewline_shows hu h.toDraws
  rw [if_neg hnewline, if_neg hnewline]
  by_cases htab : cell.ch = 9
  · rw [if_pos htab, if_pos htab]
    have hblank : Draws ⟨p.done, p.current ++ List.replicate (8 - p.current.length % 8) 32⟩
        (t.moveTo t.currentRow
          ((t.currentColumn + (tabWidth - t.currentColumn % tabWidth)) % 2 ^ 16)) :=
      ⟨h.row, fun r hr c hc => (h.cells r hr c hc).trans (Page.shown_blanks hr _).symm⟩
    refine wrap_shows (hu.of_frame (moveTo_frame _ _ _)) hblank ?_
    rw [moveTo_column, hcolumn, length_append, length_replicate]
    unfold tabWidth
    omega
  · rw [if_neg htab, if_neg htab]
    have hframe := terminalPutentryat_frame t cell t.currentColumn t.currentRow
    have hdraws := terminalPutentryat_draws hu h cell
    have hcols := columns_of_frame hframe
    have hwrap := wrap_shows (t := (terminalPutentryat t cell t.currentColumn t.currentRow).moveTo
      (terminalPutentryat t cell t.currentColumn t.currentRow).currentRow
      (((terminalPutentryat t cell t.currentColumn t.currentRow).currentColumn + 1) % 2 ^ 16))
      (hu.of_frame hframe) ⟨hdraws.row, hdraws.cells⟩ ?_
    · rw [columns_of_frame (moveTo_frame _ _ _), hcols] at hwrap
      exact hwrap
    · rw [moveTo_column, terminalPutentryat_column, hcolumn, length_append]
      exact Nat.mod_eq_of_lt (by omega)

/-! ## Writing -/

/-- A text is put on the page. -/
lemma terminalWrite_shows (h : Shows p t) (data : List UInt8) :
    Shows (data.foldl (Page.put t.totalColumns) p) (terminalWrite t data) := by
  unfold terminalWrite
  induction data generalizing t p with
  | nil => exact h
  | cons b data ih =>
    have hframe := terminalPutchar_frame t ⟨b, t.terminalFgColor, t.terminalBgColor⟩
    have hstep := terminalPutchar_shows hu h ⟨b, t.terminalFgColor, t.terminalBgColor⟩
    have hrest := ih (hu.of_frame hframe) hstep
    rw [columns_of_frame hframe] at hrest
    exact hrest

/-- So are texts in a row. -/
lemma terminalWrites_shows (h : Shows p t) (writes : List (List UInt8)) :
    (writes.foldl terminalWrite t).frame = t.frame ∧
    Shows (writes.flatten.foldl (Page.put t.totalColumns) p) (writes.foldl terminalWrite t) := by
  induction writes generalizing t p with
  | nil => exact ⟨rfl, h⟩
  | cons data writes ih =>
    have hframe := terminalWrite_frame t data
    obtain ⟨hrest, hshows⟩ := ih (hu.of_frame hframe) (terminalWrite_shows hu h data)
    rw [columns_of_frame hframe] at hshows
    rw [flatten_cons, foldl_append]
    exact ⟨hrest.trans hframe, hshows⟩

end

/-! ## The beginning -/

lemma Page.shown_empty (rows r c : ℕ) : Page.empty.shown rows r c = 32 := by
  rw [Page.shown_eq]
  unfold Page.lines Page.empty
  simp only [nil_append]
  cases 0 + 1 - rows + r <;> simp

lemma toSizeT_cells {n : ℕ} (hn : n ≤ bufferCells) : toSizeT n = n := by
  unfold bufferCells at hn
  have hsame := toSizeT_of_range (n := n) (by omega) (by omega)
  omega

/-- A screen that was filled with blanks, with the cursor at its beginning. -/
lemma fillBuffer_shows (hu : Usable t) {cell : TermCell} (hcell : cell.ch = 32) :
    Shows .empty ((fillBuffer cell t).moveTo 0 0) := by
  have htty := fillBuffer_tty cell t
  have hframe := fillBuffer_frame cell t
  have hsize : toSizeT (t.totalRows * t.totalColumns) = t.totalRows * t.totalColumns := by
    have hcells := toSizeT_cells hu.cells
    push_cast at hcells
    exact hcells
  refine ⟨⟨?_, ?_⟩, rfl, ?_⟩
  · exact (Nat.zero_min _).symm
  · rw [rows_of_frame (moveTo_frame _ _ _), columns_of_frame (moveTo_frame _ _ _),
      rows_of_frame hframe, columns_of_frame hframe]
    intro r hr c hc
    have hlast : (r + 1) * t.totalColumns ≤ t.totalRows * t.totalColumns :=
      Nat.mul_le_mul_right _ hr
    rw [Nat.succ_mul] at hlast
    have hfilled : (fillBuffer cell t).terminalBuffer (r * t.totalColumns + c) = cell := by
      rw [htty]
      dsimp only
      rw [hsize, if_pos (by omega)]
    rw [Page.shown_empty]
    exact (congrArg TermCell.ch hfilled).trans hcell
  · rw [columns_of_frame (moveTo_frame _ _ _), columns_of_frame hframe]
    exact hu.columns

/-- The terminal right after `terminal_initialize` or `terminal_clear`, with a screen of these
dimensions. -/
inductive Fresh (rows columns : ℕ) : Terminal → Prop
  | init {t : Terminal} (fg bg : BitVec 32) : screenRows t.fb = rows →
      screenColumns t.fb = columns → Fresh rows columns (terminalInitialize t fg bg)
  | clear {t : Terminal} : t.totalRows = rows → t.totalColumns = columns →
      Fresh rows columns (terminalClear t)

/-- Filling the buffer leaves the cursor where it is. -/
lemma fillBuffer_moveTo (cell : TermCell) (hrow : t.currentRow = 0) (hcolumn : t.currentColumn = 0) :
    (fillBuffer cell t).toTty = ((fillBuffer cell t).moveTo 0 0).toTty := by
  unfold Terminal.moveTo
  rw [fillBuffer_tty]
  dsimp only
  rw [hrow, hcolumn]

/-- A new screen is an empty page. -/
lemma Fresh.shows {rows columns : ℕ} (hrows : 1 ≤ rows) (hcolumns : 1 ≤ columns)
    (hcells : rows * columns ≤ bufferCells) (h : Fresh rows columns t) :
    Shows .empty t ∧ t.totalRows = rows ∧ t.totalColumns = columns := by
  cases h with
  | @init t fg bg hr hc =>
    subst hr hc
    have hframe := terminalInitialize_frame t fg bg
    refine ⟨?_, congrArg (fun f => f.1) hframe, congrArg (fun f => f.2.1) hframe⟩
    refine Shows.of_tty ?_ ((terminalRender_tty _).trans (fillBuffer_moveTo _ rfl rfl))
    exact fillBuffer_shows ⟨hrows, hcolumns, hcells⟩ rfl
  | @clear t hr hc =>
    subst hr hc
    have hframe := terminalClear_frame t
    refine ⟨?_, rows_of_frame hframe, columns_of_frame hframe⟩
    exact (fillBuffer_shows ⟨hrows, hcolumns, hcells⟩ rfl).of_tty (terminalRender_tty _)

/-- After `terminal_initialize` or `terminal_clear` the screen shows the last lines of the text that
was written, however it is divided into calls, and the cursor is on the screen. -/
theorem terminalWrite_shows_tail {rows columns : ℕ} (hrows : 1 ≤ rows) (hcolumns : 1 ≤ columns)
    (hcells : rows * columns ≤ 240 * 135) {start : Terminal} (hstart : Fresh rows columns start)
    (writes : List (List UInt8)) :
    (∀ r < rows, ∀ c < columns,
      ((writes.foldl terminalWrite start).terminalBuffer (r * columns + c)).ch =
        (layout columns writes.flatten).shown rows r c) ∧
    (writes.foldl terminalWrite start).currentRow < rows ∧
    (writes.foldl terminalWrite start).currentColumn < columns := by
  obtain ⟨hempty, rfl, rfl⟩ := hstart.shows hrows hcolumns hcells
  have hu : Usable start := ⟨hrows, hcolumns, hcells⟩
  obtain ⟨hframe, hshows⟩ := terminalWrites_shows hu hempty writes
  have hrow := hshows.toDraws.row_lt (hu.of_frame hframe)
  have hcolumn := hshows.inside
  have hdrawn := hshows.cells
  rw [← hshows.column] at hcolumn
  rw [rows_of_frame hframe] at hrow hdrawn
  rw [columns_of_frame hframe] at hcolumn hdrawn
  exact ⟨hdrawn, hrow, hcolumn⟩

/-- Three lines on a screen with two rows. -/
theorem terminalWrite_shows_tail_sample :
    ((([[97, 9], [98, 10, 99, 10, 100]] : List (List UInt8)).foldl terminalWrite
      (terminalInitialize (Terminal.boot ⟨80, 16, 320, fun _ => 0⟩) 1 0)).terminalBuffer 0).ch =
        99 := by
  have hfresh : Fresh 2 10 (terminalInitialize (Terminal.boot ⟨80, 16, 320, fun _ => 0⟩) 1 0) :=
    .init 1 0 (by decide) (by decide)
  obtain ⟨hcells, -, -⟩ := terminalWrite_shows_tail (by decide) (by decide) (by decide) hfresh
    [[97, 9], [98, 10, 99, 10, 100]]
  exact hcells 0 (by decide) 0 (by decide)

end LunOS.Console
