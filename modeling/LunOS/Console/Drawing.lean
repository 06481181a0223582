import LunOS.Console.Cells

/-!
# Drawing

The pixels of the grid of cells are those that `terminal_render` draws: writing a character draws its
cell, and everything that changes more cells than one draws all of them.

- `Drawn`: every pixel of the grid is the one of the cell in the buffer.
- `terminalRender_drawn`: whatever was on the screen, `terminal_render` makes it so.
- `terminalRun_drawn`: it stays so, and `terminal_render` changes no pixel of the grid. Only
  `terminal_scroll` by itself leaves the drawing to its caller; the next new line makes up for it.
-/

namespace LunOS.Console
open LunOS.Loops LunOS.Klib

/-- The grid of cells is in the framebuffer. -/
def InGrid (t : Terminal) : Prop :=
  t.fb.Fits (t.totalColumns * fontWidth) (t.totalRows * fontHeight)

/-- The pixel of a cell. -/
def cellPixel (cell : TermCell) (x y : ℕ) : BitVec 32 := glyphColor cell.ch cell.fg cell.bg y x

/-- The cell that a pixel is in. -/
def cellAt (t : Terminal) (px py : ℕ) : TermCell :=
  t.terminalBuffer (py / fontHeight * t.totalColumns + px / fontWidth)

/-- The pixels of every cell on the screen are those of its character. -/
def Drawn (t : Terminal) : Prop :=
  ∀ px < t.totalColumns * fontWidth, ∀ py < t.totalRows * fontHeight,
    t.fb.pixels (t.fb.index px py) = cellPixel (cellAt t px py) (px % fontWidth) (py % fontHeight)

variable {t t' : Terminal} {x y px py : ℕ}

lemma InGrid.of_frame (h : InGrid t) (hframe : t'.frame = t.frame) : InGrid t' := by
  unfold InGrid
  rw [rows_of_frame hframe, columns_of_frame hframe]
  exact Framebuffer.Fits.of_mode h (mode_of_frame hframe)

lemma pixel_of_frame (hframe : t'.frame = t.frame) (hpx : px < t.totalColumns * fontWidth)
    (hpy : py < t.totalRows * fontHeight) :
    px < t'.totalColumns * fontWidth ∧ py < t'.totalRows * fontHeight := by
  rw [rows_of_frame hframe, columns_of_frame hframe]
  exact ⟨hpx, hpy⟩

lemma column_of_pixel (hpx : px < t.totalColumns * fontWidth) : px / fontWidth < t.totalColumns :=
  Nat.div_lt_of_lt_mul (hpx.trans_eq (mul_comm _ _))

lemma row_of_pixel (hpy : py < t.totalRows * fontHeight) : py / fontHeight < t.totalRows :=
  Nat.div_lt_of_lt_mul (hpy.trans_eq (mul_comm _ _))

lemma cellAt_of_tty (htty : t'.toTty = t.toTty) (px py : ℕ) : cellAt t' px py = cellAt t px py := by
  unfold cellAt
  rw [htty]

/-! ## One cell -/

section
variable (h : InGrid t)
include h

section
variable (hpx : px < t.totalColumns * fontWidth) (hpy : py < t.totalRows * fontHeight)
include hpx hpy

/-- A character in a cell of the grid. -/
lemma fbPutChar_cell (hx : x < t.totalColumns) (hy : y < t.totalRows) (cell : TermCell) :
    (fbPutChar t.fb cell.ch (x * fontWidth % 2 ^ 32) (y * fontHeight % 2 ^ 32) cell.fg
      cell.bg).pixels (t.fb.index px py) =
      if px / fontWidth = x ∧ py / fontHeight = y then
        cellPixel cell (px % fontWidth) (py % fontHeight)
      else t.fb.pixels (t.fb.index px py) := by
  obtain ⟨hwide, hhigh⟩ := h.small
  unfold fontWidth fontHeight at *
  have hxs : x * 8 % 2 ^ 32 = x * 8 := Nat.mod_eq_of_lt (by omega)
  have hys : y * 8 % 2 ^ 32 = y * 8 := Nat.mod_eq_of_lt (by omega)
  have hx' : x * 8 + fontWidth ≤ t.totalColumns * 8 := by
    unfold fontWidth
    omega
  have hy' : y * 8 + fontHeight ≤ t.totalRows * 8 := by
    unfold fontHeight
    omega
  have hdraw := fbPutChar_apply cell.ch cell.fg cell.bg h hx' hy' hpx hpy
  rw [hxs, hys, hdraw]
  unfold cellPixel fontWidth fontHeight
  by_cases hcell : px / 8 = x ∧ py / 8 = y
  · have hrow : py - y * 8 = py % 8 := by omega
    have hcol : px - x * 8 = px % 8 := by omega
    rw [if_pos hcell, if_pos (by omega), hrow, hcol]
  · rw [if_neg hcell, if_neg (by omega)]

/-- Drawing a cell, pixel by pixel. -/
lemma renderCell_pixels (hx : x < t.totalColumns) (hy : y < t.totalRows) :
    (renderCell y x t).fb.pixels (t.fb.index px py) =
      if px / fontWidth = x ∧ py / fontHeight = y then
        cellPixel (cellAt t px py) (px % fontWidth) (py % fontHeight)
      else t.fb.pixels (t.fb.index px py) := by
  have hcell := fbPutChar_cell h hpx hpy hx hy (t.terminalBuffer (y * t.totalColumns + x))
  unfold renderCell readCell
  dsimp only
  rw [hcell]
  by_cases hthis : px / fontWidth = x ∧ py / fontHeight = y
  · rw [if_pos hthis, if_pos hthis]
    unfold cellAt
    rw [hthis.1, hthis.2]
  · rw [if_neg hthis, if_neg hthis]

/-! ## The whole screen -/

/-- Behind some cells of a row. The buffer and the dimensions stay as they are. -/
lemma renderRow_pixels (hy : y < t.totalRows) :
    (renderRow y t).fb.pixels (t.fb.index px py) =
      if py / fontHeight = y then cellPixel (cellAt t px py) (px % fontWidth) (py % fontHeight)
      else t.fb.pixels (t.fb.index px py) := by
  have hloop : (renderRow y t).toTty = t.toTty ∧ (renderRow y t).frame = t.frame ∧
      (renderRow y t).fb.pixels (t.fb.index px py) =
        if px / fontWidth < t.totalColumns ∧ py / fontHeight = y then
          cellPixel (cellAt t px py) (px % fontWidth) (py % fontHeight)
        else t.fb.pixels (t.fb.index px py) := by
    refine loop_inv (P := fun i (t' : Terminal) => t'.toTty = t.toTty ∧ t'.frame = t.frame ∧
      t'.fb.pixels (t.fb.index px py) = if px / fontWidth < i ∧ py / fontHeight = y then
        cellPixel (cellAt t px py) (px % fontWidth) (py % fontHeight)
      else t.fb.pixels (t.fb.index px py)) ⟨rfl, rfl, ?_⟩ ?_
    · rw [if_neg fun hlt => absurd hlt.1 (Nat.not_lt_zero _)]
    · rintro x hx t' ⟨htty, hframe, hpixels⟩
      refine ⟨(renderCell_tty y x t').trans htty, (renderCell_frame y x t').trans hframe, ?_⟩
      obtain ⟨hpx', hpy'⟩ := pixel_of_frame hframe hpx hpy
      have hcell := renderCell_pixels (h.of_frame hframe) hpx' hpy'
        (hx.trans_eq (columns_of_frame hframe).symm) (hy.trans_eq (rows_of_frame hframe).symm)
      rw [index_of_mode (mode_of_frame hframe), cellAt_of_tty htty, hpixels] at hcell
      rw [hcell]
      -- the pixel is in this cell, in one of the cells before it, or in a later one
      by_cases hthis : px / fontWidth = x ∧ py / fontHeight = y
      · rw [if_pos hthis, if_pos (by omega)]
      · rw [if_neg hthis]
        by_cases hdone : px / fontWidth < x ∧ py / fontHeight = y
        · rw [if_pos hdone, if_pos (by omega)]
        · rw [if_neg hdone, if_neg (by omega)]
  have hcolumn := column_of_pixel hpx
  rw [hloop.2.2]
  simp only [hcolumn, true_and]

/-- `terminal_render` draws every cell, whatever was on the screen. -/
lemma terminalRender_pixels :
    (terminalRender t).fb.pixels (t.fb.index px py) =
      cellPixel (cellAt t px py) (px % fontWidth) (py % fontHeight) := by
  have hloop : (terminalRender t).toTty = t.toTty ∧ (terminalRender t).frame = t.frame ∧
      (terminalRender t).fb.pixels (t.fb.index px py) =
        if py / fontHeight < t.totalRows then
          cellPixel (cellAt t px py) (px % fontWidth) (py % fontHeight)
        else t.fb.pixels (t.fb.index px py) := by
    refine loop_inv (P := fun i (t' : Terminal) => t'.toTty = t.toTty ∧ t'.frame = t.frame ∧
      t'.fb.pixels (t.fb.index px py) = if py / fontHeight < i then
        cellPixel (cellAt t px py) (px % fontWidth) (py % fontHeight)
      else t.fb.pixels (t.fb.index px py)) ⟨rfl, rfl, ?_⟩ ?_
    · rw [if_neg (Nat.not_lt_zero _)]
    · rintro y hy t' ⟨htty, hframe, hpixels⟩
      refine ⟨(renderRow_tty y t').trans htty, (renderRow_frame y t').trans hframe, ?_⟩
      obtain ⟨hpx', hpy'⟩ := pixel_of_frame hframe hpx hpy
      have hrow := renderRow_pixels (h.of_frame hframe) hpx' hpy'
        (hy.trans_eq (rows_of_frame hframe).symm)
      rw [index_of_mode (mode_of_frame hframe), cellAt_of_tty htty, hpixels] at hrow
      rw [hrow]
      by_cases hthis : py / fontHeight = y
      · rw [if_pos hthis, if_pos (by omega)]
      · rw [if_neg hthis]
        by_cases hdone : py / fontHeight < y
        · rw [if_pos hdone, if_pos (by omega)]
        · rw [if_neg hdone, if_neg (by omega)]
  rw [hloop.2.2, if_pos (row_of_pixel hpy)]

end

/-- `terminal_render` draws all cells. -/
lemma terminalRender_drawn : Drawn (terminalRender t) := by
  have hframe := terminalRender_frame t
  intro px hpx py hpy
  obtain ⟨hpx, hpy⟩ := pixel_of_frame hframe.symm hpx hpy
  rw [index_of_mode (mode_of_frame hframe), cellAt_of_tty (terminalRender_tty t)]
  exact terminalRender_pixels h hpx hpy

/-! ## The operations -/

/-- New lines are drawn. -/
lemma terminalNewline_drawn (hd : Drawn t) : Drawn (terminalNewline t) := by
  unfold terminalNewline
  dsimp only
  split_ifs
  · exact terminalRender_drawn ((h.of_frame (moveTo_frame _ _ _)).of_frame (terminalScroll_frame _))
  · exact hd

/-- A wrap is drawn. -/
lemma wrap_drawn (hd : Drawn t) : Drawn (wrap t) := by
  unfold wrap
  split_ifs
  · exact terminalNewline_drawn h hd
  · exact hd

/-- A written cell is drawn. -/
lemma terminalPutentryat_drawn (hd : Drawn t) (cell : TermCell) (x y : ℕ) :
    Drawn (terminalPutentryat t cell x y) := by
  by_cases hout : t.totalColumns ≤ x ∨ t.totalRows ≤ y
  · unfold terminalPutentryat
    rw [if_pos hout]
    exact hd
  · obtain ⟨hx, hy⟩ : x < t.totalColumns ∧ y < t.totalRows := by omega
    have hframe := terminalPutentryat_frame t cell x y
    have htty := terminalPutentryat_tty hx hy cell
    intro px hpx py hpy
    obtain ⟨hpx, hpy⟩ := pixel_of_frame hframe.symm hpx hpy
    have hcolumn := column_of_pixel hpx
    have hcell : cellAt (terminalPutentryat t cell x y) px py =
        if px / fontWidth = x ∧ py / fontHeight = y then cell else cellAt t px py := by
      unfold cellAt
      rw [htty]
      exact update_cell _ hx hcolumn _ _ _
    have hfb : (terminalPutentryat t cell x y).fb = fbPutChar t.fb cell.ch (x * fontWidth % 2 ^ 32)
        (y * fontHeight % 2 ^ 32) cell.fg cell.bg := by
      unfold terminalPutentryat writeCell
      rw [if_neg hout]
    rw [index_of_mode (mode_of_frame hframe), hcell, hfb, fbPutChar_cell h hpx hpy hx hy]
    by_cases hthis : px / fontWidth = x ∧ py / fontHeight = y
    · rw [if_pos hthis, if_pos hthis]
    · rw [if_neg hthis, if_neg hthis]
      exact hd px hpx py hpy

lemma typed_drawn (hd : Drawn t) (cell : TermCell) : Drawn (typed t cell) := by
  unfold typed
  split_ifs
  · exact hd
  · exact terminalPutentryat_drawn h hd cell _ _

/-- Characters are drawn. -/
lemma terminalPutchar_drawn (hd : Drawn t) (cell : TermCell) : Drawn (terminalPutchar t cell) := by
  by_cases hnewline : cell.ch = 10
  · have hput : terminalPutchar t cell = terminalNewline t := if_pos hnewline
    rw [hput]
    exact terminalNewline_drawn h hd
  · rw [terminalPutchar_typed t hnewline]
    exact wrap_drawn (h.of_frame (typed_moveTo_frame t cell _ _)) (typed_drawn h hd cell)

/-- Texts are drawn. -/
lemma terminalWrite_drawn (hd : Drawn t) (data : List UInt8) : Drawn (terminalWrite t data) := by
  unfold terminalWrite
  induction data generalizing t with
  | nil => exact hd
  | cons b data ih =>
    exact ih (h.of_frame (terminalPutchar_frame t _)) (terminalPutchar_drawn h hd _)

end

/-! ## After `terminal_scroll`

It draws nothing, but leaves the cursor in the last row: the next new line draws the screen. -/

/-- A new line scrolls. -/
def AtBottom (t : Terminal) : Prop := t.totalRows ≤ (t.currentRow + 1) % 2 ^ 16

lemma AtBottom.of_row (hb : AtBottom t) (hframe : t'.frame = t.frame)
    (hrow : t'.currentRow = t.currentRow) : AtBottom t' := by
  unfold AtBottom
  rw [rows_of_frame hframe, hrow]
  exact hb

/-- A scroll leaves the cursor below. -/
lemma terminalScroll_atBottom (hrows : t.totalRows < 2 ^ 16) : AtBottom (terminalScroll t) := by
  unfold AtBottom
  rw [rows_of_frame (terminalScroll_frame t), terminalScroll_row]
  omega

/-- A new line there redraws the screen. -/
lemma AtBottom.newline_drawn (h : InGrid t) (hb : AtBottom t) : Drawn (terminalNewline t) := by
  unfold AtBottom at hb
  unfold terminalNewline
  dsimp only
  rw [moveTo_row, rows_of_frame (moveTo_frame t ((t.currentRow + 1) % 2 ^ 16) 0), if_pos hb]
  exact terminalRender_drawn ((h.of_frame (moveTo_frame _ _ _)).of_frame (terminalScroll_frame _))

lemma AtBottom.wrap (h : InGrid t) (hb : AtBottom t) :
    if t.totalColumns ≤ t.currentColumn then Drawn (wrap t) else AtBottom (wrap t) := by
  unfold Console.wrap
  split_ifs
  · exact hb.newline_drawn h
  · exact hb

/-- A character that goes to a new line draws the screen. -/
lemma AtBottom.putchar (h : InGrid t) (hb : AtBottom t) (cell : TermCell) :
    if endsLine t.totalColumns t.currentColumn cell.ch then Drawn (terminalPutchar t cell)
    else AtBottom (terminalPutchar t cell) := by
  by_cases hnewline : cell.ch = 10
  · have hput : terminalPutchar t cell = terminalNewline t := if_pos hnewline
    rw [if_pos (endsLine_newline hnewline), hput]
    exact hb.newline_drawn h
  · have hframe := typed_moveTo_frame t cell t.currentRow (advance t.currentColumn cell.ch)
    have hwrap := AtBottom.wrap (h.of_frame hframe) (hb.of_row hframe (moveTo_row _ _ _))
    rw [moveTo_column, columns_of_frame hframe] at hwrap
    rw [terminalPutchar_typed t hnewline]
    simp only [endsLine_of_ne hnewline]
    exact hwrap

/-- So does a text with a line end. -/
lemma AtBottom.write (h : InGrid t) (hb : AtBottom t) (data : List UInt8) :
    if textEnds t.totalColumns data t.currentColumn then Drawn (terminalWrite t data)
    else AtBottom (terminalWrite t data) := by
  induction data generalizing t with
  | nil => exact hb
  | cons b data ih =>
    have hframe := terminalPutchar_frame t ⟨b, t.terminalFgColor, t.terminalBgColor⟩
    have hput := hb.putchar h ⟨b, t.terminalFgColor, t.terminalBgColor⟩
    have hwrite : terminalWrite t (b :: data) =
      terminalWrite (terminalPutchar t ⟨b, t.terminalFgColor, t.terminalBgColor⟩) data := rfl
    rw [textEnds, hwrite]
    cases hends : endsLine t.totalColumns t.currentColumn b with
    | true =>
      -- drawn here, and kept so by what follows
      rw [Bool.true_or, if_pos rfl]
      rw [if_pos hends] at hput
      exact terminalWrite_drawn (h.of_frame hframe) hput data
    | false =>
      rw [if_neg (ne_true_of_eq_false hends)] at hput
      have hrest := ih (h.of_frame hframe) hput
      rw [columns_of_frame hframe, terminalPutchar_column] at hrest
      exact hrest

/-! ## The operations -/

namespace Op

/-- Whether the screen is drawn behind the operation, if `drawn` says it of the state before it. -/
def redrawn (columns column : ℕ) (drawn : Bool) : Op → Bool
  | init _ _ => true
  | clear => true
  | render => true
  | scroll => false
  | op => drawn || textEnds columns op.text column

end Op

/-- Every `terminal_scroll` is followed by something that draws the screen. -/
def redrawn (columns : ℕ) : List Op → ℕ → Bool → Bool
  | [], _, drawn => drawn
  | op :: ops, column, drawn =>
    redrawn columns ops (op.column columns column) (op.redrawn columns column drawn)

/-- Drawn, or at least drawn by the next new line. -/
def Shown (t : Terminal) (drawn : Bool) : Prop := if drawn then Drawn t else AtBottom t

variable {drawn : Bool} {fb : Framebuffer}

/-- A character, drawn before or not. -/
lemma Shown.putchar (h : InGrid t) (hs : Shown t drawn) (cell : TermCell) :
    Shown (terminalPutchar t cell)
      (drawn || endsLine t.totalColumns t.currentColumn cell.ch) := by
  cases drawn with
  | true => exact terminalPutchar_drawn h hs cell
  | false => exact AtBottom.putchar h hs cell

lemma Shown.newline (h : InGrid t) (hs : Shown t drawn) :
    Drawn (terminalNewline t) := by
  cases drawn with
  | true => exact terminalNewline_drawn h hs
  | false => exact AtBottom.newline_drawn h hs

/-- A text, drawn before or not. -/
lemma Shown.write (h : InGrid t) (hs : Shown t drawn) (data : List UInt8) :
    Shown (terminalWrite t data) (drawn || textEnds t.totalColumns data t.currentColumn) := by
  cases drawn with
  | true => exact terminalWrite_drawn h hs data
  | false => exact AtBottom.write h hs data

/-- Every operation but `terminal_initialize`. -/
lemma Op.run_shown (h : InGrid t) (hrows : t.totalRows < 2 ^ 16) (hs : Shown t drawn) {op : Op}
    (hop : ∀ fg bg, op ≠ .init fg bg) :
    Shown (op.run t) (op.redrawn t.totalColumns t.currentColumn drawn) := by
  cases op with
  | init fg bg => exact absurd rfl (hop fg bg)
  | putchar c =>
    simp only [Op.redrawn, Op.text, textEnds, Bool.or_false]
    exact hs.putchar h c
  | newline =>
    have hends : endsLine t.totalColumns t.currentColumn 10 = true := endsLine_newline rfl
    simp only [Op.redrawn, Op.text, textEnds, hends, Bool.or_false, Bool.or_true]
    exact hs.newline h
  | scroll => exact terminalScroll_atBottom hrows
  | write data => exact hs.write h data
  | clear => exact terminalRender_drawn (h.of_frame (fillBuffer_frame _ t))
  | setcolor fg bg =>
    simp only [Op.redrawn, Op.text, textEnds, Bool.or_false]
    exact hs
  | render => exact terminalRender_drawn h

/-! ## Runs -/

/-- The cells of the screen fit into the framebuffer and into `terminal_buffer`: a line of cells is
not longer than the pitch, and the lines of pixels are in the address space. -/
structure GridFits (fb : Framebuffer) : Prop where
  cells : screenRows fb * screenColumns fb ≤ 240 * 135
  pitch : screenColumns fb * fontWidth * 4 ≤ fb.pitch
  memory : screenRows fb * fontHeight * fb.pitch ≤ 2 ^ 64

/-- The cells lie on the screen. -/
lemma GridFits.fits (h : GridFits fb) :
    fb.Fits (screenColumns fb * fontWidth) (screenRows fb * fontHeight) := by
  have hcolumns : screenColumns fb ≤ fb.width / fontWidth := Nat.mod_le _ _
  have hrows : screenRows fb ≤ fb.height / fontHeight := Nat.mod_le _ _
  have hsmall : screenColumns fb < 2 ^ 16 ∧ screenRows fb < 2 ^ 16 :=
    ⟨Nat.mod_lt _ (Nat.two_pow_pos 16), Nat.mod_lt _ (Nat.two_pow_pos 16)⟩
  have hpitch := h.pitch
  refine ⟨?_, ?_, ?_, h.memory, ?_⟩
  all_goals unfold fontWidth fontHeight at *; omega

/-- The terminal belongs to a screen that fits. -/
structure OnScreen (fb : Framebuffer) (t : Terminal) (drawn : Bool) : Prop where
  frame : t.frame = (screenRows fb, screenColumns fb, fb.mode)
  shown : Shown t drawn

lemma OnScreen.inGrid (hfits : GridFits fb)
    (hframe : t.frame = (screenRows fb, screenColumns fb, fb.mode)) : InGrid t := by
  have hrows : t.totalRows = screenRows fb := congrArg (fun f => f.1) hframe
  have hcolumns : t.totalColumns = screenColumns fb := congrArg (fun f => f.2.1) hframe
  unfold InGrid
  rw [hrows, hcolumns]
  exact hfits.fits.of_mode (congrArg (fun f => f.2.2) hframe)

/-- A new screen is drawn. -/
lemma terminalInitialize_onScreen (hfits : GridFits fb) (hmode : t.fb.mode = fb.mode)
    (fg bg : BitVec 32) :
    OnScreen fb (terminalInitialize t fg bg) true := by
  have hframe := terminalInitialize_frame t fg bg
  rw [screenRows_of_mode hmode, screenColumns_of_mode hmode, hmode] at hframe
  have hgrid := OnScreen.inGrid hfits hframe
  refine ⟨hframe, terminalRender_drawn (hgrid.of_frame ?_)⟩
  exact (terminalRender_frame _).symm

/-- One operation. -/
lemma Op.run_onScreen (hfits : GridFits fb) (h : OnScreen fb t drawn) (op : Op) :
    OnScreen fb (op.run t) (op.redrawn (screenColumns fb) t.currentColumn drawn) ∧
      (op.run t).currentColumn = op.column (screenColumns fb) t.currentColumn := by
  have hrows : t.totalRows = screenRows fb := congrArg (fun f => f.1) h.frame
  have hcolumns : t.totalColumns = screenColumns fb := congrArg (fun f => f.2.1) h.frame
  have hmode : t.fb.mode = fb.mode := congrArg (fun f => f.2.2) h.frame
  by_cases hop : ∃ fg bg, op = .init fg bg
  · obtain ⟨fg, bg, rfl⟩ := hop
    exact ⟨terminalInitialize_onScreen hfits hmode fg bg, terminalInitialize_column t fg bg⟩
  · have hop : ∀ fg bg, op ≠ .init fg bg := fun fg bg heq => hop ⟨fg, bg, heq⟩
    have hsmall : t.totalRows < 2 ^ 16 := by
      rw [hrows]
      exact Nat.mod_lt _ (Nat.two_pow_pos 16)
    have hshown := Op.run_shown (OnScreen.inGrid hfits h.frame) hsmall h.shown hop
    have hcolumn := Op.run_column t hop
    rw [hcolumns] at hshown hcolumn
    exact ⟨⟨(Op.run_frame t hop).trans h.frame, hshown⟩, hcolumn⟩

/-- A run of operations. -/
lemma terminalRun_onScreen (hfits : GridFits fb) (h : OnScreen fb t drawn) (ops : List Op) :
    OnScreen fb (terminalRun t ops) (redrawn (screenColumns fb) ops t.currentColumn drawn) := by
  induction ops generalizing t drawn with
  | nil => exact h
  | cons op ops ih =>
    obtain ⟨hstep, hcolumn⟩ := Op.run_onScreen hfits h op
    have hrest := ih hstep
    rw [hcolumn] at hrest
    exact hrest

/-- After `terminal_initialize` and operations with a full redraw behind every `terminal_scroll`, the
pixels of the grid are those that `terminal_render` draws from the buffer onto any screen, and so it
changes none of them. -/
theorem terminalRun_drawn {t : Terminal} (hfits : GridFits t.fb) (fg bg : BitVec 32)
    {ops : List Op} (hops : redrawn (screenColumns t.fb) ops 0 true = true) {t' : Terminal}
    (ht' : terminalRun (terminalInitialize t fg bg) ops = t') :
    ∀ px < t'.totalColumns * fontWidth, ∀ py < t'.totalRows * fontHeight,
      (∀ pixels, (terminalRender { t' with fb := { t'.fb with pixels := pixels } }).fb.pixels
        (t'.fb.index px py) = t'.fb.pixels (t'.fb.index px py)) ∧
      (terminalRender t').fb.pixels (t'.fb.index px py) = t'.fb.pixels (t'.fb.index px py) := by
  have honscreen := terminalRun_onScreen hfits (terminalInitialize_onScreen hfits rfl fg bg) ops
  rw [terminalInitialize_column, hops, ht'] at honscreen
  have hgrid := OnScreen.inGrid hfits honscreen.frame
  have hdrawn : Drawn t' := honscreen.shown
  intro px hpx py hpy
  refine ⟨fun pixels => ?_, ?_⟩
  · rw [hdrawn px hpx py hpy]
    have hgrid' : InGrid { t' with fb := { t'.fb with pixels := pixels } } :=
      hgrid.of_frame rfl
    exact terminalRender_pixels hgrid' hpx hpy
  · rw [hdrawn px hpx py hpy]
    exact terminalRender_pixels hgrid hpx hpy

/-- Without `terminal_scroll` there is nothing to redraw. -/
lemma redrawn_of_not_mem (columns : ℕ) {ops : List Op} (hops : Op.scroll ∉ ops) (column : ℕ) :
    redrawn columns ops column true = true := by
  induction ops generalizing column with
  | nil => rfl
  | cons op ops ih =>
    rw [List.mem_cons, not_or] at hops
    have hop : op.redrawn columns column true = true := by
      cases op with
      | scroll => exact absurd rfl hops.1
      | _ => rfl
    rw [redrawn, hop]
    exact ih hops.2 _

/-! ## A screen of 10 by 2 cells -/

/-- Ten columns and two rows. -/
def smallScreen : Framebuffer := ⟨80, 16, 320, fun _ => 0⟩

lemma gridFits_smallScreen : GridFits smallScreen := ⟨by decide, by decide, by decide⟩

lemma smallScreen_size (ops : List Op)
    (ht : terminalRun (terminalInitialize (Terminal.boot smallScreen) 1 0) ops = t) :
    t.totalColumns = 10 ∧ t.totalRows = 2 ∧ t.fb.mode = smallScreen.mode := by
  have hinit := terminalInitialize_onScreen (t := Terminal.boot smallScreen) gridFits_smallScreen
    rfl 1 0
  have hframe := (terminalRun_onScreen gridFits_smallScreen hinit ops).frame
  rw [ht] at hframe
  exact ⟨congrArg (fun f => f.2.1) hframe, congrArg (fun f => f.1) hframe,
    congrArg (fun f => f.2.2) hframe⟩

/-- The new line behind `terminal_scroll` draws the screen. -/
theorem terminalRun_drawn_small :
    ∃ t, terminalRun (terminalInitialize (Terminal.boot smallScreen) 1 0)
        [.scroll, .newline, .write [97]] = t ∧ t.totalColumns = 10 ∧ t.totalRows = 2 ∧
      (terminalRender t).fb.pixels (t.fb.index 79 15) = t.fb.pixels (t.fb.index 79 15) := by
  obtain ⟨hcolumns, hrows, -⟩ := smallScreen_size [.scroll, .newline, .write [97]] rfl
  refine ⟨_, rfl, hcolumns, hrows, ?_⟩
  refine (terminalRun_drawn (t := Terminal.boot smallScreen) gridFits_smallScreen 1 0 (by decide)
    rfl 79 ?_ 15 ?_).2
  · rw [hcolumns]
    decide
  · rw [hrows]
    decide

lemma terminalScroll_fb (t : Terminal) : (terminalScroll t).fb = t.fb := by
  have hclear : (clearLastRow (moveLines t)).fb = (moveLines t).fb :=
    loop_field (f := fun t => t.fb) clearLast (fun _ _ => rfl) _ _
  unfold terminalScroll Terminal.moveTo
  dsimp only
  rw [hclear]
  unfold moveLines moveCells
  rfl

/-- A letter, and `terminal_scroll` behind it: the letter is still on the screen. -/
theorem terminalScroll_not_drawn :
    GridFits smallScreen ∧
    ∃ t, terminalRun (terminalInitialize (Terminal.boot smallScreen) 1 0)
        [.write [97], .scroll] = t ∧ 1 < t.totalColumns * fontWidth ∧ 2 < t.totalRows * fontHeight ∧
      (terminalRender t).fb.pixels (t.fb.index 1 2) ≠ t.fb.pixels (t.fb.index 1 2) := by
  obtain ⟨t₀, ht₀⟩ :
    ∃ t₀, terminalRun (terminalInitialize (Terminal.boot smallScreen) 1 0) [.write [97]] = t₀ :=
    ⟨_, rfl⟩
  have hrun : terminalRun (terminalInitialize (Terminal.boot smallScreen) 1 0)
      [.write [97], .scroll] = terminalScroll t₀ := by
    rw [← ht₀]
    rfl
  have hletter : t₀.terminalBuffer 0 = ⟨97, 1, 0⟩ := by
    rw [← ht₀]
    rfl
  have hblank : (terminalScroll t₀).terminalBuffer 0 = ⟨32, 1, 0⟩ := by
    rw [← hrun]
    rfl
  obtain ⟨hcolumns, hrows, hmode⟩ := smallScreen_size [.write [97], .scroll] hrun
  have hinit := terminalInitialize_onScreen (t := Terminal.boot smallScreen) gridFits_smallScreen
    rfl 1 0
  have hbefore := terminalRun_onScreen gridFits_smallScreen hinit [.write [97]]
  have hafter := terminalRun_onScreen gridFits_smallScreen hinit [.write [97], .scroll]
  rw [redrawn_of_not_mem _ (by simp), ht₀] at hbefore
  rw [hrun] at hafter
  have hpx : 1 < (terminalScroll t₀).totalColumns * fontWidth := by
    rw [hcolumns]
    decide
  have hpy : 2 < (terminalScroll t₀).totalRows * fontHeight := by
    rw [hrows]
    decide
  have hdrawn : Drawn t₀ := hbefore.shown
  have hold := pixel_of_frame (terminalScroll_frame t₀).symm hpx hpy
  have hpixel := hdrawn 1 hold.1 2 hold.2
  have hrender := terminalRender_pixels (OnScreen.inGrid gridFits_smallScreen hafter.frame) hpx hpy
  have hcell₀ : cellAt t₀ 1 2 = ⟨97, 1, 0⟩ := by
    unfold cellAt
    simpa [fontHeight, fontWidth] using hletter
  have hcell : cellAt (terminalScroll t₀) 1 2 = ⟨32, 1, 0⟩ := by
    unfold cellAt
    simpa [fontHeight, fontWidth] using hblank
  refine ⟨gridFits_smallScreen, _, hrun, hpx, hpy, ?_⟩
  rw [hrender, hcell, terminalScroll_fb, hpixel, hcell₀]
  decide

end LunOS.Console
