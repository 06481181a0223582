import LunOS.Utils.Loops
import Mathlib.Data.Nat.Bitwise
import Mathlib.Logic.Function.Basic
import Mathlib.Tactic

/-!
# The framebuffer

Characters are drawn with a font of 8 by 8 pixels. The framebuffer is the memory that it is mapped
to, as words: a pixel has its own word as long as a line of the grid fits into the pitch.

- `fbPutChar_apply`: a character is drawn into its cell of the grid and nowhere else.
-/

namespace LunOS.Console
open LunOS.Loops

/-! ## The font -/

/-- `FONT_WIDTH` -/
def fontWidth : ℕ := 8

/-- `FONT_HEIGHT` -/
def fontHeight : ℕ := 8

/-- `font8x8_basic`: the eight rows of each glyph. -/
def font8x8Basic : List (List UInt8) :=
  [[0x00, 0x00, 0x00, 0x00, 0x00, 0x00, 0x00, 0x00],
   [0x18, 0x3C, 0x3C, 0x18, 0x18, 0x00, 0x18, 0x00],
   [0x6C, 0x6C, 0x00, 0x00, 0x00, 0x00, 0x00, 0x00],
   [0x6C, 0x6C, 0xFE, 0x6C, 0xFE, 0x6C, 0x6C, 0x00],
   [0x30, 0x7C, 0xC0, 0x78, 0x0C, 0xF8, 0x30, 0x00],
   [0x00, 0xC6, 0xCC, 0x18, 0x30, 0x66, 0xC6, 0x00],
   [0x38, 0x6C, 0x38, 0x76, 0xDC, 0xCC, 0x76, 0x00],
   [0x60, 0x60, 0xC0, 0x00, 0x00, 0x00, 0x00, 0x00],
   [0x18, 0x30, 0x60, 0x60, 0x60, 0x30, 0x18, 0x00],
   [0x60, 0x30, 0x18, 0x18, 0x18, 0x30, 0x60, 0x00],
   [0x00, 0x66, 0x3C, 0xFF, 0x3C, 0x66, 0x00, 0x00],
   [0x00, 0x30, 0x30, 0xFC, 0x30, 0x30, 0x00, 0x00],
   [0x00, 0x00, 0x00, 0x00, 0x00, 0x30, 0x30, 0x60],
   [0x00, 0x00, 0x00, 0xFC, 0x00, 0x00, 0x00, 0x00],
   [0x00, 0x00, 0x00, 0x00, 0x00, 0x30, 0x30, 0x00],
   [0x06, 0x0C, 0x18, 0x30, 0x60, 0xC0, 0x80, 0x00],
   [0x7C, 0xC6, 0xCE, 0xDE, 0xF6, 0xE6, 0x7C, 0x00],
   [0x30, 0x70, 0x30, 0x30, 0x30, 0x30, 0xFC, 0x00],
   [0x78, 0xCC, 0x0C, 0x38, 0x60, 0xCC, 0xFC, 0x00],
   [0x78, 0xCC, 0x0C, 0x38, 0x0C, 0xCC, 0x78, 0x00],
   [0x1C, 0x3C, 0x6C, 0xCC, 0xFE, 0x0C, 0x1E, 0x00],
   [0xFC, 0xC0, 0xF8, 0x0C, 0x0C, 0xCC, 0x78, 0x00],
   [0x38, 0x60, 0xC0, 0xF8, 0xCC, 0xCC, 0x78, 0x00],
   [0xFC, 0xCC, 0x0C, 0x18, 0x30, 0x30, 0x30, 0x00],
   [0x78, 0xCC, 0xCC, 0x78, 0xCC, 0xCC, 0x78, 0x00],
   [0x78, 0xCC, 0xCC, 0x7C, 0x0C, 0x18, 0x70, 0x00],
   [0x00, 0x30, 0x30, 0x00, 0x00, 0x30, 0x30, 0x00],
   [0x00, 0x30, 0x30, 0x00, 0x00, 0x30, 0x30, 0x60],
   [0x18, 0x30, 0x60, 0xC0, 0x60, 0x30, 0x18, 0x00],
   [0x00, 0x00, 0xFC, 0x00, 0x00, 0xFC, 0x00, 0x00],
   [0x60, 0x30, 0x18, 0x0C, 0x18, 0x30, 0x60, 0x00],
   [0x78, 0xCC, 0x0C, 0x18, 0x30, 0x00, 0x30, 0x00],
   [0x7C, 0xC6, 0xDE, 0xDE, 0xDE, 0xC0, 0x78, 0x00],
   [0x30, 0x78, 0xCC, 0xCC, 0xFC, 0xCC, 0xCC, 0x00],
   [0xFC, 0x66, 0x66, 0x7C, 0x66, 0x66, 0xFC, 0x00],
   [0x3C, 0x66, 0xC0, 0xC0, 0xC0, 0x66, 0x3C, 0x00],
   [0xF8, 0x6C, 0x66, 0x66, 0x66, 0x6C, 0xF8, 0x00],
   [0xFE, 0x62, 0x68, 0x78, 0x68, 0x62, 0xFE, 0x00],
   [0xFE, 0x62, 0x68, 0x78, 0x68, 0x60, 0xF0, 0x00],
   [0x3C, 0x66, 0xC0, 0xC0, 0xCE, 0x66, 0x3E, 0x00],
   [0xCC, 0xCC, 0xCC, 0xFC, 0xCC, 0xCC, 0xCC, 0x00],
   [0x78, 0x30, 0x30, 0x30, 0x30, 0x30, 0x78, 0x00],
   [0x1E, 0x0C, 0x0C, 0x0C, 0xCC, 0xCC, 0x78, 0x00],
   [0xE6, 0x66, 0x6C, 0x78, 0x6C, 0x66, 0xE6, 0x00],
   [0xF0, 0x60, 0x60, 0x60, 0x62, 0x66, 0xFE, 0x00],
   [0xC6, 0xEE, 0xFE, 0xFE, 0xD6, 0xC6, 0xC6, 0x00],
   [0xC6, 0xE6, 0xF6, 0xDE, 0xCE, 0xC6, 0xC6, 0x00],
   [0x38, 0x6C, 0xC6, 0xC6, 0xC6, 0x6C, 0x38, 0x00],
   [0xFC, 0x66, 0x66, 0x7C, 0x60, 0x60, 0xF0, 0x00],
   [0x78, 0xCC, 0xCC, 0xCC, 0xDC, 0x78, 0x1C, 0x00],
   [0xFC, 0x66, 0x66, 0x7C, 0x6C, 0x66, 0xE6, 0x00],
   [0x78, 0xCC, 0xE0, 0x70, 0x1C, 0xCC, 0x78, 0x00],
   [0xFC, 0xB4, 0x30, 0x30, 0x30, 0x30, 0x78, 0x00],
   [0xCC, 0xCC, 0xCC, 0xCC, 0xCC, 0xCC, 0xFC, 0x00],
   [0xCC, 0xCC, 0xCC, 0xCC, 0xCC, 0x78, 0x30, 0x00],
   [0xC6, 0xC6, 0xC6, 0xD6, 0xFE, 0xEE, 0xC6, 0x00],
   [0xC6, 0xC6, 0x6C, 0x38, 0x38, 0x6C, 0xC6, 0x00],
   [0xCC, 0xCC, 0xCC, 0x78, 0x30, 0x30, 0x78, 0x00],
   [0xFE, 0xC6, 0x8C, 0x18, 0x32, 0x66, 0xFE, 0x00],
   [0x78, 0x60, 0x60, 0x60, 0x60, 0x60, 0x78, 0x00],
   [0xC0, 0x60, 0x30, 0x18, 0x0C, 0x06, 0x02, 0x00],
   [0x78, 0x18, 0x18, 0x18, 0x18, 0x18, 0x78, 0x00],
   [0x10, 0x38, 0x6C, 0xC6, 0x00, 0x00, 0x00, 0x00],
   [0x00, 0x00, 0x00, 0x00, 0x00, 0x00, 0x00, 0xFF],
   [0x30, 0x30, 0x18, 0x00, 0x00, 0x00, 0x00, 0x00],
   [0x00, 0x00, 0x78, 0x0C, 0x7C, 0xCC, 0x76, 0x00],
   [0xE0, 0x60, 0x60, 0x7C, 0x66, 0x66, 0xDC, 0x00],
   [0x00, 0x00, 0x78, 0xCC, 0xC0, 0xCC, 0x78, 0x00],
   [0x1C, 0x0C, 0x0C, 0x7C, 0xCC, 0xCC, 0x76, 0x00],
   [0x00, 0x00, 0x78, 0xCC, 0xFC, 0xC0, 0x78, 0x00],
   [0x38, 0x6C, 0x60, 0xF0, 0x60, 0x60, 0xF0, 0x00],
   [0x00, 0x00, 0x76, 0xCC, 0xCC, 0x7C, 0x0C, 0xF8],
   [0xE0, 0x60, 0x6C, 0x76, 0x66, 0x66, 0xE6, 0x00],
   [0x30, 0x00, 0x70, 0x30, 0x30, 0x30, 0x78, 0x00],
   [0x0C, 0x00, 0x0C, 0x0C, 0x0C, 0xCC, 0xCC, 0x78],
   [0xE0, 0x60, 0x66, 0x6C, 0x78, 0x6C, 0xE6, 0x00],
   [0x70, 0x30, 0x30, 0x30, 0x30, 0x30, 0x78, 0x00],
   [0x00, 0x00, 0xCC, 0xFE, 0xFE, 0xD6, 0xC6, 0x00],
   [0x00, 0x00, 0xF8, 0xCC, 0xCC, 0xCC, 0xCC, 0x00],
   [0x00, 0x00, 0x78, 0xCC, 0xCC, 0xCC, 0x78, 0x00],
   [0x00, 0x00, 0xDC, 0x66, 0x66, 0x7C, 0x60, 0xF0],
   [0x00, 0x00, 0x76, 0xCC, 0xCC, 0x7C, 0x0C, 0x1E],
   [0x00, 0x00, 0xDC, 0x76, 0x66, 0x60, 0xF0, 0x00],
   [0x00, 0x00, 0x7C, 0xC0, 0x78, 0x0C, 0xF8, 0x00],
   [0x10, 0x30, 0x7C, 0x30, 0x30, 0x34, 0x18, 0x00],
   [0x00, 0x00, 0xCC, 0xCC, 0xCC, 0xCC, 0x76, 0x00],
   [0x00, 0x00, 0xCC, 0xCC, 0xCC, 0x78, 0x30, 0x00],
   [0x00, 0x00, 0xC6, 0xD6, 0xFE, 0xFE, 0x6C, 0x00],
   [0x00, 0x00, 0xC6, 0x6C, 0x38, 0x6C, 0xC6, 0x00],
   [0x00, 0x00, 0xCC, 0xCC, 0xCC, 0x7C, 0x0C, 0xF8],
   [0x00, 0x00, 0xFC, 0x98, 0x30, 0x64, 0xFC, 0x00],
   [0x1C, 0x30, 0x30, 0xE0, 0x30, 0x30, 0x1C, 0x00],
   [0x18, 0x18, 0x18, 0x00, 0x18, 0x18, 0x18, 0x00],
   [0xE0, 0x30, 0x30, 0x1C, 0x30, 0x30, 0xE0, 0x00],
   [0x76, 0xDC, 0x00, 0x00, 0x00, 0x00, 0x00, 0x00]]

/-- `font_get_char`: anything else looks like a blank. -/
def fontGetChar (c : UInt8) : List UInt8 :=
  if 32 ≤ c ∧ c ≤ 126 then font8x8Basic.getD (c.toNat - 32) [] else font8x8Basic.getD 0 []

/-- The pixel of a character in a row and a column of its bitmap. -/
def glyphColor (c : UInt8) (fg bg : BitVec 32) (row col : ℕ) : BitVec 32 :=
  if ((fontGetChar c).getD row 0).toNat &&& (0x80 >>> col) ≠ 0 then fg else bg

/-! ## Drawing -/

/-- The framebuffer, with its pitch in bytes and its pixels as words. -/
structure Framebuffer where
  width : ℕ
  height : ℕ
  pitch : ℕ
  pixels : ℕ → BitVec 32

namespace Framebuffer

/-- The word of a pixel. -/
def index (fb : Framebuffer) (x y : ℕ) : ℕ := (y * (fb.pitch / 4) + x) % 2 ^ 64

/-- A grid of `w` by `h` pixels is in the framebuffer. The pixels of a line do not reach into the next
one, and the lines do not reach over the end of the address space. -/
structure Fits (fb : Framebuffer) (w h : ℕ) : Prop where
  width : w ≤ fb.width
  height : h ≤ fb.height
  pitch : w ≤ fb.pitch / 4
  memory : h * fb.pitch ≤ 2 ^ 64
  small : w ≤ 2 ^ 32 ∧ h ≤ 2 ^ 32

end Framebuffer

/-- `fb_put_pixel`, which is also the statement in the loops of `fb_put_char`. -/
def fbPutPixel (fb : Framebuffer) (x y : ℕ) (color : BitVec 32) : Framebuffer :=
  if x < fb.width ∧ y < fb.height then
    { fb with pixels := Function.update fb.pixels (fb.index x y) color }
  else fb

/-- One row of a character. -/
def fbPutCharRow (c : UInt8) (x y : ℕ) (fg bg : BitVec 32) (row : ℕ) (fb : Framebuffer) :
    Framebuffer :=
  loop (fun col fb => fbPutPixel fb ((x + col) % 2 ^ 32) ((y + row) % 2 ^ 32)
    (glyphColor c fg bg row col)) fontWidth fb

/-- `fb_put_char` -/
def fbPutChar (fb : Framebuffer) (c : UInt8) (x y : ℕ) (fg bg : BitVec 32) : Framebuffer :=
  loop (fbPutCharRow c x y fg bg) fontHeight fb

/-! ## What is drawn -/

/-- Everything but the pixels. -/
def Framebuffer.mode (fb : Framebuffer) : ℕ × ℕ × ℕ := (fb.width, fb.height, fb.pitch)

variable {fb fb' : Framebuffer} {w h : ℕ} {c : UInt8} {fg bg : BitVec 32}

lemma fbPutPixel_mode (fb : Framebuffer) (x y : ℕ) (color : BitVec 32) :
    (fbPutPixel fb x y color).mode = fb.mode := by
  unfold fbPutPixel
  split_ifs <;> rfl

lemma fbPutChar_mode (x y : ℕ) : (fbPutChar fb c x y fg bg).mode = fb.mode :=
  loop_field _ (fun _ fb => loop_field _ (fun _ fb => fbPutPixel_mode fb _ _ _) _ fb) _ fb

lemma index_of_mode (hmode : fb'.mode = fb.mode) (x y : ℕ) : fb'.index x y = fb.index x y := by
  unfold Framebuffer.index
  rw [show fb'.pitch = fb.pitch from congrArg (fun m => m.2.2) hmode]

lemma Framebuffer.Fits.of_mode (hf : fb.Fits w h) (hmode : fb'.mode = fb.mode) : fb'.Fits w h := by
  obtain ⟨hwidth, hrest⟩ := Prod.mk.inj hmode
  obtain ⟨hheight, hpitch⟩ := Prod.mk.inj hrest
  refine ⟨?_, ?_, ?_, ?_, hf.small⟩
  · exact hwidth ▸ hf.width
  · exact hheight ▸ hf.height
  · exact hpitch ▸ hf.pitch
  · exact hpitch ▸ hf.memory

/-- Inside of the grid nothing wraps around. -/
lemma Framebuffer.Fits.index_eq (hf : fb.Fits w h) {x y : ℕ} (hx : x < w) (hy : y < h) :
    fb.index x y = y * (fb.pitch / 4) + x := by
  have hpitch := hf.pitch
  have hline : (y + 1) * (fb.pitch / 4) ≤ h * fb.pitch :=
    Nat.mul_le_mul hy (Nat.div_le_self _ _)
  have hmemory := hf.memory
  rw [Nat.succ_mul] at hline
  unfold Framebuffer.index
  exact Nat.mod_eq_of_lt (by omega)

/-- A place in lines of `n` places each. -/
lemma place_inj {n x y x' y' : ℕ} (hx : x < n) (hx' : x' < n) :
    y * n + x = y' * n + x' ↔ x = x' ∧ y = y' := by
  constructor
  · intro heq
    have hn : 0 < n := by omega
    have hdiv := congrArg (· / n) heq
    have hmod := congrArg (· % n) heq
    simp only [Nat.mul_comm _ n, Nat.mul_add_div hn, Nat.mul_add_mod, Nat.mod_eq_of_lt hx,
      Nat.mod_eq_of_lt hx', Nat.div_eq_of_lt hx, Nat.div_eq_of_lt hx', Nat.add_zero] at hdiv hmod
    exact ⟨hmod, hdiv⟩
  · rintro ⟨rfl, rfl⟩
    rfl

/-- Different pixels have different words. -/
lemma Framebuffer.Fits.index_inj (hf : fb.Fits w h) {x y x' y' : ℕ} (hx : x < w) (hy : y < h)
    (hx' : x' < w) (hy' : y' < h) : fb.index x y = fb.index x' y' ↔ x = x' ∧ y = y' := by
  have hpitch := hf.pitch
  rw [hf.index_eq hx hy, hf.index_eq hx' hy']
  exact place_inj (by omega) (by omega)

/-- One pixel changes. -/
lemma fbPutPixel_apply (hf : fb.Fits w h) {x y px py : ℕ} (hx : x < w) (hy : y < h) (hpx : px < w)
    (hpy : py < h) (color : BitVec 32) : (fbPutPixel fb x y color).pixels (fb.index px py) =
      if px = x ∧ py = y then color else fb.pixels (fb.index px py) := by
  have hin : x < fb.width ∧ y < fb.height := ⟨hx.trans_le hf.width, hy.trans_le hf.height⟩
  unfold fbPutPixel
  rw [if_pos hin]
  simp only [Function.update_apply, hf.index_inj hpx hpy hx hy]

/-- A row of a character. -/
lemma fbPutCharRow_apply (c : UInt8) (fg bg : BitVec 32) (hf : fb.Fits w h) {x y row px py : ℕ}
    (hx : x + fontWidth ≤ w) (hy : y + row < h) (hpx : px < w) (hpy : py < h) :
    (fbPutCharRow c x y fg bg row fb).mode = fb.mode ∧
    (fbPutCharRow c x y fg bg row fb).pixels (fb.index px py) =
      if (x ≤ px ∧ px < x + fontWidth) ∧ py = y + row then glyphColor c fg bg row (px - x)
      else fb.pixels (fb.index px py) := by
  unfold fbPutCharRow
  -- behind `i` turns the first `i` columns are drawn
  refine loop_inv (P := fun i (fb' : Framebuffer) => fb'.mode = fb.mode ∧
    fb'.pixels (fb.index px py) = if (x ≤ px ∧ px < x + i) ∧ py = y + row then glyphColor c fg bg row (px - x)
    else fb.pixels (fb.index px py)) ?_ ?_
  · refine ⟨rfl, ?_⟩
    rw [if_neg (by omega)]
  · rintro i hi fb' ⟨hmode, hpixels⟩
    have hsmall := hf.small
    refine ⟨(fbPutPixel_mode _ _ _ _).trans hmode, ?_⟩
    rw [Nat.mod_eq_of_lt (by omega : x + i < 2 ^ 32),
      Nat.mod_eq_of_lt (by omega : y + row < 2 ^ 32), ← index_of_mode hmode,
      fbPutPixel_apply (hf.of_mode hmode) (by omega) hy hpx hpy, index_of_mode hmode, hpixels]
    by_cases hpix : px = x + i ∧ py = y + row
    · rw [if_pos hpix, if_pos (by omega), hpix.1, Nat.add_sub_cancel_left]
    · rw [if_neg hpix]
      by_cases hdone : (x ≤ px ∧ px < x + i) ∧ py = y + row
      · rw [if_pos hdone, if_pos (by omega)]
      · rw [if_neg hdone, if_neg (by omega)]

/-- A character. -/
lemma fbPutChar_apply (c : UInt8) (fg bg : BitVec 32) (hf : fb.Fits w h) {x y px py : ℕ}
    (hx : x + fontWidth ≤ w) (hy : y + fontHeight ≤ h) (hpx : px < w) (hpy : py < h) :
    (fbPutChar fb c x y fg bg).pixels (fb.index px py) =
      if (x ≤ px ∧ px < x + fontWidth) ∧ y ≤ py ∧ py < y + fontHeight then
        glyphColor c fg bg (py - y) (px - x)
      else fb.pixels (fb.index px py) := by
  unfold fbPutChar
  refine (loop_inv (P := fun i (fb' : Framebuffer) => fb'.mode = fb.mode ∧
    fb'.pixels (fb.index px py) = if (x ≤ px ∧ px < x + fontWidth) ∧ y ≤ py ∧ py < y + i then
      glyphColor c fg bg (py - y) (px - x)
    else fb.pixels (fb.index px py)) ?_ ?_).2
  · refine ⟨rfl, ?_⟩
    rw [if_neg (by omega)]
  · rintro i hi fb' ⟨hmode, hpixels⟩
    obtain ⟨hmode', hrow⟩ := fbPutCharRow_apply c fg bg (hf.of_mode hmode) hx
      (by omega : y + i < h) hpx hpy
    refine ⟨hmode'.trans hmode, ?_⟩
    rw [← index_of_mode hmode, hrow, index_of_mode hmode, hpixels]
    by_cases hnow : (x ≤ px ∧ px < x + fontWidth) ∧ py = y + i
    · rw [if_pos hnow, if_pos (by omega), hnow.2, Nat.add_sub_cancel_left]
    · rw [if_neg hnow]
      by_cases hdone : (x ≤ px ∧ px < x + fontWidth) ∧ y ≤ py ∧ py < y + i
      · rw [if_pos hdone, if_pos (by omega)]
      · rw [if_neg hdone, if_neg (by omega)]

end LunOS.Console
