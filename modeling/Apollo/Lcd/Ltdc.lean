import Apollo.Lcd.Glyph
import Mathlib.Algebra.GroupWithZero.Nat
import Mathlib.Data.Nat.Init
import Mathlib.Tactic.Common

/-!
# The frame buffer of an RGB panel

The panel is scanned in its own orientation.  In landscape a pixel of the screen is the same
pixel of the panel; in portrait the screen is the panel turned, its columns the rows of the panel
from the last one on.  `ltdc_draw_point` computes the address of one pixel, while the fills
compute a rectangle of the panel for the DMA2D, which writes it line by line.

A line of such a rectangle is a row of the screen in landscape, and a column of the screen in
portrait.  That does not matter where all of it has one colour.

## Main definitions

* `Ltdc` — the panel and the buffer of its active layer; `Store` — a pixel that is written.
* `ltdcDrawPoint`, `ltdcFill`, `ltdcColorFill` — the code.
* `Dma2d` — the registers of a transfer; `Dma2d.transfer` — what it writes.
* `addr_landscape`, `addr_portrait` — where the DMA2D puts the pixels of a rectangle.
* `ltdcFill_eq` — a fill writes the pixels of its rectangle, and nothing else.
* `ltdcColorFill_placed` — when a block of colours is put where it belongs.
-/

namespace Apollo.Lcd
open Lib

/-- A half word that is written to the frame buffer. -/
structure Store where
  addr : ℕ
  value : ℕ
  deriving DecidableEq

/-- `lcdltdc` with the address of the buffer of its active layer, of two bytes a pixel.  The
buffer does not go round the address space. -/
structure Ltdc where
  pwidth : ℕ
  pheight : ℕ
  dir : ℕ
  framebuf : ℕ
  connected : 0 < pwidth
  fits : framebuf + 2 * (pwidth * pheight) ≤ 2 ^ 32

/-- The stores that have been made, the last of them first. -/
abbrev Stores := List Store

/-- What the buffer shows at an address, where it has been written. -/
def Stores.shows (s : Stores) (addr : ℕ) : Option ℕ := (s.find? (·.addr = addr)).map Store.value

namespace Ltdc
variable (P : Ltdc)

/-- `lcdltdc.width`, as `ltdc_display_dir` sets it. -/
def width : ℕ := if P.dir ≠ 0 then P.pwidth else P.pheight

/-- `lcdltdc.height`. -/
def height : ℕ := if P.dir ≠ 0 then P.pheight else P.pwidth

/-- The address that `ltdc_draw_point` writes to. -/
def pointAddr (x y : ℕ) : ℕ :=
  if P.dir ≠ 0 then (P.framebuf + 2 * ((P.pwidth * y + x) % 2 ^ 32)) % 2 ^ 32
  else
    (P.framebuf + 2 * ((P.pwidth * ((P.pheight + 2 ^ 32 - x - 1) % 2 ^ 32) + y) % 2 ^ 32)) % 2 ^ 32

end Ltdc

/-- `ltdc_draw_point`, for `LTDC_PIXFORMAT_RGB565`. -/
def ltdcDrawPoint (P : Ltdc) (x y color : ℕ) : Prog Stores Unit :=
  Prog.modify fun s => ⟨P.pointAddr x y, color % 2 ^ 16⟩ :: s

/-! ## The DMA2D -/

/-- The registers of a transfer. -/
structure Dma2d where
  oor : ℕ
  omar : ℕ
  nlr : ℕ

namespace Dma2d
variable (D : Dma2d)

/-- `NL`, the number of lines. -/
def nl : ℕ := D.nlr % 2 ^ 16

/-- `PL`, the pixels of a line. -/
def pl : ℕ := D.nlr / 2 ^ 16 % 2 ^ 14

/-- Where the pixel `k` of the line `l` goes. -/
def pixelAddr (l k : ℕ) : ℕ := (D.omar + 2 * (l * (D.pl + D.oor % 2 ^ 14) + k)) % 2 ^ 32

/-- A transfer whose pixel `k` of the line `l` is `value l k`. -/
def transfer (value : ℕ → ℕ → ℕ) : List Store :=
  (List.range D.nl).flatMap fun l =>
    (List.range D.pl).map fun k => ⟨D.pixelAddr l k, value l k⟩

theorem mem_transfer {value : ℕ → ℕ → ℕ} {st : Store} :
    st ∈ D.transfer value ↔
      ∃ l < D.nl, ∃ k < D.pl, st = ⟨D.pixelAddr l k, value l k⟩ := by
  simp only [transfer, List.mem_flatMap, List.mem_map, List.mem_range, eq_comm]

end Dma2d

/-! ## The fills -/

/-- The corners of a rectangle on the panel. -/
structure Corners where
  psx : ℕ
  psy : ℕ
  pex : ℕ
  pey : ℕ

namespace Ltdc
variable (P : Ltdc)

/-- The conversion of the coordinates. -/
def corners (sx sy ex ey : ℕ) : Corners :=
  if P.dir ≠ 0 then ⟨sx, sy, ex, ey⟩
  else ⟨sy, (P.pheight + 2 ^ 32 - ex - 1) % 2 ^ 32, ey, (P.pheight + 2 ^ 32 - sx - 1) % 2 ^ 32⟩

/-- The registers for a rectangle of the panel; `offline` is a `uint16_t`. -/
def start (c : Corners) : Dma2d :=
  let columns := (c.pex + 2 ^ 32 - c.psx + 1) % 2 ^ 32
  { oor := (P.pwidth + 2 ^ 32 - columns) % 2 ^ 16
    omar := (P.framebuf + 2 * ((P.pwidth * c.psy + c.psx) % 2 ^ 32)) % 2 ^ 32
    nlr := ((c.pey + 2 ^ 32 - c.psy + 1) % 2 ^ 32) ||| (columns <<< 16 % 2 ^ 32) }

/-- `ltdc_fill` limits the columns in portrait. -/
def limited (x : ℕ) : ℕ :=
  if P.dir ≠ 0 then x
  else if P.pheight ≤ x then (P.pheight + 2 ^ 32 - 1) % 2 ^ 16
  else x

end Ltdc

/-! ## Panels with a controller -/

/-- A panel that has its own memory: where the next colour goes, and the points so far. -/
structure Gram where
  x : ℕ
  y : ℕ
  points : List Point

def lcdSetCursor (x y : ℕ) : Prog Gram Unit :=
  Prog.modify fun g => { g with x := x, y := y }

/-- `LCD->LCD_RAM = color`; the controller goes on to the right. -/
def lcdRam (color : ℕ) : Prog Gram Unit :=
  Prog.modify fun g => { g with x := g.x + 1, points := ⟨g.x, g.y, color⟩ :: g.points }

/-- A row of `lcd_color_fill`. -/
def gramRow (sx sy width : ℕ) (color : ℕ → UInt16) (i : ℕ) : Prog Gram Unit := do
  lcdSetCursor sx ((sy + i) % 2 ^ 16)
  Prog.forUp (fun j _ => lcdRam (color (i * width + j)).toNat) width 0 ()

/-- `lcd_color_fill` for a panel that is not an RGB panel. -/
def gramColorFill (sx sy ex ey : ℕ) (color : ℕ → UInt16) : Prog Gram Unit :=
  let width := (ex + 2 ^ 16 - sx + 1) % 2 ^ 16
  let height := (ey + 2 ^ 16 - sy + 1) % 2 ^ 16
  Prog.forUp (fun i _ => gramRow sx sy width color i) height 0 ()

/-! ## RGB panels -/

def ltdcFill (P : Ltdc) (sx sy ex ey color : ℕ) : Prog Stores Unit :=
  let D := P.start (P.corners (P.limited sx) sy (P.limited ex) ey)
  Prog.modify fun s => (D.transfer fun _ _ => color % 2 ^ 16).reverse ++ s

/-- `ltdc_color_fill`; the source is read without gaps between its lines. -/
def ltdcColorFill (P : Ltdc) (sx sy ex ey : ℕ) (color : ℕ → UInt16) : Prog Stores Unit :=
  let D := P.start (P.corners sx sy ex ey)
  Prog.modify fun s => (D.transfer fun l k => (color (l * D.pl + k)).toNat).reverse ++ s


/-! ## Addresses -/

namespace Ltdc
variable (P : Ltdc) {x y : ℕ}

/-- A point of the screen. -/
structure Visible (x y : ℕ) : Prop where
  x_lt : x < P.width
  y_lt : y < P.height

/-- The number of the pixel at the column `i` and the row `j` of the panel. -/
def index (i j : ℕ) : ℕ := P.pwidth * j + i

theorem index_lt {i j : ℕ} (hi : i < P.pwidth) (hj : j < P.pheight) :
    P.index i j < P.pwidth * P.pheight := by
  calc P.index i j < P.pwidth * j + P.pwidth := Nat.add_lt_add_left hi _
    _ = P.pwidth * (j + 1) := (Nat.mul_succ _ _).symm
    _ ≤ P.pwidth * P.pheight := Nat.mul_le_mul_left _ hj

/-- A pixel of the panel has its own number. -/
theorem index_inj {i j i' j' : ℕ} (hi : i < P.pwidth) (hi' : i' < P.pwidth)
    (h : P.index i j = P.index i' j') : i = i' ∧ j = j' := by
  unfold index at h
  have hrow : j = j' := by
    have hdiv := congrArg (· / P.pwidth) h
    simpa only [Nat.mul_add_div P.connected, Nat.div_eq_of_lt hi, Nat.div_eq_of_lt hi',
      Nat.add_zero] using hdiv
  subst hrow
  exact ⟨Nat.add_left_cancel h, rfl⟩

theorem pheight_lt : P.pheight < 2 ^ 32 := by
  have hfits := P.fits
  have hle := Nat.le_mul_of_pos_left P.pheight P.connected
  omega

/-- Where the pixel of the panel with a number lies. -/
theorem index_addr {n : ℕ} (h : n < P.pwidth * P.pheight) :
    (P.framebuf + 2 * (n % 2 ^ 32)) % 2 ^ 32 = P.framebuf + 2 * n := by
  have hfits := P.fits
  omega

/-- The column of the panel that the point is on. -/
def column (x y : ℕ) : ℕ := if P.dir ≠ 0 then x else y

/-- The row of the panel that the point is on. -/
def row (x y : ℕ) : ℕ := if P.dir ≠ 0 then y else P.pheight - 1 - x

variable {P}

theorem Visible.landscape (h : P.Visible x y) (hdir : P.dir ≠ 0) :
    x < P.pwidth ∧ y < P.pheight := by
  have hx := h.x_lt
  have hy := h.y_lt
  rw [width, if_pos hdir] at hx
  rw [height, if_pos hdir] at hy
  exact ⟨hx, hy⟩

theorem Visible.portrait (h : P.Visible x y) (hdir : ¬ P.dir ≠ 0) :
    x < P.pheight ∧ y < P.pwidth := by
  have hx := h.x_lt
  have hy := h.y_lt
  rw [width, if_neg hdir] at hx
  rw [height, if_neg hdir] at hy
  exact ⟨hx, hy⟩

theorem Visible.column_lt (h : P.Visible x y) : P.column x y < P.pwidth := by
  by_cases hdir : P.dir ≠ 0
  · rw [column, if_pos hdir]
    exact (h.landscape hdir).1
  · rw [column, if_neg hdir]
    exact (h.portrait hdir).2

theorem Visible.row_lt (h : P.Visible x y) : P.row x y < P.pheight := by
  by_cases hdir : P.dir ≠ 0
  · rw [row, if_pos hdir]
    exact (h.landscape hdir).2
  · rw [row, if_neg hdir]
    have hx := (h.portrait hdir).1
    omega

/-- The address of a point of the screen. -/
theorem pointAddr_visible (h : P.Visible x y) :
    P.pointAddr x y = P.framebuf + 2 * P.index (P.column x y) (P.row x y) := by
  rw [← P.index_addr (P.index_lt h.column_lt h.row_lt), pointAddr]
  unfold index column row
  by_cases hdir : P.dir ≠ 0
  · rw [if_pos hdir, if_pos hdir, if_pos hdir]
  · have hx := (h.portrait hdir).1
    have hpheight := P.pheight_lt
    have hrow : (P.pheight + 2 ^ 32 - x - 1) % 2 ^ 32 = P.pheight - 1 - x := by omega
    rw [if_neg hdir, if_neg hdir, if_neg hdir, hrow]

/-- Points of the screen have their own addresses. -/
theorem pointAddr_inj {x' y' : ℕ} (h : P.Visible x y) (h' : P.Visible x' y')
    (heq : P.pointAddr x y = P.pointAddr x' y') : x = x' ∧ y = y' := by
  rw [pointAddr_visible h, pointAddr_visible h'] at heq
  have hindex : P.index (P.column x y) (P.row x y) = P.index (P.column x' y') (P.row x' y') := by
    omega
  obtain ⟨hcol, hrow⟩ := P.index_inj h.column_lt h'.column_lt hindex
  unfold column at hcol
  unfold row at hrow
  by_cases hdir : P.dir ≠ 0
  · rw [if_pos hdir, if_pos hdir] at hcol hrow
    exact ⟨hcol, hrow⟩
  · have hx := (h.portrait hdir).1
    have hx' := (h'.portrait hdir).1
    rw [if_neg hdir, if_neg hdir] at hcol hrow
    exact ⟨by omega, hcol⟩

/-! ## A rectangle -/

/-- What the DMA2D is told of a rectangle of the panel. -/
theorem start_spec (hsize : P.pwidth < 2 ^ 14 ∧ P.pheight < 2 ^ 14) {c : Corners}
    (hx : c.psx ≤ c.pex ∧ c.pex < P.pwidth) (hy : c.psy ≤ c.pey ∧ c.pey < P.pheight) :
    (P.start c).nl = c.pey - c.psy + 1 ∧ (P.start c).pl = c.pex - c.psx + 1 ∧
      ∀ l k, l ≤ c.pey - c.psy → k ≤ c.pex - c.psx →
        (P.start c).pixelAddr l k = P.framebuf + 2 * P.index (c.psx + k) (c.psy + l) := by
  have hcolumns : (c.pex + 2 ^ 32 - c.psx + 1) % 2 ^ 32 = c.pex - c.psx + 1 := by omega
  have hlines : (c.pey + 2 ^ 32 - c.psy + 1) % 2 ^ 32 = c.pey - c.psy + 1 := by omega
  have hshift : (c.pex - c.psx + 1) <<< 16 % 2 ^ 32 = (c.pex - c.psx + 1) <<< 16 := by
    rw [Nat.shiftLeft_eq]
    omega
  have hnlr : (P.start c).nlr = (c.pex - c.psx + 1) * 2 ^ 16 + (c.pey - c.psy + 1) := by
    have hor := Nat.shiftLeft_add_eq_or_of_lt (i := 16) (b := c.pey - c.psy + 1) (by omega)
      (c.pex - c.psx + 1)
    rw [Nat.shiftLeft_eq] at hor
    simp only [start, hcolumns, hlines, hshift]
    rw [Nat.or_comm, Nat.shiftLeft_eq, hor]
  have hnl : (P.start c).nl = c.pey - c.psy + 1 := by
    rw [Dma2d.nl, hnlr]
    omega
  have hpl : (P.start c).pl = c.pex - c.psx + 1 := by
    rw [Dma2d.pl, hnlr]
    omega
  have hoor : (P.start c).oor % 2 ^ 14 = P.pwidth - (c.pex - c.psx + 1) := by
    simp only [start, hcolumns]
    omega
  refine ⟨hnl, hpl, fun l k hl hk => ?_⟩
  have hfirst := P.index_lt (i := c.psx) (j := c.psy) (by omega) (by omega)
  have hlast := P.index_lt (i := c.psx + k) (j := c.psy + l) (by omega) (by omega)
  have homar : (P.start c).omar = P.framebuf + 2 * P.index c.psx c.psy := P.index_addr hfirst
  have hskip : c.pex - c.psx + 1 + (P.pwidth - (c.pex - c.psx + 1)) = P.pwidth := by omega
  have hindex : P.index (c.psx + k) (c.psy + l) = P.index c.psx c.psy + (l * P.pwidth + k) := by
    unfold index
    rw [Nat.mul_add, Nat.mul_comm l]
    omega
  have hfits := P.fits
  rw [Dma2d.pixelAddr, homar, hpl, hoor, hskip]
  omega

section Rectangle
variable {sx sy ex ey : ℕ} (hx : sx ≤ ex ∧ ex < P.width) (hy : sy ≤ ey ∧ ey < P.height)
include hx hy

theorem visible_of_le (hxy : x ≤ ex ∧ y ≤ ey) : P.Visible x y :=
  ⟨Nat.lt_of_le_of_lt hxy.1 hx.2, Nat.lt_of_le_of_lt hxy.2 hy.2⟩

variable (hsize : P.pwidth < 2 ^ 14 ∧ P.pheight < 2 ^ 14)
include hsize

/-- In landscape a line of the transfer is a row of the rectangle. -/
theorem addr_landscape (hdir : P.dir ≠ 0) :
    (P.start (P.corners sx sy ex ey)).nl = ey - sy + 1 ∧
      (P.start (P.corners sx sy ex ey)).pl = ex - sx + 1 ∧
      ∀ l k, l ≤ ey - sy → k ≤ ex - sx →
        (P.start (P.corners sx sy ex ey)).pixelAddr l k = P.pointAddr (sx + k) (sy + l) := by
  have hlast := (visible_of_le hx hy ⟨Nat.le_refl ex, Nat.le_refl ey⟩).landscape hdir
  have hcorners : P.corners sx sy ex ey = ⟨sx, sy, ex, ey⟩ := if_pos hdir
  rw [hcorners]
  obtain ⟨hnl, hpl, haddr⟩ := P.start_spec hsize (c := ⟨sx, sy, ex, ey⟩) ⟨hx.1, hlast.1⟩
    ⟨hy.1, hlast.2⟩
  refine ⟨hnl, hpl, fun l k hl hk => ?_⟩
  rw [haddr l k hl hk, pointAddr_visible (visible_of_le hx hy (by omega)), column, row,
    if_pos hdir, if_pos hdir]

/-- In portrait it is a column, from the last one on. -/
theorem addr_portrait (hdir : ¬ P.dir ≠ 0) :
    (P.start (P.corners sx sy ex ey)).nl = ex - sx + 1 ∧
      (P.start (P.corners sx sy ex ey)).pl = ey - sy + 1 ∧
      ∀ l k, l ≤ ex - sx → k ≤ ey - sy →
        (P.start (P.corners sx sy ex ey)).pixelAddr l k = P.pointAddr (ex - l) (sy + k) := by
  have hlast := (visible_of_le hx hy ⟨Nat.le_refl ex, Nat.le_refl ey⟩).portrait hdir
  have hcorners : P.corners sx sy ex ey =
      ⟨sy, P.pheight - 1 - ex, ey, P.pheight - 1 - sx⟩ := by
    have htop : (P.pheight + 2 ^ 32 - ex - 1) % 2 ^ 32 = P.pheight - 1 - ex := by omega
    have hbottom : (P.pheight + 2 ^ 32 - sx - 1) % 2 ^ 32 = P.pheight - 1 - sx := by omega
    rw [corners, if_neg hdir, htop, hbottom]
  rw [hcorners]
  have hlines : P.pheight - 1 - sx - (P.pheight - 1 - ex) = ex - sx := by omega
  obtain ⟨hnl, hpl, haddr⟩ := P.start_spec hsize
    (c := ⟨sy, P.pheight - 1 - ex, ey, P.pheight - 1 - sx⟩) ⟨hy.1, hlast.2⟩ (by dsimp only; omega)
  simp only [hlines] at hnl hpl haddr
  refine ⟨hnl, hpl, fun l k hl hk => ?_⟩
  have hrow : P.pheight - 1 - (ex - l) = P.pheight - 1 - ex + l := by omega
  rw [haddr l k hl hk, pointAddr_visible (visible_of_le hx hy (by omega)), column, row,
    if_neg hdir, if_neg hdir, hrow]

end Rectangle
end Ltdc

/-! ## One colour -/

section Fill
variable {P : Ltdc} {sx sy ex ey : ℕ}

/-- The limits of `ltdc_fill` keep the columns of the screen. -/
theorem limited_of_lt {x : ℕ} (h : x < P.width) : P.limited x = x := by
  unfold Ltdc.limited
  by_cases hdir : P.dir ≠ 0
  · rw [if_pos hdir]
  · rw [Ltdc.width, if_neg hdir] at h
    rw [if_neg hdir, if_neg (Nat.not_le.mpr h)]

/-- `ltdc_fill` writes what `ltdc_draw_point` writes for the points of the rectangle, and nothing
else. -/
theorem ltdcFill_eq (hsize : P.pwidth < 2 ^ 14 ∧ P.pheight < 2 ^ 14) (hx : sx ≤ ex ∧ ex < P.width)
    (hy : sy ≤ ey ∧ ey < P.height) (color : ℕ) (st : Store) :
    st ∈ (ltdcFill P sx sy ex ey color).state [] ↔
      ∃ x y, (sx ≤ x ∧ x ≤ ex) ∧ (sy ≤ y ∧ y ≤ ey) ∧
        st ∈ (ltdcDrawPoint P x y color).state [] := by
  rw [ltdcFill, limited_of_lt hx.2, limited_of_lt (Nat.lt_of_le_of_lt hx.1 hx.2)]
  simp only [Prog.state_modify, ltdcDrawPoint, List.append_nil, List.mem_reverse,
    Dma2d.mem_transfer, List.mem_singleton]
  by_cases hdir : P.dir ≠ 0
  · obtain ⟨hnl, hpl, haddr⟩ := Ltdc.addr_landscape hx hy hsize hdir
    rw [hnl, hpl]
    constructor
    · rintro ⟨l, hl, k, hk, rfl⟩
      refine ⟨sx + k, sy + l, by omega, by omega, ?_⟩
      rw [haddr l k (by omega) (by omega)]
    · rintro ⟨x, y, hxr, hyr, rfl⟩
      refine ⟨y - sy, by omega, x - sx, by omega, ?_⟩
      rw [haddr _ _ (by omega) (by omega), Nat.add_sub_cancel' hxr.1, Nat.add_sub_cancel' hyr.1]
  · obtain ⟨hnl, hpl, haddr⟩ := Ltdc.addr_portrait hx hy hsize hdir
    rw [hnl, hpl]
    constructor
    · rintro ⟨l, hl, k, hk, rfl⟩
      refine ⟨ex - l, sy + k, by omega, by omega, ?_⟩
      rw [haddr l k (by omega) (by omega)]
    · rintro ⟨x, y, hxr, hyr, rfl⟩
      refine ⟨ex - x, by omega, y - sy, by omega, ?_⟩
      rw [haddr _ _ (by omega) (by omega), Nat.sub_sub_self hxr.2, Nat.add_sub_cancel' hyr.1]

/-- A panel of 480 x 272, with its buffer at `LTDC_FRAME_BUF_ADDR`. -/
def panel4342 (dir : ℕ) : Ltdc := ⟨480, 272, dir, 0xC0000000, by decide, by decide⟩

/-- Three columns and two rows in portrait. -/
theorem ltdcFill_eq_portrait :
    (2 ≤ 4 ∧ 4 < (panel4342 0).width) ∧ (7 ≤ 8 ∧ 8 < (panel4342 0).height) ∧
      ∀ st, st ∈ (ltdcFill (panel4342 0) 2 7 4 8 0xF800).state [] ↔
        ∃ x y, (2 ≤ x ∧ x ≤ 4) ∧ (7 ≤ y ∧ y ≤ 8) ∧
          st ∈ (ltdcDrawPoint (panel4342 0) x y 0xF800).state [] :=
  ⟨by decide, by decide, ltdcFill_eq (by decide) (by decide) (by decide) 0xF800⟩

end Fill

/-! ## A block of colours -/

/-- The picture is on the screen with its first row at the top. -/
def Upright (P : Ltdc) (sx sy ex ey : ℕ) (color : ℕ → UInt16) (s : Stores) : Prop :=
  ∀ i ≤ ey - sy, ∀ j ≤ ex - sx,
    s.shows (P.pointAddr (sx + j) (sy + i)) = some (color (i * (ex - sx + 1) + j)).toNat

instance (P : Ltdc) (sx sy ex ey : ℕ) (color : ℕ → UInt16) (s : Stores) :
    Decidable (Upright P sx sy ex ey color s) :=
  inferInstanceAs (Decidable (∀ i ≤ ey - sy, ∀ j ≤ ex - sx, _ = _))

/-- The colours make the same block when they are laid out column by column from the last one on
as they do row by row. -/
def Turned (sx sy ex ey : ℕ) (color : ℕ → UInt16) : Prop :=
  ∀ i ≤ ey - sy, ∀ j ≤ ex - sx,
    color ((ex - sx - j) * (ey - sy + 1) + i) = color (i * (ex - sx + 1) + j)

/-- A row that goes through the controller. -/
theorem gramRow_points {sx sy width i : ℕ} (hy : sy + i < 2 ^ 16) (color : ℕ → UInt16) (g : Gram)
    (p : Point) :
    p ∈ ((gramRow sx sy width color i).state g).points ↔
      p ∈ g.points ∨ ∃ j < width, p = ⟨sx + j, sy + i, (color (i * width + j)).toNat⟩ := by
  set row := Prog.forUp (fun j _ => lcdRam (color (i * width + j)).toNat) width 0 () with hrow
  set g₀ : Gram := { g with x := sx, y := sy + i } with hg₀
  have hrun : (row.state g₀).x = sx + width ∧ (row.state g₀).y = sy + i ∧
      ∀ p, p ∈ (row.state g₀).points ↔ p ∈ g.points ∨
        ∃ j < width, p = ⟨sx + j, sy + i, (color (i * width + j)).toNat⟩ := by
    refine Prog.forUp_inv (n := width)
      (I := fun j (_ : Unit) (t : Gram) => t.x = sx + j ∧ t.y = sy + i ∧
        ∀ p, p ∈ t.points ↔ p ∈ g.points ∨
          ∃ j' < j, p = ⟨sx + j', sy + i, (color (i * width + j')).toNat⟩)
      (fun j _ _ t ⟨hx, hy, hpoints⟩ => ?_) (Nat.zero_add width) ⟨rfl, rfl, fun p => by simp [hg₀]⟩
    refine ⟨by simp only [lcdRam, Prog.state_modify, hx, Nat.add_assoc], hy, fun p => ?_⟩
    simp only [lcdRam, Prog.state_modify, List.mem_cons, hpoints, hx, hy, Nat.lt_succ_iff_lt_or_eq]
    constructor
    · rintro (rfl | hold | ⟨j', hj', rfl⟩)
      · exact .inr ⟨j, .inr rfl, rfl⟩
      · exact .inl hold
      · exact .inr ⟨j', .inl hj', rfl⟩
    · rintro (hold | ⟨j', hj' | rfl, rfl⟩)
      · exact .inr (.inl hold)
      · exact .inr (.inr ⟨j', hj', rfl⟩)
      · exact .inl rfl
  rw [gramRow, Prog.state_bind, Nat.mod_eq_of_lt hy]
  exact hrun.2.2 p

/-- Panels with a controller have the picture upright. -/
theorem gramColorFill_points {sx sy ex ey : ℕ} (hx : sx ≤ ex ∧ ex < 2 ^ 16 - 1)
    (hy : sy ≤ ey ∧ ey < 2 ^ 16 - 1) (color : ℕ → UInt16) (x y : ℕ) (p : Point) :
    p ∈ ((gramColorFill sx sy ex ey color).state ⟨x, y, []⟩).points ↔
      ∃ i ≤ ey - sy, ∃ j ≤ ex - sx,
        p = ⟨sx + j, sy + i, (color (i * (ex - sx + 1) + j)).toNat⟩ := by
  have hwidth : (ex + 2 ^ 16 - sx + 1) % 2 ^ 16 = ex - sx + 1 := by omega
  have hheight : (ey + 2 ^ 16 - sy + 1) % 2 ^ 16 = ey - sy + 1 := by omega
  set rows := Prog.forUp (fun i _ => gramRow sx sy (ex - sx + 1) color i) (ey - sy + 1) 0 ()
    with hrows
  have hrun : ∀ p, p ∈ (rows.state ⟨x, y, []⟩).points ↔ ∃ i < ey - sy + 1, ∃ j < ex - sx + 1,
      p = ⟨sx + j, sy + i, (color (i * (ex - sx + 1) + j)).toNat⟩ := by
    refine Prog.forUp_inv (n := ey - sy + 1)
      (I := fun i (_ : Unit) (t : Gram) => ∀ p, p ∈ t.points ↔
        ∃ i' < i, ∃ j < ex - sx + 1,
          p = ⟨sx + j, sy + i', (color (i' * (ex - sx + 1) + j)).toNat⟩)
      (fun i hi _ t hpoints p => ?_) (Nat.zero_add _) (fun p => by simp)
    rw [gramRow_points (by omega), hpoints]
    constructor
    · rintro (⟨i', hi', hp⟩ | hp)
      · exact ⟨i', by omega, hp⟩
      · exact ⟨i, by omega, hp⟩
    · rintro ⟨i', hi', hp⟩
      rcases Nat.lt_succ_iff_lt_or_eq.mp hi' with hlt | rfl
      · exact .inl ⟨i', hlt, hp⟩
      · exact .inr hp
  rw [gramColorFill, hwidth, hheight, ← hrows]
  simpa only [Nat.lt_succ_iff] using hrun p

/-- An address that has been written with one value only shows it. -/
theorem shows_of_mem {s : Stores} {st : Store} (hmem : st ∈ s)
    (hone : ∀ st' ∈ s, st'.addr = st.addr → st'.value = st.value) :
    s.shows st.addr = some st.value := by
  have hsome : (s.find? (·.addr = st.addr)).isSome :=
    List.find?_isSome.mpr ⟨st, hmem, by simp⟩
  obtain ⟨st', hfind⟩ := Option.isSome_iff_exists.mp hsome
  have haddr : st'.addr = st.addr := by simpa using List.find?_some hfind
  rw [Stores.shows, hfind, Option.map_some, hone st' (List.mem_of_find?_eq_some hfind) haddr]

section ColorFill
variable {P : Ltdc} {sx sy ex ey : ℕ}

/-- Where the DMA2D writes the points of the rectangle, each of them as one pixel of the transfer,
the screen shows at a point what the transfer has for it. -/
theorem shows_colorFill {color : ℕ → UInt16} {x y l k : ℕ} {D : Dma2d}
    (hD : P.start (P.corners sx sy ex ey) = D) (point : ℕ → ℕ → ℕ × ℕ)
    (hvisible : P.Visible x y) (hpoint : point l k = (x, y)) (hl : l < D.nl) (hk : k < D.pl)
    (hpoints : ∀ l' k', l' < D.nl → k' < D.pl →
      P.Visible (point l' k').1 (point l' k').2 ∧
      D.pixelAddr l' k' = P.pointAddr (point l' k').1 (point l' k').2 ∧
      (point l' k' = point l k → l' = l ∧ k' = k)) :
    ((ltdcColorFill P sx sy ex ey color).state []).shows (P.pointAddr x y) =
      some (color (l * D.pl + k)).toNat := by
  obtain ⟨-, haddr, -⟩ := hpoints l k hl hk
  rw [hpoint] at haddr
  dsimp only at haddr
  have hmem {st : Store} : st ∈ (ltdcColorFill P sx sy ex ey color).state [] ↔
      ∃ l < D.nl, ∃ k < D.pl, st = ⟨D.pixelAddr l k, (color (l * D.pl + k)).toNat⟩ := by
    simp only [ltdcColorFill, hD, Prog.state_modify, List.append_nil, List.mem_reverse,
      Dma2d.mem_transfer]
  have hstored : (⟨P.pointAddr x y, (color (l * D.pl + k)).toNat⟩ : Store) ∈
      (ltdcColorFill P sx sy ex ey color).state [] := hmem.mpr ⟨l, hl, k, hk, by rw [haddr]⟩
  refine shows_of_mem hstored fun st' hst' heq => ?_
  obtain ⟨l', hl', k', hk', rfl⟩ := hmem.mp hst'
  obtain ⟨hvisible', haddr', hinj⟩ := hpoints l' k' hl' hk'
  dsimp only at heq
  rw [haddr'] at heq
  obtain ⟨hx, hy⟩ := Ltdc.pointAddr_inj hvisible' hvisible heq
  obtain ⟨rfl, rfl⟩ := hinj (by rw [hpoint]; exact Prod.ext hx hy)
  rfl

/-- A block of colours is put where it belongs in landscape, and in portrait only if that is the
block which its colours make column by column, too. -/
theorem ltdcColorFill_placed (hsize : P.pwidth < 2 ^ 14 ∧ P.pheight < 2 ^ 14)
    (hx : sx ≤ ex ∧ ex < P.width) (hy : sy ≤ ey ∧ ey < P.height) (color : ℕ → UInt16) :
    Upright P sx sy ex ey color ((ltdcColorFill P sx sy ex ey color).state []) ↔
      P.dir ≠ 0 ∨ Turned sx sy ex ey color := by
  by_cases hdir : P.dir ≠ 0
  · obtain ⟨hnl, hpl, haddr⟩ := Ltdc.addr_landscape hx hy hsize hdir
    refine iff_of_true (fun i hi j hj => ?_) (.inl hdir)
    rw [shows_colorFill (l := i) (k := j) rfl (fun l k => (sx + k, sy + l))
      (Ltdc.visible_of_le hx hy (by omega)) rfl (by omega) (by omega) fun l' k' hl' hk' =>
        ⟨Ltdc.visible_of_le hx hy (by dsimp only; omega), haddr l' k' (by omega) (by omega),
          fun h => by simp only [Prod.mk.injEq] at h; omega⟩, hpl]
  · obtain ⟨hnl, hpl, haddr⟩ := Ltdc.addr_portrait hx hy hsize hdir
    have hshows (i : ℕ) (hi : i ≤ ey - sy) (j : ℕ) (hj : j ≤ ex - sx) :
        ((ltdcColorFill P sx sy ex ey color).state []).shows (P.pointAddr (sx + j) (sy + i)) =
          some (color ((ex - sx - j) * (ey - sy + 1) + i)).toNat := by
      rw [shows_colorFill (l := ex - sx - j) (k := i) rfl (fun l k => (ex - l, sy + k))
        (Ltdc.visible_of_le hx hy (by omega)) (by rw [Prod.mk.injEq]; omega) (by omega)
        (by omega) fun l' k' hl' hk' =>
          ⟨Ltdc.visible_of_le hx hy (by dsimp only; omega), haddr l' k' (by omega) (by omega),
            fun h => by simp only [Prod.mk.injEq] at h; omega⟩, hpl]
    constructor
    · refine fun h => .inr fun i hi j hj => ?_
      have hboth := (hshows i hi j hj).symm.trans (h i hi j hj)
      exact UInt16.toNat_inj.mp (Option.some.inj hboth)
    · rintro (h | h) i hi j hj
      · exact absurd h hdir
      · rw [hshows i hi j hj, h i hi j hj]

/-- A row of four colours in landscape. -/
theorem ltdcColorFill_placed_row :
    Upright (panel4342 1) 10 20 13 20 (fun n => .ofNat n)
      ((ltdcColorFill (panel4342 1) 10 20 13 20 fun n => .ofNat n).state []) :=
  (ltdcColorFill_placed (by decide) (by decide) (by decide) _).mpr (.inl (by decide))

/-- In portrait the second of two colours is put before the first. -/
theorem ltdcColorFill_mirrored :
    ¬ Upright (panel4342 0) 10 20 11 20 (fun n => .ofNat n)
      ((ltdcColorFill (panel4342 0) 10 20 11 20 fun n => .ofNat n).state []) := by
  decide

end ColorFill
end Apollo.Lcd
