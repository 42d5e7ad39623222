import Apollo.Lib.Overlay
import Apollo.Lcd.Glyph
import Mathlib.Data.List.Nodup
import Mathlib.Data.List.Range
import Mathlib.Tactic.IntervalCases

/-!
# Which dots of a character are drawn

The dots of a character are counted column by column.  `lcd_show_char` draws them in this order.
Where the cell ends above the last row of the screen it draws all of them.  Where it ends with
the last row, the end of the first column is taken for the end of the screen.

## Main definitions

* `glyphBit` — a dot of the font; `Painted` — each pixel of a cell is drawn once, as the font says.
* `points_lcdShowChar` — the dots that `lcd_show_char` draws, one after the other.
* `painted_iff` — when a character that fits is drawn completely.
-/

namespace Apollo.Lcd
open Lib

/-- The bit of a character at a column and a row: the columns one after the other, the top of each
in the highest bit of its first byte. -/
def glyphBit (bytes : ℕ → ℕ) (size i row : ℕ) : ℕ :=
  bytes (i * columnBytes size + row / 8) / 2 ^ (7 - row % 8) % 2

/-- The colour of a pixel of a character in mode 0. -/
def dotColor (D : Lcddev) (bytes : ℕ → ℕ) (size color i row : ℕ) : ℕ :=
  if glyphBit bytes size i row = 1 then color else D.backColor

/-- The points are the pixels of the cell, each of them once, with their colours. -/
structure Painted (c : Cell) (color : ℕ → ℕ → ℕ) (points : List Point) : Prop where
  once : (points.map fun p => (p.x, p.y)).Nodup
  all : ∀ p, p ∈ points ↔ c.Holds p ∧ p.color = color (p.x - c.x) (p.y - c.y)

/-! ## One dot after the other -/

section Dots
variable (D : Lcddev) (bytes : ℕ → ℕ) (size color x y : ℕ)

/-- The dot `m`. -/
def dot (m : ℕ) : Point :=
  ⟨x + m / size, y + m % size, dotColor D bytes size color (m / size) (m % size)⟩

/-- The first `k` dots have been drawn since `s`. -/
def withDots (s : Screen) (k : ℕ) : Screen :=
  { s with points := s.points ++ (List.range k).map (dot D bytes size color x y) }

/-- How many dots `lcd_show_char` draws of a character that fits. -/
def dotCount : ℕ := if y + size < D.height then size * (size / 2) else size

variable {D bytes size color x y}

theorem dot_column {i row : ℕ} (hrow : row < size) :
    dot D bytes size color x y (i * size + row) =
      ⟨x + i, y + row, dotColor D bytes size color i row⟩ := by
  rw [dot, row_div hrow, Nat.mul_add_mod_of_lt hrow]

theorem withDots_succ (s : Screen) (k : ℕ) (p : Point) (hp : dot D bytes size color x y k = p) :
    { withDots D bytes size color x y s k with
      points := (withDots D bytes size color x y s k).points ++ [p] } =
      withDots D bytes size color x y s (k + 1) := by
  simp only [withDots, List.range_succ, List.map_append, List.map_singleton, hp,
    List.append_assoc]

variable (D bytes color) in
/-- In mode 0 each bit is drawn, in one of the two colours. -/
theorem state_drawDot {i row : ℕ} (hrow : row < size) {a : Pen} (hx : a.x = x + i)
    (hy : a.y = y + row) (htemp : a.temp / 128 % 2 = glyphBit bytes size i row) (s : Screen) :
    (drawDot D 0 color a).state (withDots D bytes size color x y s (i * size + row)) =
      withDots D bytes size color x y s (i * size + row + 1) := by
  rw [← withDots_succ s _ _ (dot_column hrow), drawDot, htemp, dotColor, if_pos (rfl : (0 : ℕ) = 0)]
  split <;> rw [lcdDrawPoint, Prog.state_modify, hx, hy]

end Dots

/-- The bit at the top after some shifts. -/
theorem top_bit_shifted {b temp j : ℕ} (hj : j < 8) (h : temp % 256 = b * 2 ^ j % 256) :
    temp / 128 % 2 = b / 2 ^ (7 - j) % 2 := by
  interval_cases j <;> omega

/-- One more shift. -/
theorem shifted_succ {b temp j : ℕ} (h : temp % 256 = b * 2 ^ j % 256) :
    temp * 2 % 256 % 256 = b * 2 ^ (j + 1) % 256 := by
  rw [Nat.pow_succ, ← Nat.mul_assoc]
  omega

/-! ## The loops -/

section Loops
variable (D : Lcddev) (bytes : ℕ → ℕ) (size color x y : ℕ) (s : Screen)

/-- Before the byte `t` the pen is at the top of its rows, and the dots above and to the left of it
have been drawn.  On the last row of the screen the pen has not left the first column. -/
def ByteAt (t : ℕ) (a : Pen) (s' : Screen) : Prop :=
  ∃ i r, t = i * columnBytes size + r ∧ r < columnBytes size ∧ a.x = x + i ∧ a.y = y + 8 * r ∧
    s' = withDots D bytes size color x y s (i * size + 8 * r) ∧ (y + size = D.height → i = 0)

/-- Before the bit `j` of a byte the pen is on its row, with this bit at the top. -/
def BitAt (byte i r j : ℕ) (a : Pen) (s' : Screen) : Prop :=
  8 * r + j < size ∧ a.x = x + i ∧ a.y = y + (8 * r + j) ∧
    s' = withDots D bytes size color x y s (i * size + (8 * r + j)) ∧
    a.temp % 256 = byte * 2 ^ j % 256

/-- The last bits of a column have been drawn: the pen is at the top of the next one, or the
character ends. -/
def ColumnEnd (i r : ℕ) (f : Flow Pen Unit) (s' : Screen) : Prop :=
  f.Holds
    (fun a => (a.x = x + i + 1 ∧ a.y = y ∧ y + size ≠ D.height) ∧ size ≤ 8 * r + 8 ∧
      s' = withDots D bytes size color x y s (i * size + size))
    fun _ => s' = withDots D bytes size color x y s (dotCount D size y)

variable {D bytes size color x y s} (hwidth : D.width < 2 ^ 16) (hheight : D.height < 2 ^ 16)
  (hx : x + size / 2 ≤ D.width) (hy : y + size ≤ D.height)
include hwidth hheight hx hy

/-- One bit draws the next dot.  It is the last one of a column at the end of the loop, and the
last one of all at the edge of the screen. -/
theorem bitRound_dots {i row : ℕ} (hi : i < size / 2) (hrow : row < size)
    (hedge : y + size = D.height → i = 0) {a : Pen} (hax : a.x = x + i) (hay : a.y = y + row)
    (htemp : a.temp / 128 % 2 = glyphBit bytes size i row) (j : ℕ) {s' : Screen}
    (hs : s' = withDots D bytes size color x y s (i * size + row)) :
    (bitRound D true y size 0 color j a).state s' =
        withDots D bytes size color x y s (i * size + row + 1) ∧
      ((bitRound D true y size 0 color j a).val s').Holds
        (fun a' => row + 1 < size ∧ a' = ⟨a.x, a.y + 1, a.temp * 2 % 256⟩)
        fun f => row + 1 = size ∧ f.Holds
          (fun a' => a'.x = x + i + 1 ∧ a'.y = y ∧ y + size ≠ D.height)
          fun _ => i * size + row + 1 = dotCount D size y := by
  have hmody : (a.y + 1) % 2 ^ 16 = a.y + 1 := Nat.mod_eq_of_lt (by omega)
  have hmodx : (a.x + 1) % 2 ^ 16 = a.x + 1 := Nat.mod_eq_of_lt (by omega)
  have hdot := state_drawDot D bytes color hrow hax hay htemp s
  rw [bitRound, hs]
  simp only [Prog.state_bind, Prog.val_bind, hmody, hmodx, true_and, hdot]
  by_cases hbottom : D.height ≤ a.y + 1
  · -- the cell ends with the screen, and this is the end of its first column
    have hi0 := hedge (by omega)
    rw [if_pos hbottom]
    refine ⟨rfl, by omega, ?_⟩
    rw [Flow.holds_exit, dotCount, if_neg (by omega), hi0]
    omega
  · rw [if_neg hbottom]
    by_cases hend : a.y + 1 = y + size
    · rw [if_pos hend]
      have hfull : y + size < D.height := by omega
      by_cases hright : D.width ≤ a.x + 1
      · rw [if_pos hright]
        refine ⟨rfl, by omega, ?_⟩
        have hlast : i + 1 = size / 2 := by omega
        have htotal : size * (size / 2) = i * size + size := by
          rw [← hlast, Nat.mul_comm, Nat.add_mul, Nat.one_mul]
        rw [Flow.holds_exit, dotCount, if_pos hfull]
        omega
      · rw [if_neg hright]
        exact ⟨rfl, by omega, by dsimp only; omega, rfl, by omega⟩
    · rw [if_neg hend]
      exact ⟨rfl, by omega, rfl⟩

/-- The bits of one byte draw their dots, as far as the column goes. -/
theorem bits_dots {i r : ℕ} (hi : i < size / 2) (hedge : y + size = D.height → i = 0)
    {a : Pen} {s' : Screen} (h : BitAt D bytes size color x y s
      (bytes (i * columnBytes size + r)) i r 0 a s') :
    ((Prog.loop (bitRound D true y size 0 color) 8 0 a).val s').Holds
      (fun a' => BitAt D bytes size color x y s (bytes (i * columnBytes size + r)) i r 8 a'
        ((Prog.loop (bitRound D true y size 0 color) 8 0 a).state s'))
      fun f => ColumnEnd D bytes size color x y s i r f
        ((Prog.loop (bitRound D true y size 0 color) 8 0 a).state s') := by
  refine Prog.loop_inv (n := 8)
    (I := BitAt D bytes size color x y s (bytes (i * columnBytes size + r)) i r)
    (Q := ColumnEnd D bytes size color x y s i r)
    (fun j hj a' u ⟨hrow, hax, hay, hu, htemp⟩ => ?_) (Nat.zero_add 8) h
  have hbyte : (8 * r + j) / 8 = r ∧ (8 * r + j) % 8 = j := by omega
  have hbit : a'.temp / 128 % 2 = glyphBit bytes size i (8 * r + j) := by
    rw [top_bit_shifted hj htemp, glyphBit, hbyte.1, hbyte.2]
  obtain ⟨hstate, hval⟩ := bitRound_dots hwidth hheight hx hy hi hrow hedge hax hay hbit j hu
  rw [hstate]
  refine hval.imp (fun b ⟨hnext, hb⟩ => ?_) fun f ⟨hend, hf⟩ =>
    hf.imp (fun b hb => ?_) fun _ hb => ?_
  · rw [hb]
    exact ⟨hnext, hax, by dsimp only; omega, by rw [Nat.add_assoc, Nat.add_assoc],
      shifted_succ htemp⟩
  · exact ⟨hb, by omega, by rw [Nat.add_assoc, hend]⟩
  · rw [hb]

/-- One byte draws its dots. -/
theorem byteRound_dots {t : ℕ} (ht : t < columnBytes size * (size / 2))
    {a : Pen} {s' : Screen} (h : ByteAt D bytes size color x y s t a s') :
    ((byteRound D true y size 0 color bytes t a).val s').Holds
      (fun a' => ByteAt D bytes size color x y s (t + 1) a'
        ((byteRound D true y size 0 color bytes t a).state s'))
      fun _ => (byteRound D true y size 0 color bytes t a).state s' =
        withDots D bytes size color x y s (dotCount D size y) := by
  obtain ⟨i, r, htr, hr, hax, hay, hs, hedge⟩ := h
  obtain ⟨hlow, hhigh⟩ := columnBytes_bounds size
  have hi : i < size / 2 := by
    by_contra hle
    have hcols := Nat.mul_le_mul_left (columnBytes size) (Nat.le_of_not_lt hle)
    rw [Nat.mul_comm _ i] at hcols
    omega
  have hfirst : BitAt D bytes size color x y s (bytes (i * columnBytes size + r)) i r 0
      { a with temp := bytes t } s' := ⟨by omega, hax, hay, hs, by simp [htr]⟩
  have hbits := bits_dots hwidth hheight hx hy hi hedge hfirst
  rw [byteRound]
  simp only [Prog.state_bind, Prog.val_bind]
  cases hv : (Prog.loop (bitRound D true y size 0 color) 8 0 { a with temp := bytes t }).val s' with
  | next a' =>
      rw [hv] at hbits
      obtain ⟨hmore, hax', hay', hu, -⟩ := hbits
      exact ⟨i, r + 1, by omega, by omega, hax', by omega, hu, hedge⟩
  | exit f =>
      rw [hv] at hbits
      cases f with
      | next a' =>
          -- the next byte is the first one of the next column
          obtain ⟨⟨hax', hay', hfull⟩, hend, hu⟩ := hbits
          refine ⟨i + 1, 0, ?_, by omega, hax', by omega, ?_, fun h => absurd h hfull⟩
          · rw [Nat.add_mul]
            omega
          · rw [Nat.add_mul, Nat.one_mul]
            exact hu
      | exit b => exact hbits

/-- The dots that `lcd_show_char` draws of a character that fits. -/
theorem state_drawBytes (hsize : 1 < size / 2) :
    (drawBytes D true size 0 color bytes (columnBytes size * (size / 2)) x y).state s =
      withDots D bytes size color x y s (dotCount D size y) := by
  obtain ⟨hlow, hhigh⟩ := columnBytes_bounds size
  set n := columnBytes size * (size / 2) with hn
  set rows := Prog.loop (byteRound D true y size 0 color bytes) n 0 ⟨x, y, 0⟩ with hrows
  have hloop : (rows.val s).Holds (fun a' => ByteAt D bytes size color x y s n a' (rows.state s))
      fun _ => rows.state s = withDots D bytes size color x y s (dotCount D size y) :=
    Prog.loop_inv (n := n) (I := ByteAt D bytes size color x y s)
      (Q := fun _ u => u = withDots D bytes size color x y s (dotCount D size y))
      (fun t ht a' u h => byteRound_dots hwidth hheight hx hy ht h) (Nat.zero_add n)
      ⟨0, 0, by omega, by omega, rfl, rfl, by simp [withDots], fun _ => rfl⟩
  rw [drawBytes]
  simp only [Prog.state_bind, Prog.state_pure]
  change rows.state s = _
  cases hv : rows.val s with
  | next a' =>
      rw [hv] at hloop
      obtain ⟨i, r, htr, hr, -, -, hu, hedge⟩ := hloop
      have hi : i = size / 2 := by
        rw [← row_div (i := i) hr, ← htr, hn, Nat.mul_div_cancel_left _ (by omega)]
      have hr0 : r = 0 := by
        rw [hn, hi, Nat.mul_comm] at htr
        omega
      rw [hu, dotCount, if_pos (by omega), hi, hr0, Nat.mul_comm size]
      rfl
  | exit b =>
      rw [hv] at hloop
      exact hloop

end Loops

/-! ## Complete characters -/

section Complete
variable {D : Lcddev} {bytes : ℕ → ℕ} {size color x y : ℕ}

/-- All the dots are the cell. -/
theorem painted_dots (hsize : 0 < size) :
    Painted ⟨x, y, size / 2, size⟩ (dotColor D bytes size color)
      ((List.range (size * (size / 2))).map (dot D bytes size color x y)) where
  once := by
    rw [List.map_map]
    refine List.nodup_range.map_on fun m _ m' _ h => ?_
    simp only [Function.comp_apply, dot, Prod.mk.injEq, Nat.add_left_cancel_iff] at h
    rw [← Nat.div_add_mod m size, ← Nat.div_add_mod m' size, h.1, h.2]
  all p := by
    simp only [List.mem_map, List.mem_range, Cell.Holds]
    constructor
    · rintro ⟨m, hm, rfl⟩
      have hcolumn : m / size < size / 2 := Nat.div_lt_of_lt_mul hm
      have hrow : m % size < size := Nat.mod_lt m hsize
      simp only [dot, Nat.add_sub_cancel_left, and_true, Nat.le_add_right, true_and]
      exact ⟨Nat.add_lt_add_left hcolumn x, Nat.add_lt_add_left hrow y⟩
    · rintro ⟨⟨hx, hy⟩, hcolor⟩
      have hrow : p.y - y < size := by omega
      refine ⟨(p.x - x) * size + (p.y - y), ?_, ?_⟩
      · calc (p.x - x) * size + (p.y - y) < (p.x - x + 1) * size := by
              rw [Nat.add_mul, Nat.one_mul]
              exact Nat.add_lt_add_left hrow _
          _ ≤ size / 2 * size := Nat.mul_le_mul_right size (by omega)
          _ = size * (size / 2) := Nat.mul_comm _ _
      · rw [dot_column hrow, ← hcolor, Nat.add_sub_cancel' hx.1, Nat.add_sub_cancel' hy.1]

/-- The first column is not. -/
theorem not_painted_column (hsize : 1 < size / 2) :
    ¬ Painted ⟨x, y, size / 2, size⟩ (dotColor D bytes size color)
      ((List.range size).map (dot D bytes size color x y)) := by
  intro h
  have hsecond := (h.all ⟨x + 1, y, dotColor D bytes size color 1 0⟩).mpr
    ⟨⟨by dsimp only; omega, by dsimp only; omega⟩, by
      rw [Nat.add_sub_cancel_left, Nat.sub_self]⟩
  obtain ⟨m, hm, hdot⟩ := List.mem_map.mp hsecond
  have hcolumn : m / size = 0 := Nat.div_eq_of_lt (List.mem_range.mp hm)
  rw [dot, hcolumn, Point.mk.injEq] at hdot
  omega

end Complete

/-! ## Characters of supported sizes -/

theorem Supported.wide {size : ℕ} (h : Supported size) : 1 < size / 2 := by
  rcases h with rfl | rfl | rfl | rfl <;> decide

theorem Supported.csize {size : ℕ} (h : Supported size) :
    columnBytes size * (size / 2) % 256 = columnBytes size * (size / 2) := by
  rcases h with rfl | rfl | rfl | rfl <;> rfl

section ShowChar
variable (D : Lcddev) (hpanel : D.width < 2 ^ 16 ∧ D.height < 2 ^ 16) (asc2 : ℕ → ℕ → ℕ → ℕ)
  {x y chr size : ℕ} (hsize : Supported size) (hx : x + size / 2 ≤ D.width)
  (hy : y + size ≤ D.height) (color : ℕ) (s : Screen)
include hpanel hsize hx hy

/-- `lcd_show_char` draws the dots of a character that fits in their order, all of them or those
of the first column. -/
theorem points_lcdShowChar :
    ((lcdShowChar D asc2 x y chr size 0 color).state s).points =
      s.points ++ (List.range (dotCount D size y)).map
        (dot D (asc2 size ((chr + 256 - 32) % 256)) size color x y) := by
  rw [lcdShowChar, if_pos hsize, Prog.state_bind, hsize.csize,
    state_drawBytes hpanel.1 hpanel.2 hx hy hsize.wide]
  rfl

/-- A character that fits is drawn completely if and only if it ends above the last row of the
screen. -/
theorem painted_iff (hchr : 32 ≤ chr ∧ chr ≤ 126) :
    (∃ points, ((lcdShowChar D asc2 x y chr size 0 color).state s).points = s.points ++ points ∧
      Painted ⟨x, y, size / 2, size⟩ (dotColor D (asc2 size (chr - 32)) size color) points) ↔
    y + size < D.height := by
  have hrow : (chr + 256 - 32) % 256 = chr - 32 := by omega
  rw [points_lcdShowChar D hpanel asc2 hsize hx hy, hrow]
  simp only [List.append_cancel_left_eq, exists_eq_left']
  by_cases hfull : y + size < D.height
  · rw [dotCount, if_pos hfull]
    exact iff_of_true (painted_dots (by have := hsize.wide; omega)) hfull
  · rw [dotCount, if_neg hfull]
    exact iff_of_false (not_painted_column hsize.wide) hfull

end ShowChar

/-- A character in the corner of the rows above the last one. -/
theorem painted_iff_corner :
    (∃ points, ((lcdShowChar ⟨480, 272, 0xFFFF⟩ (fun _ _ _ => 0) 472 255 32 16 0 0).state
        ⟨[], [], []⟩).points = [] ++ points ∧
      Painted ⟨472, 255, 16 / 2, 16⟩ (dotColor ⟨480, 272, 0xFFFF⟩ (fun _ => 0) 16 0) points) ↔
    255 + 16 < 272 :=
  painted_iff ⟨480, 272, 0xFFFF⟩ (by decide) (fun _ _ _ => 0) (.inr (.inl rfl)) (by decide)
    (by decide) 0 ⟨[], [], []⟩ (by decide)

/-- On the last row a blank has its first column only. -/
theorem not_painted_blank :
    ¬ ∃ points, ((lcdShowChar ⟨480, 272, 0xFFFF⟩ (fun _ _ _ => 0) 0 256 32 16 0 0).state
        ⟨[], [], []⟩).points = [] ++ points ∧
      Painted ⟨0, 256, 16 / 2, 16⟩ (dotColor ⟨480, 272, 0xFFFF⟩ (fun _ => 0) 16 0) points := by
  rw [points_lcdShowChar _ (by decide) _ (.inr (.inl rfl)) (by decide) (by decide)]
  simp only [List.append_cancel_left_eq, exists_eq_left']
  exact not_painted_column (by decide)

/-! ## Characters one after the other -/

/-- A call of `lcd_show_char`. -/
structure Shown where
  x : ℕ
  y : ℕ
  chr : ℕ
  size : ℕ
  mode : ℕ
  color : ℕ

/-- The cell of the character. -/
def Shown.cell (c : Shown) : Cell := ⟨c.x, c.y, c.size / 2, c.size⟩

/-- `lcd_show_char`, where it only matters how it is called. -/
def noteChar (x y chr size mode color : ℕ) : Prog (List Shown) Unit :=
  Prog.modify fun l => l ++ [⟨x, y, chr, size, mode, color⟩]

section Calls
variable {σ : Type} (showChar : ℕ → ℕ → ℕ → ℕ → ℕ → ℕ → Prog σ Unit)

/-- Show some characters. -/
def showAll : List Shown → Prog σ Unit
  | [] => pure ()
  | c :: l => do
      showChar c.x c.y c.chr c.size c.mode c.color
      showAll l

theorem state_showAll_concat (l : List Shown) (c : Shown) (s : σ) :
    (showAll showChar (l ++ [c])).state s =
      (showChar c.x c.y c.chr c.size c.mode c.color).state ((showAll showChar l).state s) := by
  induction l generalizing s with
  | nil => rfl
  | cons d l ih => exact ih _

end Calls

theorem state_showAll_note (l l₀ : List Shown) : (showAll noteChar l).state l₀ = l₀ ++ l := by
  induction l generalizing l₀ with
  | nil => exact (List.append_nil l₀).symm
  | cons c l ih =>
      rw [showAll, Prog.state_bind, ih, noteChar, Prog.state_modify, List.append_assoc,
        List.singleton_append]

/-! ## Characters on a screen -/

section Screen
variable (D : Lcddev) (limited : Bool) (size mode color : ℕ)

/-- Dots leave the list of the characters as it is. -/
theorem keeps_drawBytes (bytes : ℕ → ℕ) (csize x y : ℕ) :
    Prog.Keeps (fun s : Screen => (s.cells, s.chars))
      (drawBytes D limited size mode color bytes csize x y) := by
  have hpoint (x y color : ℕ) :
      Prog.Keeps (fun s : Screen => (s.cells, s.chars)) (lcdDrawPoint x y color) :=
    .modify fun _ => rfl
  have hbit (j : ℕ) (a : Pen) : Prog.Keeps (fun s : Screen => (s.cells, s.chars))
      (bitRound D limited y size mode color j a) :=
    .bind (.ite _ (hpoint _ _ _) (.ite _ (hpoint _ _ _) (.pure _))) fun _ =>
      .ite _ (.pure _) (.ite _ (.ite _ (.pure _) (.pure _)) (.pure _))
  have hbyte (t : ℕ) (a : Pen) : Prog.Keeps (fun s : Screen => (s.cells, s.chars))
      (byteRound D limited y size mode color bytes t a) := by
    refine .bind (.loop hbit 8 0 _) fun r => ?_
    cases r with
    | next a' => exact .pure _
    | exit f => exact .pure _
  exact .bind (.loop hbyte csize 0 _) fun _ => .pure _

/-- The characters that have been shown are on the screen in this order, each in its cell. -/
theorem showAll_screen (asc2 : ℕ → ℕ → ℕ → ℕ) {l : List Shown} (hl : ∀ c ∈ l, Supported c.size)
    (s : Screen) :
    ((showAll (lcdShowChar D asc2) l).state s).cells = s.cells ++ l.map Shown.cell ∧
      ((showAll (lcdShowChar D asc2) l).state s).chars = s.chars ++ l.map Shown.chr := by
  induction l generalizing s with
  | nil => simp [showAll]
  | cons c l ih =>
      obtain ⟨hcells, hchars⟩ := ih (fun d hd => hl d (List.mem_cons_of_mem c hd))
        ((lcdShowChar D asc2 c.x c.y c.chr c.size c.mode c.color).state s)
      have hkeeps := keeps_drawBytes D true c.size c.mode c.color
        (asc2 c.size ((c.chr + 256 - 32) % 256)) (columnBytes c.size * (c.size / 2) % 256) c.x c.y
        { s with cells := s.cells ++ [⟨c.x, c.y, c.size / 2, c.size⟩], chars := s.chars ++ [c.chr] }
      rw [Prod.mk.injEq] at hkeeps
      rw [showAll, Prog.state_bind, hcells, hchars, lcdShowChar, if_pos (hl c List.mem_cons_self)]
      simp only [Prog.state_bind, Prog.state_modify, hkeeps, List.append_assoc, List.map_cons,
        List.singleton_append, Shown.cell, and_self]

end Screen
end Apollo.Lcd
