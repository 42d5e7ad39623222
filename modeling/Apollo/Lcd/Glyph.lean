import Apollo.Lib.Prog
import Mathlib.Algebra.GroupWithZero.Nat
import Mathlib.Data.Nat.Init
import Mathlib.Tactic.Common

/-!
# Drawing a character

`lcd_show_char` and `text_show_font` draw the dots of a character column by column, from the
highest bit of each byte on.  A column ends when it is `size` rows high, in the middle of a byte
where `size` is no multiple of eight.  `lcd_show_char` stops at the edge of the screen besides.

## Main definitions

* `Point`, `Cell` — the points that are drawn, and the columns and rows of a character.
* `Lcddev`, `Screen` — the display, and what has been drawn on it.
* `bitRound`, `byteRound`, `drawBytes` — the loops; `lcdShowChar` — a single-byte character.
* `drawnIn_drawBytes` — the points of a character lie in its cell.
-/

namespace Apollo.Lcd
open Lib

/-- A point that `lcd_draw_point` has drawn. -/
structure Point where
  x : ℕ
  y : ℕ
  color : ℕ

/-- The columns and rows of a character. -/
structure Cell where
  x : ℕ
  y : ℕ
  width : ℕ
  height : ℕ

/-- The point lies in the cell. -/
def Cell.Holds (c : Cell) (p : Point) : Prop :=
  (c.x ≤ p.x ∧ p.x < c.x + c.width) ∧ c.y ≤ p.y ∧ p.y < c.y + c.height

/-- The cell lies in the other one. -/
def Cell.Inside (c b : Cell) : Prop :=
  (b.x ≤ c.x ∧ c.x + c.width ≤ b.x + b.width) ∧ b.y ≤ c.y ∧ c.y + c.height ≤ b.y + b.height

theorem Cell.Inside.holds {c b : Cell} (h : c.Inside b) {p : Point} (hp : c.Holds p) :
    b.Holds p := by
  obtain ⟨⟨h₁, h₂⟩, h₃, h₄⟩ := h
  obtain ⟨⟨hp₁, hp₂⟩, hp₃, hp₄⟩ := hp
  exact ⟨⟨by omega, by omega⟩, by omega, by omega⟩

/-- `lcddev` and `g_back_color`. -/
structure Lcddev where
  width : ℕ
  height : ℕ
  backColor : ℕ

/-- What has been drawn: the points, the cells of the characters, and the single-byte
characters. -/
structure Screen where
  points : List Point
  cells : List Cell
  chars : List ℕ

/-- The font sizes there are tables for. -/
def Supported (size : ℕ) : Prop := size = 12 ∨ size = 16 ∨ size = 24 ∨ size = 32

instance (size : ℕ) : Decidable (Supported size) := inferInstanceAs (Decidable (_ ∨ _))

/-- The bytes of a column. -/
def columnBytes (size : ℕ) : ℕ := size / 8 + if size % 8 ≠ 0 then 1 else 0

/-- Where the pen stands, and what is left of the byte. -/
structure Pen where
  x : ℕ
  y : ℕ
  temp : ℕ

section Loops
variable (D : Lcddev) (limited : Bool) (y0 size mode color : ℕ)

def lcdDrawPoint (x y color : ℕ) : Prog Screen Unit :=
  Prog.modify fun s => { s with points := s.points ++ [⟨x, y, color⟩] }

/-- Draw a dot of the character, or of the background unless that is left as it is. -/
def drawDot (a : Pen) : Prog Screen Unit :=
  if a.temp / 128 % 2 = 1 then lcdDrawPoint a.x a.y color
  else if mode = 0 then lcdDrawPoint a.x a.y D.backColor
  else pure ()

/-- One bit: it goes on in the column, breaks at the end of it, or returns at the edge of the
screen. -/
def bitRound (_t1 : ℕ) (a : Pen) : Prog Screen (Flow Pen (Flow Pen Unit)) := do
  drawDot D mode color a
  let y := (a.y + 1) % 2 ^ 16
  if limited = true ∧ D.height ≤ y then pure (.exit (.exit ()))
  else if y = y0 + size then
    let x := (a.x + 1) % 2 ^ 16
    if limited = true ∧ D.width ≤ x then pure (.exit (.exit ()))
    else pure (.exit (.next ⟨x, y0, a.temp * 2 % 256⟩))
  else pure (.next ⟨a.x, y, a.temp * 2 % 256⟩)

/-- One byte. -/
def byteRound (bytes : ℕ → ℕ) (t : ℕ) (a : Pen) : Prog Screen (Flow Pen Unit) := do
  let r ← Prog.loop (bitRound D limited y0 size mode color) 8 0 { a with temp := bytes t }
  match r with
  | .next a => pure (.next a)
  | .exit r => pure r

/-- The dots of `csize` bytes. -/
def drawBytes (bytes : ℕ → ℕ) (csize x y : ℕ) : Prog Screen Unit := do
  let _ ← Prog.loop (byteRound D limited y size mode color bytes) csize 0 ⟨x, y, 0⟩
  pure ()

end Loops

/-- `lcd_show_char`, for tables `asc2_…[chr][t]` by their size.  What lies behind a table is
read as if it belonged to it. -/
def lcdShowChar (D : Lcddev) (asc2 : ℕ → ℕ → ℕ → ℕ) (x y chr size mode color : ℕ) :
    Prog Screen Unit :=
  if Supported size then do
    Prog.modify fun s =>
      { s with cells := s.cells ++ [⟨x, y, size / 2, size⟩], chars := s.chars ++ [chr] }
    drawBytes D true size mode color (asc2 size ((chr + 256 - 32) % 256))
      (columnBytes size * (size / 2) % 256) x y
  else pure ()

/-! ## Where the points lie -/

/-- From `s` to `s'` points of the cell have been drawn, and nothing else. -/
structure DrawnIn (c : Cell) (s s' : Screen) : Prop where
  points : ∀ q ∈ s'.points, q ∈ s.points ∨ c.Holds q
  cells : s'.cells = s.cells
  chars : s'.chars = s.chars

theorem DrawnIn.refl (c : Cell) (s : Screen) : DrawnIn c s s := ⟨fun _ => Or.inl, rfl, rfl⟩

theorem DrawnIn.trans {c : Cell} {s s' s'' : Screen} (h : DrawnIn c s s')
    (h' : DrawnIn c s' s'') : DrawnIn c s s'' where
  points q hq := (h'.points q hq).elim (h.points q) Or.inr
  cells := h'.cells.trans h.cells
  chars := h'.chars.trans h.chars

theorem columnBytes_bounds (size : ℕ) :
    8 * columnBytes size < size + 8 ∧ size ≤ 8 * columnBytes size := by
  rw [columnBytes]
  split <;> omega

section Points
variable (D : Lcddev) (limited : Bool) {c : Cell} (mode color : ℕ) {a : Pen}

theorem drawnIn_drawDot (hx : c.x ≤ a.x ∧ a.x < c.x + c.width)
    (hy : c.y ≤ a.y ∧ a.y < c.y + c.height) (s : Screen) :
    DrawnIn c s ((drawDot D mode color a).state s) := by
  have hpoint : ∀ col, ∀ q ∈ s.points ++ [(⟨a.x, a.y, col⟩ : Point)],
      q ∈ s.points ∨ c.Holds q := by
    intro col q hq
    rcases List.mem_append.mp hq with hq | hq
    · exact Or.inl hq
    · rw [List.mem_singleton.mp hq]
      exact Or.inr ⟨hx, hy⟩
  simp only [drawDot, Prog.state_ite]
  split
  · exact ⟨hpoint color, rfl, rfl⟩
  · split
    · exact ⟨hpoint D.backColor, rfl, rfl⟩
    · exact .refl c s

/-- One bit draws in the cell, and goes down a row, or to the top of the next column where the
column ends. -/
theorem bitRound_spec (hfits : c.y + c.height < 2 ^ 16) (hright : c.x + c.width < 2 ^ 16)
    (hx : c.x ≤ a.x ∧ a.x < c.x + c.width) (hy : c.y ≤ a.y ∧ a.y < c.y + c.height) (j : ℕ)
    (s : Screen) :
    DrawnIn c s ((bitRound D limited c.y c.height mode color j a).state s) ∧
      ((bitRound D limited c.y c.height mode color j a).val s).Holds
        (fun a' => a'.x = a.x ∧ a'.y = a.y + 1 ∧ a.y + 1 < c.y + c.height)
        (fun r => r.Holds (fun a' => a'.x = a.x + 1 ∧ a'.y = c.y ∧ a.y + 1 = c.y + c.height)
          fun _ => True) := by
  have hdot := drawnIn_drawDot D mode color hx hy s
  have hmod : (a.y + 1) % 2 ^ 16 = a.y + 1 := Nat.mod_eq_of_lt (by omega)
  have hmod' : (a.x + 1) % 2 ^ 16 = a.x + 1 := Nat.mod_eq_of_lt (by omega)
  rw [bitRound]
  simp only [Prog.state_bind, Prog.val_bind, hmod, hmod']
  by_cases hbottom : limited = true ∧ D.height ≤ a.y + 1
  · rw [if_pos hbottom]
    exact ⟨hdot, trivial⟩
  · rw [if_neg hbottom]
    by_cases hend : a.y + 1 = c.y + c.height
    · rw [if_pos hend]
      by_cases hedge : limited = true ∧ D.width ≤ a.x + 1
      · rw [if_pos hedge]
        exact ⟨hdot, trivial⟩
      · rw [if_neg hedge]
        exact ⟨hdot, rfl, rfl, hend⟩
    · rw [if_neg hend]
      exact ⟨hdot, rfl, rfl, by omega⟩

/-- One byte draws in the cell, and leaves the pen eight rows further down, or at the top of the
next column. -/
theorem byteRound_spec (hfits : c.y + c.height < 2 ^ 16) (hright : c.x + c.width < 2 ^ 16)
    (hx : c.x ≤ a.x ∧ a.x < c.x + c.width) (hy : c.y ≤ a.y ∧ a.y < c.y + c.height)
    (bytes : ℕ → ℕ) (t : ℕ) (s : Screen) :
    DrawnIn c s ((byteRound D limited c.y c.height mode color bytes t a).state s) ∧
      ((byteRound D limited c.y c.height mode color bytes t a).val s).Holds
        (fun a' => a'.x = a.x ∧ a'.y = a.y + 8 ∧ a.y + 8 < c.y + c.height ∨
          a'.x = a.x + 1 ∧ a'.y = c.y ∧ c.y + c.height ≤ a.y + 8) fun _ => True := by
  set bits := Prog.loop (bitRound D limited c.y c.height mode color) 8 0
    { a with temp := bytes t } with hdef
  have hbits : (bits.val s).Holds
      (fun a' => DrawnIn c s (bits.state s) ∧ a'.x = a.x ∧ a'.y = a.y + 8 ∧
        a'.y < c.y + c.height)
      (fun r => DrawnIn c s (bits.state s) ∧ r.Holds (fun a' => a'.x = a.x + 1 ∧ a'.y = c.y ∧
        c.y + c.height ≤ a.y + 8) fun _ => True) := by
    refine Prog.loop_inv (n := 8)
      (I := fun j (a' : Pen) t => DrawnIn c s t ∧ a'.x = a.x ∧ a'.y = a.y + j ∧
        a'.y < c.y + c.height)
      (Q := fun (r : Flow Pen Unit) t => DrawnIn c s t ∧ r.Holds (fun a' => a'.x = a.x + 1 ∧
        a'.y = c.y ∧ c.y + c.height ≤ a.y + 8) fun _ => True)
      (fun j hj a' t ⟨hdrawn, hax, hay, hlt⟩ => ?_) (Nat.zero_add 8) ⟨.refl c s, rfl, rfl, hy.2⟩
    obtain ⟨hdraw, hval⟩ := bitRound_spec D limited mode color hfits hright (a := a') (by omega)
      (by omega) j t
    refine hval.imp (fun b hb => ⟨hdrawn.trans hdraw, by omega⟩) fun r hr =>
      ⟨hdrawn.trans hdraw, hr.imp (fun b hb => by omega) fun _ => id⟩
  rw [byteRound]
  simp only [Prog.state_bind, Prog.val_bind]
  rw [← hdef]
  cases hr : bits.val s with
  | next a' =>
      rw [hr] at hbits
      obtain ⟨hdrawn, hax, hay, hlt⟩ := hbits
      exact ⟨hdrawn, Or.inl ⟨hax, hay, by omega⟩⟩
  | exit r =>
      rw [hr] at hbits
      obtain ⟨hdrawn, hend⟩ := hbits
      exact ⟨hdrawn, hend.imp (fun _ => Or.inr) fun _ => id⟩

/-- Before the byte `t` of a character the pen stands at the top of its rows. -/
def AtByte (c : Cell) (t : ℕ) (a : Pen) : Prop :=
  ∃ i r, t = i * columnBytes c.height + r ∧ r < columnBytes c.height ∧ a.x = c.x + i ∧
    a.y = c.y + 8 * r

theorem atByte_zero (c : Cell) (hsize : 0 < c.height) (temp : ℕ) : AtByte c 0 ⟨c.x, c.y, temp⟩ := by
  have hbytes := columnBytes_bounds c.height
  exact ⟨0, 0, by omega, by omega, rfl, rfl⟩

/-- One byte of a character draws in its cell. -/
theorem atByte_byteRound (hfits : c.y + c.height < 2 ^ 16) (hright : c.x + c.width < 2 ^ 16) {t : ℕ}
    (ht : t < columnBytes c.height * c.width) (h : AtByte c t a) (bytes : ℕ → ℕ) (s : Screen) :
    DrawnIn c s ((byteRound D limited c.y c.height mode color bytes t a).state s) ∧
      ((byteRound D limited c.y c.height mode color bytes t a).val s).Holds (AtByte c (t + 1))
        fun _ => True := by
  obtain ⟨hlow, hhigh⟩ := columnBytes_bounds c.height
  obtain ⟨i, r, htr, hr, hax, hay⟩ := h
  have hi : i < c.width := by
    by_contra hle
    have hcols := Nat.mul_le_mul_left (columnBytes c.height) (Nat.le_of_not_lt hle)
    rw [Nat.mul_comm _ i] at hcols
    omega
  obtain ⟨hdraw, hval⟩ := byteRound_spec D limited (c := c) mode color hfits hright (a := a)
    (by omega) (by omega) bytes t s
  refine ⟨hdraw, hval.imp (fun b hb => ?_) fun _ => id⟩
  rcases hb with ⟨hbx, hby, hlt⟩ | ⟨hbx, hby, hle⟩
  · exact ⟨i, r + 1, by omega, by omega, by omega, by omega⟩
  · -- the last byte of a column
    refine ⟨i + 1, 0, ?_, by omega, by omega, by omega⟩
    rw [Nat.add_mul]
    omega

/-- The points of a character lie in its cell. -/
theorem drawnIn_drawBytes {width size x y : ℕ} (hfits : y + size < 2 ^ 16)
    (hright : x + width < 2 ^ 16) (hsize : 0 < size) (bytes : ℕ → ℕ) {csize : ℕ}
    (hcsize : csize ≤ columnBytes size * width) (s : Screen) :
    DrawnIn ⟨x, y, width, size⟩ s
      ((drawBytes D limited size mode color bytes csize x y).state s) := by
  set c : Cell := ⟨x, y, width, size⟩ with hc
  set rows := Prog.loop (byteRound D limited c.y c.height mode color bytes) csize 0
    ⟨x, y, 0⟩ with hrows
  have hloop : (rows.val s).Holds
      (fun a' => DrawnIn c s (rows.state s) ∧ AtByte c csize a')
      (fun _ => DrawnIn c s (rows.state s)) := by
    refine Prog.loop_inv (n := csize) (I := fun t (a' : Pen) s' => DrawnIn c s s' ∧ AtByte c t a')
      (Q := fun _ s' => DrawnIn c s s') (fun t ht a' s' ⟨hdrawn, hpen⟩ => ?_)
      (Nat.zero_add csize) ⟨.refl c s, atByte_zero c hsize 0⟩
    obtain ⟨hdraw, hval⟩ := atByte_byteRound D limited mode color (c := c) hfits hright
      (Nat.lt_of_lt_of_le ht hcsize) hpen bytes s'
    exact hval.imp (fun b hb => ⟨hdrawn.trans hdraw, hb⟩) fun _ _ => hdrawn.trans hdraw
  rw [drawBytes]
  simp only [Prog.state_bind, Prog.state_pure]
  change DrawnIn c s (rows.state s)
  cases hv : rows.val s with
  | next a' =>
      rw [hv] at hloop
      exact hloop.1
  | exit r =>
      rw [hv] at hloop
      exact hloop

end Points

/-- A single-byte character is drawn in a cell half as wide as high, if its font is there. -/
theorem lcdShowChar_spec (D : Lcddev) (asc2 : ℕ → ℕ → ℕ → ℕ) {x y : ℕ} (chr : ℕ) {size : ℕ}
    (mode color : ℕ) (hfits : y + size < 2 ^ 16) (hright : x + size / 2 < 2 ^ 16) (s : Screen) :
    (lcdShowChar D asc2 x y chr size mode color).state s = s ∧ ¬ Supported size ∨
    Supported size ∧ DrawnIn ⟨x, y, size / 2, size⟩
      { s with cells := s.cells ++ [⟨x, y, size / 2, size⟩], chars := s.chars ++ [chr] }
      ((lcdShowChar D asc2 x y chr size mode color).state s) := by
  by_cases hsize : Supported size
  · refine Or.inr ⟨hsize, ?_⟩
    rw [lcdShowChar, if_pos hsize]
    simp only [Prog.state_bind, Prog.state_modify]
    refine drawnIn_drawBytes D true mode color hfits hright ?_ _ (Nat.mod_le _ _) _
    rcases hsize with rfl | rfl | rfl | rfl <;> decide
  · rw [lcdShowChar, if_neg hsize]
    exact Or.inl ⟨rfl, hsize⟩

end Apollo.Lcd
