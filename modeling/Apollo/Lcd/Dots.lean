import Apollo.Lcd.Char
import Apollo.Lcd.FrameBuffer

/-!
# The dots of a character anywhere

`text_show_font` draws its dots without a look at the size of the screen.  The columns and the
rows are 16 bits wide, and a character that begins so far down that its last row would be `2 ^ 16`
or more has no end of a column: all of its bytes go into one.

## Main definitions

* `byteColumn`, `byteRow`, `byteBits` — where the bits of a byte go, and how many are drawn.
* `byteDots`, `fontDots` — the dots of a byte and of a character.
* `byteRound_draws` — a byte draws its dots.
* `Ltdc.OfBoard` — the RGB panels of the board; `fontDots_unique` — no two dots of a character
  have the same address.
* `Ltdc.putPoint` — a point in memory; `foldl_putPoint_out`, `foldl_putPoint_mem` — what points
  leave there.
-/

namespace Apollo.Lcd
open Lib

section Places
variable (size x y t : ℕ)

/-- The column of the byte `t`. -/
def byteColumn : ℕ := if y + size < 2 ^ 16 then (x + t / columnBytes size) % 2 ^ 16 else x

/-- The row of its first bit. -/
def byteRow : ℕ :=
  if y + size < 2 ^ 16 then y + 8 * (t % columnBytes size) else (y + 8 * t) % 2 ^ 16

/-- How many of its bits are drawn. -/
def byteBits : ℕ := if y + size < 2 ^ 16 then min 8 (size - 8 * (t % columnBytes size)) else 8

end Places

section Dots
variable (D : Lcddev) (size mode color x y : ℕ) (bytes : ℕ → ℕ)

/-- The dot of the bit `j` of the byte `t`; one of the background is drawn in mode 0 only. -/
def bitDot (t j : ℕ) : Option Point :=
  if bytes t / 2 ^ (7 - j) % 2 = 1 then
    some ⟨byteColumn size x y t, (byteRow size y t + j) % 2 ^ 16, color⟩
  else if mode = 0 then
    some ⟨byteColumn size x y t, (byteRow size y t + j) % 2 ^ 16, D.backColor⟩
  else none

/-- The dots of the byte `t`. -/
def byteDots (t : ℕ) : List Point :=
  (List.range (byteBits size y t)).filterMap (bitDot D size mode color x y bytes t)

/-- The dots of the first `n` bytes, in the order in which they are drawn. -/
def fontDots (n : ℕ) : List Point :=
  (List.range n).flatMap (byteDots D size mode color x y bytes)

theorem fontDots_succ (n : ℕ) :
    fontDots D size mode color x y bytes (n + 1) =
      fontDots D size mode color x y bytes n ++ byteDots D size mode color x y bytes n := by
  rw [fontDots, List.range_succ, List.flatMap_append, List.flatMap_singleton]
  rfl

/-- The points that have been drawn since `s`. -/
def Screen.withPoints (s : Screen) (ps : List Point) : Screen := { s with points := s.points ++ ps }

/-- One bit draws its dot. -/
theorem state_drawDot_bit {t j : ℕ} {a : Pen} (hx : a.x = byteColumn size x y t)
    (hy : a.y = (byteRow size y t + j) % 2 ^ 16)
    (htemp : a.temp / 128 % 2 = bytes t / 2 ^ (7 - j) % 2)
    (s : Screen) (ps : List Point) :
    (drawDot D mode color a).state (s.withPoints ps) =
      s.withPoints (ps ++ (bitDot D size mode color x y bytes t j).toList) := by
  rw [drawDot, htemp, bitDot, ← hy, ← hx]
  split_ifs
  · simp only [lcdDrawPoint, Prog.state_modify, Screen.withPoints, Option.toList_some,
      List.append_assoc]
  · simp only [lcdDrawPoint, Prog.state_modify, Screen.withPoints, Option.toList_some,
      List.append_assoc]
  · simp only [Prog.state_pure, Option.toList_none, List.append_nil]

/-- The dots of the first `j` bits of a byte. -/
def bitDots (t j : ℕ) : List Point :=
  (List.range j).filterMap (bitDot D size mode color x y bytes t)

theorem bitDots_succ (t j : ℕ) :
    bitDots D size mode color x y bytes t (j + 1) =
      bitDots D size mode color x y bytes t j ++
        (bitDot D size mode color x y bytes t j).toList := by
  rw [bitDots, List.range_succ, List.filterMap_append]
  rfl

/-- Before the bit `j` of the byte `t` the pen is on its row, with this bit at the top. -/
structure BitAtRow (s : Screen) (t j : ℕ) (a : Pen) (s' : Screen) : Prop where
  inside : y + size < 2 ^ 16 → 8 * (t % columnBytes size) + j < size
  x_eq : a.x = byteColumn size x y t
  y_eq : a.y = (byteRow size y t + j) % 2 ^ 16
  temp_eq : a.temp % 256 = bytes t * 2 ^ j % 256
  drawn : s' = s.withPoints (bitDots D size mode color x y bytes t j)

/-- The byte `t` has been drawn, and the pen is where the next one begins. -/
def ByteDrawn (s : Screen) (t : ℕ) (a : Pen) (s' : Screen) : Prop :=
  (a.x = byteColumn size x y (t + 1) ∧ a.y = byteRow size y (t + 1)) ∧
    s' = s.withPoints (byteDots D size mode color x y bytes t)

variable {D size mode color x y bytes} {s s' : Screen} {t j : ℕ} {a : Pen}

/-- A bit draws its dot, and goes on, or to the top of the next column where the column ends. -/
theorem bitRound_draws (hj : j < 8)
    (h : BitAtRow D size mode color x y bytes s t j a s') :
    ((bitRound D false y size mode color j a).val s').Holds
      (fun b => BitAtRow D size mode color x y bytes s t (j + 1) b
        ((bitRound D false y size mode color j a).state s'))
      fun f => f.Holds (fun b => ByteDrawn D size mode color x y bytes s t b
        ((bitRound D false y size mode color j a).state s')) fun _ => False := by
  obtain ⟨hlow, hhigh⟩ := columnBytes_bounds size
  have hinside := h.inside
  have hy := h.y_eq
  have hdot : (drawDot D mode color a).state s' =
      s.withPoints (bitDots D size mode color x y bytes t (j + 1)) := by
    rw [h.drawn, bitDots_succ]
    exact state_drawDot_bit D size mode color x y bytes h.x_eq hy
      (top_bit_shifted hj h.temp_eq) s _
  have hrow : (a.y + 1) % 2 ^ 16 = (byteRow size y t + (j + 1)) % 2 ^ 16 := by omega
  rw [bitRound]
  simp only [Prog.val_bind, Prog.state_bind, Bool.false_eq_true, false_and, if_false, hdot, hrow]
  by_cases hend : (byteRow size y t + (j + 1)) % 2 ^ 16 = y + size
  · -- the column ends, so it is not an endless one
    have hfits : y + size < 2 ^ 16 := by omega
    have hin := hinside hfits
    rw [if_pos hend]
    have hr := Nat.mod_lt t (show 0 < columnBytes size by omega)
    have hdiv := Nat.div_add_mod t (columnBytes size)
    rw [byteRow, if_pos hfits] at hend
    have hlast : t % columnBytes size + 1 = columnBytes size := by omega
    have hnext : t + 1 = (t / columnBytes size + 1) * columnBytes size + 0 := by
      rw [Nat.add_mul, Nat.mul_comm (t / columnBytes size)]
      omega
    have hbits : byteBits size y t = j + 1 := by
      rw [byteBits, if_pos hfits]
      omega
    refine ⟨⟨?_, ?_⟩, ?_⟩
    · have hx := h.x_eq
      rw [byteColumn, if_pos hfits] at hx
      rw [byteColumn, if_pos hfits, hnext, row_div (by omega)]
      dsimp only
      omega
    · rw [byteRow, if_pos hfits, hnext, Nat.mul_add_mod_of_lt (by omega)]
      rfl
    · rw [byteDots, hbits]
      rfl
  · rw [if_neg hend]
    refine ⟨fun hfits => ?_, h.x_eq, rfl, shifted_succ h.temp_eq, rfl⟩
    have hin := hinside hfits
    rw [byteRow, if_pos hfits] at hend
    omega

variable (D mode color bytes) in
/-- One byte draws its dots, and leaves the pen where the next one begins. -/
theorem byteRound_draws (hsize : 0 < size) (hx : a.x = byteColumn size x y t)
    (hy : a.y = byteRow size y t) (s : Screen) :
    ((byteRound D false y size mode color bytes t a).val s).Holds
      (fun b => ByteDrawn D size mode color x y bytes s t b
        ((byteRound D false y size mode color bytes t a).state s)) fun _ => False := by
  obtain ⟨hlow, hhigh⟩ := columnBytes_bounds size
  have hr := Nat.mod_lt t (show 0 < columnBytes size by omega)
  have hrow : byteRow size y t < 2 ^ 16 := by
    rw [byteRow]
    split <;> omega
  have hfirst : BitAtRow D size mode color x y bytes s t 0 { a with temp := bytes t } s :=
    ⟨fun _ => by omega, hx, by dsimp only; omega, by simp, by simp [Screen.withPoints, bitDots]⟩
  set bits := Prog.loop (bitRound D false y size mode color) 8 0 { a with temp := bytes t }
    with hdef
  have hbits : (bits.val s).Holds
      (fun b => BitAtRow D size mode color x y bytes s t 8 b (bits.state s))
      (fun f => f.Holds (fun b => ByteDrawn D size mode color x y bytes s t b (bits.state s))
        fun _ => False) :=
    Prog.loop_inv (n := 8) (I := BitAtRow D size mode color x y bytes s t)
      (Q := fun (f : Flow Pen Unit) u =>
        f.Holds (fun b => ByteDrawn D size mode color x y bytes s t b u) fun _ => False)
      (fun j hj b u hb => bitRound_draws hj hb) (Nat.zero_add 8) hfirst
  rw [byteRound]
  simp only [Prog.val_bind, Prog.state_bind]
  rw [← hdef]
  cases hv : bits.val s with
  | exit f =>
      rw [hv] at hbits
      cases f with
      | next b => exact hbits
      | exit u => exact hbits
  | next b =>
      rw [hv] at hbits
      -- all eight bits lie in the column, which goes on
      have hnext : t + 1 =
          t / columnBytes size * columnBytes size + (t % columnBytes size + 1) := by
        have hdiv := Nat.div_add_mod t (columnBytes size)
        rw [Nat.mul_comm] at hdiv
        omega
      have hall : byteBits size y t = 8 := by
        rw [byteBits]
        split
        · have hin := hbits.inside ‹_›
          omega
        · rfl
      refine ⟨⟨?_, ?_⟩, ?_⟩
      · rw [hbits.x_eq, byteColumn, byteColumn]
        split
        · have hin := hbits.inside ‹_›
          rw [hnext, row_div (n := columnBytes size) (by omega)]
        · rfl
      · rw [hbits.y_eq, byteRow, byteRow]
        split
        · have hin := hbits.inside ‹_›
          rw [hnext, Nat.mul_add_mod_of_lt (by omega)]
          omega
        · omega
      · rw [byteDots, hall]
        exact hbits.drawn

theorem mem_fontDots {n : ℕ} {p : Point} :
    p ∈ fontDots D size mode color x y bytes n ↔
      ∃ t < n, ∃ j < byteBits size y t, bitDot D size mode color x y bytes t j = some p := by
  simp only [fontDots, byteDots, List.mem_flatMap, List.mem_filterMap, List.mem_range]

/-- Where a dot is. -/
theorem bitDot_place {p : Point} (h : bitDot D size mode color x y bytes t j = some p) :
    p.x = byteColumn size x y t ∧ p.y = (byteRow size y t + j) % 2 ^ 16 := by
  rw [bitDot] at h
  split_ifs at h <;> cases h <;> exact ⟨rfl, rfl⟩

theorem Supported.le {size : ℕ} (h : Supported size) : 0 < size ∧ size ≤ 32 := by
  rcases h with rfl | rfl | rfl | rfl <;> decide

/-- Where the bit `j` of the byte `t` goes: in rows that do not go round, or down its one column. -/
theorem byte_place (hsize : Supported size) (hn : t < columnBytes size * size)
    (hj : j < byteBits size y t) :
    j < 8 ∧ ((y + size < 2 ^ 16 ∧ ∃ i r, t = i * columnBytes size + r ∧ i < size ∧
        8 * r + j < size ∧ byteColumn size x y t = (x + i) % 2 ^ 16 ∧
        (byteRow size y t + j) % 2 ^ 16 = y + (8 * r + j)) ∨
      (2 ^ 16 ≤ y + size ∧ 8 * t + j < 2 ^ 16 ∧ byteColumn size x y t = x ∧
        (byteRow size y t + j) % 2 ^ 16 = (y + (8 * t + j)) % 2 ^ 16)) := by
  obtain ⟨hpos, hle⟩ := hsize.le
  obtain ⟨hlow, hhigh⟩ := columnBytes_bounds size
  have hdiv := Nat.div_add_mod t (columnBytes size)
  rw [Nat.mul_comm] at hdiv
  have hcolumn : t / columnBytes size < size := Nat.div_lt_of_lt_mul hn
  rw [byteBits] at hj
  rw [byteColumn, byteRow]
  by_cases hfits : y + size < 2 ^ 16
  · rw [if_pos hfits] at hj ⊢
    rw [if_pos hfits]
    exact ⟨by omega, Or.inl ⟨hfits, _, _, hdiv.symm, hcolumn, by omega, rfl, by omega⟩⟩
  · rw [if_neg hfits] at hj ⊢
    rw [if_neg hfits]
    have hlast : t < 5 * 32 := lt_of_lt_of_le hn (Nat.mul_le_mul (by omega) hle)
    exact ⟨hj, Or.inr ⟨Nat.le_of_not_lt hfits, by omega, rfl, by omega⟩⟩

theorem fontDots_lt (hx : x < 2 ^ 16) {n : ℕ} {p : Point}
    (hp : p ∈ fontDots D size mode color x y bytes n) : p.x < 2 ^ 16 ∧ p.y < 2 ^ 16 := by
  obtain ⟨t, -, j, -, hbit⟩ := mem_fontDots.mp hp
  obtain ⟨hpx, hpy⟩ := bitDot_place hbit
  rw [hpx, hpy, byteColumn]
  refine ⟨?_, Nat.mod_lt _ (Nat.two_pow_pos 16)⟩
  split <;> omega

end Dots

/-! ## Addresses -/

/-- The panels that `ltdc_init` knows, with the frame buffer at `LTDC_FRAME_BUF_ADDR`. -/
structure Ltdc.OfBoard (P : Ltdc) : Prop where
  framebuf : P.framebuf = 0xC0000000
  size : (P.pwidth, P.pheight) ∈ [(480, 272), (800, 480), (1024, 600), (1280, 800)]

/-- The byte is one of the frame buffer. -/
def InFrame (P : Ltdc) (a : ℕ) : Prop :=
  P.framebuf ≤ a ∧ a < P.framebuf + 2 * (P.pwidth * P.pheight)

section OfBoard
variable {P : Ltdc} (hP : P.OfBoard)
include hP

theorem Ltdc.OfBoard.cases :
    P.pwidth = 480 ∧ P.pheight = 272 ∨ P.pwidth = 800 ∧ P.pheight = 480 ∨
      P.pwidth = 1024 ∧ P.pheight = 600 ∨ P.pwidth = 1280 ∧ P.pheight = 800 := by
  simpa only [List.mem_cons, Prod.mk.injEq, List.not_mem_nil, or_false] using hP.size

/-- The frame buffer ends before the external pool. -/
theorem Ltdc.OfBoard.frame_le : 2 * (P.pwidth * P.pheight) ≤ 0x1F4000 := by
  rcases hP.cases with ⟨hw, hh⟩ | ⟨hw, hh⟩ | ⟨hw, hh⟩ | ⟨hw, hh⟩ <;> rw [hw, hh] <;> decide

section Point
variable {x y : ℕ} (hx : x < 2 ^ 16) (hy : y < 2 ^ 16)
include hx hy

/-- The address of a point, on the screen or not.  In portrait the rows of the panel are counted
from the last one back, to before the buffer if need be. -/
theorem Ltdc.OfBoard.pointAddr_eq :
    if P.dir ≠ 0 then P.pointAddr x y = 0xC0000000 + 2 * (P.pwidth * y + x)
    else P.pointAddr x y + 2 * (P.pwidth * (x + 1)) =
      0xC0000000 + 2 * (P.pwidth * P.pheight + y) := by
  rw [Ltdc.pointAddr, hP.framebuf]
  by_cases hdir : P.dir ≠ 0
  · simp only [if_pos hdir]
    have hindex : P.pwidth * y + x < 2 ^ 28 := by
      rcases hP.cases with ⟨hw, -⟩ | ⟨hw, -⟩ | ⟨hw, -⟩ | ⟨hw, -⟩ <;> rw [hw] <;> omega
    omega
  · simp only [if_neg hdir]
    have hindex : (P.pwidth * ((P.pheight + 2 ^ 32 - x - 1) % 2 ^ 32) + y) % 2 ^ 32 =
        (P.pwidth * P.pheight + y + 2 ^ 32 - P.pwidth * (x + 1)) % 2 ^ 32 := by
      rcases hP.cases with ⟨hw, hh⟩ | ⟨hw, hh⟩ | ⟨hw, hh⟩ | ⟨hw, hh⟩ <;> rw [hw, hh] <;> omega
    have hrows : P.pwidth * P.pheight + y < 2 ^ 28 ∧ P.pwidth * (x + 1) < 2 ^ 27 := by
      rcases hP.cases with ⟨hw, hh⟩ | ⟨hw, hh⟩ | ⟨hw, hh⟩ | ⟨hw, hh⟩ <;> rw [hw, hh] <;> omega
    rw [hindex]
    omega

/-- It lies in the external memory, or below it, far above the internal one. -/
theorem Ltdc.OfBoard.pointAddr_bounds :
    0xB0000000 ≤ P.pointAddr x y ∧ P.pointAddr x y + 1 < 2 ^ 32 ∧ P.pointAddr x y % 2 = 0 := by
  have haddr := hP.pointAddr_eq hx hy
  split at haddr <;> rcases hP.cases with ⟨hw, hh⟩ | ⟨hw, hh⟩ | ⟨hw, hh⟩ | ⟨hw, hh⟩ <;>
    rw [hw] at haddr <;> omega

/-- Both bytes of a point on the layer are in the frame buffer, and none of another point. -/
theorem Ltdc.OfBoard.inFrame_iff {a : ℕ} (ha : a = P.pointAddr x y ∨ a = P.pointAddr x y + 1) :
    InFrame P a ↔ OnLayer P x y := by
  have hframe := hP.framebuf
  obtain ⟨-, -, heven⟩ := hP.pointAddr_bounds hx hy
  rw [← inBuffer_pointAddr P hx 0, InBuffer, InFrame]
  dsimp only
  omega

/-- Points near each other have their own addresses, also where the columns go round. -/
theorem Ltdc.OfBoard.pointAddr_near {x' y' : ℕ} (hx' : x' < 2 ^ 16) (hy' : y' < 2 ^ 16)
    (hnear : x = x' ∨ (y < y' + 32 ∧ y' < y + 32) ∧
      (x < x' + 32 ∧ x' < x + 32 ∨ x + 65504 < x' ∨ x' + 65504 < x))
    (h : P.pointAddr x y = P.pointAddr x' y') : x = x' ∧ y = y' := by
  have haddr := hP.pointAddr_eq hx hy
  have haddr' := hP.pointAddr_eq hx' hy'
  by_cases hdir : P.dir ≠ 0
  · rw [if_pos hdir] at haddr haddr'
    rcases hP.cases with ⟨hw, -⟩ | ⟨hw, -⟩ | ⟨hw, -⟩ | ⟨hw, -⟩ <;> rw [hw] at haddr haddr' <;> omega
  · rw [if_neg hdir] at haddr haddr'
    rcases hP.cases with ⟨hw, -⟩ | ⟨hw, -⟩ | ⟨hw, -⟩ | ⟨hw, -⟩ <;> rw [hw] at haddr haddr' <;> omega

end Point
section Unique
variable {D : Lcddev} {size mode color x y : ℕ} {bytes : ℕ → ℕ} {t j : ℕ}

/-- No two dots of a character have the same address. -/
theorem fontDots_unique (hsize : Supported size) (hx : x < 2 ^ 16) {n : ℕ}
    (hn : n ≤ columnBytes size * size) {p q : Point}
    (hp : p ∈ fontDots D size mode color x y bytes n)
    (hq : q ∈ fontDots D size mode color x y bytes n)
    (h : P.pointAddr p.x p.y = P.pointAddr q.x q.y) : p = q := by
  obtain ⟨t, ht, j, hj, hbit⟩ := mem_fontDots.mp hp
  obtain ⟨t', ht', j', hj', hbit'⟩ := mem_fontDots.mp hq
  obtain ⟨hpx, hpy⟩ := bitDot_place hbit
  obtain ⟨hqx, hqy⟩ := bitDot_place hbit'
  obtain ⟨hpos, hle⟩ := hsize.le
  suffices hsame : t = t' ∧ j = j' by
    rw [hsame.1, hsame.2, hbit'] at hbit
    exact (Option.some.inj hbit).symm
  obtain ⟨hj8, hplace⟩ := byte_place (x := x) hsize (lt_of_lt_of_le ht hn) hj
  obtain ⟨hj8', hplace'⟩ := byte_place (x := x) hsize (lt_of_lt_of_le ht' hn) hj'
  rcases hplace with ⟨hfits, i, r, htr, hi, hrow, hcol, hrow'⟩ | ⟨hround, ht8, hcol, hrow⟩
  · rcases hplace' with ⟨-, i', r', htr', hi', hrow₁, hcol', hrow₁'⟩ | ⟨hround, -⟩
    · rw [hpx, hpy, hqx, hqy, hcol, hrow', hcol', hrow₁'] at h
      obtain ⟨hxx, hyy⟩ :=
        hP.pointAddr_near (by omega) (by omega) (by omega) (by omega) (by omega) h
      obtain rfl : i = i' := by omega
      obtain rfl : r = r' := by omega
      omega
    · omega
  · rcases hplace' with ⟨hfits, -⟩ | ⟨-, ht8', hcol', hrow'⟩
    · omega
    · rw [hpx, hpy, hqx, hqy, hcol, hrow, hcol', hrow'] at h
      obtain ⟨-, hyy⟩ := hP.pointAddr_near (by omega) (by omega) (by omega) (by omega) (.inl rfl) h
      omega

/-- The dots of a character on the screen are on the layer. -/
theorem fontDots_onLayer (hsize : Supported size) (hright : x + size ≤ P.width)
    (hbottom : y + size ≤ P.height) {n : ℕ} (hn : n ≤ columnBytes size * size) {p : Point}
    (hp : p ∈ fontDots D size mode color x y bytes n) : OnLayer P p.x p.y := by
  obtain ⟨t, ht, j, hj, hbit⟩ := mem_fontDots.mp hp
  obtain ⟨hpx, hpy⟩ := bitDot_place hbit
  have hedges : P.width ≤ 1280 ∧ P.height ≤ 1280 := by
    rw [Ltdc.width, Ltdc.height]
    rcases hP.cases with ⟨hw, hh⟩ | ⟨hw, hh⟩ | ⟨hw, hh⟩ | ⟨hw, hh⟩ <;> split <;> omega
  obtain ⟨-, ⟨-, i, r, -, hi, hrow, hcol, hrow'⟩ | ⟨hround, -⟩⟩ :=
    byte_place (x := x) hsize (lt_of_lt_of_le ht hn) hj
  · have hvisible : P.Visible p.x p.y := ⟨by omega, by omega⟩
    have hindex := P.index_lt hvisible.column_lt hvisible.row_lt
    rw [← inBuffer_pointAddr P (by omega) 0, InBuffer]
    dsimp only
    rw [Ltdc.pointAddr_visible hvisible]
    omega
  · omega

end Unique
end OfBoard
/-! ## Memory -/

/-- A half word is stored with its low byte first. -/
def Store.put (st : Store) (mem : ℕ → ℕ) : ℕ → ℕ :=
  Function.update (Function.update mem st.addr (st.value % 256)) ((st.addr + 1) % 2 ^ 32)
    (st.value / 256)

/-- The memory after `lcd_draw_point` on an RGB panel. -/
def Ltdc.putPoint (P : Ltdc) (mem : ℕ → ℕ) (p : Point) : ℕ → ℕ :=
  ((ltdcDrawPoint P (p.x % 2 ^ 16) (p.y % 2 ^ 16) p.color).state []).foldr Store.put mem

section Put
variable {P : Ltdc} {mem : ℕ → ℕ} {p : Point} {ps : List Point}

/-- What `ltdc_draw_point` stores. -/
def Ltdc.store (P : Ltdc) (p : Point) : Store :=
  ⟨P.pointAddr (p.x % 2 ^ 16) (p.y % 2 ^ 16), p.color % 2 ^ 16⟩

theorem Ltdc.putPoint_eq : P.putPoint mem p = (P.store p).put mem := rfl

theorem Store.put_of_ne {st : Store} {a : ℕ} (h : a ≠ st.addr) (h' : a ≠ (st.addr + 1) % 2 ^ 32) :
    st.put mem a = mem a := by
  rw [Store.put, Function.update_of_ne h', Function.update_of_ne h]

variable (mem) in
theorem Store.put_self {st : Store} (h : (st.addr + 1) % 2 ^ 32 ≠ st.addr) :
    st.put mem st.addr = st.value % 256 ∧
      st.put mem ((st.addr + 1) % 2 ^ 32) = st.value / 256 := by
  rw [Store.put, Function.update_of_ne h.symm, Function.update_self, Function.update_self]
  exact ⟨rfl, rfl⟩

/-- Storing changes nothing where both bytes are there already. -/
theorem Store.put_eq_self {st : Store} (hlow : mem st.addr = st.value % 256)
    (hhigh : mem ((st.addr + 1) % 2 ^ 32) = st.value / 256) : st.put mem = mem := by
  rw [Store.put, ← hlow, Function.update_eq_self, ← hhigh, Function.update_eq_self]

theorem Ltdc.store_addr_lt (P : Ltdc) (p : Point) : (P.store p).addr < 2 ^ 32 := by
  rw [Ltdc.store, Ltdc.pointAddr]
  split <;> exact Nat.mod_lt _ (by decide)

/-- Where no point is stored, the memory is as it was. -/
theorem foldl_putPoint_of_ne {a : ℕ}
    (h : ∀ p ∈ ps, a ≠ (P.store p).addr ∧ a ≠ ((P.store p).addr + 1) % 2 ^ 32) :
    ps.foldl P.putPoint mem a = mem a := by
  induction ps generalizing mem with
  | nil => rfl
  | cons p ps ih =>
      obtain ⟨hp, hps⟩ := List.forall_mem_cons.mp h
      rw [List.foldl_cons, ih hps, P.putPoint_eq, Store.put_of_ne hp.1 hp.2]

theorem Store.put_congr (st : Store) {mem' : ℕ → ℕ} {a : ℕ} (h : mem' a = mem a) :
    st.put mem' a = st.put mem a := by
  simp only [Store.put, Function.update_apply, h]

/-- Points each of which would change nothing, or is stored at addresses that are not `Out`, leave
those that are alone. -/
theorem foldl_putPoint_out (Out : ℕ → Prop)
    (h : ∀ p ∈ ps, P.putPoint mem p = mem ∨
      ¬ Out (P.store p).addr ∧ ¬ Out (((P.store p).addr + 1) % 2 ^ 32))
    {a : ℕ} (ha : Out a) : ps.foldl P.putPoint mem a = mem a := by
  suffices hall : ∀ m : ℕ → ℕ, (∀ a, Out a → m a = mem a) → ps.foldl P.putPoint m a = mem a from
    hall mem fun _ _ => rfl
  induction ps with
  | nil => exact fun m hm => hm a ha
  | cons p ps ih =>
      obtain ⟨hp, hps⟩ := List.forall_mem_cons.mp h
      refine fun m hm => ih hps _ fun b hb => ?_
      rw [P.putPoint_eq]
      rcases hp with hsame | ⟨hlow, hhigh⟩
      · rw [Store.put_congr _ (hm b hb), ← P.putPoint_eq, hsame]
      · rw [Store.put_of_ne (fun heq => hlow (heq ▸ hb)) (fun heq => hhigh (heq ▸ hb)), hm b hb]

variable (mem) in
/-- A point that is the only one at its address stays there. -/
theorem foldl_putPoint_mem (heven : ∀ q ∈ ps, (P.store q).addr % 2 = 0) (hp : p ∈ ps)
    (hunique : ∀ q ∈ ps, (P.store q).addr = (P.store p).addr → q = p) :
    ps.foldl P.putPoint mem (P.store p).addr = (P.store p).value % 256 ∧
      ps.foldl P.putPoint mem (((P.store p).addr + 1) % 2 ^ 32) = (P.store p).value / 256 := by
  have hp2 := heven p hp
  induction ps generalizing mem with
  | nil => exact absurd hp List.not_mem_nil
  | cons q ps ih =>
      obtain ⟨hq2, hps2⟩ := List.forall_mem_cons.mp heven
      obtain ⟨hq, hps⟩ := List.forall_mem_cons.mp hunique
      by_cases hmore : p ∈ ps
      · exact ih _ hps2 hmore hps
      · obtain rfl : q = p := ((List.mem_cons.mp hp).resolve_right hmore).symm
        -- it is stored first, and not touched any more
        have hother : ∀ q' ∈ ps, (P.store q').addr ≠ (P.store q).addr := fun q' hq' heq =>
          hmore (hps q' hq' heq ▸ hq')
        have hlt := P.store_addr_lt q
        have hkeeps : ∀ q' ∈ ps, ∀ a, a = (P.store q).addr ∨ a = ((P.store q).addr + 1) % 2 ^ 32 →
            a ≠ (P.store q').addr ∧ a ≠ ((P.store q').addr + 1) % 2 ^ 32 := fun q' hq' a ha => by
          have hne := hother q' hq'
          have heven' := hps2 q' hq'
          have hlt' := P.store_addr_lt q'
          omega
        rw [List.foldl_cons, foldl_putPoint_of_ne fun q' hq' => hkeeps q' hq' _ (.inl rfl),
          foldl_putPoint_of_ne fun q' hq' => hkeeps q' hq' _ (.inr rfl), P.putPoint_eq]
        exact Store.put_self mem (by omega)

/-- The two bytes that a point is stored at. -/
theorem Ltdc.OfBoard.store_addr (hP : P.OfBoard) (hx : p.x < 2 ^ 16) (hy : p.y < 2 ^ 16) :
    (P.store p).addr = P.pointAddr p.x p.y ∧
      ((P.store p).addr + 1) % 2 ^ 32 = P.pointAddr p.x p.y + 1 := by
  have haddr : (P.store p).addr = P.pointAddr p.x p.y := by
    rw [Ltdc.store, Nat.mod_eq_of_lt hx, Nat.mod_eq_of_lt hy]
  obtain ⟨-, hlast, -⟩ := hP.pointAddr_bounds hx hy
  rw [haddr]
  exact ⟨rfl, Nat.mod_eq_of_lt hlast⟩

end Put
end Apollo.Lcd
