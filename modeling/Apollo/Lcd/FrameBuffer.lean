import Apollo.Lcd.Ltdc
import Apollo.Lcd.Line
import Mathlib.Algebra.Group.Int.Defs
import Mathlib.Data.Int.ModEq
import Mathlib.Tactic.Ring

/-!
# Drawing past the frame buffer

No function on the way from `lcd_draw_line` and `lcd_draw_circle` to `ltdc_draw_point` compares a
coordinate with the size of the panel.  A point off the screen is written where its address falls:
a column too far to the right in landscape is a pixel of one of the next rows, and what is behind
the last row or before the first is not in the buffer any more.

## Main definitions

* `InBuffer` — a store that stays in the buffer; `OnLayer` — the points that do.
* `onLayer_iff` — these points by their coordinates, on panels of a usual size.
* `lcdDrawCircle` — the code; `octant` — its points by the rule of the midpoint.
* `drawing_inBuffer_iff` — when a point, a line and a circle stay in the buffer.
-/

namespace Apollo.Lcd
open Lib

/-- A store that stays in the buffer of the active layer. -/
def InBuffer (P : Ltdc) (st : Store) : Prop :=
  P.framebuf ≤ st.addr ∧ st.addr + 2 ≤ P.framebuf + 2 * (P.pwidth * P.pheight)

instance (P : Ltdc) (st : Store) : Decidable (InBuffer P st) :=
  inferInstanceAs (Decidable (_ ∧ _))

/-- The pixel at the point, counted from the first of the panel, is one of the panel.  Pixels are
counted as far as there are addresses. -/
def OnLayer (P : Ltdc) (x y : ℕ) : Prop :=
  (if P.dir ≠ 0 then (P.pwidth : ℤ) * y + x else P.pwidth * ((P.pheight : ℤ) - 1 - x) + y) %
    2 ^ 31 < P.pwidth * P.pheight

instance (P : Ltdc) (x y : ℕ) : Decidable (OnLayer P x y) := inferInstanceAs (Decidable (_ < _))

section OnLayer
variable (P : Ltdc) {x y : ℕ}

/-- A point is written into the buffer exactly if it is on the layer. -/
theorem inBuffer_pointAddr (hx : x < 2 ^ 16) (value : ℕ) :
    InBuffer P ⟨P.pointAddr x y, value⟩ ↔ OnLayer P x y := by
  have hfits := P.fits
  have haddr (n : ℕ) (m : ℤ) (hm : m % 2 ^ 31 = (n % 2 ^ 31 : ℕ)) :
      InBuffer P ⟨(P.framebuf + 2 * (n % 2 ^ 32)) % 2 ^ 32, value⟩ ↔
        m % 2 ^ 31 < P.pwidth * P.pheight := by
    have hcast : ((P.pwidth * P.pheight : ℕ) : ℤ) = P.pwidth * P.pheight := Nat.cast_mul _ _
    unfold InBuffer
    dsimp only
    omega
  unfold Ltdc.pointAddr OnLayer
  by_cases hdir : P.dir ≠ 0
  · rw [if_pos hdir, if_pos hdir]
    exact haddr _ _ (by push_cast; rfl)
  · rw [if_neg hdir, if_neg hdir]
    refine haddr _ _ ?_
    have hpheight := P.pheight_lt
    have hrow : (((P.pheight + 2 ^ 32 - x - 1) % 2 ^ 32 : ℕ) : ℤ) ≡ (P.pheight : ℤ) - 1 - x
        [ZMOD 2 ^ 31] := by
      unfold Int.ModEq
      omega
    have hindex := ((hrow.mul_left P.pwidth).add_right (y : ℤ)).symm
    rw [Int.natCast_mod, Nat.cast_add, Nat.cast_mul]
    exact hindex

/-- On a panel of at most 2^14 columns and 2^16 rows, by the coordinates: in landscape the point
is not below the last row, counting a column past the end as one of the next row; in portrait it
is neither left of the first column nor right of the last one, counting the rows so. -/
theorem onLayer_iff (hsize : P.pwidth ≤ 2 ^ 14 ∧ P.pheight ≤ 2 ^ 16) (hx : x < 2 ^ 16)
    (hy : y < 2 ^ 16) :
    OnLayer P x y ↔ if P.dir ≠ 0 then y + x / P.pwidth < P.pheight
      else y / P.pwidth ≤ x ∧ x < P.pheight + y / P.pwidth := by
  have hrows : P.pwidth * P.pheight ≤ 2 ^ 14 * 2 ^ 16 := Nat.mul_le_mul hsize.1 hsize.2
  have hcast : ((P.pwidth * P.pheight : ℕ) : ℤ) = P.pwidth * P.pheight := Nat.cast_mul _ _
  unfold OnLayer
  by_cases hdir : P.dir ≠ 0
  · have hy' : P.pwidth * y ≤ 2 ^ 14 * 2 ^ 16 := Nat.mul_le_mul hsize.1 hy.le
    have hindex : ((P.pwidth : ℤ) * y + x) % 2 ^ 31 = ((P.pwidth * y + x : ℕ) : ℤ) := by
      rw [← Nat.cast_mul, ← Nat.cast_add]
      omega
    rw [if_pos hdir, if_pos hdir, hindex, ← hcast, Nat.cast_lt, ← Nat.mul_add_div P.connected,
      Nat.div_lt_iff_lt_mul P.connected, Nat.mul_comm P.pheight]
  · rw [if_neg hdir, if_neg hdir]
    have hpos : (0 : ℤ) < P.pwidth := by exact_mod_cast P.connected
    have hx' : P.pwidth * x ≤ 2 ^ 14 * 2 ^ 16 := Nat.mul_le_mul hsize.1 hx.le
    have hindex : (P.pwidth : ℤ) * ((P.pheight : ℤ) - 1 - x) + y =
        (P.pwidth * P.pheight : ℕ) - P.pwidth - (P.pwidth * x : ℕ) + y := by
      push_cast
      ring
    -- the number is so small that it stays negative where it is
    have hrange : ((P.pwidth : ℤ) * ((P.pheight : ℤ) - 1 - x) + y) % 2 ^ 31 <
          P.pwidth * P.pheight ↔
        0 ≤ (P.pwidth : ℤ) * ((P.pheight : ℤ) - 1 - x) + y ∧
          (P.pwidth : ℤ) * ((P.pheight : ℤ) - 1 - x) + y < P.pheight * P.pwidth := by
      rw [mul_comm (P.pheight : ℤ), ← hcast, hindex]
      omega
    have hrow : ((P.pwidth : ℤ) * ((P.pheight : ℤ) - 1 - x) + y) / P.pwidth =
        (y / P.pwidth : ℕ) + ((P.pheight : ℤ) - 1 - x) := by
      rw [add_comm, Int.add_mul_ediv_left _ _ hpos.ne', Int.natCast_div]
    rw [hrange, ← Int.ediv_nonneg_iff_of_pos hpos, ← Int.ediv_lt_iff_lt_mul hpos, hrow]
    omega

end OnLayer

/-! ## Circles -/

/-- What the loop of `lcd_draw_circle` carries. -/
structure CircleLoop where
  a : ℤ
  b : ℤ
  di : ℤ

section Circle
variable {σ : Type} (draw : ℕ → ℕ → Prog σ Unit) (x0 y0 r : ℕ)

def circleRound (_i : ℕ) (c : CircleLoop) : Prog σ (Flow CircleLoop Unit) :=
  if c.a ≤ c.b then do
    draw (coord (x0 + c.a)) (coord (y0 - c.b))
    draw (coord (x0 + c.b)) (coord (y0 - c.a))
    draw (coord (x0 + c.b)) (coord (y0 + c.a))
    draw (coord (x0 + c.a)) (coord (y0 + c.b))
    draw (coord (x0 - c.a)) (coord (y0 + c.b))
    draw (coord (x0 - c.b)) (coord (y0 + c.a))
    draw (coord (x0 - c.a)) (coord (y0 - c.b))
    draw (coord (x0 - c.b)) (coord (y0 - c.a))
    let a := c.a + 1
    pure (.next (if c.di < 0 then ⟨a, c.b, c.di + (4 * a + 6)⟩
      else ⟨a, c.b - 1, c.di + (10 + 4 * (a - c.b))⟩))
  else pure (.exit ())

/-- `lcd_draw_circle`, for at most `n` rounds. -/
def lcdDrawCircle (n : ℕ) : Prog σ (Flow CircleLoop Unit) :=
  Prog.loop (circleRound draw x0 y0) n 0 ⟨0, r, 3 - 2 * (r : ℤ)⟩

/-- The points that mirror `a` columns on and `b` rows up from the centre. -/
def mirrored (a b : ℤ) : List (ℕ × ℕ) :=
  [(coord (x0 + a), coord (y0 - b)), (coord (x0 + b), coord (y0 - a)),
    (coord (x0 + b), coord (y0 + a)), (coord (x0 + a), coord (y0 + b)),
    (coord (x0 - a), coord (y0 + b)), (coord (x0 - b), coord (y0 + a)),
    (coord (x0 - a), coord (y0 - b)), (coord (x0 - b), coord (y0 - a))]

/-- How far the circle is up at the column `a`: a row less than before where the next midpoint is
outside. -/
def octant : ℕ → ℤ
  | 0 => r
  | a + 1 =>
      if ((a : ℤ) + 2) ^ 2 + octant a * (octant a - 1) ≤ (r : ℤ) ^ 2 + 2 then octant a
      else octant a - 1

theorem octant_succ_le (a : ℕ) : octant r (a + 1) ≤ octant r a := by
  rw [octant]
  split <;> omega

/-- A column that is drawn is drawn after all before it. -/
theorem octant_of_le {a a' : ℕ} (h : (a : ℤ) ≤ octant r a) (hle : a' ≤ a) :
    (a' : ℤ) ≤ octant r a' := by
  induction a with
  | zero =>
      obtain rfl : a' = 0 := by omega
      exact h
  | succ a ih =>
      have hsucc := octant_succ_le r a
      rcases Nat.lt_or_eq_of_le hle with hlt | rfl
      · exact ih (by omega) (by omega)
      · exact h

/-- The points of the first `k` columns. -/
def circlePoints : ℕ → List (ℕ × ℕ)
  | 0 => []
  | k + 1 => circlePoints k ++ mirrored x0 y0 k (octant r k)

/-- What holds before the round `j`. -/
structure CircleAt (s : σ) (j : ℕ) (c : CircleLoop) (s' : σ) : Prop where
  a_eq : c.a = j
  b_eq : c.b = octant r j
  di_eq : c.di = 3 + 2 * c.a ^ 2 + 8 * c.a + 2 * c.b ^ 2 - 2 * c.b - 2 * (r : ℤ) ^ 2
  drawn : s' = (drawPoints draw (circlePoints x0 y0 r j)).state s
  columns : ∀ a < j, (a : ℤ) ≤ octant r a

/-- What holds when the loop has been left. -/
def CircleDone (s s' : σ) : Prop :=
  ∃ j, octant r j < (j : ℤ) ∧ (∀ a < j, (a : ℤ) ≤ octant r a) ∧
    s' = (drawPoints draw (circlePoints x0 y0 r j)).state s

/-- A round draws the points of the next column, unless it is the end. -/
theorem circleAt_round (s : σ) (j : ℕ) (c : CircleLoop) (s' : σ)
    (h : CircleAt draw x0 y0 r s j c s') :
    ((circleRound draw x0 y0 j c).val s').Holds
      (fun c' => CircleAt draw x0 y0 r s (j + 1) c' ((circleRound draw x0 y0 j c).state s'))
      fun _ => CircleDone draw x0 y0 r s ((circleRound draw x0 y0 j c).state s') := by
  have ha := h.a_eq
  have hb := h.b_eq
  have hdi := h.di_eq
  rw [circleRound]
  by_cases hgo : c.a ≤ c.b
  · rw [if_pos hgo]
    have hmid : c.di < 0 ↔ ((j : ℤ) + 2) ^ 2 + octant r j * (octant r j - 1) ≤ (r : ℤ) ^ 2 + 2 := by
      have hsquares : ((j : ℤ) + 2) ^ 2 + octant r j * (octant r j - 1) =
          (j : ℤ) ^ 2 + 4 * j + 4 + octant r j ^ 2 - octant r j := by ring
      rw [hdi, ha, hb, hsquares]
      omega
    have hdrawn : (drawPoints draw (mirrored x0 y0 c.a c.b)).state s' =
        (drawPoints draw (circlePoints x0 y0 r (j + 1))).state s := by
      rw [circlePoints, state_drawPoints_append, ← h.drawn, ha, hb]
    have hcolumns : ∀ a < j + 1, (a : ℤ) ≤ octant r a := by
      intro a hlt
      rcases Nat.lt_succ_iff_lt_or_eq.mp hlt with hlt | rfl
      · exact h.columns a hlt
      · omega
    simp only [Prog.val_bind, Prog.val_pure, Flow.holds_next]
    by_cases hneg : c.di < 0
    · rw [if_pos hneg]
      refine ⟨by dsimp only; omega, ?_, ?_, hdrawn, hcolumns⟩
      · rw [octant, if_pos (hmid.mp hneg)]
        exact hb
      · dsimp only
        rw [hdi]
        ring
    · rw [if_neg hneg]
      refine ⟨by dsimp only; omega, ?_, ?_, hdrawn, hcolumns⟩
      · rw [octant, if_neg fun hle => hneg (hmid.mpr hle)]
        dsimp only
        omega
      · dsimp only
        rw [hdi]
        ring
  · rw [if_neg hgo]
    exact ⟨j, by omega, h.columns, h.drawn⟩

theorem lcdDrawCircle_run (n : ℕ) (s : σ) :
    ((lcdDrawCircle draw x0 y0 r n).val s).Holds
      (fun c => CircleAt draw x0 y0 r s n c ((lcdDrawCircle draw x0 y0 r n).state s))
      fun _ => CircleDone draw x0 y0 r s ((lcdDrawCircle draw x0 y0 r n).state s) :=
  Prog.loop_inv (I := CircleAt draw x0 y0 r s) (Q := fun _ => CircleDone draw x0 y0 r s)
    (fun j _ c s' => circleAt_round draw x0 y0 r s j c s') (Nat.zero_add n)
    ⟨rfl, rfl, by dsimp only; ring, rfl, fun a ha => absurd ha (Nat.not_lt_zero a)⟩

end Circle

/-! ## Staying in the buffer -/

section Safety
variable (P : Ltdc) (color : ℕ)

/-- `lcd_draw_point` where there is an RGB panel. -/
def rgbDrawPoint (x y : ℕ) : Prog Stores Unit := ltdcDrawPoint P x y color

theorem mem_drawPoints (l : List (ℕ × ℕ)) (s : Stores) (st : Store) :
    st ∈ (drawPoints (rgbDrawPoint P color) l).state s ↔
      st ∈ s ∨ ∃ p ∈ l, st = ⟨P.pointAddr p.1 p.2, color % 2 ^ 16⟩ := by
  induction l generalizing s with
  | nil => exact ⟨.inl, fun h => h.elim id fun ⟨p, hp, _⟩ => absurd hp List.not_mem_nil⟩
  | cons p l ih =>
      rw [drawPoints, Prog.state_bind, ih, rgbDrawPoint, ltdcDrawPoint, Prog.state_modify,
        List.mem_cons, List.exists_mem_cons_iff]
      tauto

/-- Points drawn one after the other stay in the buffer exactly if all of them are on the layer. -/
theorem drawPoints_inBuffer_iff {l : List (ℕ × ℕ)} (hl : ∀ p ∈ l, p.1 < 2 ^ 16) :
    (∀ st ∈ (drawPoints (rgbDrawPoint P color) l).state [], InBuffer P st) ↔
      ∀ p ∈ l, OnLayer P p.1 p.2 := by
  constructor
  · intro h p hp
    exact (inBuffer_pointAddr P (hl p hp) _).mp
      (h _ ((mem_drawPoints P color l [] _).mpr (.inr ⟨p, hp, rfl⟩)))
  · intro h st hst
    rcases (mem_drawPoints P color l [] st).mp hst with hnil | ⟨p, hp, rfl⟩
    · exact absurd hnil List.not_mem_nil
    · exact (inBuffer_pointAddr P (hl p hp) _).mpr (h p hp)

theorem coord_lt (v : ℤ) : coord v < 2 ^ 16 := by
  unfold coord
  omega

theorem point_inBuffer_iff {x : ℕ} (hx : x < 2 ^ 16) (y : ℕ) :
    (∀ st ∈ (rgbDrawPoint P color x y).state [], InBuffer P st) ↔ OnLayer P x y := by
  rw [rgbDrawPoint, ltdcDrawPoint, Prog.state_modify, List.forall_mem_singleton]
  exact inBuffer_pointAddr P hx _

section Line
variable (x1 y1 x2 y2 : ℕ)

theorem mem_linePoints {k : ℕ} {p : ℕ × ℕ} :
    p ∈ linePoints x1 y1 x2 y2 k ↔ ∃ j < k, linePoint x1 y1 x2 y2 j = p := by
  rw [linePoints, List.mem_map]
  simp only [List.mem_range]

theorem linePoints_inBuffer_iff (k : ℕ) :
    (∀ st ∈ (drawPoints (rgbDrawPoint P color) (linePoints x1 y1 x2 y2 k)).state [],
        InBuffer P st) ↔
      ∀ j < k, OnLayer P (linePoint x1 y1 x2 y2 j).1 (linePoint x1 y1 x2 y2 j).2 := by
  rw [drawPoints_inBuffer_iff]
  · simp only [mem_linePoints]
    exact ⟨fun h j hj => h _ ⟨j, hj, rfl⟩, fun h p ⟨j, hj, hp⟩ => hp ▸ h j hj⟩
  · intro p hp
    obtain ⟨j, -, rfl⟩ := (mem_linePoints x1 y1 x2 y2).mp hp
    exact coord_lt _

/-- A line stays in the buffer exactly if all of its points are on the layer; one that does not
end goes on with the same rule. -/
theorem line_inBuffer_iff :
    (∀ n, ∀ st ∈ (lcdDrawLine (rgbDrawPoint P color) x1 y1 x2 y2 n).state [], InBuffer P st) ↔
      ∀ k, (lineLength x1 y1 x2 y2 < 65534 → k ≤ lineLength x1 y1 x2 y2 + 1) →
        OnLayer P (linePoint x1 y1 x2 y2 k).1 (linePoint x1 y1 x2 y2 k).2 := by
  constructor
  · intro h k hk
    have hrun := lcdDrawLine_run (rgbDrawPoint P color) x1 y1 x2 y2 (k + 1) []
    have hstores := h (k + 1)
    cases hv : (lcdDrawLine (rgbDrawPoint P color) x1 y1 x2 y2 (k + 1)).val [] with
    | next a =>
        rw [hv] at hrun
        rw [hrun.drawn, linePoints_inBuffer_iff] at hstores
        exact hstores k (Nat.lt_succ_self k)
    | exit u =>
        rw [hv] at hrun
        rw [hrun.drawn, linePoints_inBuffer_iff] at hstores
        exact hstores k (Nat.lt_succ_of_le (hk hrun.short))
  · intro h n
    have hrun := lcdDrawLine_run (rgbDrawPoint P color) x1 y1 x2 y2 n []
    cases hv : (lcdDrawLine (rgbDrawPoint P color) x1 y1 x2 y2 n).val [] with
    | next a =>
        rw [hv] at hrun
        rw [hrun.drawn, linePoints_inBuffer_iff]
        intro j hj
        refine h j fun hshort => ?_
        have := hrun.bound hshort
        omega
    | exit u =>
        rw [hv] at hrun
        rw [hrun.drawn, linePoints_inBuffer_iff]
        exact fun j hj => h j fun _ => Nat.le_of_lt_succ hj

end Line

section Circle
variable (x0 y0 r : ℕ)

theorem mem_circlePoints {k : ℕ} {p : ℕ × ℕ} :
    p ∈ circlePoints x0 y0 r k ↔ ∃ a < k, p ∈ mirrored x0 y0 a (octant r a) := by
  induction k with
  | zero =>
      exact ⟨fun h => absurd h List.not_mem_nil, fun ⟨a, ha, _⟩ => absurd ha (Nat.not_lt_zero a)⟩
  | succ k ih =>
      rw [circlePoints, List.mem_append, ih]
      constructor
      · rintro (⟨a, ha, hp⟩ | hp)
        · exact ⟨a, by omega, hp⟩
        · exact ⟨k, by omega, hp⟩
      · rintro ⟨a, ha, hp⟩
        rcases Nat.lt_succ_iff_lt_or_eq.mp ha with hlt | rfl
        · exact .inl ⟨a, hlt, hp⟩
        · exact .inr hp

theorem mirrored_lt {a b : ℤ} {p : ℕ × ℕ} (hp : p ∈ mirrored x0 y0 a b) : p.1 < 2 ^ 16 := by
  simp only [mirrored, List.mem_cons, List.not_mem_nil, or_false] at hp
  rcases hp with rfl | rfl | rfl | rfl | rfl | rfl | rfl | rfl <;> exact coord_lt _

theorem circlePoints_inBuffer_iff (k : ℕ) :
    (∀ st ∈ (drawPoints (rgbDrawPoint P color) (circlePoints x0 y0 r k)).state [],
        InBuffer P st) ↔
      ∀ a < k, ∀ p ∈ mirrored x0 y0 a (octant r a), OnLayer P p.1 p.2 := by
  rw [drawPoints_inBuffer_iff]
  · simp only [mem_circlePoints]
    exact ⟨fun h a ha p hp => h p ⟨a, ha, hp⟩, fun h p ⟨a, ha, hp⟩ => h a ha p hp⟩
  · intro p hp
    obtain ⟨a, -, hp⟩ := (mem_circlePoints x0 y0 r).mp hp
    exact mirrored_lt x0 y0 hp

/-- A circle stays in the buffer exactly if the eight mirrored points of every column of its
octant are on the layer. -/
theorem circle_inBuffer_iff :
    (∀ n, ∀ st ∈ (lcdDrawCircle (rgbDrawPoint P color) x0 y0 r n).state [], InBuffer P st) ↔
      ∀ a : ℕ, (a : ℤ) ≤ octant r a →
        ∀ p ∈ mirrored x0 y0 a (octant r a), OnLayer P p.1 p.2 := by
  constructor
  · intro h a ha
    have hrun := lcdDrawCircle_run (rgbDrawPoint P color) x0 y0 r (a + 1) []
    have hstores := h (a + 1)
    cases hv : (lcdDrawCircle (rgbDrawPoint P color) x0 y0 r (a + 1)).val [] with
    | next c =>
        rw [hv] at hrun
        rw [hrun.drawn, circlePoints_inBuffer_iff] at hstores
        exact hstores a (Nat.lt_succ_self a)
    | exit u =>
        rw [hv] at hrun
        obtain ⟨j, hend, -, hdrawn⟩ := hrun
        rw [hdrawn, circlePoints_inBuffer_iff] at hstores
        -- the columns are drawn up to the end, and the column is not behind it
        refine hstores a (Nat.lt_of_not_le fun hle => ?_)
        have := octant_of_le r ha hle
        omega
  · intro h n
    have hrun := lcdDrawCircle_run (rgbDrawPoint P color) x0 y0 r n []
    cases hv : (lcdDrawCircle (rgbDrawPoint P color) x0 y0 r n).val [] with
    | next c =>
        rw [hv] at hrun
        rw [hrun.drawn, circlePoints_inBuffer_iff]
        exact fun a ha => h a (hrun.columns a ha)
    | exit u =>
        rw [hv] at hrun
        obtain ⟨j, -, hcolumns, hdrawn⟩ := hrun
        rw [hdrawn, circlePoints_inBuffer_iff]
        exact fun a ha => h a (hcolumns a ha)

end Circle

/-- When a point, a line and a circle stay in the buffer: all their points have to be on the
layer. -/
theorem drawing_inBuffer_iff :
    (∀ x y, x < 2 ^ 16 → y < 2 ^ 16 →
      ((∀ st ∈ (rgbDrawPoint P color x y).state [], InBuffer P st) ↔ OnLayer P x y)) ∧
    (∀ x1 y1 x2 y2,
      ((∀ n, ∀ st ∈ (lcdDrawLine (rgbDrawPoint P color) x1 y1 x2 y2 n).state [],
          InBuffer P st) ↔
        ∀ k, (lineLength x1 y1 x2 y2 < 65534 → k ≤ lineLength x1 y1 x2 y2 + 1) →
          OnLayer P (linePoint x1 y1 x2 y2 k).1 (linePoint x1 y1 x2 y2 k).2)) ∧
    (∀ x0 y0 r,
      ((∀ n, ∀ st ∈ (lcdDrawCircle (rgbDrawPoint P color) x0 y0 r n).state [], InBuffer P st) ↔
        ∀ a : ℕ, (a : ℤ) ≤ octant r a →
          ∀ p ∈ mirrored x0 y0 a (octant r a), OnLayer P p.1 p.2)) ∧
    (P.pwidth ≤ 2 ^ 14 ∧ P.pheight ≤ 2 ^ 16 → ∀ x y, x < 2 ^ 16 → y < 2 ^ 16 →
      (OnLayer P x y ↔ if P.dir ≠ 0 then y + x / P.pwidth < P.pheight
        else y / P.pwidth ≤ x ∧ x < P.pheight + y / P.pwidth)) :=
  ⟨fun _ y hx _ => point_inBuffer_iff P color hx y, line_inBuffer_iff P color,
    circle_inBuffer_iff P color, fun hsize _ _ hx hy => onLayer_iff P hsize hx hy⟩

end Safety

/-- A point below the last row, a line that leaves at the right of it, and a circle that leaves
at the top. -/
theorem drawing_outside :
    (¬ ∀ st ∈ (rgbDrawPoint (panel4342 1) 0xF800 0 272).state [], InBuffer (panel4342 1) st) ∧
    (¬ ∀ n, ∀ st ∈ (lcdDrawLine (rgbDrawPoint (panel4342 1) 0xF800) 478 271 482 271 n).state [],
      InBuffer (panel4342 1) st) ∧
    ¬ ∀ n, ∀ st ∈ (lcdDrawCircle (rgbDrawPoint (panel4342 1) 0xF800) 100 5 10 n).state [],
      InBuffer (panel4342 1) st :=
  ⟨by decide, fun h => absurd (h 4) (by decide), fun h => absurd (h 1) (by decide)⟩

end Apollo.Lcd
