import Apollo.Lib.Carry
import Apollo.Lcd.Glyph
import Mathlib.Algebra.Group.Int.Defs
import Mathlib.Algebra.GroupWithZero.Nat
import Mathlib.Data.List.Chain
import Mathlib.Data.List.Range

/-!
# Drawing a line

`lcd_draw_line` runs along both axes at once.  Each axis has an accumulator that takes its own
distance in every round and moves the pen by one when it exceeds the longer distance.  Neither
moves in the first round, so that the first point is drawn twice.

The counter of the rounds has sixteen bits.  On a panel it ends the loop; only a line as long as
the counter has values would go on for ever.

## Main definitions

* `lcdDrawLine` — the code, for any way to draw a point; `linePoint` — the points in closed form.
* `lcdDrawLine_ends` — it draws these points one after the other, and nothing else.
* `line_connected` — on a panel they are a connected line from one end to the other.
-/

namespace Apollo.Lcd
open Lib

/-- A coordinate as `lcd_draw_point` takes it. -/
def coord (v : ℤ) : ℕ := (v % 2 ^ 16).toNat

/-- The direction of an axis, and how far it goes. -/
def direction (delta : ℤ) : ℤ × ℤ :=
  if 0 < delta then (1, delta) else if delta = 0 then (0, delta) else (-1, -delta)

/-- Where an axis stands, and what its accumulator holds. -/
structure Axis where
  err : ℤ
  pos : ℤ

/-- A step of an axis. -/
def Axis.step (delta inc distance : ℤ) (a : Axis) : Axis :=
  if distance < a.err + delta then ⟨a.err + delta - distance, a.pos + inc⟩
  else ⟨a.err + delta, a.pos⟩

/-- What the loop of `lcd_draw_line` carries. -/
structure LineLoop where
  t : ℕ
  x : Axis
  y : Axis

/-- What `lcd_draw_line` computes before its loop. -/
structure LineSteps where
  deltaX : ℤ
  deltaY : ℤ
  incx : ℤ
  incy : ℤ
  distance : ℤ

def lineSteps (x1 y1 x2 y2 : ℕ) : LineSteps :=
  let (incx, deltaX) := direction ((x2 : ℤ) - x1)
  let (incy, deltaY) := direction ((y2 : ℤ) - y1)
  ⟨deltaX, deltaY, incx, incy, if deltaX > deltaY then deltaX else deltaY⟩

section Code
variable {σ : Type} (draw : ℕ → ℕ → Prog σ Unit)

def lineRound (c : LineSteps) (_i : ℕ) (a : LineLoop) : Prog σ (Flow LineLoop Unit) :=
  if (a.t : ℤ) ≤ c.distance + 1 then do
    draw (coord a.x.pos) (coord a.y.pos)
    pure (.next {
      t := (a.t + 1) % 2 ^ 16
      x := a.x.step c.deltaX c.incx c.distance
      y := a.y.step c.deltaY c.incy c.distance })
  else pure (.exit ())

/-- `lcd_draw_line`, for at most `n` rounds. -/
def lcdDrawLine (x1 y1 x2 y2 n : ℕ) : Prog σ (Flow LineLoop Unit) :=
  Prog.loop (lineRound draw (lineSteps x1 y1 x2 y2)) n 0 ⟨0, ⟨0, x1⟩, ⟨0, y1⟩⟩

/-- Points that are drawn one after the other. -/
def drawPoints : List (ℕ × ℕ) → Prog σ Unit
  | [] => pure ()
  | p :: l => do
      draw p.1 p.2
      drawPoints l

theorem state_drawPoints_append (l l' : List (ℕ × ℕ)) (s : σ) :
    (drawPoints draw (l ++ l')).state s =
      (drawPoints draw l').state ((drawPoints draw l).state s) := by
  induction l generalizing s with
  | nil => rfl
  | cons p l ih => exact ih _

end Code

/-! ## The points -/

/-- How far two coordinates are apart. -/
def apart (a b : ℕ) : ℕ := (a - b) + (b - a)

/-- The coordinate `m` steps on from `a` towards `b`. -/
def towards (a b m : ℕ) : ℤ := if a ≤ b then a + m else a - m

/-- The longer of the two distances. -/
def lineLength (x1 y1 x2 y2 : ℕ) : ℕ := max (apart x1 x2) (apart y1 y2)

/-- The position of an axis from `a` to `b` in the round `k`. -/
def axisPos (D a b k : ℕ) : ℤ := towards a b (carries D (apart a b) k)

/-- The point of the round `k`. -/
def linePoint (x1 y1 x2 y2 k : ℕ) : ℕ × ℕ :=
  let D := lineLength x1 y1 x2 y2
  (coord (axisPos D x1 x2 k), coord (axisPos D y1 y2 k))

/-- The axis from `a` to `b` as it is in the round `k`. -/
def AxisAt (D a b k : ℕ) (ax : Axis) : Prop :=
  ∃ q e, Carried D (apart a b) k q e ∧ ax.err = e ∧ ax.pos = towards a b q

section
variable {D a b k : ℕ} {ax : Axis}

theorem AxisAt.zero (D a b : ℕ) : AxisAt D a b 0 ⟨0, a⟩ := by
  refine ⟨0, 0, .zero _ _, rfl, ?_⟩
  unfold towards
  split <;> simp

theorem AxisAt.pos_eq (h : AxisAt D a b k ax) : ax.pos = axisPos D a b k := by
  obtain ⟨q, e, hcarried, -, hpos⟩ := h
  rw [hpos, axisPos, hcarried.eq]

theorem direction_eq (a b : ℕ) :
    direction ((b : ℤ) - a) = (if a < b then 1 else if a = b then 0 else -1, (apart a b : ℤ)) := by
  unfold direction apart
  rcases Nat.lt_trichotomy a b with hlt | rfl | hlt
  · rw [if_pos (by omega), if_pos hlt, Prod.mk.injEq]
    omega
  · rw [if_neg (by omega), if_pos (by omega), if_neg (Nat.lt_irrefl a), if_pos rfl, Prod.mk.injEq]
    omega
  · rw [if_neg (by omega), if_neg (by omega), if_neg (by omega), if_neg (by omega), Prod.mk.injEq]
    omega

/-- One step of the axis. -/
theorem AxisAt.step (hD : apart a b ≤ D) (h : AxisAt D a b k ax) :
    AxisAt D a b (k + 1) (ax.step (direction ((b : ℤ) - a)).2 (direction ((b : ℤ) - a)).1 D) := by
  obtain ⟨q, e, hcarried, herr, hpos⟩ := h
  have hleft := hcarried.left_le
  rw [direction_eq, Axis.step, herr]
  dsimp only
  by_cases hmore : D < e + apart a b
  · rw [if_pos (by omega)]
    refine ⟨q + 1, _, hcarried.carry hD hmore, by dsimp only; omega, ?_⟩
    dsimp only
    rw [hpos]
    unfold towards
    unfold apart at hmore
    rcases Nat.lt_trichotomy a b with hlt | rfl | hlt
    · rw [if_pos hlt, if_pos hlt.le, if_pos hlt.le]
      omega
    · omega
    · rw [if_neg (by omega), if_neg (by omega), if_neg (by omega), if_neg (by omega)]
      omega
  · rw [if_neg (by omega)]
    exact ⟨q, _, hcarried.keep hmore, by dsimp only; omega, hpos⟩

end

/-! ## The run -/

section Run
variable {σ : Type} (draw : ℕ → ℕ → Prog σ Unit) (x1 y1 x2 y2 : ℕ)

/-- The points of the first `k` rounds. -/
def linePoints (k : ℕ) : List (ℕ × ℕ) := (List.range k).map (linePoint x1 y1 x2 y2)

/-- What holds before the round `j`. -/
structure LineAt (s : σ) (j : ℕ) (a : LineLoop) (s' : σ) : Prop where
  t_eq : a.t = j % 2 ^ 16
  x_at : AxisAt (lineLength x1 y1 x2 y2) x1 x2 j a.x
  y_at : AxisAt (lineLength x1 y1 x2 y2) y1 y2 j a.y
  drawn : s' = (drawPoints draw (linePoints x1 y1 x2 y2 j)).state s
  bound : lineLength x1 y1 x2 y2 < 65534 → j ≤ lineLength x1 y1 x2 y2 + 2

/-- What holds when the loop has been left. -/
structure LineDone (s s' : σ) : Prop where
  short : lineLength x1 y1 x2 y2 < 65534
  drawn : s' = (drawPoints draw (linePoints x1 y1 x2 y2 (lineLength x1 y1 x2 y2 + 2))).state s

theorem lineSteps_distance :
    (lineSteps x1 y1 x2 y2).distance = (lineLength x1 y1 x2 y2 : ℤ) := by
  simp only [lineSteps, direction_eq, lineLength]
  split <;> omega

/-- A round draws the next point, unless it is the end. -/
theorem lineAt_round (s : σ) (j : ℕ) (a : LineLoop) (s' : σ)
    (h : LineAt draw x1 y1 x2 y2 s j a s') :
    ((lineRound draw (lineSteps x1 y1 x2 y2) j a).val s').Holds
      (fun a' => LineAt draw x1 y1 x2 y2 s (j + 1) a'
        ((lineRound draw (lineSteps x1 y1 x2 y2) j a).state s'))
      fun _ => LineDone draw x1 y1 x2 y2 s
        ((lineRound draw (lineSteps x1 y1 x2 y2) j a).state s') := by
  have ht := h.t_eq
  have hbound := h.bound
  rw [lineRound, lineSteps_distance]
  by_cases hgo : (a.t : ℤ) ≤ lineLength x1 y1 x2 y2 + 1
  · rw [if_pos hgo]
    refine ⟨?_, h.x_at.step (Nat.le_max_left _ _), h.y_at.step (Nat.le_max_right _ _), ?_, ?_⟩
    · dsimp only
      omega
    · rw [Prog.state_bind, Prog.state_pure, linePoints, List.range_succ, List.map_append,
        List.map_singleton, state_drawPoints_append, h.drawn, h.x_at.pos_eq, h.y_at.pos_eq]
      rfl
    · intro hshort
      have := hbound hshort
      omega
  · rw [if_neg hgo]
    -- the counter has passed the end, which it can do for a short line only
    have hshort : lineLength x1 y1 x2 y2 < 65534 := by omega
    have hj := hbound hshort
    obtain rfl : j = lineLength x1 y1 x2 y2 + 2 := by omega
    exact ⟨hshort, h.drawn⟩

theorem lcdDrawLine_run (n : ℕ) (s : σ) :
    ((lcdDrawLine draw x1 y1 x2 y2 n).val s).Holds
      (fun a => LineAt draw x1 y1 x2 y2 s n a ((lcdDrawLine draw x1 y1 x2 y2 n).state s))
      fun _ => LineDone draw x1 y1 x2 y2 s ((lcdDrawLine draw x1 y1 x2 y2 n).state s) :=
  Prog.loop_inv (I := LineAt draw x1 y1 x2 y2 s) (Q := fun _ => LineDone draw x1 y1 x2 y2 s)
    (fun j _ a s' => lineAt_round draw x1 y1 x2 y2 s j a s') (Nat.zero_add n)
    ⟨rfl, .zero _ _ _, .zero _ _ _, rfl, fun _ => Nat.zero_le _⟩

/-- A line that is not too long ends after its last point. -/
theorem lcdDrawLine_ends {n : ℕ} (hshort : lineLength x1 y1 x2 y2 < 65534)
    (hn : lineLength x1 y1 x2 y2 + 2 < n) (s : σ) :
    (lcdDrawLine draw x1 y1 x2 y2 n).val s = .exit () ∧
      (lcdDrawLine draw x1 y1 x2 y2 n).state s =
        (drawPoints draw (linePoints x1 y1 x2 y2 (lineLength x1 y1 x2 y2 + 2))).state s := by
  have hrun := lcdDrawLine_run draw x1 y1 x2 y2 n s
  cases hv : (lcdDrawLine draw x1 y1 x2 y2 n).val s with
  | next a =>
      rw [hv] at hrun
      have := hrun.bound hshort
      omega
  | exit u =>
      rw [hv] at hrun
      exact ⟨rfl, hrun.drawn⟩

end Run

/-! ## Lines on a panel -/

/-- The coordinate `m` steps on from `a` towards `b`, where that is not past `b`. -/
def stepped (a b m : ℕ) : ℕ := if a ≤ b then a + m else a - m

theorem coord_towards {a b m : ℕ} (ha : a < 2 ^ 16) (hb : b < 2 ^ 16) (hm : m ≤ apart a b) :
    coord (towards a b m) = stepped a b m := by
  unfold apart at hm
  unfold coord towards stepped
  split <;> omega

section Stepped
variable {a b m : ℕ}

theorem stepped_inBox (hm : m ≤ apart a b) :
    min a b ≤ stepped a b m ∧ stepped a b m ≤ max a b := by
  unfold apart at hm
  unfold stepped
  split <;> omega

@[simp] theorem stepped_zero (a b : ℕ) : stepped a b 0 = a := by
  unfold stepped
  split <;> rfl

@[simp] theorem stepped_apart (a b : ℕ) : stepped a b (apart a b) = b := by
  unfold stepped apart
  split <;> omega

theorem stepped_near {m' : ℕ} (h : m' = m ∨ m' = m + 1) :
    apart (stepped a b m) (stepped a b m') ≤ 1 := by
  unfold apart stepped
  split <;> omega

theorem exists_stepped {v : ℕ} (hlow : min a b ≤ v) (hhigh : v ≤ max a b) :
    ∃ m ≤ apart a b, stepped a b m = v := by
  refine ⟨apart a v, ?_⟩
  unfold apart stepped
  split <;> omega

end Stepped

/-- The points are a digital line from one end to the other. -/
structure DigitalLine (x1 y1 x2 y2 : ℕ) (points : List Point) : Prop where
  first : (points.head?.map fun p => (p.x, p.y)) = some (x1, y1)
  last : (points.getLast?.map fun p => (p.x, p.y)) = some (x2, y2)
  near : points.IsChain fun p q => apart p.x q.x ≤ 1 ∧ apart p.y q.y ≤ 1
  inBox : ∀ p ∈ points, (min x1 x2 ≤ p.x ∧ p.x ≤ max x1 x2) ∧ min y1 y2 ≤ p.y ∧ p.y ≤ max y1 y2
  acrossX : apart y1 y2 ≤ apart x1 x2 →
    ∀ x, min x1 x2 ≤ x → x ≤ max x1 x2 → ∃ p ∈ points, p.x = x
  acrossY : apart x1 x2 ≤ apart y1 y2 →
    ∀ y, min y1 y2 ≤ y → y ≤ max y1 y2 → ∃ p ∈ points, p.y = y

/-- The points as `lcd_draw_point` draws them. -/
def coloured (color : ℕ) (l : List (ℕ × ℕ)) : List Point := l.map fun p => ⟨p.1, p.2, color⟩

theorem points_drawPoints (color : ℕ) (l : List (ℕ × ℕ)) (s : Screen) :
    ((drawPoints (fun x y => lcdDrawPoint x y color) l).state s).points =
      s.points ++ coloured color l := by
  induction l generalizing s with
  | nil => exact (List.append_nil _).symm
  | cons p l ih =>
      rw [drawPoints, Prog.state_bind, ih, coloured, coloured, List.map_cons, lcdDrawPoint,
        Prog.state_modify, List.append_assoc, List.singleton_append]

section Panel
variable {x1 y1 x2 y2 : ℕ} (hx : x1 < 2 ^ 16 ∧ x2 < 2 ^ 16) (hy : y1 < 2 ^ 16 ∧ y2 < 2 ^ 16)
include hx hy

theorem linePoint_eq {k : ℕ} (hk : k ≤ lineLength x1 y1 x2 y2 + 1) :
    linePoint x1 y1 x2 y2 k =
      (stepped x1 x2 (carries (lineLength x1 y1 x2 y2) (apart x1 x2) k),
        stepped y1 y2 (carries (lineLength x1 y1 x2 y2) (apart y1 y2) k)) := by
  have hdx : apart x1 x2 ≤ lineLength x1 y1 x2 y2 := Nat.le_max_left _ _
  have hdy : apart y1 y2 ≤ lineLength x1 y1 x2 y2 := Nat.le_max_right _ _
  simp only [linePoint, axisPos]
  rw [coord_towards hx.1 hx.2 (carries_le hdx hk), coord_towards hy.1 hy.2 (carries_le hdy hk)]

/-- The points of all rounds make a digital line. -/
theorem digitalLine_linePoints (color : ℕ) :
    DigitalLine x1 y1 x2 y2
      (coloured color (linePoints x1 y1 x2 y2 (lineLength x1 y1 x2 y2 + 2))) := by
  set D := lineLength x1 y1 x2 y2 with hD
  have hdx : apart x1 x2 ≤ D := Nat.le_max_left _ _
  have hdy : apart y1 y2 ≤ D := Nat.le_max_right _ _
  have hpoint {k : ℕ} (hk : k ≤ D + 1) := linePoint_eq hx hy hk
  have hmem {p : Point} : p ∈ coloured color (linePoints x1 y1 x2 y2 (D + 2)) ↔
      ∃ k ≤ D + 1, p = ⟨stepped x1 x2 (carries D (apart x1 x2) k),
        stepped y1 y2 (carries D (apart y1 y2) k), color⟩ := by
    simp only [coloured, linePoints, List.mem_map, List.mem_range, Nat.lt_succ_iff]
    constructor
    · rintro ⟨_, ⟨k, hk, rfl⟩, rfl⟩
      exact ⟨k, hk, by rw [hpoint hk]⟩
    · rintro ⟨k, hk, rfl⟩
      exact ⟨_, ⟨k, hk, rfl⟩, by rw [hpoint hk]⟩
  constructor
  · simp only [coloured, linePoints, List.range_succ_eq_map, List.map_cons, List.head?_cons,
      Option.map_some]
    rw [hpoint (Nat.zero_le _), carries_zero, carries_zero, stepped_zero, stepped_zero]
  · simp only [coloured, linePoints, List.range_succ (n := D + 1), List.map_append,
      List.map_singleton, List.getLast?_append, List.getLast?_singleton, Option.some_or,
      Option.map_some]
    rw [hpoint (Nat.le_refl _), carries_full hdx, carries_full hdy, stepped_apart, stepped_apart]
  · rw [coloured, linePoints, List.isChain_map, List.isChain_map, List.isChain_range_succ]
    intro k hk
    rw [hpoint (by omega), hpoint (by omega)]
    exact ⟨stepped_near (carries_succ hdx k), stepped_near (carries_succ hdy k)⟩
  · intro p hp
    obtain ⟨k, hk, rfl⟩ := hmem.mp hp
    exact ⟨stepped_inBox (carries_le hdx hk), stepped_inBox (carries_le hdy hk)⟩
  · intro hlonger x hlow hhigh
    obtain ⟨m, hm, rfl⟩ := exists_stepped hlow hhigh
    obtain ⟨k, hk, hcarries⟩ := exists_carries (D := D) (Nat.max_eq_left hlonger).symm hm
    exact ⟨_, hmem.mpr ⟨k, hk, rfl⟩, by rw [hcarries]⟩
  · intro hlonger y hlow hhigh
    obtain ⟨m, hm, rfl⟩ := exists_stepped hlow hhigh
    obtain ⟨k, hk, hcarries⟩ := exists_carries (D := D) (Nat.max_eq_right hlonger).symm hm
    exact ⟨_, hmem.mpr ⟨k, hk, rfl⟩, by rw [hcarries]⟩

end Panel

/-- On a panel `lcd_draw_line` ends, and draws a digital line from one end to the other. -/
theorem line_connected (L : Lcddev) (hpanel : L.width < 65535 ∧ L.height < 65535)
    {x1 y1 x2 y2 : ℕ} (h1 : x1 < L.width ∧ y1 < L.height) (h2 : x2 < L.width ∧ y2 < L.height)
    (color : ℕ) {n : ℕ} (hn : 65536 ≤ n) (s : Screen) :
    (lcdDrawLine (fun x y => lcdDrawPoint x y color) x1 y1 x2 y2 n).val s = .exit () ∧
      ∃ points, ((lcdDrawLine (fun x y => lcdDrawPoint x y color) x1 y1 x2 y2 n).state s).points =
        s.points ++ points ∧ DigitalLine x1 y1 x2 y2 points := by
  have hshort : lineLength x1 y1 x2 y2 < 65534 := by
    unfold lineLength apart
    omega
  obtain ⟨hval, hstate⟩ := lcdDrawLine_ends (fun x y => lcdDrawPoint x y color) x1 y1 x2 y2
    (n := n) hshort (by omega) s
  refine ⟨hval, _, by rw [hstate, points_drawPoints], ?_⟩
  exact digitalLine_linePoints (by omega) (by omega) color

/-- A steep line upwards. -/
theorem line_connected_steep :
    (lcdDrawLine (fun x y => lcdDrawPoint x y 0xF800) 3 100 7 20 65536).val ⟨[], [], []⟩ =
        .exit () ∧
      ∃ points, ((lcdDrawLine (fun x y => lcdDrawPoint x y 0xF800) 3 100 7 20 65536).state
        ⟨[], [], []⟩).points = [] ++ points ∧ DigitalLine 3 100 7 20 points :=
  line_connected ⟨480, 272, 0⟩ (by decide) (by decide) (by decide) 0xF800 (Nat.le_refl _) _

end Apollo.Lcd
