import Apollo.Lcd.Char
import Mathlib.Algebra.GroupWithZero.Nat
import Mathlib.Data.List.TakeWhile
import Mathlib.Data.Nat.Init

/-!
# Showing a string

`lcd_show_string` breaks the line when the next character would begin on the right of the box,
and stops when it would begin below the box.  How wide and how high the character is does not
matter for this.  The column that a line begins with is kept in eight bits.

## Main definitions

* `lcdShowString` — the code, for any way to show a character.
* `Wraps` — the characters stand in lines of the same length, in the box.
* `placed`, `callsFrom_append` — the characters of such lines.
* `wraps_iff` — when the characters of a string stand so.
-/

namespace Apollo.Lcd
open Lib

/-- The characters that end the loop are those that are not from `' '` to `'~'`. -/
def Printable (chr : UInt8) : Prop := chr.toNat ≤ 126 ∧ 32 ≤ chr.toNat

instance (chr : UInt8) : Decidable (Printable chr) := inferInstanceAs (Decidable (_ ∧ _))

/-- Go on to the next line on the right of the box. -/
def wrapped (x0 xEnd size x y : ℕ) : ℕ × ℕ :=
  if xEnd ≤ x then (x0, (y + size) % 2 ^ 16) else (x, y)

section Code
variable {σ : Type} (showChar : ℕ → ℕ → ℕ → ℕ → ℕ → ℕ → Prog σ Unit)

/-- The loop of `lcd_show_string` from a character on. -/
def showStringFrom (x0 xEnd yEnd size color : ℕ) : List UInt8 → ℕ → ℕ → Prog σ Unit
  | [], _, _ => pure ()
  | chr :: p, x, y =>
    if Printable chr then
      if yEnd ≤ (wrapped x0 xEnd size x y).2 then pure ()
      else do
        showChar (wrapped x0 xEnd size x y).1 (wrapped x0 xEnd size x y).2 chr.toNat size 0 color
        showStringFrom x0 xEnd yEnd size color p
          (((wrapped x0 xEnd size x y).1 + size / 2) % 2 ^ 16) (wrapped x0 xEnd size x y).2
    else pure ()

/-- `lcd_show_string`, for the bytes of a string in front of its `0`. -/
def lcdShowString (x y width height size : ℕ) (p : List UInt8) (color : ℕ) : Prog σ Unit :=
  showStringFrom showChar (x % 256) ((width + x) % 2 ^ 16) ((height + y) % 2 ^ 16) size color p x y

end Code

/-- The characters that a loop shows. -/
def callsFrom (x0 xEnd yEnd size color : ℕ) : List UInt8 → ℕ → ℕ → List Shown
  | [], _, _ => []
  | chr :: p, x, y =>
    if Printable chr ∧ (wrapped x0 xEnd size x y).2 < yEnd then
      ⟨(wrapped x0 xEnd size x y).1, (wrapped x0 xEnd size x y).2, chr.toNat, size, 0, color⟩ ::
        callsFrom x0 xEnd yEnd size color p
          (((wrapped x0 xEnd size x y).1 + size / 2) % 2 ^ 16) (wrapped x0 xEnd size x y).2
    else []

theorem state_showStringFrom {σ : Type} (showChar : ℕ → ℕ → ℕ → ℕ → ℕ → ℕ → Prog σ Unit)
    (x0 xEnd yEnd size color : ℕ) (p : List UInt8) (x y : ℕ) (s : σ) :
    (showStringFrom showChar x0 xEnd yEnd size color p x y).state s =
      (showAll showChar (callsFrom x0 xEnd yEnd size color p x y)).state s := by
  induction p generalizing x y s with
  | nil => rfl
  | cons chr p ih =>
      rw [showStringFrom, callsFrom]
      by_cases hchr : Printable chr
      · by_cases hbelow : yEnd ≤ (wrapped x0 xEnd size x y).2
        · rw [if_pos hchr, if_pos hbelow, if_neg (by omega)]
          rfl
        · rw [if_pos hchr, if_neg hbelow, if_pos ⟨hchr, Nat.lt_of_not_le hbelow⟩, Prog.state_bind,
            ih]
          rfl
      · rw [if_neg hchr, if_neg fun h => hchr h.1]
        rfl

theorem size_of_mem_callsFrom {x0 xEnd yEnd size color : ℕ} {p : List UInt8} {x y : ℕ} {g : Shown}
    (h : g ∈ callsFrom x0 xEnd yEnd size color p x y) : g.size = size := by
  induction p generalizing x y with
  | nil => cases h
  | cons chr p ih =>
      rw [callsFrom] at h
      split at h
      · rcases List.mem_cons.mp h with rfl | h
        · rfl
        · exact ih h
      · cases h

/-- On a screen the cells are those that are noted. -/
theorem lcdShowString_screen (D : Lcddev) (asc2 : ℕ → ℕ → ℕ → ℕ) {size : ℕ} (hsize : Supported size)
    (x y width height : ℕ) (p : List UInt8) (color : ℕ) (s : Screen) :
    ((lcdShowString (lcdShowChar D asc2) x y width height size p color).state s).cells =
      s.cells ++ ((lcdShowString noteChar x y width height size p color).state []).map
        Shown.cell := by
  rw [lcdShowString, lcdShowString, state_showStringFrom, state_showStringFrom,
    state_showAll_note, List.nil_append]
  exact (showAll_screen D asc2 (fun g hg => (size_of_mem_callsFrom hg).symm ▸ hsize) s).1

/-- The part of a string that is gone through. -/
def printableText (p : List UInt8) : List UInt8 := p.takeWhile fun chr => Printable chr

theorem printable_text (p : List UInt8) : ∀ chr ∈ printableText p, Printable chr := fun _ hchr =>
  of_decide_eq_true (List.mem_takeWhile_imp (p := fun chr => decide (Printable chr)) hchr)

theorem callsFrom_text (x0 xEnd yEnd size color : ℕ) (p : List UInt8) (x y : ℕ) :
    callsFrom x0 xEnd yEnd size color (printableText p) x y =
      callsFrom x0 xEnd yEnd size color p x y := by
  induction p generalizing x y with
  | nil => rfl
  | cons chr p ih =>
      rw [printableText, List.takeWhile_cons]
      by_cases hchr : Printable chr
      · rw [decide_eq_true hchr, if_pos rfl, callsFrom, callsFrom]
        split
        · exact congrArg _ (ih _ _)
        · rfl
      · rw [decide_eq_false hchr, if_neg Bool.false_ne_true, callsFrom, callsFrom,
          if_neg fun h => hchr h.1]

/-! ## Lines -/

/-- The characters stand in the box in lines of `c`, which all begin with the first column. -/
structure Wraps (x y width height size : ℕ) (p : List UInt8) (l : List Shown) : Prop where
  lines : ∃ c ≥ 1, ∀ k g, l[k]? = some g →
    g.x = x + k % c * (size / 2) ∧ g.y = y + k / c * size ∧ p[k]?.map UInt8.toNat = some g.chr
  inside : ∀ g ∈ l, g.cell.Inside ⟨x, y, width, height⟩

section Lines
variable (x y size color c : ℕ)

/-- Characters in lines of `c`, from the one with the number `k` on. -/
def placed : ℕ → List UInt8 → List Shown
  | _, [] => []
  | k, chr :: q =>
    ⟨x + k % c * (size / 2), y + k / c * size, chr.toNat, size, 0, color⟩ :: placed (k + 1) q

theorem getElem?_placed (q : List UInt8) (k j : ℕ) :
    (placed x y size color c k q)[j]? = q[j]?.map fun chr =>
      ⟨x + (k + j) % c * (size / 2), y + (k + j) / c * size, chr.toNat, size, 0, color⟩ := by
  induction q generalizing k j with
  | nil => rfl
  | cons chr q ih =>
      cases j with
      | zero => rfl
      | succ j =>
          rw [placed, List.getElem?_cons_succ, List.getElem?_cons_succ, ih, Nat.add_assoc,
            Nat.add_comm 1 j]

theorem length_placed (q : List UInt8) (k : ℕ) :
    (placed x y size color c k q).length = q.length := by
  induction q generalizing k with
  | nil => rfl
  | cons chr q ih => rw [placed, List.length_cons, ih, List.length_cons]

/-- Where the pen stands before the character `k`: behind the one before it, on its line. -/
def PenAt (k px py : ℕ) : Prop :=
  ∃ l i, k = l * c + i ∧ i ≤ c ∧ (i = 0 → k = 0) ∧ px = x + i * (size / 2) ∧ py = y + l * size

end Lines

section Box
variable {x y width height size color c n : ℕ}

variable (width) in
/-- The pen goes on to the place of the next character, if that is on the first line, or the
lines fill the box.  A line begins with the first column, in eight bits. -/
theorem PenAt.wrapped {k px py : ℕ} (h : PenAt x y size c k px py) (hsize : 0 < size / 2)
    (hc : 1 ≤ c) (hfit : c * (size / 2) ≤ width) (hcols : k < c ∨ c * (size / 2) = width)
    (hrow : y + k / c * size < 2 ^ 16) :
    wrapped (x % 256) (x + width) size px py =
      (if c ≤ k ∧ k % c = 0 then x % 256 else x + k % c * (size / 2), y + k / c * size) := by
  obtain ⟨l, i, hk, hi, hi0, hpx, hpy⟩ := h
  unfold Lcd.wrapped
  by_cases hlast : i < c
  · have hdiv : k / c = l := by rw [hk, row_div hlast]
    have hmod : k % c = i := by rw [hk, Nat.mul_add_mod_of_lt hlast]
    have hleft : i * (size / 2) < c * (size / 2) := Nat.mul_lt_mul_of_pos_right hlast hsize
    rw [if_neg (by omega), hdiv, hmod, if_neg (by omega), hpx, hpy]
  · -- the line is full
    obtain rfl : i = c := by omega
    have hk' : k = (l + 1) * i + 0 := by rw [hk, Nat.add_mul, Nat.one_mul, Nat.add_zero]
    have hdiv : k / i = l + 1 := by rw [hk', row_div (by omega)]
    have hmod : k % i = 0 := by rw [hk', Nat.mul_add_mod', Nat.zero_mod]
    have hle : i ≤ k := by rw [hk]; exact Nat.le_add_left i _
    have hwidth : i * (size / 2) = width := hcols.resolve_left (by omega)
    rw [hdiv, Nat.add_mul, Nat.one_mul, ← Nat.add_assoc] at hrow
    rw [if_pos (by omega), hdiv, if_pos ⟨hle, hmod⟩, hpy, Nat.mod_eq_of_lt hrow, Nat.add_mul,
      Nat.one_mul, Nat.add_assoc]

/-- Behind the character. -/
theorem PenAt.next {k : ℕ} (hc : 1 ≤ c) (hfit : x + c * (size / 2) < 2 ^ 16) :
    PenAt x y size c (k + 1) ((x + k % c * (size / 2) + size / 2) % 2 ^ 16) (y + k / c * size) := by
  have hcol : k % c < c := Nat.mod_lt k hc
  have hle : (k % c + 1) * (size / 2) ≤ c * (size / 2) := Nat.mul_le_mul_right _ hcol
  rw [Nat.add_mul, Nat.one_mul] at hle
  refine ⟨k / c, k % c + 1, ?_, hcol, by omega, ?_, rfl⟩
  · rw [← Nat.add_assoc, Nat.mul_comm, Nat.div_add_mod]
  · rw [Nat.mod_eq_of_lt (by omega), Nat.add_mul, Nat.one_mul, Nat.add_assoc]

variable (color) in
/-- The characters that are shown as long as they are in the box. -/
theorem callsFrom_append (hsize : 0 < size / 2) (hc : 1 ≤ c) (hfit : c * (size / 2) ≤ width)
    (hx : x + width < 2 ^ 16) (hy : y + height < 2 ^ 16)
    (hcols : n ≤ c ∨ c * (size / 2) = width ∧ x < 256) (hrows : ∀ k < n, k / c * size < height)
    {q : List UInt8} (hq : ∀ chr ∈ q, Printable chr) (q' : List UInt8) {k : ℕ}
    (hn : k + q.length = n) {px py : ℕ} (h : PenAt x y size c k px py) :
    ∃ px' py', PenAt x y size c n px' py' ∧
      callsFrom (x % 256) (x + width) (y + height) size color (q ++ q') px py =
        placed x y size color c k q ++
          callsFrom (x % 256) (x + width) (y + height) size color q' px' py' := by
  induction q generalizing k px py with
  | nil => exact ⟨px, py, hn ▸ h, rfl⟩
  | cons chr q ih =>
      rw [List.length_cons] at hn
      have hrow := hrows k (by omega)
      have hwrap := h.wrapped width hsize hc hfit (hcols.imp (by omega) And.left)
        (by omega)
      have hcolumn : (if c ≤ k ∧ k % c = 0 then x % 256 else x + k % c * (size / 2)) =
          x + k % c * (size / 2) := by
        split
        case isTrue h =>
          have hlow := (hcols.resolve_left (by omega)).2
          rw [h.2, Nat.zero_mul, Nat.mod_eq_of_lt hlow, Nat.add_zero]
        case isFalse => rfl
      obtain ⟨px', py', hpen, hcalls⟩ := ih (fun d hd => hq d (List.mem_cons_of_mem chr hd))
        (k := k + 1) (by omega) (.next hc (by omega))
      refine ⟨px', py', hpen, ?_⟩
      rw [List.cons_append, callsFrom, hwrap, hcolumn,
        if_pos ⟨hq chr List.mem_cons_self, Nat.add_lt_add_left hrow y⟩, hcalls]
      rfl

end Box

/-! ## When a string stands so -/

/-- How a string of `m` characters stands in lines in the box: there is nothing to show, or the box
has no columns and no second line, or no rows; or it is large enough for a character, and the
string ends on the first line, or the box is filled by whole characters from left to right, has
one line only or begins in the first 256 columns, and the string ends before a line that is cut
off. -/
def StringFits (x y width height size m : ℕ) : Prop :=
  m = 0 ∨ (width = 0 ∧ height ≤ size ∧ y + size < 2 ^ 16) ∨ (0 < width ∧ height = 0) ∨
    (size / 2 ≤ width ∧ size ≤ height ∧
      (m ≤ width / (size / 2) ∨ size / 2 ∣ width ∧ (height = size ∨ x < 256) ∧
        (size ∣ height ∨ m ≤ width / (size / 2) * (height / size))))

section Wraps
variable {x y width height size color : ℕ}

theorem wraps_nil (p : List UInt8) : Wraps x y width height size p [] where
  lines := ⟨1, Nat.le_refl 1, fun k g h => by cases h⟩
  inside g hg := by cases hg

variable (color) in
/-- Characters that are placed in lines in the box. -/
theorem wraps_placed {c : ℕ} (hc : 1 ≤ c) (hfit : c * (size / 2) ≤ width) (q q' : List UInt8)
    (hrows : ∀ k < q.length, (k / c + 1) * size ≤ height) :
    Wraps x y width height size (q ++ q') (placed x y size color c 0 q) := by
  have hplaced {k : ℕ} {g : Shown} (h : (placed x y size color c 0 q)[k]? = some g) :
      k < q.length ∧ q[k]?.map UInt8.toNat = some g.chr ∧
        g = ⟨x + k % c * (size / 2), y + k / c * size, g.chr, size, 0, color⟩ := by
    rw [getElem?_placed, Nat.zero_add, Option.map_eq_some_iff] at h
    obtain ⟨chr, hchr, rfl⟩ := h
    exact ⟨(List.getElem?_eq_some_iff.mp hchr).1, by rw [hchr]; rfl, rfl⟩
  refine ⟨⟨c, hc, fun k g h => ?_⟩, fun g hg => ?_⟩
  · obtain ⟨hk, hchr, hg⟩ := hplaced h
    refine ⟨congrArg Shown.x hg, congrArg Shown.y hg, ?_⟩
    rw [List.getElem?_append_left hk, hchr]
  · obtain ⟨k, hk⟩ := List.mem_iff_getElem?.mp hg
    obtain ⟨hlt, -, hg⟩ := hplaced hk
    have hcol : (k % c + 1) * (size / 2) ≤ width :=
      (Nat.mul_le_mul_right _ (Nat.mod_lt k hc)).trans hfit
    have hrow := hrows k hlt
    rw [Nat.add_mul, Nat.one_mul] at hcol hrow
    rw [hg]
    exact ⟨⟨Nat.le_add_right _ _, by simp only [Shown.cell]; omega⟩, Nat.le_add_right _ _, by
      simp only [Shown.cell]; omega⟩

/-- A character that is above the lower end of the box is shown. -/
theorem callsFrom_cons {x0 xEnd yEnd px py px' py' : ℕ} {chr : UInt8} (hchr : Printable chr)
    (hwrap : wrapped x0 xEnd size px py = (px', py')) (hrow : py' < yEnd) (q : List UInt8) :
    callsFrom x0 xEnd yEnd size color (chr :: q) px py =
      ⟨px', py', chr.toNat, size, 0, color⟩ ::
        callsFrom x0 xEnd yEnd size color q ((px' + size / 2) % 2 ^ 16) py' := by
  rw [callsFrom, hwrap, if_pos ⟨hchr, hrow⟩]

theorem callsFrom_below {x0 xEnd yEnd px py px' py' : ℕ}
    (hwrap : wrapped x0 xEnd size px py = (px', py')) (hrow : yEnd ≤ py') (q : List UInt8) :
    callsFrom x0 xEnd yEnd size color q px py = [] := by
  cases q with
  | nil => rfl
  | cons chr q => rw [callsFrom, hwrap, if_neg fun h => absurd h.2 (Nat.not_lt.mpr hrow)]

/-- At the end of the first line. -/
theorem PenAt.line_end {c px py : ℕ} (h : PenAt x y size c c px py) (hc : 1 ≤ c) :
    px = x + c * (size / 2) ∧ py = y := by
  obtain ⟨l, i, hk, hi, hi0, hpx, hpy⟩ := h
  have hl : l = 0 := by
    by_contra hne
    have := Nat.le_mul_of_pos_left c (Nat.pos_of_ne_zero hne)
    omega
  rw [hl, Nat.zero_mul, Nat.zero_add] at hk
  rw [hpx, hpy, hl, ← hk, Nat.zero_mul, Nat.add_zero]
  exact ⟨rfl, rfl⟩

/-- At the start the pen is in the first column. -/
theorem penAt_zero (x y size c : ℕ) : PenAt x y size c 0 x y := by
  refine ⟨0, 0, by rw [Nat.zero_mul], Nat.zero_le c, fun _ => rfl, ?_, ?_⟩ <;>
    rw [Nat.zero_mul, Nat.add_zero]

/-- The characters end in the box. -/
theorem Wraps.ends {p : List UInt8} {l : List Shown} (h : Wraps x y width height size p l)
    {px py chr : ℕ} (hmem : ⟨px, py, chr, size, 0, color⟩ ∈ l) :
    (x ≤ px ∧ px + size / 2 ≤ x + width) ∧ py + size ≤ y + height := by
  obtain ⟨hcolumns, -, hbottom⟩ := h.inside _ hmem
  exact ⟨hcolumns, hbottom⟩

/-- The second line begins in the first column. -/
theorem Wraps.second_line {p : List UInt8} {l : List Shown} (h : Wraps x y width height size p l)
    (hsize : 0 < size) {c : ℕ} (hc : 1 ≤ c) {g g' : Shown} (hlast : l[c - 1]? = some g)
    (hg : g.y = y) (hfirst : l[c]? = some g') (hg' : g'.y = y + size) : g'.x = x := by
  obtain ⟨c', hc', hlines⟩ := h.lines
  obtain ⟨-, hy, -⟩ := hlines _ _ hlast
  obtain ⟨hx, hy', -⟩ := hlines _ _ hfirst
  have hzero : (c - 1) / c' * size = 0 := by omega
  have hone : c / c' * size = 1 * size := by omega
  have hlt : c - 1 < c' := (Nat.div_eq_zero_iff_lt hc').mp
    ((Nat.mul_eq_zero.mp hzero).resolve_right (by omega))
  have hdiv : c / c' = 1 := Nat.eq_of_mul_eq_mul_right hsize hone
  have hmod : c % c' = 0 := by
    have hsplit := Nat.div_add_mod c c'
    rw [hdiv, Nat.mul_one] at hsplit
    omega
  rw [hx, hmod, Nat.zero_mul, Nat.add_zero]

section
variable (hsize : Supported size) (hx : x + width < 2 ^ 16) (hy : y + height < 2 ^ 16)
  {q : List UInt8} (hq : ∀ chr ∈ q, Printable chr)
include hsize hx hy hq

variable (color) in
/-- In a box that is large enough for a character, the string stands in lines if it fits. -/
theorem wraps_of_lines (q' : List UInt8) (hwidth : size / 2 ≤ width) (hheight : size ≤ height)
    (hfits : q.length ≤ width / (size / 2) ∨ size / 2 ∣ width ∧ (height = size ∨ x < 256) ∧
      (size ∣ height ∨ q.length ≤ width / (size / 2) * (height / size))) :
    Wraps x y width height size (q ++ q')
      (callsFrom (x % 256) (x + width) (y + height) size color q x y) := by
  have hwide := hsize.wide
  set c := width / (size / 2) with hc
  set n := min q.length (c * (height / size)) with hn
  have hc1 : 1 ≤ c := Nat.div_pos hwidth (by omega)
  have hfit : c * (size / 2) ≤ width := Nat.div_mul_le_self _ _
  have hrows : ∀ k < n, (k / c + 1) * size ≤ height := fun k hk =>
    (Nat.mul_le_mul_right size (Nat.div_lt_of_lt_mul (by omega))).trans (Nat.div_mul_le_self _ _)
  have hcols : n ≤ c ∨ c * (size / 2) = width ∧ x < 256 := by
    rcases hfits with hline | ⟨hdvd, rfl | hlow, -⟩
    · exact .inl (by omega)
    · rw [Nat.div_self (by omega), Nat.mul_one] at hn
      exact .inl (by omega)
    · exact .inr ⟨Nat.div_mul_cancel hdvd, hlow⟩
  obtain ⟨px, py, hpen, hcalls⟩ := callsFrom_append (c := c) color (q := q.take n)
    (by omega) hc1 hfit hx hy hcols
    (fun k hk => by have := hrows k hk; rw [Nat.add_mul, Nat.one_mul] at this; omega)
    (fun chr hchr => hq chr (List.mem_of_mem_take hchr)) (q.drop n) (k := 0)
    (by rw [List.length_take]; omega) (penAt_zero x y size c)
  have hrest : callsFrom (x % 256) (x + width) (y + height) size color (q.drop n) px py = [] := by
    by_cases hall : q.length ≤ n
    · rw [List.drop_eq_nil_of_le hall]
      rfl
    · -- the box is full
      have hfull : n = c * (height / size) := by omega
      have hpos : 0 < height / size := Nat.div_pos hheight (by omega)
      have hline : c ≤ n := by rw [hfull]; exact Nat.le_mul_of_pos_right c hpos
      obtain ⟨hdvd, -, hlines⟩ := hfits.resolve_left (by omega)
      have hrow : n / c * size = height := by
        rw [hfull, Nat.mul_div_cancel_left _ hc1,
          Nat.div_mul_cancel (hlines.resolve_right (by omega))]
      have hwrap := hpen.wrapped width (by omega) hc1 hfit (.inr (Nat.div_mul_cancel hdvd))
        (by omega)
      refine callsFrom_below hwrap ?_ _
      rw [hrow]
  have hplaced := wraps_placed (x := x) (y := y) color hc1 hfit (q.take n)
    (q.drop n ++ q') fun k hk => hrows k (by rw [List.length_take] at hk; omega)
  rw [← List.append_assoc, List.take_append_drop] at hplaced
  rw [← List.take_append_drop n q, hcalls, hrest, List.append_nil, List.take_append_drop]
  exact hplaced

variable (color) in
/-- The string stands in lines if it fits. -/
theorem wraps_of_fits (q' : List UInt8) (h : StringFits x y width height size q.length) :
    Wraps x y width height size (q ++ q')
      (callsFrom (x % 256) (x + width) (y + height) size color q x y) := by
  rcases h with h | ⟨rfl, hheight, hrow⟩ | ⟨hwidth, rfl⟩ | ⟨hwidth, hheight, hfits⟩
  · rw [List.eq_nil_of_length_eq_zero h]
    exact wraps_nil _
  · have hwrap : wrapped (x % 256) (x + 0) size x y = (x % 256, y + size) := by
      rw [wrapped, if_pos (Nat.le_of_eq (Nat.add_zero x)), Nat.mod_eq_of_lt hrow]
    rw [callsFrom_below hwrap (by omega)]
    exact wraps_nil _
  · have hwrap : wrapped (x % 256) (x + width) size x y = (x, y) := if_neg (by omega)
    rw [callsFrom_below hwrap (Nat.le_of_eq (Nat.add_zero y))]
    exact wraps_nil _
  · exact wraps_of_lines color hsize hx hy hq q' hwidth hheight hfits

variable (color) in
/-- The characters in front of the one with the number `n`, and what follows. -/
theorem callsFrom_split {c n : ℕ} (hc : 1 ≤ c) (hfit : c * (size / 2) ≤ width)
    (hcols : n ≤ c ∨ c * (size / 2) = width ∧ x < 256) (hrows : ∀ k < n, k / c * size < height)
    (hn : n < q.length) :
    ∃ chr r px py, Printable chr ∧ PenAt x y size c n px py ∧
      callsFrom (x % 256) (x + width) (y + height) size color q x y =
        placed x y size color c 0 (q.take n) ++
          callsFrom (x % 256) (x + width) (y + height) size color (chr :: r) px py := by
  have hwide := hsize.wide
  obtain ⟨px, py, hpen, hcalls⟩ := callsFrom_append (c := c) color (q := q.take n)
    (by omega) hc hfit hx hy hcols hrows (fun chr hchr => hq chr (List.mem_of_mem_take hchr))
    (q.drop n) (k := 0) (by rw [List.length_take]; omega) (penAt_zero x y size c)
  refine ⟨q[n], q.drop (n + 1), px, py, hq _ (List.getElem_mem hn), hpen, ?_⟩
  rw [← hcalls.trans (congrArg _ (by rw [List.drop_eq_getElem_cons hn])), List.take_append_drop]

section Long
variable {p : List UInt8} {c : ℕ} (hc : 1 ≤ c) (h : Wraps x y width height size p
  (callsFrom (x % 256) (x + width) (y + height) size color q x y))
include hc h

/-- A box with more than one line in it is filled from left to right. -/
theorem columns_of_wraps (hfit : c * (size / 2) ≤ width) (hnext : width < c * (size / 2) + size / 2)
    (hheight : 0 < height) (hline : c < q.length) : c * (size / 2) = width := by
  by_contra hne
  obtain ⟨chr, r, px, py, hchr, hpen, hcalls⟩ := callsFrom_split color (n := c) hsize hx
    hy hq hc hfit (.inl (Nat.le_refl c))
    (fun k hk => by rw [Nat.div_eq_of_lt hk, Nat.zero_mul]; exact hheight) hline
  obtain ⟨hpx, hpy⟩ := hpen.line_end hc
  have hwrap : wrapped (x % 256) (x + width) size px py = (px, py) := if_neg (by omega)
  rw [hcalls, callsFrom_cons hchr hwrap (by omega)] at h
  have := h.ends (List.mem_append_right _ List.mem_cons_self)
  omega

variable (hfit : c * (size / 2) = width)
include hfit

/-- A second line begins in the first 256 columns. -/
theorem low_of_wraps (hheight : size < height) (hline : c < q.length) : x < 256 := by
  have hwide := hsize.wide
  obtain ⟨chr, r, px, py, hchr, hpen, hcalls⟩ := callsFrom_split color (n := c) hsize hx
    hy hq hc hfit.le (.inl (Nat.le_refl c))
    (fun k hk => by rw [Nat.div_eq_of_lt hk, Nat.zero_mul]; omega) hline
  have hwrap := hpen.wrapped width (by omega) hc hfit.le (.inr hfit)
    (by rw [Nat.div_self hc]; omega)
  rw [if_pos ⟨Nat.le_refl c, Nat.mod_self c⟩, Nat.div_self hc, Nat.one_mul] at hwrap
  rw [hcalls, callsFrom_cons hchr hwrap (by omega)] at h
  have hlength : (placed x y size color c 0 (q.take c)).length = c := by
    rw [length_placed, List.length_take, Nat.min_eq_left hline.le]
  obtain ⟨g, hg⟩ : ∃ g, (placed x y size color c 0 (q.take c))[c - 1]? = some g :=
    ⟨_, List.getElem?_eq_getElem (by omega)⟩
  have hgy : g.y = y := by
    rw [getElem?_placed, Option.map_eq_some_iff] at hg
    obtain ⟨chr', -, rfl⟩ := hg
    dsimp only
    rw [Nat.div_eq_of_lt (by omega), Nat.zero_mul, Nat.add_zero]
  have hx0 := h.second_line (by omega) hc (by rw [List.getElem?_append_left (by omega), hg]) hgy
    (by rw [List.getElem?_append_right (by omega), hlength, Nat.sub_self]; rfl) rfl
  dsimp only at hx0
  omega

/-- The lines fill the box, or the string ends before they are cut off. -/
theorem rows_of_wraps (hlow : x < 256) (hline : c * (height / size) < q.length) :
    size ∣ height := by
  have hwide := hsize.wide
  by_contra hdvd
  have hcut : height / size * size < height := by
    refine Nat.lt_of_le_of_ne (Nat.div_mul_le_self _ _) fun heq => hdvd ⟨height / size, ?_⟩
    rw [Nat.mul_comm, heq]
  have hnext : height < height / size * size + size := Nat.lt_div_mul_add (by omega)
  set n := c * (height / size) with hn
  have hdiv : n / c = height / size := Nat.mul_div_cancel_left _ hc
  obtain ⟨chr, r, px, py, hchr, hpen, hcalls⟩ := callsFrom_split color (n := n) hsize hx
    hy hq hc hfit.le (.inr ⟨hfit, hlow⟩) (fun k hk => by
      have hle := Nat.mul_le_mul_right size (Nat.div_lt_of_lt_mul hk).le
      omega) hline
  have hwrap := hpen.wrapped width (by omega) hc hfit.le (.inr hfit)
    (by rw [hdiv]; omega)
  rw [hdiv] at hwrap
  rw [hcalls, callsFrom_cons hchr hwrap (by omega)] at h
  have := h.ends (List.mem_append_right _ List.mem_cons_self)
  omega

end Long

section Fits
variable {p : List UInt8} (h : Wraps x y width height size p
  (callsFrom (x % 256) (x + width) (y + height) size color q x y))
include h

omit hx in
/-- The first character is in the box, unless there is no room to begin it. -/
theorem first_of_wraps (hsome : 0 < q.length) :
    (width = 0 ∧ height ≤ size ∧ y + size < 2 ^ 16) ∨ (0 < width ∧ height = 0) ∨
      (size / 2 ≤ width ∧ size ≤ height) := by
  have hwide := hsize.wide
  have hsmall : size ≤ 32 := by rcases hsize with rfl | rfl | rfl | rfl <;> decide
  obtain ⟨chr, r, hcons⟩ := List.exists_cons_of_length_pos hsome
  have hchr : Printable chr := hq chr (by rw [hcons]; exact List.mem_cons_self)
  by_cases hwidth : width = 0
  · refine .inl ⟨hwidth, ?_⟩
    by_contra hrow
    have hwrap : wrapped (x % 256) (x + width) size x y = (x % 256, (y + size) % 2 ^ 16) :=
      if_pos (by omega)
    rw [hcons, callsFrom_cons hchr hwrap (by omega)] at h
    have := h.ends List.mem_cons_self
    omega
  by_cases hheight : height = 0
  · exact .inr (.inl ⟨by omega, hheight⟩)
  have hwrap : wrapped (x % 256) (x + width) size x y = (x, y) := if_neg (by omega)
  rw [hcons, callsFrom_cons hchr hwrap (by omega)] at h
  have := h.ends List.mem_cons_self
  exact .inr (.inr (by omega))

/-- In a box that is large enough for a character, a string that stands in lines fits. -/
theorem lines_of_wraps (hwidth : size / 2 ≤ width) (hheight : size ≤ height) :
    q.length ≤ width / (size / 2) ∨ size / 2 ∣ width ∧ (height = size ∨ x < 256) ∧
      (size ∣ height ∨ q.length ≤ width / (size / 2) * (height / size)) := by
  have hwide := hsize.wide
  set c := width / (size / 2) with hc
  have hc1 : 1 ≤ c := Nat.div_pos hwidth (by omega)
  have hfit : c * (size / 2) ≤ width := Nat.div_mul_le_self _ _
  by_cases hline : q.length ≤ c
  · exact .inl hline
  have hcolumns := columns_of_wraps hsize hx hy hq hc1 h hfit (Nat.lt_div_mul_add (by omega))
    (by omega) (Nat.lt_of_not_le hline)
  have hlow : height = size ∨ x < 256 := by
    by_cases hone : height = size
    · exact .inl hone
    · exact .inr (low_of_wraps hsize hx hy hq hc1 h hcolumns (by omega) (Nat.lt_of_not_le hline))
  refine .inr ⟨⟨c, by rw [Nat.mul_comm, hcolumns]⟩, hlow, ?_⟩
  rcases hlow with hone | hlow
  · exact .inl ⟨1, by rw [hone, Nat.mul_one]⟩
  · by_cases hrows : q.length ≤ c * (height / size)
    · exact .inr hrows
    · exact .inl (rows_of_wraps hsize hx hy hq hc1 h hcolumns hlow (Nat.lt_of_not_le hrows))

/-- A string that stands in lines fits. -/
theorem fits_of_wraps : StringFits x y width height size q.length := by
  by_cases hempty : q.length = 0
  · exact .inl hempty
  refine .inr ?_
  rcases first_of_wraps hsize hy hq h (Nat.pos_of_ne_zero hempty) with hflat | hflat | hlarge
  · exact .inl hflat
  · exact .inr (.inl hflat)
  · have hlines := lines_of_wraps hsize hx hy hq h hlarge.1 hlarge.2
    exact .inr (.inr ⟨hlarge.1, hlarge.2, hlines⟩)

end Fits
end
end Wraps

section Iff
variable {x y width height size : ℕ} (hx : x + width < 2 ^ 16) (hy : y + height < 2 ^ 16)
include hx hy

/-- The characters of a box that does not overflow. -/
theorem lcdShowString_calls (p : List UInt8) (color : ℕ) :
    (lcdShowString noteChar x y width height size p color).state [] =
      callsFrom (x % 256) (x + width) (y + height) size color (printableText p) x y := by
  rw [lcdShowString, state_showStringFrom, state_showAll_note, List.nil_append, callsFrom_text,
    Nat.add_comm width, Nat.add_comm height, Nat.mod_eq_of_lt hx, Nat.mod_eq_of_lt hy]

variable (hsize : Supported size)
include hsize

/-- The characters of a string stand in lines in the box exactly if the string fits. -/
theorem wraps_iff (p : List UInt8) (color : ℕ) :
    Wraps x y width height size p
        ((lcdShowString noteChar x y width height size p color).state []) ↔
      StringFits x y width height size (printableText p).length := by
  rw [lcdShowString_calls hx hy]
  constructor
  · exact fits_of_wraps hsize hx hy (printable_text p)
  · intro h
    have hwraps := wraps_of_fits color hsize hx hy (printable_text p)
      (p.dropWhile fun chr => Printable chr) h
    rwa [printableText, List.takeWhile_append_dropWhile] at hwraps

end Iff

/-- Two lines on the left of the screen. -/
theorem wraps_iff_lines :
    Wraps 30 40 16 32 16 [65, 66, 67] ((lcdShowString noteChar 30 40 16 32 16 [65, 66, 67] 0).state
        []) ↔
      StringFits 30 40 16 32 16 (printableText [65, 66, 67]).length :=
  wraps_iff (by decide) (by decide) (.inr (.inl rfl)) [65, 66, 67] 0

/-- On the right of a wide panel the second line begins 256 columns further to the left. -/
theorem not_wraps_wide :
    ¬ Wraps 300 40 16 32 16 [65, 66, 67]
      ((lcdShowString noteChar 300 40 16 32 16 [65, 66, 67] 0).state []) := by
  rw [lcdShowString_calls (by decide) (by decide)]
  intro h
  have hfits := fits_of_wraps (.inr (.inl rfl)) (by decide) (by decide) (printable_text _) h
  have hlength : (printableText [65, 66, 67]).length = 3 := rfl
  rw [hlength, StringFits] at hfits
  exact absurd hfits (by decide)

end Apollo.Lcd
