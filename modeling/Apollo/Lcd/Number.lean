import Apollo.Lcd.Char
import Mathlib.Algebra.GroupWithZero.Nat
import Mathlib.Data.List.Range
import Mathlib.Data.Nat.Init

/-!
# Showing a number

`lcd_show_num` and `lcd_show_xnum` take the digits of a number from the left, each by its weight.
A zero is not shown, or shown as what fills the field, until there was another digit or it is the
last one.

The weight is computed modulo `2 ^ 32`.  From the eleventh digit on it is no power of ten any
more, and from the thirty-third on it is zero.

## Main definitions

* `lcdPow`, `lcdShowNum`, `lcdShowXnum` — the code, for any way to show a character.
* `ShowsDecimal` — the cells show the decimal digits of the number.
* `showDigits_run` — what is shown, for weights that are not zero.
* `number_decimal_iff` — when this is the number.
-/

namespace Apollo.Lcd
open Lib

/-- `lcd_pow`. -/
def lcdPow (m : ℕ) : ℕ → ℕ
  | 0 => 1
  | n + 1 => lcdPow m n * m % 2 ^ 32

/-- The digit of weight `lcd_pow(10, e)`. -/
def lcdDigit (num e : ℕ) : ℕ := num / lcdPow 10 e % 10

/-- Why a number is not shown to the end. -/
inductive NumberFault where
  | divideByZero

section Code
variable {σ : Type} (showChar : ℕ → ℕ → ℕ → ℕ → ℕ → ℕ → Prog σ Unit)
variable (fill x y num len size mode color : ℕ)

/-- One digit, where the zeros at the front are shown as `fill`. -/
def digitRound (t enshow : ℕ) : Prog σ (Flow ℕ NumberFault) :=
  if lcdPow 10 (len - t - 1) = 0 then pure (.exit .divideByZero)
  else if enshow = 0 ∧ t < len - 1 then
    if lcdDigit num (len - t - 1) = 0 then do
      showChar ((x + size / 2 * t) % 2 ^ 16) y fill size mode color
      pure (.next enshow)
    else do
      showChar ((x + size / 2 * t) % 2 ^ 16) y (lcdDigit num (len - t - 1) + 48) size mode color
      pure (.next 1)
  else do
    showChar ((x + size / 2 * t) % 2 ^ 16) y (lcdDigit num (len - t - 1) + 48) size mode color
    pure (.next enshow)

/-- The digits of a number. -/
def showDigits : Prog σ (Flow ℕ NumberFault) :=
  Prog.loop (digitRound showChar fill x y num len size mode color) len 0 0

/-- `lcd_show_num`. -/
def lcdShowNum : Prog σ (Flow ℕ NumberFault) := showDigits showChar 32 x y num len size 0 color

/-- What `lcd_show_xnum` shows for a zero at the front. -/
def xnumFill : ℕ := if mode / 128 % 2 = 1 then 48 else 32

/-- `lcd_show_xnum`. -/
def lcdShowXnum : Prog σ (Flow ℕ NumberFault) :=
  showDigits showChar (xnumFill mode) x y num len size (mode % 2) color

end Code

/-! ## What is shown -/

/-- The digit of a number that has the weight `10 ^ e`. -/
def decimalDigit (num e : ℕ) : ℕ := num / 10 ^ e % 10

section Cells
variable (digit : ℕ → ℕ) (fill x y len size mode color : ℕ)

/-- What the cell `t` shows of a number that has these digits. -/
def cellChar (t : ℕ) : ℕ :=
  if (∀ i ≤ t, digit (len - i - 1) = 0) ∧ t < len - 1 then fill else digit (len - t - 1) + 48

/-- The cell `t`. -/
def numberCell (t : ℕ) : Shown :=
  ⟨(x + size / 2 * t) % 2 ^ 16, y, cellChar digit fill len t, size, mode, color⟩

/-- The first `k` cells. -/
def numberCells (k : ℕ) : List Shown :=
  (List.range k).map (numberCell digit fill x y len size mode color)

end Cells

theorem cellChar_eq (digit : ℕ → ℕ) (fill len t : ℕ) :
    cellChar digit fill len t =
      if ((∀ i < t, digit (len - i - 1) = 0) ∧ digit (len - t - 1) = 0) ∧ t < len - 1 then fill
      else digit (len - t - 1) + 48 := by
  simp only [cellChar, ← Nat.lt_succ_iff, Nat.forall_lt_succ_right]

/-- The number is shown in decimal, and there is no division by zero. -/
structure ShowsDecimal (fill x y num len size mode color : ℕ)
    (p : Prog (List Shown) (Flow ℕ NumberFault)) : Prop where
  divides : ∀ l, ∃ enshow, p.val l = .next enshow
  cells : ∀ l, p.state l = l ++ numberCells (decimalDigit num) fill x y len size mode color len

section Run
variable {σ : Type} (showChar : ℕ → ℕ → ℕ → ℕ → ℕ → ℕ → Prog σ Unit)
variable (fill x y num len size mode color : ℕ)

/-- What holds before the digit `t`: something has been shown unless all the digits so far were
zero. -/
structure DigitAt (s : σ) (t enshow : ℕ) (s' : σ) : Prop where
  front : t < len → (enshow = 0 ↔ ∀ i < t, lcdDigit num (len - i - 1) = 0)
  shown : s' = (showAll showChar
    (numberCells (lcdDigit num) fill x y len size mode color t)).state s

/-- The next cell has been shown. -/
theorem shown_succ {s s' : σ} {t chr : ℕ}
    (h : s' = (showAll showChar
      (numberCells (lcdDigit num) fill x y len size mode color t)).state s)
    (hchr : cellChar (lcdDigit num) fill len t = chr) :
    (showChar ((x + size / 2 * t) % 2 ^ 16) y chr size mode color).state s' =
      (showAll showChar
        (numberCells (lcdDigit num) fill x y len size mode color (t + 1))).state s := by
  rw [numberCells, List.range_succ, List.map_append, List.map_singleton, state_showAll_concat, h,
    ← hchr]
  rfl

theorem digitRound_spec (hweight : ∀ e < len, lcdPow 10 e ≠ 0) (s : σ) {t enshow : ℕ}
    (ht : t < len) {s' : σ}
    (h : DigitAt showChar fill x y num len size mode color s t enshow s') :
    ((digitRound showChar fill x y num len size mode color t enshow).val s').Holds
      (fun e => DigitAt showChar fill x y num len size mode color s (t + 1) e
        ((digitRound showChar fill x y num len size mode color t enshow).state s'))
      fun _ => False := by
  have hfront := h.front ht
  have hshown {chr : ℕ} (hchr : cellChar (lcdDigit num) fill len t = chr) :=
    shown_succ showChar fill x y num len size mode color h.shown hchr
  have hsplit : (∀ i < t + 1, lcdDigit num (len - i - 1) = 0) ↔
      (∀ i < t, lcdDigit num (len - i - 1) = 0) ∧ lcdDigit num (len - t - 1) = 0 :=
    Nat.forall_lt_succ_right
  have hcell := cellChar_eq (lcdDigit num) fill len t
  rw [digitRound, if_neg (hweight _ (by omega))]
  by_cases hzeros : enshow = 0 ∧ t < len - 1
  · rw [if_pos hzeros]
    have hbefore := hfront.mp hzeros.1
    by_cases hzero : lcdDigit num (len - t - 1) = 0
    · rw [if_pos hzero]
      refine ⟨fun _ => iff_of_true hzeros.1 (hsplit.mpr ⟨hbefore, hzero⟩), hshown ?_⟩
      rw [hcell, if_pos ⟨⟨hbefore, hzero⟩, hzeros.2⟩]
    · rw [if_neg hzero]
      refine ⟨fun _ => iff_of_false Nat.one_ne_zero fun hall => hzero (hsplit.mp hall).2,
        hshown ?_⟩
      rw [hcell, if_neg fun hall => hzero hall.1.2]
  · rw [if_neg hzeros]
    refine ⟨fun hmore => ?_, hshown ?_⟩
    · have hne : enshow ≠ 0 := fun h0 => hzeros ⟨h0, by omega⟩
      exact iff_of_false hne fun hall => hne (hfront.mpr (hsplit.mp hall).1)
    · rw [hcell, if_neg fun hall => hzeros ⟨hfront.mpr hall.1.1, hall.2⟩]

/-- Where no weight is zero, each cell shows the digit that is computed for it. -/
theorem showDigits_run (hweight : ∀ e < len, lcdPow 10 e ≠ 0) (s : σ) :
    (∃ enshow, (showDigits showChar fill x y num len size mode color).val s = .next enshow) ∧
      (showDigits showChar fill x y num len size mode color).state s =
        (showAll showChar
          (numberCells (lcdDigit num) fill x y len size mode color len)).state s := by
  set digits := showDigits showChar fill x y num len size mode color with hdigits
  have hrun : (digits.val s).Holds
      (fun e => DigitAt showChar fill x y num len size mode color s len e (digits.state s))
      fun _ => False :=
    Prog.loop_inv (n := len) (I := DigitAt showChar fill x y num len size mode color s)
      (Q := fun _ _ => False)
      (fun t ht e s' h => digitRound_spec showChar fill x y num len size mode color hweight s ht h)
      (Nat.zero_add len) ⟨fun _ => iff_of_true rfl fun i hi => absurd hi (Nat.not_lt_zero i), rfl⟩
  cases hv : digits.val s with
  | next e =>
      rw [hv] at hrun
      exact ⟨⟨e, rfl⟩, hrun.shown⟩
  | exit b =>
      rw [hv] at hrun
      exact hrun.elim

/-- The first weight is a divisor. -/
theorem showDigits_divides (hlen : 0 < len) (hweight : lcdPow 10 (len - 1) = 0) (s : σ) :
    (showDigits showChar fill x y num len size mode color).val s = .exit .divideByZero := by
  obtain ⟨k, rfl⟩ : ∃ k, len = k + 1 := ⟨len - 1, by omega⟩
  refine Prog.val_loop_exit _ ?_
  rw [digitRound, Nat.sub_zero, if_pos hweight, Prog.val_pure]

end Run

/-! ## The weights -/

theorem lcdPow_eq (m n : ℕ) : lcdPow m n = m ^ n % 2 ^ 32 := by
  induction n with
  | zero => rfl
  | succ n ih => rw [lcdPow, ih, Nat.pow_succ m n, Nat.mod_mul_mod]

/-- A weight of more than ten digits is not a small number, as long as it is not zero. -/
theorem weight_ge : ∀ e < 32, 10 ≤ e → 2 ^ 28 ≤ 10 ^ e % 2 ^ 32 := by
  decide

/-- From the thirty-third digit on the weights are multiples of `2 ^ 32`. -/
theorem weight_zero {e : ℕ} (h : 32 ≤ e) : 10 ^ e % 2 ^ 32 = 0 := by
  have hdvd : 2 ^ 32 ∣ 10 ^ 32 := ⟨5 ^ 32, by norm_num⟩
  exact Nat.mod_eq_zero_of_dvd (hdvd.trans (Nat.pow_dvd_pow 10 h))

/-- A weight of at most ten digits is right. -/
theorem lcdPow_small {e : ℕ} (h : e < 10) : lcdPow 10 e = 10 ^ e := by
  have hlt : 10 ^ e < 2 ^ 32 :=
    Nat.lt_of_le_of_lt (Nat.pow_le_pow_right (by decide) (Nat.le_of_lt_succ h)) (by norm_num)
  rw [lcdPow_eq, Nat.mod_eq_of_lt hlt]

theorem lcdPow_ne_zero {e : ℕ} (h : e < 32) : lcdPow 10 e ≠ 0 := by
  by_cases hlow : e < 10
  · rw [lcdPow_small hlow]
    exact (Nat.pow_pos (by decide)).ne'
  · have := weight_ge e h (Nat.le_of_not_lt hlow)
    rw [lcdPow_eq]
    omega

section Digits
variable {num e : ℕ}

theorem lcdDigit_small (h : e < 10) : lcdDigit num e = decimalDigit num e := by
  rw [lcdDigit, decimalDigit, lcdPow_small h]

theorem decimalDigit_large (hnum : num < 2 ^ 32) (h : 10 ≤ e) : decimalDigit num e = 0 := by
  have hle : 10 ^ 10 ≤ 10 ^ e := Nat.pow_le_pow_right (by decide) h
  rw [decimalDigit, Nat.div_eq_of_lt (Nat.lt_of_lt_of_le (Nat.lt_trans hnum (by norm_num)) hle)]

/-- A wrapped weight gives a zero for the numbers below it, and for those that are ten times as
large. -/
theorem lcdDigit_large_iff (hweight : num < 10 * (10 ^ e % 2 ^ 32)) :
    lcdDigit num e = 0 ↔ num < 10 ^ e % 2 ^ 32 := by
  have hpos : 0 < 10 ^ e % 2 ^ 32 := by omega
  have hlt : num / (10 ^ e % 2 ^ 32) < 10 := Nat.div_lt_of_lt_mul (by rwa [Nat.mul_comm])
  rw [lcdDigit, lcdPow_eq, Nat.mod_eq_of_lt hlt]
  exact Nat.div_eq_zero_iff_lt hpos

/-- The digits that are computed for the cells are those of the number, if it is below the wrapped
weights. -/
theorem lcdDigit_iff (hnum : num < 2 ^ 32) {len : ℕ} (hlen : len ≤ 32) :
    (∀ e < len, lcdDigit num e = decimalDigit num e) ↔
      ∀ e, 10 ≤ e → e < len → num < 10 ^ e % 2 ^ 32 := by
  constructor
  · intro h e hlow hhigh
    have hzero {e : ℕ} (hlow : 10 ≤ e) (hhigh : e < len) : lcdDigit num e = 0 := by
      rw [h e hhigh, decimalDigit_large hnum hlow]
    have hten : num < 10 ^ 10 % 2 ^ 32 :=
      (lcdDigit_large_iff (Nat.lt_trans hnum (by norm_num))).mp (hzero (Nat.le_refl 10) (by omega))
    have hweight := weight_ge e (by omega) hlow
    refine (lcdDigit_large_iff (Nat.lt_of_lt_of_le hten ?_)).mp (hzero hlow hhigh)
    calc 10 ^ 10 % 2 ^ 32 ≤ 10 * 2 ^ 28 := by norm_num
      _ ≤ 10 * (10 ^ e % 2 ^ 32) := Nat.mul_le_mul_left 10 hweight
  · intro h e hlt
    by_cases hlow : e < 10
    · exact lcdDigit_small hlow
    · have hbelow := h e (Nat.le_of_not_lt hlow) hlt
      rw [decimalDigit_large hnum (Nat.le_of_not_lt hlow), lcdDigit_large_iff (by omega)]
      exact hbelow

end Digits

section Characters
variable {digit digit' : ℕ → ℕ} {fill len : ℕ}

theorem cellChar_congr (h : ∀ e < len, digit e = digit' e) {t : ℕ} (ht : t < len) :
    cellChar digit fill len t = cellChar digit' fill len t := by
  have hfront : (∀ i ≤ t, digit (len - i - 1) = 0) ↔ ∀ i ≤ t, digit' (len - i - 1) = 0 :=
    forall₂_congr fun i hi => by rw [h _ (by omega)]
  simp only [cellChar, hfront, h (len - t - 1) (by omega)]

/-- Characters show their digits, where zeros at the front are not shown as other digits. -/
theorem cellChar_inj (hfill : fill ≤ 48)
    (h : ∀ t < len, cellChar digit fill len t = cellChar digit' fill len t) :
    ∀ e < len, digit e = digit' e := by
  have hcells : ∀ t < len, digit (len - t - 1) = digit' (len - t - 1) := by
    intro t
    induction t using Nat.strong_induction_on with
    | _ t ih =>
        intro ht
        have hfront : (∀ i < t, digit (len - i - 1) = 0) ↔ ∀ i < t, digit' (len - i - 1) = 0 :=
          forall₂_congr fun i hi => by rw [ih i hi (by omega)]
        have hchar := h t ht
        simp only [cellChar_eq, hfront] at hchar
        split at hchar <;> split at hchar <;> omega
  intro e he
  have hcell := hcells (len - 1 - e) (by omega)
  rwa [show len - (len - 1 - e) - 1 = e by omega] at hcell

end Characters

section Decimal
variable (x y size mode color : ℕ) {fill num len : ℕ}

/-- When the cells show the number. -/
theorem showDigits_iff (hfill : fill ≤ 48) (hnum : num < 2 ^ 32) :
    ShowsDecimal fill x y num len size mode color
        (showDigits noteChar fill x y num len size mode color) ↔
      ∀ e, 10 ≤ e → e < len → num < 10 ^ e % 2 ^ 32 := by
  by_cases hlen : len ≤ 32
  · have hrun := showDigits_run noteChar fill x y num len size mode color fun e he =>
      lcdPow_ne_zero (Nat.lt_of_lt_of_le he hlen)
    rw [← lcdDigit_iff hnum hlen]
    constructor
    · intro h
      refine cellChar_inj hfill fun t ht => ?_
      have hcells := h.cells []
      rw [(hrun []).2, state_showAll_note, List.append_cancel_left_eq] at hcells
      have hcell := List.map_inj_left.mp hcells t (List.mem_range.mpr ht)
      exact congrArg Shown.chr hcell
    · intro h
      refine ⟨fun l => (hrun l).1, fun l => ?_⟩
      rw [(hrun l).2, state_showAll_note, List.append_cancel_left_eq]
      refine List.map_inj_left.mpr fun t ht => ?_
      rw [numberCell, cellChar_congr h (List.mem_range.mp ht)]
      rfl
  · refine iff_of_false (fun h => ?_) fun h => ?_
    · obtain ⟨enshow, hval⟩ := h.divides []
      rw [showDigits_divides noteChar fill x y num len size mode color (by omega)
        (by rw [lcdPow_eq, weight_zero (by omega)])] at hval
      cases hval
    · have := h 32 (by decide) (by omega)
      rw [weight_zero (Nat.le_refl 32)] at this
      exact Nat.not_lt_zero _ this

/-- On a screen the cells of the number are shown one after the other. -/
theorem showDigits_screen (D : Lcddev) (asc2 : ℕ → ℕ → ℕ → ℕ) (hsize : Supported size)
    (hnum : num < 2 ^ 32) (hlen : len ≤ 10) (s : Screen) :
    ((showDigits (lcdShowChar D asc2) fill x y num len size mode color).state s).chars =
      s.chars ++ (List.range len).map (cellChar (decimalDigit num) fill len) := by
  have hdigits := (lcdDigit_iff hnum (Nat.le_trans hlen (by decide))).mpr
    fun e hlow hhigh => absurd hhigh (by omega)
  obtain ⟨-, hrun⟩ := showDigits_run (lcdShowChar D asc2) fill x y num len size mode color
    (fun e he => lcdPow_ne_zero (by omega)) s
  rw [hrun, (showAll_screen D asc2 ?_ s).2, numberCells, List.map_map]
  · refine congrArg (s.chars ++ ·) (List.map_inj_left.mpr fun t ht => ?_)
    exact cellChar_congr hdigits (List.mem_range.mp ht)
  · intro c hc
    obtain ⟨t, -, rfl⟩ := List.mem_map.mp hc
    exact hsize

end Decimal

theorem xnumFill_le (mode : ℕ) : xnumFill mode ≤ 48 := by
  unfold xnumFill
  split <;> decide

/-- A number is shown in decimal if it is below the wrapped weights of all the digits in front of
the last ten. -/
theorem number_decimal_iff (x y size mode color : ℕ) (num : UInt32) (len : UInt8) :
    (ShowsDecimal 32 x y num.toNat len.toNat size 0 color
        (lcdShowNum noteChar x y num.toNat len.toNat size color) ↔
      ∀ e, 10 ≤ e → e < len.toNat → num.toNat < 10 ^ e % 2 ^ 32) ∧
    (ShowsDecimal (xnumFill mode) x y num.toNat len.toNat size (mode % 2) color
        (lcdShowXnum noteChar x y num.toNat len.toNat size mode color) ↔
      ∀ e, 10 ≤ e → e < len.toNat → num.toNat < 10 ^ e % 2 ^ 32) :=
  ⟨showDigits_iff x y size 0 color (by decide) num.toNat_lt,
    showDigits_iff x y size (mode % 2) color (xnumFill_le mode) num.toNat_lt⟩

/-- In a field of eleven digits a number is shown with a digit too many, and in one of thirty-three
there is a division by zero. -/
theorem number_not_decimal :
    ¬ ShowsDecimal 32 0 0 4000000000 11 16 0 0 (lcdShowNum noteChar 0 0 4000000000 11 16 0) ∧
      ¬ ShowsDecimal 48 0 0 5 33 16 0 0 (lcdShowXnum noteChar 0 0 5 33 16 128 0) := by
  constructor
  · intro h
    have hbelow := (showDigits_iff 0 0 16 0 0 (by decide) (by decide)).mp h
    exact absurd (hbelow 10 (by decide) (by decide)) (by decide)
  · intro h
    have hbelow := (showDigits_iff 0 0 16 0 0 (by decide) (by decide)).mp h
    exact absurd (hbelow 32 (by decide) (by decide)) (by decide)

end Apollo.Lcd
