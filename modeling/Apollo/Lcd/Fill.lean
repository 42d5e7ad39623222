import Apollo.Lcd.Line
import Apollo.Lcd.Ltdc

/-!
# When drawing ends

`lcd_fill` writes a panel with a controller row by row.  Its counter has sixteen bits and goes on
while it is not past the last row, and nothing of sixteen bits is past the row 65535.  The counter
of `lcd_draw_line` has the same width, and its bound is two more than the distance.

## Main definitions

* `gramFill` — `lcd_fill` on a panel with a controller.
* `gramFill_eq` — it writes what `lcd_color_fill` writes for a block of one colour.
* `drawing_ends_iff` — when the line and the fill come to an end.
-/

namespace Apollo.Lcd
open Lib

/-- One row of `lcd_fill`. -/
def gramFillRound (sx ey xlen color : ℕ) (_j i : ℕ) : Prog Gram (Lib.Flow ℕ Unit) :=
  if i ≤ ey then do
    lcdSetCursor sx i
    Prog.forUp (fun _ _ => lcdRam (color % 2 ^ 16)) xlen 0 ()
    pure (.next ((i + 1) % 2 ^ 16))
  else pure (.exit ())

/-- `lcd_fill` for a panel that is not an RGB panel, for at most `n` rows. -/
def gramFill (sx sy ex ey color n : ℕ) : Prog Gram (Lib.Flow ℕ Unit) :=
  Prog.loop (gramFillRound sx ey ((ex + 2 ^ 16 - sx + 1) % 2 ^ 16) color) n 0 sy

section
variable (sx xlen color : ℕ) {ey i : ℕ}

theorem val_gramFillRound_row (h : i ≤ ey) (j : ℕ) (g : Gram) :
    (gramFillRound sx ey xlen color j i).val g = .next ((i + 1) % 2 ^ 16) := by
  rw [gramFillRound, if_pos h, Prog.val_bind, Prog.val_bind, Prog.val_pure]

theorem gramFillRound_past (h : ey < i) (j : ℕ) :
    gramFillRound sx ey xlen color j i = pure (.exit ()) := if_neg (Nat.not_le.mpr h)

/-- A row of `lcd_fill` is a row of `lcd_color_fill` that has one colour. -/
theorem state_gramFillRound {sy m : ℕ} (h : sy + m ≤ ey) (hey : ey < 2 ^ 16) (j : ℕ) (g : Gram) :
    (gramFillRound sx ey xlen color j (sy + m)).state g =
      (gramRow sx sy xlen (fun _ => .ofNat color) m).state g := by
  rw [gramFillRound, if_pos h, gramRow, Nat.mod_eq_of_lt (Nat.lt_of_le_of_lt h hey)]
  simp only [Prog.state_bind, Prog.state_pure, UInt16.toNat_ofNat']

/-- The rows from `sy + m` on, where `ey` is not the last value of the counter. -/
theorem gramFill_rows {sy : ℕ} (hey : ey < 65535) (k m n j : ℕ) (hk : sy + m + k = ey + 1)
    (hn : k < n) (g : Gram) :
    (Prog.loop (gramFillRound sx ey xlen color) n j (sy + m)).val g = .exit () ∧
      (Prog.loop (gramFillRound sx ey xlen color) n j (sy + m)).state g =
        (Prog.forUp (fun m _ => gramRow sx sy xlen (fun _ => .ofNat color) m) k m ()).state g := by
  obtain ⟨n, rfl⟩ : ∃ n', n = n' + 1 := ⟨n - 1, by omega⟩
  induction k generalizing m n j g with
  | zero =>
      have hpast := gramFillRound_past sx xlen color (show ey < sy + m by omega) j
      have hexit : (gramFillRound sx ey xlen color j (sy + m)).val g = .exit () := by
        rw [hpast, Prog.val_pure]
      rw [Prog.val_loop_exit _ hexit, Prog.state_loop_exit _ hexit, hpast]
      exact ⟨rfl, rfl⟩
  | succ k ih =>
      have hrow : sy + m ≤ ey := by omega
      have hmod : (sy + m + 1) % 2 ^ 16 = sy + (m + 1) := by omega
      have hnext := val_gramFillRound_row sx xlen color hrow j g
      obtain ⟨n, rfl⟩ : ∃ n', n = n' + 1 := ⟨n - 1, by omega⟩
      rw [Prog.val_loop_next _ hnext, Prog.state_loop_next _ hnext, hmod,
        state_gramFillRound sx xlen color hrow (by omega)]
      exact ih (m + 1) (j + 1) (by omega) _ n (by omega)

end

section
variable (sx sy ex ey color : ℕ)

/-- A fill writes what a colour fill writes that has one colour for all its points. -/
theorem gramFill_eq (hy : sy ≤ ey ∧ ey < 65535) {n : ℕ} (hn : ey - sy + 1 < n) (g : Gram) :
    (gramFill sx sy ex ey color n).val g = .exit () ∧
      (gramFill sx sy ex ey color n).state g =
        (gramColorFill sx sy ex ey fun _ => .ofNat color).state g := by
  have hheight : (ey + 2 ^ 16 - sy + 1) % 2 ^ 16 = ey - sy + 1 := by omega
  rw [gramColorFill, hheight]
  exact gramFill_rows _ _ _ hy.2 (ey - sy + 1) 0 n 0 (by omega) hn g

/-- The counter of `lcd_fill` passes every last row but the one that has its last value. -/
theorem gramFill_ends_iff (hsy : sy < 2 ^ 16) (g : Gram) :
    (∃ n, (gramFill sx sy ex ey color n).val g = .exit ()) ↔ ey < 65535 := by
  constructor
  · rintro ⟨n, hends⟩
    by_contra hey
    set xlen := (ex + 2 ^ 16 - sx + 1) % 2 ^ 16 with hxlen
    have hnext : ∃ i, (gramFill sx sy ex ey color n).val g = .next i :=
      Prog.loop_never_exits (I := fun i _ => i < 2 ^ 16)
        (fun j i g hi => by
          rw [val_gramFillRound_row sx xlen color (by omega)]
          exact Nat.mod_lt _ (by decide)) n 0 hsy
    obtain ⟨i, hnext⟩ := hnext
    rw [hnext] at hends
    cases hends
  · intro hey
    by_cases hy : sy ≤ ey
    · exact ⟨ey - sy + 2, (gramFill_eq sx sy ex ey color ⟨hy, hey⟩ (Nat.lt_succ_self _) g).1⟩
    · refine ⟨1, Prog.val_loop_exit _ ?_⟩
      rw [gramFillRound_past _ _ _ (Nat.lt_of_not_le hy), Prog.val_pure]

end

/-- `lcd_draw_line` ends unless its counter can never pass its bound. -/
theorem lcdDrawLine_ends_iff {σ : Type} (draw : ℕ → ℕ → Prog σ Unit) (x1 y1 x2 y2 : ℕ) (s : σ) :
    (∃ n, (lcdDrawLine draw x1 y1 x2 y2 n).val s = .exit ()) ↔
      lineLength x1 y1 x2 y2 < 65534 := by
  constructor
  · rintro ⟨n, hends⟩
    have hrun := lcdDrawLine_run draw x1 y1 x2 y2 n s
    rw [hends] at hrun
    exact hrun.short
  · intro hshort
    exact ⟨_, (lcdDrawLine_ends draw x1 y1 x2 y2 hshort (Nat.lt_succ_self _) s).1⟩

/-- A line ends if its ends are less than 65534 apart along both axes, and a fill if its last row
is not 65535. -/
theorem drawing_ends_iff {σ : Type} (draw : ℕ → ℕ → Prog σ Unit) (s : σ) (g : Gram) :
    (∀ x1 y1 x2 y2 : UInt16,
      (∃ n, (lcdDrawLine draw x1.toNat y1.toNat x2.toNat y2.toNat n).val s = .exit ()) ↔
        lineLength x1.toNat y1.toNat x2.toNat y2.toNat < 65534) ∧
    ∀ (sx sy ex ey : UInt16) (color : ℕ),
      (∃ n, (gramFill sx.toNat sy.toNat ex.toNat ey.toNat color n).val g = .exit ()) ↔
        ey.toNat < 65535 :=
  ⟨fun _ _ _ _ => lcdDrawLine_ends_iff draw _ _ _ _ s,
    fun _ sy _ _ color => gramFill_ends_iff _ _ _ _ color sy.toNat_lt g⟩

/-- A line all across, and a fill of the last row, go on for ever. -/
theorem drawing_never_ends :
    (∀ n, (lcdDrawLine (fun x y => lcdDrawPoint x y 0xF800) 0 0 65535 0 n).val ⟨[], [], []⟩ ≠
      .exit ()) ∧
    ∀ n, (gramFill 0 65535 0 65535 0xF800 n).val ⟨0, 0, []⟩ ≠ .exit () := by
  constructor
  · intro n hends
    have hshort := (lcdDrawLine_ends_iff _ 0 0 65535 0 _).mp ⟨n, hends⟩
    exact absurd hshort (by decide)
  · intro n hends
    have hrow := (gramFill_ends_iff 0 65535 0 65535 0xF800 (by decide) _).mp ⟨n, hends⟩
    exact absurd hrow (by decide)

end Apollo.Lcd
