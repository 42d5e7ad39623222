import Mathlib.Data.Nat.Notation
import Mathlib.Logic.Function.Basic
import Mathlib.Tactic.Common

/-!
# Windows written into indexed data

`overlay f a g n` is `f` with the window `[a, a + n)` replaced by the first `n`
entries of `g`.  Memory, pages, blocks and disks are all functions of an index,
and every write into one of them is an overlay; consecutive writes compose.

## Main definitions

* `overlay f a g n` — write `n` entries of `g` at `a`.
* `shift g k` — `g` read from its `k`-th entry on (a pointer moved forward).
* `graft f k g` — `f` after a callee has worked on the pointer moved forward.
* `overlay_append` — two adjacent writes are one.
-/

namespace Apollo.Lib
variable {α : Type}

/-- The row of an entry of data in rows of `n`. -/
theorem row_div {n i r : ℕ} (hr : r < n) : (i * n + r) / n = i := by
  rw [Nat.mul_comm, Nat.mul_add_div (by omega), Nat.div_eq_of_lt hr, Nat.add_zero]

/-- `f` with the window `[a, a + n)` replaced by the first `n` entries of `g`. -/
def overlay (f : ℕ → α) (a : ℕ) (g : ℕ → α) (n : ℕ) : ℕ → α :=
  fun i => if a ≤ i ∧ i < a + n then g (i - a) else f i

/-- `g` read from its `k`-th entry on. -/
def shift (g : ℕ → α) (k : ℕ) : ℕ → α := fun j => g (k + j)

@[simp] theorem shift_apply (g : ℕ → α) (k j : ℕ) : shift g k j = g (k + j) := rfl

@[simp] theorem shift_zero (g : ℕ → α) : shift g 0 = g := by
  funext j; simp [shift]

theorem shift_shift (g : ℕ → α) (k m : ℕ) : shift (shift g k) m = shift g (k + m) := by
  funext j; simp [shift, Nat.add_assoc]

/-- `f` whose entries from `k` on have been replaced by those of `g`: what a callee
that was handed the pointer `f + k` leaves in `f`. -/
def graft (f : ℕ → α) (k : ℕ) (g : ℕ → α) : ℕ → α :=
  fun i => if k ≤ i then g (i - k) else f i

theorem graft_before {f : ℕ → α} {k : ℕ} {g : ℕ → α} {i : ℕ} (h : i < k) :
    graft f k g i = f i := if_neg (by omega)

theorem graft_from {f : ℕ → α} {k : ℕ} {g : ℕ → α} {i : ℕ} (h : k ≤ i) :
    graft f k g i = g (i - k) := if_pos h

theorem overlay_inside {f : ℕ → α} {a : ℕ} {g : ℕ → α} {n i : ℕ} (h₁ : a ≤ i)
    (h₂ : i < a + n) : overlay f a g n i = g (i - a) := if_pos ⟨h₁, h₂⟩

theorem overlay_before {f : ℕ → α} {a : ℕ} {g : ℕ → α} {n i : ℕ} (h : i < a) :
    overlay f a g n i = f i := if_neg (by omega)

theorem overlay_after {f : ℕ → α} {a : ℕ} {g : ℕ → α} {n i : ℕ} (h : a + n ≤ i) :
    overlay f a g n i = f i := if_neg (by omega)

theorem overlay_outside {f : ℕ → α} {a : ℕ} {g : ℕ → α} {n i : ℕ}
    (h : ¬(a ≤ i ∧ i < a + n)) : overlay f a g n i = f i := if_neg h

@[simp] theorem overlay_zero (f : ℕ → α) (a : ℕ) (g : ℕ → α) : overlay f a g 0 = f := by
  funext i
  exact overlay_outside (by omega)

/-- Two adjacent writes from one source are one write. -/
theorem overlay_append (f : ℕ → α) (a : ℕ) (g : ℕ → α) (n m : ℕ) :
    overlay (overlay f a g n) (a + n) (shift g n) m = overlay f a g (n + m) := by
  funext i
  by_cases h : a + n ≤ i ∧ i < a + n + m
  · rw [overlay_inside h.1 h.2, overlay_inside (by omega) (by omega), shift_apply]
    congr 1
    omega
  · rw [overlay_outside h]
    by_cases h' : a ≤ i ∧ i < a + n
    · rw [overlay_inside h'.1 h'.2, overlay_inside (by omega) (by omega)]
    · rw [overlay_outside h', overlay_outside (by omega)]

theorem update_overlay (f : ℕ → α) (a : ℕ) (g : ℕ → α) (n : ℕ) :
    Function.update (overlay f a g n) (a + n) (g n) = overlay f a g (n + 1) := by
  rw [← overlay_append f a g n 1]
  funext i
  by_cases h : i = a + n
  · rw [h, Function.update_self, overlay_inside (Nat.le_refl _) (by omega), Nat.sub_self,
      shift_apply, Nat.add_zero]
  · rw [Function.update_of_ne h]
    exact (overlay_outside (by omega)).symm

/-- The window decides the source and the rest decides the background: overlays
that agree on both are equal at the index. -/
theorem overlay_congr_at {f f' : ℕ → α} {a : ℕ} {g g' : ℕ → α} {n i : ℕ}
    (hf : ¬(a ≤ i ∧ i < a + n) → f i = f' i)
    (hg : a ≤ i → i < a + n → g (i - a) = g' (i - a)) :
    overlay f a g n i = overlay f' a g' n i := by
  by_cases h : a ≤ i ∧ i < a + n
  · rw [overlay_inside h.1 h.2, overlay_inside h.1 h.2, hg h.1 h.2]
  · rw [overlay_outside h, overlay_outside h, hf h]

/-- Writing to the start of a pointer moved forward. -/
theorem graft_overlay (f : ℕ → α) (k : ℕ) (g : ℕ → α) (n : ℕ) :
    graft f k (overlay (shift f k) 0 g n) = overlay f k g n := by
  funext i
  by_cases h : k ≤ i
  · rw [graft_from h]
    by_cases h' : i < k + n
    · rw [overlay_inside (by omega) (by omega), overlay_inside h h', Nat.sub_zero]
    · rw [overlay_after (by omega), overlay_after (by omega), shift_apply, Nat.add_sub_cancel' h]
  · rw [graft_before (by omega), overlay_before (by omega)]

end Apollo.Lib
