import Apollo.Lib.Prog
import Apollo.Lib.Overlay
import Mathlib.Tactic.Common

/-!
# Block devices

A medium is a row of sectors of `w` bytes.  A driver moves whole sectors between a medium and a
buffer, and reports a code; some calls never return.  Whether its codes are true is another
question.

## Main definitions

* `Medium` — a row of sectors; `Medium.Holds` — a buffer's bytes are those of some sectors.
* `Medium.holds_delivered`, `Medium.holds_stored` — a copy from the medium, or onto it.
* `Driver` — what a driver is asked for.
* `Driver.idle` — the driver that always reports the same code, and does nothing.
-/

namespace Apollo.Lib

/-- A row of sectors, and the bytes that are in them. -/
structure Medium where
  sectors : ℕ
  content : ℕ → UInt8

/-- The `n` sectors from `blk` on are there, and hold what is in the buffer. -/
def Medium.Holds (w : ℕ) (M : Medium) (blk n : ℕ) (buf : ℕ → UInt8) : Prop :=
  ∀ j < n * w, blk * w + j < M.sectors * w ∧ M.content (blk * w + j) = buf j

namespace Medium
variable {w blk n : ℕ} {M : Medium} {buf : ℕ → UInt8}

theorem holds_none : M.Holds w blk 0 buf := fun j hj => absurd hj (by simp)

/-- Only sectors that are there can hold anything. -/
theorem Holds.inside (hw : 0 < w) (hn : 0 < n) (h : M.Holds w blk n buf) : blk + n ≤ M.sectors := by
  have hpos : 0 < n * w := Nat.mul_pos hn hw
  have hlast : blk * w + (n * w - 1) < M.sectors * w := (h (n * w - 1) (by omega)).1
  have hmul : (blk + n) * w ≤ M.sectors * w := by
    rw [Nat.add_mul]
    omega
  exact Nat.le_of_mul_le_mul_right hmul hw

/-- A buffer holds what has been copied into it. -/
theorem holds_delivered (h : blk + n ≤ M.sectors) :
    M.Holds w blk n (overlay buf 0 (shift M.content (blk * w)) (n * w)) := by
  intro j hj
  have hend : (blk + n) * w ≤ M.sectors * w := Nat.mul_le_mul_right w h
  rw [Nat.add_mul] at hend
  have hin : j < 0 + n * w := by omega
  refine ⟨by omega, ?_⟩
  rw [overlay_inside (Nat.zero_le j) hin, shift_apply, Nat.sub_zero]

/-- A medium holds what has been copied onto it. -/
theorem holds_stored {sectors : ℕ} {content : ℕ → UInt8} (h : blk + n ≤ sectors) :
    (Medium.mk sectors (overlay content (blk * w) buf (n * w))).Holds w blk n buf := by
  intro j hj
  have hend : (blk + n) * w ≤ sectors * w := Nat.mul_le_mul_right w h
  rw [Nat.add_mul] at hend
  change blk * w + j < sectors * w ∧ overlay content (blk * w) buf (n * w) (blk * w + j) = buf j
  refine ⟨by omega, ?_⟩
  rw [overlay_inside (Nat.le_add_right _ j) (Nat.add_lt_add_left hj _), Nat.add_sub_cancel_left]

end Medium

/-- A driver of sectors, in states `σ`.  A call that has no code has not returned. -/
structure Driver (σ : Type) where
  /-- The code, and the buffer afterwards. -/
  read : (ℕ → UInt8) → ℕ → ℕ → Prog σ (Option UInt8 × (ℕ → UInt8))
  write : (ℕ → UInt8) → ℕ → ℕ → Prog σ (Option UInt8)

/-- The driver that reports `code` for every call, and does nothing. -/
def Driver.idle (σ : Type) (code : UInt8) : Driver σ where
  read buf _ _ := pure (some code, buf)
  write _ _ _ := pure (some code)

end Apollo.Lib
