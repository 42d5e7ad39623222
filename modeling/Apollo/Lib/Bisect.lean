import Mathlib.Data.Nat.Notation
import Mathlib.Tactic.Common

/-!
# Searches that halve an interval

A search for a key in an increasing sequence probes the middle of `[lo, hi)` and makes it
the next `lo` or the next `hi`.  Since a bound that has been probed is not moved past it,
`lo` stays a part of the interval although it is no candidate any more, except while it is
still the `0` that the search began with.

The candidates that are left are at least halved by every probe, so that as many probes as
the length of the sequence has binary digits find every key of it.

## Main definitions

* `middle lo hi` — where the search probes.
* `Between lo hi j` — the entry `j` is a candidate; `Between.upper`, `Between.lower` — it
  stays one.
* `unprobed lo hi` — how many candidates there are; `unprobed_upper`, `unprobed_lower` — a
  probe halves it.
-/

namespace Apollo.Lib

/-- Where a search between `lo` and `hi` probes. -/
def middle (lo hi : ℕ) : ℕ := lo + (hi - lo) / 2

/-- The entry `j` may still be the one looked for. -/
structure Between (lo hi j : ℕ) : Prop where
  above : lo = 0 ∨ lo < j
  below : j < hi

/-- How many entries may still be the one looked for. -/
def unprobed (lo hi : ℕ) : ℕ := if lo = 0 then hi else hi - lo - 1

theorem middle_le {lo hi : ℕ} (h : lo ≤ hi) : middle lo hi ≤ hi := by
  unfold middle
  omega

theorem le_middle (lo hi : ℕ) : lo ≤ middle lo hi := Nat.le_add_right _ _

section
variable {lo hi j : ℕ}

theorem Between.start {n : ℕ} (h : j < n) : Between 0 n j := ⟨.inl rfl, h⟩

/-- A search that still has a candidate probes below its upper bound. -/
theorem Between.middle_lt (h : Between lo hi j) : middle lo hi < hi := by
  have habove := h.above
  have hbelow := h.below
  unfold middle
  omega

theorem Between.upper (h : Between lo hi j) (hj : middle lo hi < j) :
    Between (middle lo hi) hi j := ⟨.inr hj, h.below⟩

theorem Between.lower (h : Between lo hi j) (hj : j < middle lo hi) :
    Between lo (middle lo hi) j := ⟨h.above, hj⟩

theorem Between.unprobed_pos (h : Between lo hi j) : 0 < unprobed lo hi := by
  have habove := h.above
  have hbelow := h.below
  unfold unprobed
  split <;> omega

/-- The candidates behind the middle are at most half of all. -/
theorem unprobed_upper (h : Between lo hi j) (hj : middle lo hi < j) :
    2 * unprobed (middle lo hi) hi ≤ unprobed lo hi := by
  have hbelow := h.below
  have hpos : middle lo hi ≠ 0 := fun hzero => by
    -- a search whose middle is 0 has the entry 0 as its last candidate
    have hone : hi ≤ 1 := by
      unfold middle at hzero
      omega
    omega
  unfold unprobed
  rw [if_neg hpos]
  unfold middle at hpos ⊢
  split <;> omega

/-- The candidates before the middle are at most half of all. -/
theorem unprobed_lower (lo hi : ℕ) : 2 * unprobed lo (middle lo hi) ≤ unprobed lo hi := by
  unfold unprobed middle
  split <;> omega

end
end Apollo.Lib
