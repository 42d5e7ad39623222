import Mathlib.Data.Nat.Notation
import Mathlib.Logic.Function.Basic
import Mathlib.Data.List.Range
import Mathlib.Tactic.Common

/-!
# Scans over numbered items

Two loops that C code runs over an array.  `firstEntry` looks for the first index
with a property.  `rebuild` recovers a table from tags: item after item enters itself
under its tag, so a later item with the same tag replaces an earlier one.  What a
key finds in the table is therefore the last item that carries it.

## Main definitions

* `firstEntry n p` — the first index below `n` with `p`.
* `rebuild ok tag init n` — the table after the items below `n` have been entered.
* `rebuild_of_last`, `rebuild_of_none` — what a key finds there.
-/

namespace Apollo.Lib

/-! ## The first hit -/

/-- The first of the indices `0`, …, `n - 1` that satisfies `p`: a search loop that
breaks at the first hit. -/
def firstEntry (n : ℕ) (p : ℕ → Prop) [DecidablePred p] : Option ℕ :=
  (List.range n).find? p

section FirstEntry
variable {n : ℕ} {p : ℕ → Prop} [DecidablePred p]

theorem firstEntry_eq_some {i : ℕ} :
    firstEntry n p = some i ↔ i < n ∧ p i ∧ ∀ j < i, ¬ p j := by
  simp only [firstEntry, List.find?_range_eq_some, decide_eq_true_eq, List.mem_range,
    Bool.not_eq_true', decide_eq_false_iff_not]
  tauto

theorem firstEntry_eq_none : firstEntry n p = none ↔ ∀ i < n, ¬ p i := by
  simp only [firstEntry, List.find?_range_eq_none, Bool.not_eq_true', decide_eq_false_iff_not]

/-- An index with the property that no earlier one has is the one the search finds. -/
theorem firstEntry_eq_of {i : ℕ} (hi : i < n) (hp : p i) (hmin : ∀ j < i, ¬ p j) :
    firstEntry n p = some i := firstEntry_eq_some.mpr ⟨hi, hp, hmin⟩

end FirstEntry

/-! ## Tables rebuilt from tags -/

section Rebuild
variable {κ : Type} [DecidableEq κ]

/-- The table after the items `0`, …, `n - 1` have entered themselves under their
tags; items that are not `ok` are passed over. -/
def rebuild (ok : ℕ → Prop) [DecidablePred ok] (tag : ℕ → κ) (init : κ → ℕ) : ℕ → κ → ℕ
  | 0 => init
  | n + 1 =>
      if ok n then Function.update (rebuild ok tag init n) (tag n) n
      else rebuild ok tag init n

variable {ok : ℕ → Prop} [DecidablePred ok] {tag : ℕ → κ} {init : κ → ℕ}

/-- A key that no item carries keeps its entry. -/
theorem rebuild_of_none {n : ℕ} {l : κ} (h : ∀ b < n, ok b → tag b ≠ l) :
    rebuild ok tag init n l = init l := by
  induction n with
  | zero => rfl
  | succ n ih =>
      have hrest := ih fun b hb => h b (by omega)
      rw [rebuild]
      split
      · rename_i hok
        rw [Function.update_of_ne (Ne.symm (h n (by omega) hok)), hrest]
      · exact hrest

/-- A key finds the last item that carries it. -/
theorem rebuild_of_last {n b : ℕ} {l : κ} (hb : b < n) (hok : ok b) (htag : tag b = l)
    (hlast : ∀ b' < n, b < b' → ok b' → tag b' ≠ l) :
    rebuild ok tag init n l = b := by
  induction n with
  | zero => omega
  | succ n ih =>
      rw [rebuild]
      by_cases hbn : b = n
      · subst hbn
        rw [if_pos hok, htag, Function.update_self]
      · have hrest := ih (by omega) fun b' hb' => hlast b' (by omega)
        split
        · rename_i hokn
          rw [Function.update_of_ne (Ne.symm (hlast n (by omega) (by omega) hokn)), hrest]
        · exact hrest

/-- A key finds the only item that carries it. -/
theorem rebuild_of_unique {n b : ℕ} {l : κ} (hb : b < n) (hok : ok b) (htag : tag b = l)
    (huniq : ∀ b' < n, ok b' → tag b' = l → b' = b) :
    rebuild ok tag init n l = b :=
  rebuild_of_last hb hok htag fun b' hb' hlt hok' htag' => by
    have := huniq b' hb' hok' htag'
    omega

end Rebuild
end Apollo.Lib
