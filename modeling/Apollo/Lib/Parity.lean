import Mathlib.Algebra.Group.Nat.Even
import Mathlib.Algebra.Ring.Parity
import Mathlib.Data.Finset.Card
import Mathlib.Order.Interval.Finset.Nat
import Mathlib.Tactic.Common

/-!
# Parities of bits by the bits of their addresses

The code of a Hamming check: the data are `2 ^ n` bits, and for each of the `n` bits of
an address there are two check bits, the parities of the data whose address has that bit
set and of those whose address has it clear.  The parity is linear, so what the check
bits of two data differ in is the check bit of the difference.  One wrong bit at `p`
makes every pair of check bits differ in exactly one half, and the upper halves spell
`p`; two wrong bits never do.

## Main definitions

* `parity`, `parity_xor`, `parity_single` — the parity of a set of bits.
* `checkBit`, `checkBit_xor`, `checkBit_single` — one check bit.
-/

namespace Apollo.Lib

/-! ## Parity -/

section Parity
variable {ι : Type}

/-- An odd number of the bits in `s` are set. -/
def parity (s : Finset ι) (f : ι → Bool) : Bool := decide (Odd (s.filter fun i => f i = true).card)

@[simp] theorem parity_empty (f : ι → Bool) : parity ∅ f = false := by
  simp [parity]

variable [DecidableEq ι]

theorem parity_insert {s : Finset ι} {a : ι} (ha : a ∉ s) (f : ι → Bool) :
    parity (insert a s) f = (f a ^^ parity s f) := by
  have hnot : a ∉ s.filter fun i => f i = true := fun h => ha (Finset.mem_filter.mp h).1
  cases hf : f a with
  | true =>
      simp only [parity, Finset.filter_insert, hf, if_true, Finset.card_insert_of_notMem hnot,
        Nat.odd_add_one, Bool.true_xor, decide_not]
  | false =>
      simp only [parity, Finset.filter_insert, hf, Bool.false_eq_true, if_false, Bool.false_xor]

/-- Parity is linear. -/
theorem parity_xor (s : Finset ι) (f g : ι → Bool) :
    parity s (fun i => f i ^^ g i) = (parity s f ^^ parity s g) := by
  induction s using Finset.induction_on with
  | empty => simp
  | insert a s ha ih =>
      rw [parity_insert ha, parity_insert ha, parity_insert ha, ih]
      simp only [Bool.xor_assoc, Bool.xor_left_comm]

/-- A single bit counts if it is in the set. -/
theorem parity_single (s : Finset ι) (p : ι) :
    parity s (fun i => decide (i = p)) = decide (p ∈ s) := by
  simp only [parity, decide_eq_true_eq, Finset.filter_eq']
  by_cases hp : p ∈ s
  · simp [hp]
  · simp [hp]

end Parity

/-! ## Check bits -/

/-- The parity of the data whose address, of `n` bits, has bit `k` equal to `b`. -/
def checkBit (n k : ℕ) (b : Bool) (f : ℕ → Bool) : Bool :=
  parity ((Finset.range (2 ^ n)).filter fun a => a.testBit k = b) f

theorem checkBit_xor (n k : ℕ) (b : Bool) (f g : ℕ → Bool) :
    checkBit n k b (fun a => f a ^^ g a) = (checkBit n k b f ^^ checkBit n k b g) :=
  parity_xor _ f g

/-- A single bit at `p` counts in the half to which `p` belongs. -/
theorem checkBit_single {n p : ℕ} (hp : p < 2 ^ n) (k : ℕ) (b : Bool) :
    checkBit n k b (fun a => decide (a = p)) = (p.testBit k == b) := by
  rw [checkBit, parity_single]
  simp only [Finset.mem_filter, Finset.mem_range, hp, true_and, Bool.beq_eq_decide_eq]

/-- Numbers of `n` bits that agree in them are equal. -/
theorem eq_of_testBit_lt {n p q : ℕ} (hp : p < 2 ^ n) (hq : q < 2 ^ n)
    (h : ∀ k < n, p.testBit k = q.testBit k) : p = q := by
  refine Nat.eq_of_testBit_eq fun k => ?_
  rcases Nat.lt_or_ge k n with hk | hk
  · exact h k hk
  · have hle := Nat.pow_le_pow_right Nat.two_pos hk
    rw [Nat.testBit_lt_two_pow (lt_of_lt_of_le hp hle),
      Nat.testBit_lt_two_pow (lt_of_lt_of_le hq hle)]

end Apollo.Lib
