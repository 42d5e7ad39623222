import Mathlib.Data.Nat.Notation
import Mathlib.Tactic.Common

/-!
# Accumulators that carry

An accumulator takes `d` in every round, and gives `D` up as one carry when it holds more than
`D`.  It never gives up all it holds, so that the first carry is late by a round, and exactly `d`
carries have been made after `D + 1` rounds.

## Main definitions

* `Carried D d k q e` — after `k` rounds `q` carries have been made, and `e` is left.
* `carries D d k` — the number of carries, in closed form; `Carried.eq` — it is that.
* `carries_full` — the carries of `D + 1` rounds; `carries_le`, `carries_succ` — on the way.
-/

namespace Apollo.Lib

/-- After `k` rounds `q` carries have been made, and `e` is left. -/
structure Carried (D d k q e : ℕ) : Prop where
  total : q * D + e = k * d
  left_le : e ≤ D
  left_pos : 0 < e ∨ q = 0

/-- The carries of `k` rounds. -/
def carries (D d k : ℕ) : ℕ := (k * d - 1) / D

section
variable {D d k q e : ℕ}

theorem Carried.zero (D d : ℕ) : Carried D d 0 0 0 := ⟨by omega, Nat.zero_le _, .inr rfl⟩

/-- A round that carries. -/
theorem Carried.carry (h : Carried D d k q e) (hd : d ≤ D) (hmore : D < e + d) :
    Carried D d (k + 1) (q + 1) (e + d - D) := by
  have htotal := h.total
  have hleft := h.left_le
  refine ⟨?_, by omega, .inl (by omega)⟩
  rw [Nat.add_mul, Nat.add_mul]
  omega

/-- A round that does not. -/
theorem Carried.keep (h : Carried D d k q e) (hmore : ¬ D < e + d) :
    Carried D d (k + 1) q (e + d) := by
  have htotal := h.total
  refine ⟨?_, by omega, h.left_pos.imp (fun hpos => by omega) id⟩
  rw [Nat.add_mul]
  omega

theorem Carried.eq (h : Carried D d k q e) : carries D d k = q := by
  have htotal := h.total
  have hleft := h.left_le
  rw [carries, ← htotal]
  rcases Nat.eq_zero_or_pos D with rfl | hD
  · rcases h.left_pos with hpos | rfl
    · omega
    · exact Nat.div_zero _
  · rcases h.left_pos with hpos | rfl
    · rw [Nat.add_sub_assoc hpos, Nat.mul_comm, Nat.mul_add_div hD,
        Nat.div_eq_of_lt (show e - 1 < D by omega), Nat.add_zero]
    · exact Nat.div_eq_of_lt (by omega)

/-- What has been carried, and what is left of a sum of portions not above `D`. -/
theorem Carried.exists (hd : d ≤ D) : ∀ k, ∃ q e, Carried D d k q e
  | 0 => ⟨0, 0, .zero D d⟩
  | k + 1 => by
      obtain ⟨q, e, h⟩ := Carried.exists hd k
      by_cases hmore : D < e + d
      · exact ⟨q + 1, _, h.carry hd hmore⟩
      · exact ⟨q, _, h.keep hmore⟩

theorem carries_zero (D d : ℕ) : carries D d 0 = 0 := (Carried.zero D d).eq

/-- A round makes one carry or none. -/
theorem carries_succ (hd : d ≤ D) (k : ℕ) :
    carries D d (k + 1) = carries D d k ∨ carries D d (k + 1) = carries D d k + 1 := by
  obtain ⟨q, e, h⟩ := Carried.exists hd k
  rw [h.eq]
  by_cases hmore : D < e + d
  · exact .inr (h.carry hd hmore).eq
  · exact .inl (h.keep hmore).eq

/-- Each unit of `d` has been carried after `D + 1` rounds. -/
theorem carries_full (hd : d ≤ D) : carries D d (D + 1) = d := by
  refine Carried.eq ⟨?_, hd, Nat.eq_zero_or_pos d |>.symm⟩
  rw [Nat.add_mul, Nat.mul_comm d D, Nat.one_mul]

theorem carries_mono {m : ℕ} (h : k ≤ m) : carries D d k ≤ carries D d m :=
  Nat.div_le_div_right (Nat.sub_le_sub_right (Nat.mul_le_mul_right d h) 1)

theorem carries_le (hd : d ≤ D) (hk : k ≤ D + 1) : carries D d k ≤ d :=
  Nat.le_trans (carries_mono hk) (Nat.le_of_eq (carries_full hd))

/-- Where every round brings a whole `D`, every round but the first makes a carry. -/
theorem carries_self (hD : 0 < D) (k : ℕ) : carries D D (k + 1) = k :=
  Carried.eq (e := D) ⟨by rw [Nat.add_mul, Nat.one_mul], Nat.le_refl _, .inl hD⟩

/-- Every number of carries up to `D` is passed through, where a round brings a whole `D`. -/
theorem exists_carries {m : ℕ} (h : d = D) (hm : m ≤ d) : ∃ k ≤ D + 1, carries D d k = m := by
  subst h
  rcases Nat.eq_zero_or_pos d with rfl | hD
  · exact ⟨0, by omega, by rw [carries_zero]; omega⟩
  · exact ⟨m + 1, by omega, carries_self hD m⟩

end
end Apollo.Lib
