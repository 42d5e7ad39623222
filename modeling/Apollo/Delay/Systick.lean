import Apollo.Lib.Prog
import Mathlib.Algebra.GroupWithZero.Nat
import Mathlib.Data.Nat.Init
import Mathlib.Order.Monotone.Basic
import Mathlib.Tactic.Common
import Mathlib.Tactic.Ring

/-!
# Delays that count the SysTick counter

`delay_us` reads the counter again and again and adds up how far it went down from one sample to
the next.  Where the counter is above the last sample it has been reloaded in between.  What is
added then is one tick less than what has passed, and the sum is kept in 32 bits, so that the sum
is never more than the time.

## Main definitions

* `Systick` — the counter and the instants of the samples; `Systick.elapsed` — the time between.
* `Systick.delayUs`, `Systick.delayMs` — the code.
* `Systick.delay_not_early` — a delay that ends has taken its time.
* `Systick.delayUs_ends` — a delay ends where the sum does not wrap.
-/

namespace Apollo.Delay
open Lib

/-- The counter, which goes down from `load` to 0 and is reloaded then, and the ticks at which it
is read, less than one period apart. -/
structure Systick where
  load : ℕ
  time : ℕ → ℕ
  mono : ∀ i, time i ≤ time (i + 1)
  close : ∀ i, time (i + 1) < time i + (load + 1)

/-- What the loop of `delay_us` carries. -/
structure Count where
  told : ℕ
  tcnt : ℕ

/-- `g_fac_us`, as `delay_init` sets it. -/
def facUs (sysclk : UInt16) : ℕ := sysclk.toNat

/-- The loop has been left. -/
def ended {α β : Type} : Flow α β → Bool
  | .next _ => false
  | .exit _ => true

namespace Systick
variable (T : Systick)

/-- The sample `i`. -/
def sample (i : ℕ) : ℕ := T.load - T.time i % (T.load + 1)

/-- Read `SysTick->VAL`.  The state is the number of the next sample. -/
def readVal : Prog ℕ ℕ := fun i => (T.sample i, i + 1)

/-- What is added to `tcnt`. -/
def added (told tnow : ℕ) : ℕ := if tnow < told then told - tnow else T.load + 2 ^ 32 - tnow + told

def delayRound (ticks _j : ℕ) (a : Count) : Prog ℕ (Flow Count Unit) := do
  let tnow ← T.readVal
  if tnow ≠ a.told then
    if ticks ≤ (a.tcnt + T.added a.told tnow) % 2 ^ 32 then pure (.exit ())
    else pure (.next ⟨tnow, (a.tcnt + T.added a.told tnow) % 2 ^ 32⟩)
  else pure (.next a)

/-- `delay_us`, for `g_fac_us` and at most `n` samples in its loop: whether it returns. -/
def delayUs (fac nus n : ℕ) : Prog ℕ Bool := do
  let told ← T.readVal
  let r ← Prog.loop (T.delayRound (nus * fac % 2 ^ 32)) n 0 ⟨told, 0⟩
  pure (ended r)

/-- The loop of `delay_ms`. -/
def delayRepeat (fac n : ℕ) : ℕ → Prog ℕ Bool
  | 0 => pure true
  | k + 1 => do
      let r ← T.delayUs fac (65 * 1000) n
      if r = true then delayRepeat fac n k else pure false

/-- `delay_ms`. -/
def delayMs (fac nms n : ℕ) : Prog ℕ Bool := do
  let r ← T.delayRepeat fac n (nms / 65)
  if r = true then
    if nms % 65 ≠ 0 then T.delayUs fac (nms % 65 * 1000) n else pure true
  else pure false

/-! ## Time -/

/-- The ticks from the sample `i` to the last one before the sample `j`. -/
def elapsed (i j : ℕ) : ℕ := T.time (j - 1) - T.time i

theorem time_le {i j : ℕ} (h : i ≤ j) : T.time i ≤ T.time j := monotone_nat_of_le_succ T.mono h

theorem elapsed_self (i : ℕ) : T.elapsed i i = 0 :=
  Nat.sub_eq_zero_of_le (T.time_le (Nat.sub_le i 1))

/-- Two spans of time that follow each other. -/
theorem elapsed_add {i j k : ℕ} (hij : i ≤ j) (hjk : j ≤ k) :
    T.elapsed i j + T.elapsed j k ≤ T.elapsed i k := by
  rcases Nat.eq_or_lt_of_le hij with rfl | hij
  · rw [elapsed_self, Nat.zero_add]
  rcases Nat.eq_or_lt_of_le hjk with rfl | hjk
  · rw [elapsed_self, Nat.add_zero]
  have hfirst := T.time_le (show i ≤ j - 1 by omega)
  have hgap := T.time_le (show j - 1 ≤ j by omega)
  have hsecond := T.time_le (show j ≤ k - 1 by omega)
  unfold elapsed
  omega

/-- The counter from one sample to the next: it goes down, or it has been reloaded once. -/
theorem sample_succ (i : ℕ) :
    T.sample (i + 1) + (T.time (i + 1) - T.time i) = T.sample i ∨
      T.sample (i + 1) + (T.time (i + 1) - T.time i) = T.sample i + (T.load + 1) := by
  have hmono := T.mono i
  have hclose := T.close i
  obtain ⟨d, hd⟩ := Nat.exists_eq_add_of_le hmono
  have hlt : T.time i % (T.load + 1) < T.load + 1 := Nat.mod_lt _ (Nat.succ_pos _)
  have hmod : T.time (i + 1) % (T.load + 1) = (T.time i % (T.load + 1) + d) % (T.load + 1) := by
    rw [hd, Nat.mod_add_mod]
  unfold sample
  rw [hmod]
  by_cases hwrap : T.time i % (T.load + 1) + d < T.load + 1
  · rw [Nat.mod_eq_of_lt hwrap]
    omega
  · rw [Nat.mod_eq_sub_mod (by omega), Nat.mod_eq_of_lt (by omega)]
    omega

/-- The sum takes no more than the time that has passed. -/
theorem added_le {i : ℕ} (hne : T.sample (i + 1) ≠ T.sample i) (tcnt : ℕ) :
    (tcnt + T.added (T.sample i) (T.sample (i + 1))) % 2 ^ 32 ≤
      tcnt + (T.time (i + 1) - T.time i) := by
  have hsample : T.sample (i + 1) ≤ T.load := Nat.sub_le _ _
  unfold added
  rcases T.sample_succ i with hdown | hreload <;> split <;> omega

/-! ## Delays take their time -/

theorem state_delayRound (ticks j : ℕ) (a : Count) (s : ℕ) :
    (T.delayRound ticks j a).state s = s + 1 := by
  simp only [delayRound, Prog.state_bind, Prog.state_ite, Prog.state_pure, ite_self]
  rfl

/-- A round from the sample `m` on. -/
theorem val_delayRound (ticks j : ℕ) {a : Count} {m : ℕ} (htold : a.told = T.sample m) :
    (T.delayRound ticks j a).val (m + 1) =
      if T.sample (m + 1) ≠ T.sample m then
        if ticks ≤ (a.tcnt + T.added (T.sample m) (T.sample (m + 1))) % 2 ^ 32 then .exit ()
        else .next ⟨T.sample (m + 1), (a.tcnt + T.added (T.sample m) (T.sample (m + 1))) % 2 ^ 32⟩
      else .next a := by
  simp only [delayRound, Prog.val_bind, Prog.val_ite, Prog.val_pure, htold]
  rfl

/-- What holds before a round, for a delay that began with the sample `i`. -/
def CountAt (i : ℕ) (a : Count) (s : ℕ) : Prop :=
  ∃ m, s = m + 1 ∧ i ≤ m ∧ a.told = T.sample m ∧ a.tcnt ≤ T.elapsed i s

theorem delayRound_spec {ticks i j s : ℕ} {a : Count} (h : T.CountAt i a s) :
    ((T.delayRound ticks j a).val s).Holds
      (fun a' => T.CountAt i a' ((T.delayRound ticks j a).state s))
      fun _ => i ≤ (T.delayRound ticks j a).state s ∧
        ticks ≤ T.elapsed i ((T.delayRound ticks j a).state s) := by
  obtain ⟨m, rfl, him, htold, htcnt⟩ := h
  have helapsed : T.elapsed i (m + 1 + 1) =
      T.elapsed i (m + 1) + (T.time (m + 1) - T.time m) := by
    have hfirst := T.time_le him
    have hmono := T.mono m
    simp only [elapsed, Nat.add_sub_cancel]
    omega
  rw [T.state_delayRound, T.val_delayRound ticks j htold]
  by_cases hne : T.sample (m + 1) ≠ T.sample m
  · have hadded := T.added_le hne a.tcnt
    rw [if_pos hne]
    split
    case isTrue hdone => exact ⟨by omega, by omega⟩
    case isFalse => exact ⟨m + 1, rfl, by omega, rfl, by dsimp only; omega⟩
  · rw [if_neg hne]
    exact ⟨m + 1, rfl, by omega, htold.trans (not_not.mp hne).symm, by omega⟩

/-- A call of `delay_us` that returns has taken the ticks that it computed. -/
theorem delayUs_ticks {fac nus n i : ℕ} (h : (T.delayUs fac nus n).val i = true) :
    i ≤ (T.delayUs fac nus n).state i ∧
      nus * fac % 2 ^ 32 ≤ T.elapsed i ((T.delayUs fac nus n).state i) := by
  set rounds := Prog.loop (T.delayRound (nus * fac % 2 ^ 32)) n 0 ⟨T.sample i, 0⟩ with hrounds
  have hrun : (rounds.val (i + 1)).Holds (fun a => T.CountAt i a (rounds.state (i + 1)))
      fun _ => i ≤ rounds.state (i + 1) ∧
        nus * fac % 2 ^ 32 ≤ T.elapsed i (rounds.state (i + 1)) :=
    Prog.loop_inv (n := n) (I := fun _ => T.CountAt i)
      (Q := fun _ s => i ≤ s ∧ nus * fac % 2 ^ 32 ≤ T.elapsed i s)
      (fun j _ a s h => T.delayRound_spec h) (Nat.zero_add n)
      ⟨i, rfl, Nat.le_refl i, rfl, Nat.zero_le _⟩
  change ended (rounds.val (i + 1)) = true at h
  change i ≤ rounds.state (i + 1) ∧ _ ≤ T.elapsed i (rounds.state (i + 1))
  cases hv : rounds.val (i + 1) with
  | next a =>
      rw [hv] at h
      cases h
  | exit b =>
      rw [hv] at hrun
      exact hrun

section
variable {fac nus n i : ℕ}

/-- A call of `delay_us` whose ticks fit 32 bits takes its time. -/
theorem delayUs_elapsed (hfit : nus * fac < 2 ^ 32) (h : (T.delayUs fac nus n).val i = true) :
    i ≤ (T.delayUs fac nus n).state i ∧
      nus * fac ≤ T.elapsed i ((T.delayUs fac nus n).state i) := by
  have hticks := T.delayUs_ticks h
  rwa [Nat.mod_eq_of_lt hfit] at hticks

/-- The pieces of 65 ms. -/
theorem delayRepeat_elapsed (hfit : 65 * 1000 * fac < 2 ^ 32) (k : ℕ)
    (h : (T.delayRepeat fac n k).val i = true) :
    i ≤ (T.delayRepeat fac n k).state i ∧
      k * (65 * 1000 * fac) ≤ T.elapsed i ((T.delayRepeat fac n k).state i) := by
  induction k generalizing i with
  | zero => exact ⟨Nat.le_refl i, by rw [Nat.zero_mul]; exact Nat.zero_le _⟩
  | succ k ih =>
      rw [delayRepeat] at h ⊢
      simp only [Prog.val_bind, Prog.state_bind] at h ⊢
      by_cases hret : (T.delayUs fac (65 * 1000) n).val i = true
      · rw [if_pos hret] at h ⊢
        obtain ⟨hle, hfirst⟩ := T.delayUs_elapsed hfit hret
        obtain ⟨hle', hrest⟩ := ih h
        have hspan := T.elapsed_add hle hle'
        refine ⟨hle.trans hle', ?_⟩
        rw [Nat.add_mul, Nat.one_mul]
        omega
      · rw [if_neg hret] at h
        cases h

/-- A call of `delay_ms` takes its time, where a piece of it fits 32 bits. -/
theorem delayMs_elapsed {nms : ℕ} (hfit : 65 * 1000 * fac < 2 ^ 32)
    (h : (T.delayMs fac nms n).val i = true) :
    nms * 1000 * fac ≤ T.elapsed i ((T.delayMs fac nms n).state i) := by
  have hsum : nms * 1000 * fac = nms / 65 * (65 * 1000 * fac) + nms % 65 * 1000 * fac := by
    calc nms * 1000 * fac = (65 * (nms / 65) + nms % 65) * 1000 * fac := by rw [Nat.div_add_mod]
      _ = nms / 65 * (65 * 1000 * fac) + nms % 65 * 1000 * fac := by ring
  rw [delayMs] at h ⊢
  simp only [Prog.val_bind, Prog.state_bind] at h ⊢
  by_cases hret : (T.delayRepeat fac n (nms / 65)).val i = true
  · rw [if_pos hret] at h ⊢
    obtain ⟨hle, hpieces⟩ := T.delayRepeat_elapsed hfit _ hret
    by_cases hrest : nms % 65 ≠ 0
    · rw [if_pos hrest] at h ⊢
      have hless : nms % 65 * 1000 * fac ≤ 65 * 1000 * fac := Nat.mul_le_mul_right fac (by omega)
      obtain ⟨hle', hlast⟩ := T.delayUs_elapsed (Nat.lt_of_le_of_lt hless hfit) h
      rw [hsum]
      exact (Nat.add_le_add hpieces hlast).trans (T.elapsed_add hle hle')
    · rw [if_neg hrest, Prog.state_pure]
      rw [not_not.mp hrest, Nat.zero_mul] at hsum
      omega
  · rw [if_neg hret] at h
    cases h

end

/-- A delay that returns has taken at least the ticks that were asked for. -/
theorem delay_not_early (n i : ℕ) :
    (∀ fac nus, nus * fac < 2 ^ 32 → (T.delayUs fac nus n).val i = true →
      nus * fac ≤ T.elapsed i ((T.delayUs fac nus n).state i)) ∧
    ∀ sysclk nms : UInt16, (T.delayMs (facUs sysclk) nms.toNat n).val i = true →
      nms.toNat * 1000 * facUs sysclk ≤
        T.elapsed i ((T.delayMs (facUs sysclk) nms.toNat n).state i) := by
  refine ⟨fun fac nus hfit h => (T.delayUs_elapsed hfit h).2, fun sysclk nms h => ?_⟩
  have hclk : facUs sysclk < 2 ^ 16 := sysclk.toNat_lt
  exact T.delayMs_elapsed (by omega) h

/-! ## Delays end -/

/-- What `delay_us` has left to count, twice, and once more unless the counter has just been
reloaded. -/
def left (ticks : ℕ) (a : Count) : ℕ := 2 * (ticks - a.tcnt) + if a.told = T.load then 0 else 1

/-- A round at a later instant counts, or finds the counter reloaded. -/
theorem delayRound_left {ticks j s : ℕ} {a : Count} (hstrict : ∀ i, T.time i < T.time (i + 1))
    (hfit : ticks + T.load < 2 ^ 32)
    (h : ∃ m, s = m + 1 ∧ a.told = T.sample m ∧ a.tcnt ≤ ticks) :
    ((T.delayRound ticks j a).val s).Holds
      (fun a' => (∃ m, (T.delayRound ticks j a).state s = m + 1 ∧ a'.told = T.sample m ∧
        a'.tcnt ≤ ticks) ∧ T.left ticks a' < T.left ticks a) fun _ => True := by
  obtain ⟨m, rfl, htold, htcnt⟩ := h
  have hlater := hstrict m
  have hclose := T.close m
  have hsample : T.sample m ≤ T.load ∧ T.sample (m + 1) ≤ T.load := ⟨Nat.sub_le _ _, Nat.sub_le _ _⟩
  have hspan := T.sample_succ m
  have hne : T.sample (m + 1) ≠ T.sample m := by omega
  rw [T.state_delayRound, T.val_delayRound ticks j htold, if_pos hne]
  split
  case isTrue => trivial
  case isFalse hmore =>
    refine ⟨⟨m + 1, rfl, rfl, by dsimp only; omega⟩, ?_⟩
    unfold added at hmore ⊢
    unfold left
    rw [htold]
    dsimp only
    split at hmore <;> split <;> split <;> split <;> omega

/-- A delay ends if the sum of its ticks does not wrap. -/
theorem delayUs_ends (hstrict : ∀ i, T.time i < T.time (i + 1)) {fac nus : ℕ}
    (hfit : nus * fac + T.load < 2 ^ 32) (i : ℕ) :
    ∃ n, (T.delayUs fac nus n).val i = true := by
  obtain ⟨b, hexit⟩ : ∃ b, (Prog.loop (T.delayRound (nus * fac))
      (T.left (nus * fac) ⟨T.sample i, 0⟩ + 1) 0 ⟨T.sample i, 0⟩).val (i + 1) = .exit b :=
    Prog.loop_exits _ (I := fun a s => ∃ m, s = m + 1 ∧ a.told = T.sample m ∧ a.tcnt ≤ nus * fac)
      (fun j a s h => T.delayRound_left hstrict hfit h) (Nat.lt_succ_self _)
      ⟨i, rfl, rfl, Nat.zero_le _⟩
  refine ⟨T.left (nus * fac) ⟨T.sample i, 0⟩ + 1, ?_⟩
  have hval : (T.delayUs fac nus (T.left (nus * fac) ⟨T.sample i, 0⟩ + 1)).val i =
      ended ((Prog.loop (T.delayRound (nus * fac % 2 ^ 32))
        (T.left (nus * fac) ⟨T.sample i, 0⟩ + 1) 0 ⟨T.sample i, 0⟩).val (i + 1)) := rfl
  rw [hval, Nat.mod_eq_of_lt (show nus * fac < 2 ^ 32 by omega), hexit]
  rfl

/-- A counter that is reloaded every millisecond at 180 MHz, and read every half of it. -/
def board : Systick where
  load := 179999
  time i := 90000 * i
  mono i := by omega
  close i := by omega

/-- A delay of a microsecond, and one of a millisecond. -/
theorem delay_not_early_board :
    1 * 180 ≤ board.elapsed 0 ((board.delayUs 180 1 3).state 0) ∧
      1 * 1000 * 180 ≤ board.elapsed 7 ((board.delayMs (facUs 180) 1 3).state 7) :=
  ⟨(board.delay_not_early 3 0).1 180 1 (by decide) (by decide),
    (board.delay_not_early 3 7).2 180 1 (by decide)⟩

end Systick
end Apollo.Delay
