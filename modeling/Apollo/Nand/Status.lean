import Apollo.Nand.Driver
import Mathlib.Data.Nat.Find

/-!
# What the return codes of the writing functions mean

`nand_readstatus` documents two bits: bit 6 says that the chip is ready, bit 0 that
the operation failed.  `nand_wait_for_ready` looks at bit 6 only.  A return code of
the writing functions therefore says when the chip became ready, and the second bit
decides nothing.

## Main results

* `nandWaitForReady_eq_ready` — the wait succeeds when some polled byte has bit 6.
* `waitCode_eq_zero` — a writing function returns 0 exactly then.
* `reportsFailure_waitCode_iff` — failures are reported just when the first ready
  byte carries none.
* `Reply.Failed`, `not_failed_iff` — what counts as a reported failure.
-/

namespace Apollo.Nand
open Lib

/-! ## The waits -/

theorem nandWaitForReadyFrom_eq_ready (status : ℕ → UInt8) (k time : ℕ) :
    nandWaitForReadyFrom status k time = nstaReady ↔
      ∃ t, time ≤ t ∧ t < time + k ∧ status t &&& 0x40 ≠ 0 := by
  induction k generalizing time with
  | zero =>
      refine ⟨fun h => absurd h (show nstaTimeout ≠ nstaReady by decide), ?_⟩
      rintro ⟨t, h₁, h₂, -⟩
      omega
  | succ k ih =>
      rw [nandWaitForReadyFrom]
      by_cases hbit : status time &&& 0x40 = 0
      · rw [if_neg (not_not.mpr hbit), ih (time + 1)]
        constructor
        · rintro ⟨t, h₁, h₂, h₃⟩
          exact ⟨t, by omega, by omega, h₃⟩
        · rintro ⟨t, h₁, h₂, h₃⟩
          have hne : t ≠ time := by rintro rfl; exact h₃ hbit
          exact ⟨t, by omega, by omega, h₃⟩
      · rw [if_pos hbit]
        exact ⟨fun _ => ⟨time, Nat.le_refl _, by omega, hbit⟩, fun _ => rfl⟩

/-- The wait succeeds when one of the bytes it may poll has bit 6 set. -/
theorem nandWaitForReady_eq_ready (status : ℕ → UInt8) :
    nandWaitForReady status = nstaReady ↔ ∃ t < 0x1FFFFFFF, status t &&& 0x40 ≠ 0 := by
  rw [nandWaitForReady, nandWaitForReadyFrom_eq_ready]
  simp only [Nat.zero_le, true_and, Nat.zero_add]

theorem nandWaitrbFrom_eq_zero (pin : ℕ → Bool) (rb : Bool) (k time : ℕ) :
    nandWaitrbFrom pin rb k time = 0 ↔ ∃ t, time ≤ t ∧ t < time + k ∧ pin t = rb := by
  induction k generalizing time with
  | zero =>
      refine ⟨fun h => absurd h (by simp [nandWaitrbFrom]), ?_⟩
      rintro ⟨t, h₁, h₂, -⟩
      omega
  | succ k ih =>
      rw [nandWaitrbFrom]
      by_cases hpin : pin time = rb
      · rw [if_pos hpin]
        exact ⟨fun _ => ⟨time, Nat.le_refl _, by omega, hpin⟩, fun _ => rfl⟩
      · rw [if_neg hpin, ih (time + 1)]
        constructor
        · rintro ⟨t, h₁, h₂, h₃⟩
          exact ⟨t, by omega, by omega, h₃⟩
        · rintro ⟨t, h₁, h₂, h₃⟩
          have hne : t ≠ time := by rintro rfl; exact hpin h₃
          exact ⟨t, by omega, by omega, h₃⟩

/-- The wait on the pin succeeds when one of its samples has the level. -/
theorem nandWaitrb_eq_zero (pin : ℕ → Bool) (rb : Bool) :
    nandWaitrb pin rb = 0 ↔ ∃ t < 0x1FFFFFF, pin t = rb := by
  rw [nandWaitrb, nandWaitrbFrom_eq_zero]
  simp only [Nat.zero_le, true_and, Nat.zero_add]

/-- A writing function returns 0 exactly when the wait saw bit 6. -/
theorem waitCode_eq_zero (r : Reply) :
    r.waitCode = 0 ↔ ∃ t < 0x1FFFFFFF, r.status t &&& 0x40 ≠ 0 := by
  rw [← nandWaitForReady_eq_ready, Reply.waitCode]
  by_cases h : nandWaitForReady r.status = nstaReady
  · simp [h]
  · simp [h]

/-! ## The byte the wait ends on -/

/-- `t` is the first of the polled bytes that has bit 6 set. -/
def FirstReady (status : ℕ → UInt8) (t : ℕ) : Prop :=
  t < 0x1FFFFFFF ∧ status t &&& 0x40 ≠ 0 ∧ ∀ t' < t, status t' &&& 0x40 = 0

/-- The wait ends on the byte `t`: it is the first ready one, or the last that may be
polled and none was ready. -/
def WaitEndsOn (status : ℕ → UInt8) (t : ℕ) : Prop :=
  FirstReady status t ∨ (t + 1 = 0x1FFFFFFF ∧ ∀ t' < 0x1FFFFFFF, status t' &&& 0x40 = 0)

/-- The return code 0 is kept for a chip that is ready and reports no failure: bit 6
set and bit 0 clear in the byte on which the wait ended. -/
def ReportsFailure (code : ℕ) (status : ℕ → UInt8) : Prop :=
  code = 0 → ∀ t, WaitEndsOn status t → status t &&& 0x40 ≠ 0 ∧ status t &&& 0x01 = 0

/-- The first ready byte, if the wait sees one, has the failure bit clear. -/
def FirstReadyClear (status : ℕ → UInt8) : Prop :=
  ∀ t, FirstReady status t → status t &&& 0x01 = 0

/-- The whole of what the poll decides: with its code, failures are reported if and
only if the first ready byte has bit 0 clear. -/
theorem reportsFailure_waitCode_iff (r : Reply) :
    ReportsFailure r.waitCode r.status ↔ FirstReadyClear r.status := by
  constructor
  · intro h t ht
    have hcode : r.waitCode = 0 := (waitCode_eq_zero r).mpr ⟨t, ht.1, ht.2.1⟩
    exact (h hcode t (Or.inl ht)).2
  · intro h hcode t ht
    rcases ht with ht | ⟨-, hnone⟩
    · exact ⟨ht.2.1, h t ht⟩
    · obtain ⟨t', hlt, hbit⟩ := (waitCode_eq_zero r).mp hcode
      exact absurd (hnone t' hlt) hbit

/-- The chip reports a failure: the byte on which the wait ends is not a ready one, or has bit 0
set. -/
def Reply.Failed (r : Reply) : Prop :=
  ∃ t, WaitEndsOn r.status t ∧ ¬(r.status t &&& 0x40 ≠ 0 ∧ r.status t &&& 0x01 = 0)

/-- No failure: the wait sees a ready byte, and the first one has bit 0 clear. -/
theorem not_failed_iff (r : Reply) : ¬ r.Failed ↔ r.waitCode = 0 ∧ FirstReadyClear r.status := by
  have hall : ¬ r.Failed ↔
      ∀ t, WaitEndsOn r.status t → r.status t &&& 0x40 ≠ 0 ∧ r.status t &&& 0x01 = 0 := by
    simp only [Reply.Failed, not_exists, not_and_not_right]
  rw [hall]
  constructor
  · intro h
    refine ⟨?_, fun t ht => (h t (Or.inl ht)).2⟩
    -- a wait that sees no ready byte ends on the last one
    by_contra hcode
    have hnone : ∀ t < 0x1FFFFFFF, r.status t &&& 0x40 = 0 := by
      intro t ht
      by_contra hbit
      exact hcode ((waitCode_eq_zero r).mpr ⟨t, ht, hbit⟩)
    exact (h 0x1FFFFFFE (Or.inr ⟨rfl, hnone⟩)).1 (hnone _ (by decide))
  · rintro ⟨hcode, hclear⟩
    exact (reportsFailure_waitCode_iff r).mpr hclear hcode

/-- A copy-back that never reaches the poll, because its pages lie in different planes
or the R/B pin does not move. -/
def CopyStopsEarly (B : Board) (r : Reply) (sourcePagenum destPagenum : ℕ) : Prop :=
  u16 (sourcePagenum / B.blockPagenum) % 2 ≠ u16 (destPagenum / B.blockPagenum) % 2 ∨
    r.RbTimeout

theorem reportsFailure_copyback_iff (B : Board) (d : Dev) (sourcePagenum destPagenum : ℕ)
    (edit : Bytes → Bytes) :
    ReportsFailure ((copyback B sourcePagenum destPagenum edit).val d)
        (B.reply .copyback (d.ticks .copyback)).status ↔
      CopyStopsEarly B (B.reply .copyback (d.ticks .copyback)) sourcePagenum destPagenum ∨
        FirstReadyClear (B.reply .copyback (d.ticks .copyback)).status := by
  set r := B.reply .copyback (d.ticks .copyback) with hr
  by_cases hplane :
      u16 (sourcePagenum / B.blockPagenum) % 2 ≠ u16 (destPagenum / B.blockPagenum) % 2
  · have hval : (copyback B sourcePagenum destPagenum edit).val d = nstaError := by
      simp only [copyback, if_pos hplane, Prog.val_pure]
    rw [hval]
    exact ⟨fun _ => Or.inl (Or.inl hplane), fun _ h => absurd h (by decide)⟩
  · by_cases hrb : r.RbTimeout
    · have hval : (copyback B sourcePagenum destPagenum edit).val d = nstaTimeout := by
        simp only [copyback, if_neg hplane, Prog.val_bind, val_command, ← hr, if_pos hrb,
          Prog.val_pure]
      rw [hval]
      exact ⟨fun _ => Or.inl (Or.inr hrb), fun _ h => absurd h (by decide)⟩
    · have hval : (copyback B sourcePagenum destPagenum edit).val d = r.waitCode := by
        simp only [copyback, if_neg hplane, Prog.val_bind, val_command, Prog.val_get, ← hr,
          if_neg hrb, Prog.val_pure]
      rw [hval, reportsFailure_waitCode_iff]
      exact ⟨Or.inr, fun h => h.resolve_left (by rintro (h | h) <;> contradiction)⟩

/-- Each of the four writing functions keeps the return code 0 for operations the chip
did not report as failed if and only if the first ready status byte has bit 0 clear
(or, for a copy-back, the poll is not reached). -/
theorem failures_reported_iff (B : Board) (d : Dev) :
    (∀ pagenum colnum pbuffer numbyteToWrite,
      ReportsFailure ((nandWritepage B pagenum colnum pbuffer numbyteToWrite).val d)
          (B.reply .program (d.ticks .program)).status ↔
        FirstReadyClear (B.reply .program (d.ticks .program)).status) ∧
    (∀ sourcePagenum destPagenum colnum pbuffer numbyteToWrite,
      ReportsFailure
          ((nandCopypageWithwrite B sourcePagenum destPagenum colnum pbuffer numbyteToWrite).val d)
          (B.reply .copyback (d.ticks .copyback)).status ↔
        CopyStopsEarly B (B.reply .copyback (d.ticks .copyback)) sourcePagenum destPagenum ∨
          FirstReadyClear (B.reply .copyback (d.ticks .copyback)).status) ∧
    (∀ sourcePagenum destPagenum,
      ReportsFailure ((nandCopypageWithoutwrite B sourcePagenum destPagenum).val d)
          (B.reply .copyback (d.ticks .copyback)).status ↔
        CopyStopsEarly B (B.reply .copyback (d.ticks .copyback)) sourcePagenum destPagenum ∨
          FirstReadyClear (B.reply .copyback (d.ticks .copyback)).status) ∧
    (∀ blocknum,
      ReportsFailure ((nandEraseblock B blocknum).val d)
          (B.reply .erase (d.ticks .erase)).status ↔
        FirstReadyClear (B.reply .erase (d.ticks .erase)).status) := by
  refine ⟨?_, ?_, ?_, ?_⟩
  · intro pagenum colnum pbuffer n
    exact reportsFailure_waitCode_iff _
  · intro src dst colnum pbuffer n
    exact reportsFailure_copyback_iff B d src dst _
  · intro src dst
    exact reportsFailure_copyback_iff B d src dst id
  · intro blocknum
    exact reportsFailure_waitCode_iff _

/-- A chip whose every operation fails: ready at once, with bit 0 set. -/
def failingBoard : Board where
  toGeometry := part512
  hwEcc := fun _ => 0
  reply := fun _ _ => { Reply.sound with status := fun _ => 0xE1, effect := .nothing }
  uninit := fun _ => 0

/-- On a chip that fails every operation the four writing functions return 0. -/
theorem failures_not_reported :
    ¬ ReportsFailure ((nandWritepage failingBoard 0 0 erasedPage 512).val Dev.blank)
        (failingBoard.reply .program 0).status ∧
    ¬ ReportsFailure ((nandCopypageWithwrite failingBoard 0 128 0 erasedPage 512).val Dev.blank)
        (failingBoard.reply .copyback 0).status ∧
    ¬ ReportsFailure ((nandCopypageWithoutwrite failingBoard 0 128).val Dev.blank)
        (failingBoard.reply .copyback 0).status ∧
    ¬ ReportsFailure ((nandEraseblock failingBoard 0).val Dev.blank)
        (failingBoard.reply .erase 0).status := by
  have hfirst : FirstReady (fun _ => (0xE1 : UInt8)) 0 := ⟨by decide, by decide, by simp⟩
  have hnot : ∀ code, code = 0 → ¬ ReportsFailure code fun _ => 0xE1 := by
    intro code hcode h
    exact absurd (h hcode 0 (Or.inl hfirst)).2 (by decide)
  refine ⟨hnot _ ?_, hnot _ ?_, hnot _ ?_, hnot _ ?_⟩ <;> decide

end Apollo.Nand
