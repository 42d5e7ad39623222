import Apollo.Lib.Block
import Apollo.Lib.Overlay
import Mathlib.Algebra.Group.Nat.Defs

/-!
# The SD card

`sd_read_disk` and `sd_write_disk` let the HAL move the sectors, with the interrupts off, and
then poll the card until it is back in its transfer state.  They count the polls down from
`SD_TIMEOUT`, but the count changes the code alone: it is the state of the card that ends the
loop.

The HAL and the card answer as a `Hal` says.  The HAL's documentation has it that `HAL_OK`
means that all blocks have been moved, and that a request which leaves the card is refused.

## Main definitions

* `Hal` — the answers of the HAL; `Sd` — the card, and how much has been asked so far.
* `sdInit`, `getSdCardState`, `sdReadDisk`, `sdWriteDisk` — the code.
* `waitTransfer_cases` — what the polls come to; `waitTransfer_inTime_iff` — when they end.
* `FailsReads`, `FailsWrites` — the card fails every transfer of these sectors.
* `sdReadDisk_holds`, `sdWriteDisk_holds` — a code of `0` is true.
* `sdDriver` — the two functions as a driver.
-/

namespace Apollo.Sdio
open Lib

/-- `HAL_StatusTypeDef`. -/
inductive HalStatus where
  | ok
  | error
  | busy
  | timeout
  deriving DecidableEq

/-- The number that stands for a status. -/
def HalStatus.code : HalStatus → UInt8
  | ok => 0
  | error => 1
  | busy => 2
  | timeout => 3

/-- `HAL_SD_CARD_TRANSFER`. -/
abbrev halSdCardTransfer : ℕ := 4
/-- `SD_TIMEOUT`. -/
abbrev sdTimeout : ℕ := 100000000
/-- `SD_TRANSFER_OK`. -/
abbrev sdTransferOk : UInt8 := 0
/-- `SD_TRANSFER_BUSY`. -/
abbrev sdTransferBusy : UInt8 := 1

/-- The card that is in the slot and the answers of the HAL, numbered from `0`.  A transfer is
answered by its number, its first block and how many blocks it asks for. -/
structure Hal where
  logBlockNbr : ℕ
  init : ℕ → HalStatus
  configWideBus : ℕ → HalStatus
  readBlocks : ℕ → ℕ → ℕ → HalStatus
  writeBlocks : ℕ → ℕ → ℕ → HalStatus
  /-- The card states that the polls find. -/
  cardState : ℕ → ℕ
  /-- What a transfer that fails leaves in the buffer, or on the card. -/
  readLeft : ℕ → ℕ → UInt8
  writeLeft : ℕ → ℕ → UInt8
  read_inside : ∀ k blk n, readBlocks k blk n = .ok → blk + n ≤ logBlockNbr
  write_inside : ∀ k blk n, writeBlocks k blk n = .ok → blk + n ≤ logBlockNbr

/-- What is on the card, how many calls of each kind there have been, and whether interrupts
are on. -/
structure Sd where
  content : ℕ → UInt8
  inits : ℕ
  wides : ℕ
  reads : ℕ
  writes : ℕ
  polls : ℕ
  intx : Bool

/-- A card out of the shop. -/
def Sd.fresh : Sd := ⟨fun _ => 0, 0, 0, 0, 0, 0, true⟩

variable (H : Hal)

/-! ## The HAL -/

def halSdInit : Prog Sd HalStatus := do
  let sta ← Prog.get fun s => H.init s.inits
  Prog.modify fun s => { s with inits := s.inits + 1 }
  pure sta

def halSdConfigWideBusOperation : Prog Sd HalStatus := do
  let sta ← Prog.get fun s => H.configWideBus s.wides
  Prog.modify fun s => { s with wides := s.wides + 1 }
  pure sta

def halSdGetCardState : Prog Sd ℕ := do
  let state ← Prog.get fun s => H.cardState s.polls
  Prog.modify fun s => { s with polls := s.polls + 1 }
  pure state

/-- `HAL_SD_ReadBlocks`: the status, and the buffer afterwards. -/
def halSdReadBlocks (pbuf : ℕ → UInt8) (blk n : ℕ) : Prog Sd (HalStatus × (ℕ → UInt8)) := do
  let sta ← Prog.get fun s => H.readBlocks s.reads blk n
  let buf ← Prog.get fun s =>
    if sta = .ok then overlay pbuf 0 (shift s.content (blk * 512)) (n * 512)
    else H.readLeft s.reads
  Prog.modify fun s => { s with reads := s.reads + 1 }
  pure (sta, buf)

/-- `HAL_SD_WriteBlocks`. -/
def halSdWriteBlocks (pbuf : ℕ → UInt8) (blk n : ℕ) : Prog Sd HalStatus := do
  let sta ← Prog.get fun s => H.writeBlocks s.writes blk n
  Prog.modify fun s => { s with
    content := if sta = .ok then overlay s.content (blk * 512) pbuf (n * 512)
      else H.writeLeft s.writes
    writes := s.writes + 1 }
  pure sta

/-! ## The driver -/

/-- `sd_init`, but for the parameters of the bus and the copy of the card's data, which nothing
here reads. -/
def sdInit : Prog Sd UInt8 := do
  let sta ← halSdInit H
  if sta ≠ .ok then pure 1
  else do
    let sta ← halSdConfigWideBusOperation H
    if sta ≠ .ok then pure 2 else pure 0

def getSdCardState : Prog Sd UInt8 := do
  let state ← halSdGetCardState H
  pure (if state = halSdCardTransfer then sdTransferOk else sdTransferBusy)

/-- `sys_intx_enable` and `sys_intx_disable`. -/
def sysIntx (on : Bool) : Prog Sd Unit := Prog.modify fun s => { s with intx := on }

/-- The locals of the loop that polls the card. -/
structure Poll where
  sta : UInt8
  timeout : ℕ

/-- The body of that loop: `if (timeout-- == 0)`. -/
def Poll.countDown (a : Poll) : Poll where
  sta := if a.timeout = 0 then sdTransferBusy else a.sta
  timeout := (a.timeout + 2 ^ 32 - 1) % 2 ^ 32

/-- One round of it. -/
def pollRound (_i : ℕ) (a : Poll) : Prog Sd (Flow Poll UInt8) := do
  let state ← getSdCardState H
  if state ≠ sdTransferOk then pure (.next a.countDown) else pure (.exit a.sta)

/-- The loop, as far as `fuel` polls go. -/
def pollLoop (fuel : ℕ) (sta : UInt8) : Prog Sd (Flow Poll UInt8) :=
  Prog.loop (pollRound H) fuel 0 ⟨sta, sdTimeout⟩

/-- The loop, and what is done behind it. -/
def waitTransfer (fuel : ℕ) (sta : UInt8) : Prog Sd (Option UInt8) := do
  match ← pollLoop H fuel sta with
  | .next _ => pure none
  | .exit sta => do
    sysIntx true
    pure (some sta)

/-- `sd_read_disk`: the code, if it has one after `fuel` polls, and the buffer afterwards. -/
def sdReadDisk (fuel : ℕ) (pbuf : ℕ → UInt8) (saddr cnt : ℕ) :
    Prog Sd (Option UInt8 × (ℕ → UInt8)) := do
  sysIntx false
  let read ← halSdReadBlocks H pbuf saddr cnt
  let sta ← waitTransfer H fuel read.1.code
  pure (sta, read.2)

/-- `sd_write_disk`. -/
def sdWriteDisk (fuel : ℕ) (pbuf : ℕ → UInt8) (saddr cnt : ℕ) : Prog Sd (Option UInt8) := do
  sysIntx false
  let sta ← halSdWriteBlocks H pbuf saddr cnt
  waitTransfer H fuel sta.code

/-! ## Polling -/

/-- The `k`-th poll from `s` on finds the card in its transfer state. -/
def InTransfer (s : Sd) (k : ℕ) : Prop := H.cardState (s.polls + k) = halSdCardTransfer

instance (s : Sd) (k : ℕ) : Decidable (InTransfer H s k) := inferInstanceAs (Decidable (_ = _))

/-- `i` polls from `s` on have been in vain. -/
structure Polled (sta : UInt8) (s : Sd) (i : ℕ) (a : Poll) (t : Sd) : Prop where
  state : t = { s with polls := s.polls + i }
  busy : ∀ j < i, ¬ InTransfer H s j
  sta : a.sta = if sdTimeout < i then sdTransferBusy else sta
  timeout : i ≤ sdTimeout → a.timeout = sdTimeout - i

/-- The `k`-th poll from `s` on is the first that was not in vain; the code is `sta`, unless
more than `SD_TIMEOUT` have been. -/
structure Ended (sta : UInt8) (s : Sd) (k : ℕ) (code : UInt8) (t : Sd) : Prop where
  state : t = { s with polls := s.polls + (k + 1) }
  ready : InTransfer H s k
  busy : ∀ j < k, ¬ InTransfer H s j
  code : code = if sdTimeout < k then sdTransferBusy else sta

section Polling
variable {H} {sta : UInt8} {s : Sd}

theorem val_pollRound (i : ℕ) (a : Poll) (t : Sd) :
    (pollRound H i a).val t = if InTransfer H t 0 then .exit a.sta else .next a.countDown := by
  have hval : (getSdCardState H).val t =
      if InTransfer H t 0 then sdTransferOk else sdTransferBusy := rfl
  simp only [pollRound, Prog.val_bind, Prog.val_ite, Prog.val_pure, hval]
  by_cases hready : InTransfer H t 0
  · simp [hready]
  · simp [hready, show sdTransferBusy ≠ sdTransferOk by decide]

theorem state_pollRound (i : ℕ) (a : Poll) (t : Sd) :
    (pollRound H i a).state t = { t with polls := t.polls + 1 } := by
  have hstate : (getSdCardState H).state t = { t with polls := t.polls + 1 } := rfl
  simp only [pollRound, Prog.state_bind, Prog.state_ite, Prog.state_pure, ite_self, hstate]

/-- What one poll does. -/
theorem Polled.round {i : ℕ} {a : Poll} {t : Sd} (h : Polled H sta s i a t) :
    ((pollRound H i a).val t).Holds (fun b => Polled H sta s (i + 1) b ((pollRound H i a).state t))
      fun code => Ended H sta s i code ((pollRound H i a).state t) := by
  have hnext : InTransfer H t 0 ↔ InTransfer H s i := by rw [h.state]; rfl
  have hstate : (pollRound H i a).state t = { s with polls := s.polls + (i + 1) } := by
    rw [state_pollRound, h.state]
    rfl
  simp only [val_pollRound, hnext]
  by_cases hready : InTransfer H s i
  · rw [if_pos hready, Flow.holds_exit]
    exact ⟨hstate, hready, h.busy, h.sta⟩
  · rw [if_neg hready, Flow.holds_next]
    refine ⟨hstate, fun j hj => ?_, ?_, fun hi => ?_⟩
    · rcases Nat.lt_succ_iff_lt_or_eq.mp hj with hlt | rfl
      · exact h.busy j hlt
      · exact hready
    · have hsta := h.sta
      simp only [Poll.countDown]
      rcases Nat.lt_trichotomy i sdTimeout with hlt | heq | hgt
      · have htimeout := h.timeout (Nat.le_of_lt hlt)
        rw [if_neg (by omega), if_neg (by omega), hsta, if_neg (by omega)]
      · have htimeout := h.timeout (Nat.le_of_eq heq)
        rw [if_pos (by omega), if_pos (by omega)]
      · rw [hsta, if_pos hgt, ite_self, if_pos (by omega)]
    · have htimeout := h.timeout (by omega)
      have hfits : sdTimeout < 2 ^ 32 := by decide
      simp only [Poll.countDown]
      omega

/-- What the polls come to: a first one that was not in vain, or none among `fuel`. -/
theorem pollLoop_spec (fuel : ℕ) (sta : UInt8) (s : Sd) :
    ((pollLoop H fuel sta).val s).Holds
      (fun b => Polled H sta s fuel b ((pollLoop H fuel sta).state s))
      fun code => ∃ k < fuel, Ended H sta s k code ((pollLoop H fuel sta).state s) := by
  have hstart : Polled H sta s 0 ⟨sta, sdTimeout⟩ s :=
    ⟨rfl, fun j hj => absurd hj (Nat.not_lt_zero j), rfl, fun _ => rfl⟩
  exact Prog.loop_inv (I := Polled H sta s)
    (Q := fun code t => ∃ k < fuel, Ended H sta s k code t)
    (fun j hj a t h => h.round.imp (fun _ hb => hb) fun _ hended => ⟨j, hj, hended⟩)
    (Nat.zero_add fuel) hstart

/-- Polling moves nothing. -/
theorem keeps_waitTransfer (fuel : ℕ) (sta : UInt8) :
    (waitTransfer H fuel sta).Keeps fun s => (s.content, s.reads, s.writes) := by
  have hround (i : ℕ) (a : Poll) :
      (pollRound H i a).Keeps fun s => (s.content, s.reads, s.writes) := fun t => by
    rw [state_pollRound]
  refine .bind (.loop hround fuel 0 _) fun r => ?_
  cases r with
  | next a => exact .pure _
  | exit code => exact .bind (.modify fun _ => rfl) fun _ => .pure _

/-- The same with what is done behind the loop. -/
theorem waitTransfer_cases (fuel : ℕ) (sta : UInt8) (s : Sd) :
    ((waitTransfer H fuel sta).val s = none ∧ ∀ j < fuel, ¬ InTransfer H s j) ∨
      ∃ k < fuel, ∃ code t, Ended H sta s k code t ∧ (waitTransfer H fuel sta).val s = some code ∧
        (waitTransfer H fuel sta).state s = { t with intx := true } := by
  have hspec := pollLoop_spec (H := H) fuel sta s
  simp only [waitTransfer, Prog.val_bind, Prog.state_bind]
  cases hval : (pollLoop H fuel sta).val s with
  | next b =>
      rw [hval] at hspec
      exact .inl ⟨rfl, hspec.busy⟩
  | exit code =>
      rw [hval] at hspec
      obtain ⟨k, hk, hended⟩ := hspec
      exact .inr ⟨k, hk, code, _, hended, rfl, rfl⟩

/-- The polls end in time exactly if one of the first `SD_TIMEOUT` finds the card in its
transfer state. -/
theorem waitTransfer_inTime_iff (sta : UInt8) (s : Sd) :
    (∃ fuel, (waitTransfer H fuel sta).val s ≠ none ∧
      ((waitTransfer H fuel sta).state s).polls ≤ s.polls + sdTimeout) ↔
        ∃ k < sdTimeout, InTransfer H s k := by
  constructor
  · rintro ⟨fuel, hval, hpolls⟩
    rcases waitTransfer_cases fuel sta s with ⟨hnone, -⟩ | ⟨k, -, code, t, hended, -, hstate⟩
    · exact absurd hnone hval
    · refine ⟨k, ?_, hended.ready⟩
      rw [hstate, hended.state] at hpolls
      dsimp only at hpolls
      omega
  · rintro ⟨k, hk, hready⟩
    refine ⟨sdTimeout, ?_⟩
    rcases waitTransfer_cases sdTimeout sta s with
      ⟨-, hbusy⟩ | ⟨k', hk', code, t, hended, hval, hstate⟩
    · exact absurd hready (hbusy k hk)
    · refine ⟨by rw [hval]; exact Option.some_ne_none code, ?_⟩
      rw [hstate, hended.state]
      dsimp only
      omega

/-- Whatever the polls come to, a code of `0` is that of the transfer. -/
theorem waitTransfer_zero {fuel : ℕ} (h : (waitTransfer H fuel sta).val s = some 0) : sta = 0 := by
  rcases waitTransfer_cases (H := H) fuel sta s with ⟨hnone, -⟩ | ⟨k, -, code, t, hended, hval, -⟩
  · rw [hnone] at h
    cases h
  · rw [hval] at h
    have hcode : code = 0 := Option.some.inj h
    have hsta := hended.code
    rw [hcode] at hsta
    split at hsta
    · exact absurd hsta (by decide)
    · exact hsta.symm

end Polling

theorem HalStatus.code_eq_zero {sta : HalStatus} : sta.code = 0 ↔ sta = ok := by
  cases sta <;> decide

/-! ## Transfers -/

section Transfers
variable (fuel : ℕ) (pbuf : ℕ → UInt8) (saddr cnt : ℕ) (s : Sd)

theorem sdReadDisk_inTime_iff :
    (∃ fuel, ((sdReadDisk H fuel pbuf saddr cnt).val s).1 ≠ none ∧
      ((sdReadDisk H fuel pbuf saddr cnt).state s).polls ≤ s.polls + sdTimeout) ↔
        ∃ k < sdTimeout, InTransfer H s k :=
  waitTransfer_inTime_iff (H.readBlocks s.reads saddr cnt).code
    { s with intx := false, reads := s.reads + 1 }

theorem sdWriteDisk_inTime_iff :
    (∃ fuel, (sdWriteDisk H fuel pbuf saddr cnt).val s ≠ none ∧
      ((sdWriteDisk H fuel pbuf saddr cnt).state s).polls ≤ s.polls + sdTimeout) ↔
        ∃ k < sdTimeout, InTransfer H s k :=
  waitTransfer_inTime_iff (H.writeBlocks s.writes saddr cnt).code
    ((halSdWriteBlocks H pbuf saddr cnt).state { s with intx := false })

variable {H fuel pbuf saddr cnt s} in
theorem readBlocks_ok (h : ((sdReadDisk H fuel pbuf saddr cnt).val s).1 = some 0) :
    H.readBlocks s.reads saddr cnt = .ok := HalStatus.code_eq_zero.mp (waitTransfer_zero h)

variable {H fuel pbuf saddr cnt s} in
theorem writeBlocks_ok (h : (sdWriteDisk H fuel pbuf saddr cnt).val s = some 0) :
    H.writeBlocks s.writes saddr cnt = .ok := HalStatus.code_eq_zero.mp (waitTransfer_zero h)

/-- What is on the card. -/
def Sd.medium (s : Sd) : Medium := ⟨H.logBlockNbr, s.content⟩

/-- A read that reports `0` has delivered the sectors. -/
theorem sdReadDisk_holds (h : ((sdReadDisk H fuel pbuf saddr cnt).val s).1 = some 0) :
    (s.medium H).Holds 512 saddr cnt ((sdReadDisk H fuel pbuf saddr cnt).val s).2 := by
  have hok := readBlocks_ok h
  have hbuf : ((sdReadDisk H fuel pbuf saddr cnt).val s).2 =
      overlay pbuf 0 (shift s.content (saddr * 512)) (cnt * 512) := if_pos hok
  rw [hbuf]
  exact Medium.holds_delivered (H.read_inside _ _ _ hok)

/-- A write that reports `0` has stored the sectors. -/
theorem sdWriteDisk_holds (h : (sdWriteDisk H fuel pbuf saddr cnt).val s = some 0) :
    (((sdWriteDisk H fuel pbuf saddr cnt).state s).medium H).Holds 512 saddr cnt pbuf := by
  have hok := writeBlocks_ok h
  have hkeeps := keeps_waitTransfer (H := H) fuel (H.writeBlocks s.writes saddr cnt).code
    ((halSdWriteBlocks H pbuf saddr cnt).state { s with intx := false })
  have hstored : ((sdWriteDisk H fuel pbuf saddr cnt).state s).content =
      overlay s.content (saddr * 512) pbuf (cnt * 512) :=
    (congrArg Prod.fst hkeeps).trans (if_pos hok)
  rw [Sd.medium, hstored]
  exact Medium.holds_stored (H.write_inside _ _ _ hok)

end Transfers

/-- The card fails every transfer of these blocks from now on. -/
def FailsReads (blk n : ℕ) (s : Sd) : Prop := ∀ k, H.readBlocks (s.reads + k) blk n ≠ .ok

def FailsWrites (blk n : ℕ) (s : Sd) : Prop := ∀ k, H.writeBlocks (s.writes + k) blk n ≠ .ok

section Failing
variable {H} {blk n : ℕ}

theorem FailsReads.of_le {s t : Sd} (h : FailsReads H blk n s) (hle : s.reads ≤ t.reads) :
    FailsReads H blk n t := fun k => by
  have hlater := h (t.reads - s.reads + k)
  rwa [← Nat.add_assoc, Nat.add_sub_cancel' hle] at hlater

theorem FailsWrites.of_le {s t : Sd} (h : FailsWrites H blk n s) (hle : s.writes ≤ t.writes) :
    FailsWrites H blk n t := fun k => by
  have hlater := h (t.writes - s.writes + k)
  rwa [← Nat.add_assoc, Nat.add_sub_cancel' hle] at hlater

/-- A new start of the card moves nothing. -/
theorem keeps_sdInit : (sdInit H).Keeps fun s => (s.content, s.reads, s.writes) :=
  .bind (.bind (.get _) fun _ => .bind (.modify fun _ => rfl) fun _ => .pure _) fun _ =>
    .ite _ (.pure _) <|
      .bind (.bind (.get _) fun _ => .bind (.modify fun _ => rfl) fun _ => .pure _) fun _ =>
        .ite _ (.pure _) (.pure _)

theorem reads_sdReadDisk (fuel : ℕ) (pbuf : ℕ → UInt8) (saddr cnt : ℕ) (s : Sd) :
    ((sdReadDisk H fuel pbuf saddr cnt).state s).reads = s.reads + 1 :=
  congrArg (·.2.1) (keeps_waitTransfer (H := H) fuel (H.readBlocks s.reads saddr cnt).code
    { s with intx := false, reads := s.reads + 1 })

theorem writes_sdWriteDisk (fuel : ℕ) (pbuf : ℕ → UInt8) (saddr cnt : ℕ) (s : Sd) :
    ((sdWriteDisk H fuel pbuf saddr cnt).state s).writes = s.writes + 1 :=
  congrArg (·.2.2) (keeps_waitTransfer (H := H) fuel (H.writeBlocks s.writes saddr cnt).code
    ((halSdWriteBlocks H pbuf saddr cnt).state { s with intx := false }))

/-- A card that fails reports no `0`. -/
theorem FailsReads.code_ne_zero {s : Sd} (h : FailsReads H blk n s) (fuel : ℕ)
    (pbuf : ℕ → UInt8) : ((sdReadDisk H fuel pbuf blk n).val s).1 ≠ some 0 :=
  fun hzero => h 0 (readBlocks_ok hzero)

theorem FailsWrites.code_ne_zero {s : Sd} (h : FailsWrites H blk n s) (fuel : ℕ)
    (pbuf : ℕ → UInt8) : (sdWriteDisk H fuel pbuf blk n).val s ≠ some 0 :=
  fun hzero => h 0 (writeBlocks_ok hzero)

end Failing

/-- The driver of the card, as far as `fuel` polls go. -/
def sdDriver (fuel : ℕ) : Driver Sd := ⟨sdReadDisk H fuel, sdWriteDisk H fuel⟩

end Apollo.Sdio
