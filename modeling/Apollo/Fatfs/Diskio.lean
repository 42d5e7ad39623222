import Apollo.Norflash.Driver
import Apollo.Sdio.Sdcard

/-!
# The disks of FatFs

`disk_read` and `disk_write` serve three disks.  The NOR flash has no error to report, and the
NAND flash has its FTL report one.  The SD card is asked again and again, after a new start of
it, until a transfer has succeeded: there is no error to report behind that loop, and a card
that fails every transfer is asked for ever.

## Main definitions

* `Drives` — the three disks; `diskRead`, `diskWrite` — the code.
* `EndsOnFailure` — an access to the card ends, and reports that the card fails.
* `diskRead_of_fails`, `diskWrite_of_fails` — a card that fails is asked for ever.
* `endsOnFailure_iff` — when an access to the card ends.
-/

namespace Apollo.Fatfs
open Lib Norflash Sdio

/-- `SD_CARD`. -/
abbrev sdCard : ℕ := 0
/-- `EX_FLASH`. -/
abbrev exFlash : ℕ := 1
/-- `EX_NAND`. -/
abbrev exNand : ℕ := 2

/-- `DRESULT`. -/
inductive Dresult where
  | ok
  | error
  | wrprt
  | notrdy
  | parerr
  deriving DecidableEq

/-- The card, the NOR flash, and the NAND flash with its FTL. -/
structure Drives (σ : Type) where
  sd : Sd
  nor : Nor
  nand : σ

section Code
variable {σ α : Type} (H : Hal) (P : Part) (N : Driver σ)

/-- A program of the driver of the card. -/
def onSd (p : Prog Sd α) : Prog (Drives σ) α :=
  p.within Drives.sd fun sd s => { s with sd := sd }

/-- A program of the driver of the NOR flash. -/
def onNor (p : Prog Nor α) : Prog (Drives σ) α :=
  p.within Drives.nor fun nor s => { s with nor := nor }

/-- A program of the FTL. -/
def onNand (p : Prog σ α) : Prog (Drives σ) α :=
  p.within Drives.nand fun nand s => { s with nand := nand }

/-- One round of the loop that reads the card again; `res` and the buffer so far. -/
def readAgain (fuel sector count _i : ℕ) (a : UInt8 × (ℕ → UInt8)) :
    Prog Sd (Flow (UInt8 × (ℕ → UInt8)) (Option UInt8 × (ℕ → UInt8))) :=
  if a.1 ≠ 0 then do
    let _ ← sdInit H
    let again ← sdReadDisk H fuel a.2 sector count
    match again.1 with
    | none => pure (.exit again)
    | some res => pure (.next (res, again.2))
  else pure (.exit (some a.1, a.2))

/-- The case `SD_CARD` of `disk_read`, as far as `fuel` rounds of each loop go. -/
def readCard (fuel : ℕ) (buff : ℕ → UInt8) (sector count : ℕ) :
    Prog Sd (Option UInt8 × (ℕ → UInt8)) := do
  let first ← sdReadDisk H fuel buff sector count
  match first.1 with
  | none => pure first
  | some res => do
    match ← Prog.loop (readAgain H fuel sector count) fuel 0 (res, first.2) with
    | .next a => pure (none, a.2)
    | .exit last => pure last

/-- The case `EX_FLASH` of `disk_read`. -/
def readFlash (buff : ℕ → UInt8) (sector count : ℕ) : Prog Nor (ℕ → UInt8) :=
  Prog.forUp (fun i buff => do
    let part ← norflashRead P (shift buff (i * 512)) ((sector + i) * 512 % 2 ^ 32) 512
    pure (graft buff (i * 512) part)) count 0 buff

/-- What FatFs makes of a code. -/
def dresult (res : UInt8) : Dresult := if res = 0 then .ok else .error

/-- `disk_read`: the result, if there is one after `fuel` rounds, and the buffer afterwards. -/
def diskRead (fuel pdrv : ℕ) (buff : ℕ → UInt8) (sector count : ℕ) :
    Prog (Drives σ) (Option Dresult × (ℕ → UInt8)) :=
  if count = 0 then pure (some .parerr, buff)
  else do
    let read ←
      if pdrv = sdCard then onSd (readCard H fuel buff sector count)
      else if pdrv = exFlash then do
        let buff ← onNor (readFlash P buff sector count)
        pure (some 0, buff)
      else if pdrv = exNand then onNand (N.read buff sector count)
      else pure (some 1, buff)
    pure (read.1.map dresult, read.2)

/-- One round of the loop that writes the card again. -/
def writeAgain (fuel : ℕ) (buff : ℕ → UInt8) (sector count _i : ℕ) (res : UInt8) :
    Prog Sd (Flow UInt8 (Option UInt8)) :=
  if res ≠ 0 then do
    let _ ← sdInit H
    match ← sdWriteDisk H fuel buff sector count with
    | none => pure (.exit none)
    | some res => pure (.next res)
  else pure (.exit (some res))

/-- The case `SD_CARD` of `disk_write`. -/
def writeCard (fuel : ℕ) (buff : ℕ → UInt8) (sector count : ℕ) : Prog Sd (Option UInt8) := do
  match ← sdWriteDisk H fuel buff sector count with
  | none => pure none
  | some res => do
    match ← Prog.loop (writeAgain H fuel buff sector count) fuel 0 res with
    | .next _ => pure none
    | .exit last => pure last

/-- The case `EX_FLASH` of `disk_write`. -/
def writeFlash (buff : ℕ → UInt8) (sector count : ℕ) : Prog Nor Unit :=
  Prog.forUp (fun i _ => norflashWrite P (shift buff (i * 512)) ((sector + i) * 512 % 2 ^ 32) 512)
    count 0 ()

/-- `disk_write`. -/
def diskWrite (fuel pdrv : ℕ) (buff : ℕ → UInt8) (sector count : ℕ) :
    Prog (Drives σ) (Option Dresult) :=
  if count = 0 then pure (some .parerr)
  else do
    let res ←
      if pdrv = sdCard then onSd (writeCard H fuel buff sector count)
      else if pdrv = exFlash then do
        onNor (writeFlash P buff sector count)
        pure (some 0)
      else if pdrv = exNand then onNand (N.write buff sector count)
      else pure (some 1)
    pure (res.map dresult)

end Code

/-! ## A card that fails -/

section Failing
variable {H : Hal} {fuel sector count : ℕ}

/-- A card that fails once more is asked once more. -/
theorem readAgain_of_fails (fuel i : ℕ) {a : UInt8 × (ℕ → UInt8)} {t : Sd} (ha : a.1 ≠ 0)
    (h : FailsReads H sector count t) :
    ((readAgain H fuel sector count i a).val t).Holds
      (fun b => b.1 ≠ 0 ∧ FailsReads H sector count ((readAgain H fuel sector count i a).state t))
      fun last => last.1 = none := by
  obtain ⟨started, hstarted⟩ : ∃ started, started = (sdInit H).state t := ⟨_, rfl⟩
  have hfails : FailsReads H sector count started := by
    refine h.of_le (Nat.le_of_eq ?_)
    rw [hstarted]
    exact (congrArg (·.2.1) (keeps_sdInit t)).symm
  have hcode := hfails.code_ne_zero fuel a.2
  have hlater : FailsReads H sector count ((sdReadDisk H fuel a.2 sector count).state started) :=
    hfails.of_le (by rw [reads_sdReadDisk]; exact Nat.le_succ _)
  simp only [readAgain, if_pos ha, Prog.val_bind, Prog.state_bind, ← hstarted]
  cases hval : ((sdReadDisk H fuel a.2 sector count).val started).1 with
  | none => exact hval
  | some res => exact ⟨fun hres => hcode (hval.trans (congrArg some hres)), hlater⟩

theorem writeAgain_of_fails (fuel : ℕ) (buff : ℕ → UInt8) (i : ℕ) {res : UInt8} {t : Sd}
    (hres : res ≠ 0) (h : FailsWrites H sector count t) :
    ((writeAgain H fuel buff sector count i res).val t).Holds
      (fun res' => res' ≠ 0 ∧
        FailsWrites H sector count ((writeAgain H fuel buff sector count i res).state t))
      fun last => last = none := by
  obtain ⟨started, hstarted⟩ : ∃ started, started = (sdInit H).state t := ⟨_, rfl⟩
  have hfails : FailsWrites H sector count started := by
    refine h.of_le (Nat.le_of_eq ?_)
    rw [hstarted]
    exact (congrArg (·.2.2) (keeps_sdInit t)).symm
  have hcode := hfails.code_ne_zero fuel buff
  have hlater : FailsWrites H sector count ((sdWriteDisk H fuel buff sector count).state started) :=
    hfails.of_le (by rw [writes_sdWriteDisk]; exact Nat.le_succ _)
  simp only [writeAgain, if_pos hres, Prog.val_bind, Prog.state_bind, ← hstarted]
  cases hval : (sdWriteDisk H fuel buff sector count).val started with
  | none => rfl
  | some res' => exact ⟨fun hzero => hcode (hval.trans (congrArg some hzero)), hlater⟩

/-- A card that fails every read is read for ever. -/
theorem readCard_of_fails {buff : ℕ → UInt8} {s : Sd} (h : FailsReads H sector count s) :
    ((readCard H fuel buff sector count).val s).1 = none := by
  have hcode := h.code_ne_zero fuel buff
  have hlater : FailsReads H sector count ((sdReadDisk H fuel buff sector count).state s) :=
    h.of_le (by rw [reads_sdReadDisk]; exact Nat.le_succ _)
  simp only [readCard, Prog.val_bind]
  cases hval : ((sdReadDisk H fuel buff sector count).val s).1 with
  | none => exact hval
  | some res =>
      have hres : res ≠ 0 := fun hzero => hcode (hval.trans (congrArg some hzero))
      have hloop := Prog.loop_inv (n := fuel)
        (I := fun _ a t => a.1 ≠ 0 ∧ FailsReads H sector count t)
        (Q := fun (last : Option UInt8 × (ℕ → UInt8)) _ => last.1 = none)
        (fun j _ a t ha => readAgain_of_fails fuel j ha.1 ha.2) (Nat.zero_add fuel)
        (a := (res, ((sdReadDisk H fuel buff sector count).val s).2)) ⟨hres, hlater⟩
      simp only [Prog.val_bind]
      cases hlast : (Prog.loop (readAgain H fuel sector count) fuel 0
          (res, ((sdReadDisk H fuel buff sector count).val s).2)).val
          ((sdReadDisk H fuel buff sector count).state s) with
      | next a => rfl
      | exit last =>
          rw [hlast] at hloop
          exact hloop

/-- A card that fails every write is written for ever. -/
theorem writeCard_of_fails {buff : ℕ → UInt8} {s : Sd} (h : FailsWrites H sector count s) :
    (writeCard H fuel buff sector count).val s = none := by
  have hcode := h.code_ne_zero fuel buff
  have hlater : FailsWrites H sector count ((sdWriteDisk H fuel buff sector count).state s) :=
    h.of_le (by rw [writes_sdWriteDisk]; exact Nat.le_succ _)
  simp only [writeCard, Prog.val_bind]
  cases hval : (sdWriteDisk H fuel buff sector count).val s with
  | none => rfl
  | some res =>
      have hres : res ≠ 0 := fun hzero => hcode (hval.trans (congrArg some hzero))
      have hloop := Prog.loop_inv (n := fuel)
        (I := fun _ res t => res ≠ 0 ∧ FailsWrites H sector count t)
        (Q := fun last _ => last = none)
        (fun j _ res t hr => writeAgain_of_fails fuel buff j hr.1 hr.2) (Nat.zero_add fuel)
        (a := res) ⟨hres, hlater⟩
      simp only [Prog.val_bind]
      cases hlast : (Prog.loop (writeAgain H fuel buff sector count) fuel 0 res).val
          ((sdWriteDisk H fuel buff sector count).state s) with
      | next a => rfl
      | exit last =>
          rw [hlast] at hloop
          exact hloop

end Failing

/-! ## When an access ends -/

section Access
variable {σ : Type} (H : Hal) (P : Part) (N : Driver σ)

/-- The two functions of the driver return after `SD_TIMEOUT` polls at most, and a card that
fails every transfer is reported as an error. -/
structure EndsOnFailure (s : Drives σ) (buff : ℕ → UInt8) (sector count : ℕ) : Prop where
  sdReadDisk : ∃ fuel, ((sdReadDisk H fuel buff sector count).val s.sd).1 ≠ none ∧
    ((sdReadDisk H fuel buff sector count).state s.sd).polls ≤ s.sd.polls + sdTimeout
  sdWriteDisk : ∃ fuel, (sdWriteDisk H fuel buff sector count).val s.sd ≠ none ∧
    ((sdWriteDisk H fuel buff sector count).state s.sd).polls ≤ s.sd.polls + sdTimeout
  diskRead : 0 < count → FailsReads H sector count s.sd →
    ∃ fuel, ((diskRead H P N fuel sdCard buff sector count).val s).1 = some .error
  diskWrite : 0 < count → FailsWrites H sector count s.sd →
    ∃ fuel, (diskWrite H P N fuel sdCard buff sector count).val s = some .error

variable {H P N} {s : Drives σ} {buff : ℕ → UInt8} {sector count : ℕ}

theorem diskRead_of_fails (hcount : 0 < count) (h : FailsReads H sector count s.sd) (fuel : ℕ) :
    ((diskRead H P N fuel sdCard buff sector count).val s).1 = none := by
  have hval : ((diskRead H P N fuel sdCard buff sector count).val s).1 =
      ((readCard H fuel buff sector count).val s.sd).1.map dresult := by
    rw [diskRead, if_neg (by omega)]
    rfl
  rw [hval, readCard_of_fails h, Option.map_none]

theorem diskWrite_of_fails (hcount : 0 < count) (h : FailsWrites H sector count s.sd)
    (fuel : ℕ) : (diskWrite H P N fuel sdCard buff sector count).val s = none := by
  have hval : (diskWrite H P N fuel sdCard buff sector count).val s =
      ((writeCard H fuel buff sector count).val s.sd).map dresult := by
    rw [diskWrite, if_neg (by omega)]
    rfl
  rw [hval, writeCard_of_fails h, Option.map_none]

/-- An access ends, whatever it is asked for, exactly if one of the next `SD_TIMEOUT` polls
finds the card in its transfer state, and some read and some write that `disk_read` and
`disk_write` ask for succeed. -/
theorem endsOnFailure_iff (H : Hal) (P : Part) (N : Driver σ) (s : Drives σ)
    (buff : ℕ → UInt8) (sector count : ℕ) :
    EndsOnFailure H P N s buff sector count ↔
      (∃ k < sdTimeout, H.cardState (s.sd.polls + k) = halSdCardTransfer) ∧
        (0 < count → (∃ k, H.readBlocks (s.sd.reads + k) sector count = .ok) ∧
          ∃ k, H.writeBlocks (s.sd.writes + k) sector count = .ok) := by
  constructor
  · intro h
    refine ⟨(sdReadDisk_inTime_iff H buff sector count s.sd).mp h.sdReadDisk, fun hcount => ?_⟩
    constructor
    · by_contra hnone
      have hfails : FailsReads H sector count s.sd := fun k hok => hnone ⟨k, hok⟩
      obtain ⟨fuel, herror⟩ := h.diskRead hcount hfails
      rw [diskRead_of_fails hcount hfails] at herror
      cases herror
    · by_contra hnone
      have hfails : FailsWrites H sector count s.sd := fun k hok => hnone ⟨k, hok⟩
      obtain ⟨fuel, herror⟩ := h.diskWrite hcount hfails
      rw [diskWrite_of_fails hcount hfails] at herror
      cases herror
  · rintro ⟨hready, hsome⟩
    refine ⟨(sdReadDisk_inTime_iff H buff sector count s.sd).mpr hready,
      (sdWriteDisk_inTime_iff H buff sector count s.sd).mpr hready, ?_, ?_⟩
    · intro hcount hfails
      obtain ⟨k, hok⟩ := (hsome hcount).1
      exact absurd hok (hfails k)
    · intro hcount hfails
      obtain ⟨k, hok⟩ := (hsome hcount).2
      exact absurd hok (hfails k)

/-- A card that has been pulled out: no command is answered. -/
def pulledOut : Hal where
  logBlockNbr := 2 ^ 20
  init _ := .error
  configWideBus _ := .error
  readBlocks _ _ _ := .error
  writeBlocks _ _ _ := .error
  cardState _ := 0
  readLeft _ _ := 0
  writeLeft _ _ := 0
  read_inside _ _ _ h := by cases h
  write_inside _ _ _ h := by cases h

/-- A card that is pulled out is polled, and asked, for ever. -/
theorem endsOnFailure_pulledOut :
    ¬ ∀ (σ : Type) (H : Hal) (P : Part) (N : Driver σ) (s : Drives σ) (buff : ℕ → UInt8)
      (sector count : ℕ), EndsOnFailure H P N s buff sector count := by
  intro h
  have hends := h Medium pulledOut part25q256 (Driver.idle Medium 1)
    ⟨.fresh, .fresh, ⟨0, fun _ => 0⟩⟩ (fun _ => 0) 0 1
  obtain ⟨k, -, hready⟩ := (sdReadDisk_inTime_iff pulledOut _ 0 1 .fresh).mp hends.sdReadDisk
  cases hready

end Access

end Apollo.Fatfs
