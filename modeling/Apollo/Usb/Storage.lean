import Apollo.Lib.Block
import Apollo.Norflash.Driver

/-!
# USB mass storage

`STORAGE_Read_FS` and `STORAGE_Write_FS` serve three units.  The NOR flash has no error to
report.  The NAND flash and the SD card have drivers whose codes are errors when they are not
`0`: a write hands the code on to the host, a read notes it and reports success.  A unit that
does not exist is served too, with nothing at all.

## Main definitions

* `Storage` — the three media, `g_usb_state_reg` and the console.
* `storageReadFS`, `storageWriteFS` — the code, for any two drivers.
* `media_storageWriteFS` — a write leaves the media as the driver of the unit does.
-/

namespace Apollo.Usb
open Lib Norflash

/-- `MSC_MEDIA_PACKET`. -/
abbrev mscMediaPacket : ℕ := 32 * 1024
/-- `USBD_OK`. -/
abbrev usbdOk : Int8 := 0
/-- `USB_STORAGE_FLASH_BASE`. -/
abbrev usbStorageFlashBase : ℕ := 0

/-- The NOR flash, the NAND flash with its FTL, the SD card, and what is noted of transfers. -/
structure Storage (σ τ : Type) where
  nor : Nor
  nand : σ
  card : τ
  gUsbStateReg : UInt8
  console : List String

section Code
variable {σ τ α : Type} (P : Part) (N : Driver σ) (C : Driver τ)

/-- A program of the driver of the NOR flash. -/
def onNor (p : Prog Nor α) : Prog (Storage σ τ) α :=
  p.within Storage.nor fun nor s => { s with nor := nor }

/-- A program of the FTL. -/
def onNand (p : Prog σ α) : Prog (Storage σ τ) α :=
  p.within Storage.nand fun nand s => { s with nand := nand }

/-- A program of the driver of the card. -/
def onCard (p : Prog τ α) : Prog (Storage σ τ) α :=
  p.within Storage.card fun card s => { s with card := card }

/-- Set bits of `g_usb_state_reg`. -/
def mark (bits : UInt8) : Prog (Storage σ τ) Unit :=
  Prog.modify fun s => { s with gUsbStateReg := s.gUsbStateReg ||| bits }

/-- `if (res)`: print the error and mark it. -/
def noteError (text : String) (bits : UInt8) (lun : ℕ) (res : Option Int8) :
    Prog (Storage σ τ) Unit :=
  match res with
  | none => pure ()
  | some res =>
    if res ≠ 0 then do
      Prog.modify fun s =>
        { s with console := s.console ++ [text ++ toString lun ++ "," ++ toString res] }
      mark bits
    else pure ()

/-- The `switch` of `STORAGE_Read_FS`: `res` as the driver gives it, and the buffer. -/
def readUnit (lun : ℕ) (buf : ℕ → UInt8) (blkAddr blkLen : ℕ) :
    Prog (Storage σ τ) (Option UInt8 × (ℕ → UInt8)) :=
  if lun = 0 then do
    let buf ← onNor (norflashRead P buf ((usbStorageFlashBase + blkAddr * 512) % 2 ^ 32)
      (blkLen * 512 % 2 ^ 16))
    pure (some 0, buf)
  else if lun = 1 then onNand (N.read buf blkAddr blkLen)
  else if lun = 2 then onCard (C.read buf blkAddr blkLen)
  else pure (some 0, buf)

/-- `STORAGE_Read_FS`: the result, if the driver returns, and the buffer afterwards. -/
def storageReadFS (lun : ℕ) (buf : ℕ → UInt8) (blkAddr blkLen : ℕ) :
    Prog (Storage σ τ) (Option Int8 × (ℕ → UInt8)) := do
  mark 0x02
  let read ← readUnit P N C lun buf blkAddr blkLen
  noteError "rerr:" 0x08 lun (read.1.map UInt8.toInt8)
  pure (read.1.map fun _ => usbdOk, read.2)

/-- The `switch` of `STORAGE_Write_FS`. -/
def writeUnit (lun : ℕ) (buf : ℕ → UInt8) (blkAddr blkLen : ℕ) :
    Prog (Storage σ τ) (Option UInt8) :=
  if lun = 0 then do
    onNor (norflashWrite P buf ((usbStorageFlashBase + blkAddr * 512) % 2 ^ 32)
      (blkLen * 512 % 2 ^ 16))
    pure (some 0)
  else if lun = 1 then onNand (N.write buf blkAddr blkLen)
  else if lun = 2 then onCard (C.write buf blkAddr blkLen)
  else pure (some 0)

/-- `STORAGE_Write_FS`. -/
def storageWriteFS (lun : ℕ) (buf : ℕ → UInt8) (blkAddr blkLen : ℕ) :
    Prog (Storage σ τ) (Option Int8) := do
  mark 0x01
  let res ← writeUnit P N C lun buf blkAddr blkLen
  noteError "werr:" 0x04 lun (res.map UInt8.toInt8)
  pure (res.map UInt8.toInt8)

end Code

section Units
variable {σ τ : Type} (P : Part) (N : Driver σ) (C : Driver τ)

/-- The three media. -/
def Storage.media (s : Storage σ τ) : Nor × σ × τ := (s.nor, s.nand, s.card)

/-- Errors are noted, and nothing else. -/
theorem keeps_noteError (text : String) (bits : UInt8) (lun : ℕ) (res : Option Int8) :
    (noteError text bits lun res).Keeps (Storage.media (σ := σ) (τ := τ)) := by
  cases res with
  | none => exact .pure _
  | some res =>
      exact .ite _ (.bind (.modify fun _ => rfl) fun _ => .modify fun _ => rfl) (.pure _)

/-- A write leaves the media as the driver of the unit does. -/
theorem media_storageWriteFS (lun : ℕ) (buf : ℕ → UInt8) (blk n : ℕ) (s : Storage σ τ) :
    ((storageWriteFS P N C lun buf blk n).state s).media =
      ((writeUnit P N C lun buf blk n).state ((mark 0x01).state s)).media :=
  keeps_noteError ..

end Units

end Apollo.Usb
