import Apollo.Usb.Storage

/-!
# The SCSI commands of the mass storage class

`usbd_msc_scsi.c` carries out the command that came with the last CBW.  The two bulk endpoints
hold what was handed to `USBD_LL_Transmit`, and say what the next packet of the host is for; the
buffers are handed over by reference, so that what is sent is what they hold by then.

The medium is reached through the functions that `usbd_storage.c` registers, here a parameter.
A command that never returns gives `none`.

## Main definitions

* `Msc` — the handle of the class, its endpoints and the medium; `Fops` — the functions of the
  medium.
* `scsiProcessCmd` and the functions under it — the code.
-/

namespace Apollo.Usb
open Lib

/-- `bot_state`. -/
inductive BotState where
  | idle
  | dataOut
  | dataIn
  | lastDataIn
  | sendData
  | noData
  deriving DecidableEq

/-- `bot_status`. -/
inductive BotStatus where
  | normal
  | recovery
  | error
  deriving DecidableEq

/-- `scsi_medium_state`. -/
inductive MediumState where
  | unlocked
  | locked
  | ejected
  deriving DecidableEq

/-- An entry of `scsi_sense`. -/
structure Sense where
  skey : ℕ
  asc : ℕ
  ascq : ℕ
  deriving DecidableEq

/-- `csw`. -/
structure Csw where
  dSignature : ℕ
  dTag : ℕ
  dDataResidue : ℕ
  bStatus : ℕ
  deriving DecidableEq

/-- What is to be sent: so many bytes of `bot_data`, or `csw`. -/
inductive Tx where
  | data (len : ℕ)
  | csw
  deriving DecidableEq

/-- Where the next packet of the host goes: to `cbw`, or up to so many bytes to `bot_data`. -/
inductive Rx where
  | cbw
  | data (len : ℕ)
  deriving DecidableEq

/-- The handle of the class, its two endpoints, and the medium. -/
structure Msc (σ : Type) where
  maxLun : ℕ
  botState : BotState
  botStatus : BotStatus
  botDataLength : ℕ
  botData : ℕ → UInt8
  cbw : ℕ → UInt8
  csw : Csw
  scsiSense : ℕ → Sense
  scsiSenseHead : ℕ
  scsiSenseTail : ℕ
  scsiMediumState : MediumState
  scsiBlkSize : ℕ
  scsiBlkNbr : ℕ → ℕ
  scsiBlkAddr : ℕ
  scsiBlkLen : ℕ
  tx : Option Tx
  rx : Option Rx
  rxSize : ℕ
  stallIn : Bool
  stallOut : Bool
  disk : σ

/-- `USBD_StorageTypeDef`.  What `GetCapacity` does not set stays as it was; a read or a write
may never return. -/
structure Fops (σ : Type) where
  init : ℕ → Prog σ ℤ
  getCapacity : ℕ → ℕ × ℕ → Prog σ (ℤ × ℕ × ℕ)
  isReady : ℕ → Prog σ ℤ
  isWriteProtected : ℕ → Prog σ ℤ
  read : ℕ → (ℕ → UInt8) → ℕ → ℕ → Prog σ (Option ℤ × (ℕ → UInt8))
  write : ℕ → (ℕ → UInt8) → ℕ → ℕ → Prog σ (Option ℤ)
  getMaxLun : Prog σ ℤ
  inquiry : ℕ → UInt8

/-! ## Fields in bytes -/

/-- Two bytes, the higher first. -/
def be16 (p : ℕ → UInt8) (i : ℕ) : ℕ := (p i).toNat * 256 + (p (i + 1)).toNat

/-- Four bytes, the highest first. -/
def be32 (p : ℕ → UInt8) (i : ℕ) : ℕ := be16 p i * 65536 + be16 p (i + 2)

/-- Four bytes, the lowest first. -/
def le32 (p : ℕ → UInt8) (i : ℕ) : ℕ :=
  (((p (i + 3)).toNat * 256 + (p (i + 2)).toNat) * 256 + (p (i + 1)).toNat) * 256 + (p i).toNat

/-- Subtraction in 32 bits. -/
def sub32 (a b : ℕ) : ℕ := (((a : ℤ) - b) % 4294967296).toNat

/-- A number as four bytes, the highest first. -/
def beBytes (n : ℕ) : ℕ → UInt8 := fun j => UInt8.ofNat (n >>> (24 - 8 * j))

section Cbw
variable {σ : Type} (h : Msc σ)

def Msc.dSignature : ℕ := le32 h.cbw 0
def Msc.dTag : ℕ := le32 h.cbw 4
def Msc.dDataLength : ℕ := le32 h.cbw 8
def Msc.bmFlags : ℕ := (h.cbw 12).toNat
def Msc.bLUN : ℕ := (h.cbw 13).toNat
def Msc.bCBLength : ℕ := (h.cbw 14).toNat
def Msc.cb : ℕ → UInt8 := shift h.cbw 15

end Cbw

/-! ## Tables -/

/-- `MSC_Page00_Inquiry_Data`. -/
def mscPage00InquiryData : ℕ → UInt8 := fun j => [0x00, 0x00, 0x00, 6 - 4, 0x00, 0x80].getD j 0

/-- `MSC_Page80_Inquiry_Data`. -/
def mscPage80InquiryData : ℕ → UInt8 := fun j =>
  [0x00, 0x80, 0x00, 8, 0x20, 0x20, 0x20, 0x20].getD j 0

/-- `MSC_Mode_Sense6_data`. -/
def mscModeSense6Data : ℕ → UInt8 := fun j => [0x22, 0x00, 0x00, 0x00, 0x08, 0x12].getD j 0

/-- `MSC_Mode_Sense10_data`. -/
def mscModeSense10Data : ℕ → UInt8 := fun j =>
  [0x00, 0x26, 0x00, 0x00, 0x00, 0x00, 0x00, 0x00, 0x08, 0x12].getD j 0

section Code
variable {σ α : Type} (F : Fops σ)

/-- A program of the medium. -/
def onDisk (p : Prog σ α) : Prog (Msc σ) α :=
  p.within Msc.disk fun disk h => { h with disk := disk }

def setBotState (s : BotState) : Prog (Msc σ) Unit := Prog.modify fun h => { h with botState := s }

def setDataLength (n : ℕ) : Prog (Msc σ) Unit := Prog.modify fun h => { h with botDataLength := n }

/-- Bytes of `bot_data` change. -/
def putData (at_ : ℕ) (p : ℕ → UInt8) (n : ℕ) : Prog (Msc σ) Unit :=
  Prog.modify fun h => { h with botData := overlay h.botData at_ p n }

/-- `MSC_BOT_SendCSW`. -/
def mscBotSendCSW (cswStatus : ℕ) : Prog (Msc σ) Unit := Prog.modify fun h =>
  { h with
    csw := { h.csw with dSignature := 0x53425355, bStatus := cswStatus }
    botState := .idle
    tx := some .csw
    rx := some .cbw }

/-- `SCSI_SenseCode`. -/
def scsiSenseCode (sKey asc : ℕ) : Prog (Msc σ) Unit := Prog.modify fun h =>
  { h with
    scsiSense := Function.update h.scsiSense h.scsiSenseTail ⟨sKey, asc, 0⟩
    scsiSenseTail := if h.scsiSenseTail + 1 = 4 then 0 else h.scsiSenseTail + 1 }

/-- A sense code and -1. -/
def refuse (sKey asc : ℕ) : Prog (Msc σ) ℤ := do
  scsiSenseCode sKey asc
  pure (-1)

/-- What returns. -/
def returning (p : Prog (Msc σ) ℤ) : Prog (Msc σ) (Option ℤ) := do
  let r ← p
  pure (some r)

/-- `SCSI_TestUnitReady`. -/
def scsiTestUnitReady (lun : ℕ) : Prog (Msc σ) ℤ := do
  let h ← Prog.get id
  if h.dDataLength ≠ 0 then refuse 5 0x20
  else if h.scsiMediumState = .ejected then do
    scsiSenseCode 2 0x3A
    setBotState .noData
    pure (-1)
  else do
    let ready ← onDisk (F.isReady lun)
    if ready ≠ 0 then do
      scsiSenseCode 2 0x3A
      setBotState .noData
      pure (-1)
    else do
      setDataLength 0
      pure 0

/-- `SCSI_UpdateBotData`. -/
def scsiUpdateBotData (pBuff : ℕ → UInt8) (length : ℕ) : Prog (Msc σ) Unit := do
  setDataLength length
  putData 0 pBuff length

/-- `SCSI_Inquiry`. -/
def scsiInquiry (lun : ℕ) (params : ℕ → UInt8) : Prog (Msc σ) ℤ := do
  let h ← Prog.get id
  if h.dDataLength = 0 then refuse 5 0x20
  else if params 1 &&& 0x01 ≠ 0 then
    if params 2 = 0 then do
      scsiUpdateBotData mscPage00InquiryData 6
      pure 0
    else if params 2 = 0x80 then do
      scsiUpdateBotData mscPage80InquiryData 8
      pure 0
    else refuse 5 0x24
  else do
    let pPage := shift F.inquiry (lun * 36)
    let len := (pPage 4).toNat + 5
    scsiUpdateBotData pPage (if (params 4).toNat ≤ len then (params 4).toNat else len)
    pure 0

/-- The capacity that `SCSI_ReadCapacity10` and `SCSI_ReadCapacity16` note, and whether there is
a medium. -/
def noteCapacity (lun : ℕ) : Prog (Msc σ) Bool := do
  let h ← Prog.get id
  let r ← onDisk (F.getCapacity lun (h.scsiBlkNbr lun, h.scsiBlkSize))
  Prog.modify fun h =>
    { h with scsiBlkNbr := Function.update h.scsiBlkNbr lun r.2.1, scsiBlkSize := r.2.2 }
  pure (r.1 = 0 ∧ h.scsiMediumState ≠ .ejected)

/-- The last block, as it is sent. -/
def lastBlock (blkNbr : ℕ) : ℕ → UInt8 := beBytes (sub32 blkNbr 1)

/-- `SCSI_ReadCapacity10`. -/
def scsiReadCapacity10 (lun : ℕ) : Prog (Msc σ) ℤ := do
  let present ← noteCapacity F lun
  if present = true then do
    let h ← Prog.get id
    putData 0 (lastBlock (h.scsiBlkNbr lun)) 4
    putData 4 (beBytes h.scsiBlkSize) 4
    setDataLength 8
    pure 0
  else refuse 2 0x3A

/-- One round of the loop of `SCSI_ReadCapacity16`; `idx` is a byte. -/
def clearRound (length _i idx : ℕ) : Prog (Msc σ) (Lib.Flow ℕ Unit) :=
  if idx < length then do
    putData idx (fun _ => 0) 1
    pure (.next ((idx + 1) % 256))
  else pure (.exit ())

/-- `SCSI_ReadCapacity16`.  An index that has come round never leaves the loop. -/
def scsiReadCapacity16 (lun : ℕ) (params : ℕ → UInt8) : Prog (Msc σ) (Option ℤ) := do
  let present ← noteCapacity F lun
  if present = true then do
    let length := be32 params 10
    let cleared ← Prog.loop (clearRound length) 256 0 0
    match cleared with
    | .next _ => pure none
    | .exit _ => do
      let h ← Prog.get id
      putData 4 (lastBlock (h.scsiBlkNbr lun)) 4
      putData 8 (beBytes h.scsiBlkSize) 4
      setDataLength length
      pure (some 0)
  else do
    let r ← refuse 2 0x3A
    pure (some r)

/-- `SCSI_ReadFormatCapacity`. -/
def scsiReadFormatCapacity (lun : ℕ) : Prog (Msc σ) ℤ := do
  let h ← Prog.get id
  let r ← onDisk (F.getCapacity lun (0, 0))
  if r.1 = 0 ∧ h.scsiMediumState ≠ .ejected then do
    putData 0 (fun _ => 0) 12
    putData 3 (fun _ => 0x08) 1
    putData 4 (lastBlock r.2.1) 4
    putData 8 (beBytes r.2.2) 4
    putData 8 (fun _ => 0x02) 1
    setDataLength 12
    pure 0
  else refuse 2 0x3A

/-- `SCSI_ModeSense6`. -/
def scsiModeSense6 (params : ℕ → UInt8) : Prog (Msc σ) ℤ := do
  scsiUpdateBotData mscModeSense6Data (if (params 4).toNat ≤ 0x17 then (params 4).toNat else 0x17)
  pure 0

/-- `SCSI_ModeSense10`. -/
def scsiModeSense10 (params : ℕ → UInt8) : Prog (Msc σ) ℤ := do
  scsiUpdateBotData mscModeSense10Data (if (params 8).toNat ≤ 0x1B then (params 8).toNat else 0x1B)
  pure 0

/-- The oldest sense code goes into the buffer and out of the list. -/
def takeSense : Prog (Msc σ) Unit := do
  let h ← Prog.get id
  if h.scsiSenseHead ≠ h.scsiSenseTail then do
    let sense := h.scsiSense h.scsiSenseHead
    putData 2 (fun _ => UInt8.ofNat sense.skey) 1
    putData 12 (fun _ => UInt8.ofNat sense.asc) 1
    putData 13 (fun _ => UInt8.ofNat sense.ascq) 1
    Prog.modify fun h =>
      { h with scsiSenseHead := if h.scsiSenseHead + 1 = 4 then 0 else h.scsiSenseHead + 1 }
  else pure ()

/-- `SCSI_RequestSense`. -/
def scsiRequestSense (params : ℕ → UInt8) : Prog (Msc σ) ℤ := do
  let h ← Prog.get id
  if h.dDataLength = 0 then refuse 5 0x20
  else do
    putData 0 (fun _ => 0) 0x12
    putData 0 (fun _ => 0x70) 1
    putData 7 (fun _ => 0x12 - 6) 1
    takeSense
    setDataLength (if (params 4).toNat ≤ 0x12 then (params 4).toNat else 0x12)
    pure 0

/-- The medium state after `SCSI_StartStopUnit`. -/
def startStop (params : ℕ → UInt8) (s : MediumState) : MediumState :=
  if params 4 &&& 0x3 = 0x1 then .unlocked
  else if params 4 &&& 0x3 = 0x2 then .ejected
  else if params 4 &&& 0x3 = 0x3 then .unlocked
  else s

/-- `SCSI_StartStopUnit`. -/
def scsiStartStopUnit (params : ℕ → UInt8) : Prog (Msc σ) ℤ := do
  let h ← Prog.get id
  if h.scsiMediumState = .locked ∧ params 4 &&& 0x3 = 2 then refuse 5 0x24
  else do
    Prog.modify fun h => { h with scsiMediumState := startStop params h.scsiMediumState }
    setDataLength 0
    pure 0

/-- `SCSI_AllowPreventRemovable`. -/
def scsiAllowPreventRemovable (params : ℕ → UInt8) : Prog (Msc σ) ℤ := do
  Prog.modify fun h =>
    { h with scsiMediumState := if params 4 = 0 then .unlocked else .locked }
  setDataLength 0
  pure 0

/-- `SCSI_CheckAddressRange`. -/
def scsiCheckAddressRange (lun blkOffset blkNbr : ℕ) : Prog (Msc σ) ℤ := do
  let h ← Prog.get id
  if h.scsiBlkNbr lun < (blkOffset + blkNbr) % 4294967296 then refuse 5 0x21
  else pure 0

theorem checkAddressRange_out {lun blkOffset blkNbr : ℕ} {h : Msc σ}
    (hout : h.scsiBlkNbr lun < (blkOffset + blkNbr) % 4294967296) :
    scsiCheckAddressRange lun blkOffset blkNbr h = (-1, (scsiSenseCode 5 0x21).state h) := by
  rw [scsiCheckAddressRange, Prog.bind_apply, Prog.val_get, Prog.state_get]
  exact congrFun (if_pos hout) h

theorem checkAddressRange_in {lun blkOffset blkNbr : ℕ} {h : Msc σ}
    (hin : ¬ h.scsiBlkNbr lun < (blkOffset + blkNbr) % 4294967296) :
    scsiCheckAddressRange lun blkOffset blkNbr h = (0, h) := by
  rw [scsiCheckAddressRange, Prog.bind_apply, Prog.val_get, Prog.state_get]
  exact congrFun (if_neg hin) h

/-- The bytes of the blocks that are left, in 32 bits. -/
def Msc.left (h : Msc σ) : ℕ := h.scsiBlkLen * h.scsiBlkSize % 4294967296

/-- The blocks in `len` bytes are done. -/
def advance (len : ℕ) : Prog (Msc σ) Unit := Prog.modify fun h =>
  { h with
    scsiBlkAddr := h.scsiBlkAddr + len / h.scsiBlkSize
    scsiBlkLen := h.scsiBlkLen - len / h.scsiBlkSize
    csw := { h.csw with dDataResidue := sub32 h.csw.dDataResidue len } }

@[simp] theorem advance_blkAddr (len : ℕ) (h : Msc σ) : ((advance len).state h).scsiBlkAddr =
    h.scsiBlkAddr + len / h.scsiBlkSize := by rw [advance, Prog.state_modify]
@[simp] theorem advance_blkLen (len : ℕ) (h : Msc σ) : ((advance len).state h).scsiBlkLen =
    h.scsiBlkLen - len / h.scsiBlkSize := by rw [advance, Prog.state_modify]
@[simp] theorem advance_cbw (len : ℕ) (h : Msc σ) : ((advance len).state h).cbw = h.cbw := by
  rw [advance, Prog.state_modify]
@[simp] theorem advance_blkNbr (len : ℕ) (h : Msc σ) :
    ((advance len).state h).scsiBlkNbr = h.scsiBlkNbr := by rw [advance, Prog.state_modify]

/-- The last part of a read is on its way. -/
def endRead (h : Msc σ) : Msc σ :=
  if h.scsiBlkLen = 0 then { h with botState := .lastDataIn } else h

/-- `SCSI_ProcessRead`. -/
def scsiProcessRead (lun : ℕ) : Prog (Msc σ) (Option ℤ) := do
  let h ← Prog.get id
  let len := min h.left mscMediaPacket
  let r ← onDisk (F.read lun h.botData (h.scsiBlkAddr % 4294967296) (len / h.scsiBlkSize % 65536))
  Prog.modify fun h => { h with botData := r.2 }
  match r.1 with
  | none => pure none
  | some r =>
    if r < 0 then returning (refuse 4 0x11)
    else do
      Prog.modify fun h => { h with tx := some (.data len) }
      advance len
      Prog.modify endRead
      pure (some 0)

/-- `SCSI_ProcessWrite`. -/
def scsiProcessWrite (lun : ℕ) : Prog (Msc σ) (Option ℤ) := do
  let h ← Prog.get id
  let len := min h.left mscMediaPacket
  let r ← onDisk (F.write lun h.botData (h.scsiBlkAddr % 4294967296) (len / h.scsiBlkSize % 65536))
  match r with
  | none => pure none
  | some r =>
    if r < 0 then returning (refuse 4 0x03)
    else do
      advance len
      let h ← Prog.get id
      if h.scsiBlkLen = 0 then mscBotSendCSW 0x00
      else Prog.modify fun h => { h with rx := some (.data (min h.left mscMediaPacket)) }
      pure (some 0)

/-- The blocks of the next part of a transfer. -/
def Msc.chunk (h : Msc σ) : ℕ := min h.left mscMediaPacket

variable (lun : ℕ) (h : Msc σ)

/-- How the medium reads the next part. -/
def readChunk : (Option ℤ × (ℕ → UInt8)) × σ :=
  F.read lun h.botData (h.scsiBlkAddr % 4294967296) (h.chunk / h.scsiBlkSize % 65536) h.disk

/-- How the medium writes the next part. -/
def writeChunk : Option ℤ × σ :=
  F.write lun h.botData (h.scsiBlkAddr % 4294967296) (h.chunk / h.scsiBlkSize % 65536) h.disk

/-- The next part has been read. -/
def wasRead : Msc σ :=
  { h with disk := (readChunk F lun h).2, botData := (readChunk F lun h).1.2 }

/-- The next part has been written. -/
def wasWritten : Msc σ := { h with disk := (writeChunk F lun h).2 }

theorem processRead_apply : scsiProcessRead F lun h =
    match (readChunk F lun h).1.1 with
    | none => (none, wasRead F lun h)
    | some r =>
      if r < 0 then (some (-1), (scsiSenseCode 4 0x11).state (wasRead F lun h))
      else (some 0, endRead ((advance h.chunk).state
        { wasRead F lun h with tx := some (.data h.chunk) })) := by
  have hread : scsiProcessRead F lun h = (match (readChunk F lun h).1.1 with
    | none => pure none
    | some r =>
      if r < 0 then returning (refuse 4 0x11)
      else do
        Prog.modify fun h' => { h' with tx := some (.data h.chunk) }
        advance h.chunk
        Prog.modify endRead
        pure (some 0) : Prog (Msc σ) (Option ℤ)) (wasRead F lun h) := rfl
  rw [hread]
  cases (readChunk F lun h).1.1 with
  | none => rfl
  | some r =>
      dsimp only
      split <;> rfl

/-- What is left is asked for, or the command is over. -/
def endWrite : Msc σ :=
  if h.scsiBlkLen = 0 then (mscBotSendCSW 0x00).state h else { h with rx := some (.data h.chunk) }

theorem processWrite_apply : scsiProcessWrite F lun h =
    match (writeChunk F lun h).1 with
    | none => (none, wasWritten F lun h)
    | some r =>
      if r < 0 then (some (-1), (scsiSenseCode 4 0x03).state (wasWritten F lun h))
      else (some 0, endWrite ((advance h.chunk).state (wasWritten F lun h))) := by
  have hwrite : scsiProcessWrite F lun h = (match (writeChunk F lun h).1 with
    | none => pure none
    | some r =>
      if r < 0 then returning (refuse 4 0x03)
      else do
        advance h.chunk
        let h ← Prog.get id
        if h.scsiBlkLen = 0 then mscBotSendCSW 0x00
        else Prog.modify fun h => { h with rx := some (.data (min h.left mscMediaPacket)) }
        pure (some 0) : Prog (Msc σ) (Option ℤ)) (wasWritten F lun h) := rfl
  rw [hwrite]
  cases (writeChunk F lun h).1 with
  | none => rfl
  | some r =>
      dsimp only
      split
      · rfl
      · rw [Prog.bind_apply, Prog.bind_apply, Prog.val_get, Prog.state_get, id, endWrite]
        split <;> rfl

/-- Where the blocks of a command are. -/
def setBlocks (blkAddr blkLen : ℕ) : Prog (Msc σ) Unit := Prog.modify fun h =>
  { h with scsiBlkAddr := blkAddr, scsiBlkLen := blkLen }

/-- `SCSI_Read10` and `SCSI_Read12`, which differ in where the number of blocks is. -/
def scsiRead (blkLen : (ℕ → UInt8) → ℕ) (lun : ℕ) (params : ℕ → UInt8) :
    Prog (Msc σ) (Option ℤ) := do
  let h ← Prog.get id
  if h.botState = .idle then
    if h.bmFlags &&& 0x80 ≠ 0x80 then returning (refuse 5 0x20)
    else if h.scsiMediumState = .ejected then returning (refuse 2 0x3A)
    else do
      let ready ← onDisk (F.isReady lun)
      if ready ≠ 0 then returning (refuse 2 0x3A)
      else do
        setBlocks (be32 params 2) (blkLen params)
        let range ← scsiCheckAddressRange lun (be32 params 2) (blkLen params)
        if range < 0 then pure (some (-1))
        else do
          let h ← Prog.get id
          if h.dDataLength ≠ h.left then returning (refuse 5 0x20)
          else do
            setBotState .dataIn
            setDataLength mscMediaPacket
            scsiProcessRead F lun
  else do
    setDataLength mscMediaPacket
    scsiProcessRead F lun

/-- `SCSI_Read10`. -/
def scsiRead10 : ℕ → (ℕ → UInt8) → Prog (Msc σ) (Option ℤ) := scsiRead F fun params => be16 params 7

/-- `SCSI_Read12`. -/
def scsiRead12 : ℕ → (ℕ → UInt8) → Prog (Msc σ) (Option ℤ) := scsiRead F fun params => be32 params 6

/-- `SCSI_Write10` and `SCSI_Write12`, which differ in where the number of blocks is and in what
they do when the medium is not ready or protected. -/
def scsiWrite (blkLen : (ℕ → UInt8) → ℕ) (notReady : Prog (Msc σ) Unit) (lun : ℕ)
    (params : ℕ → UInt8) : Prog (Msc σ) (Option ℤ) := do
  let h ← Prog.get id
  if h.botState = .idle then
    if h.dDataLength = 0 then returning (refuse 5 0x20)
    else if h.bmFlags &&& 0x80 = 0x80 then returning (refuse 5 0x20)
    else do
      let ready ← onDisk (F.isReady lun)
      if ready ≠ 0 then do
        scsiSenseCode 2 0x3A
        notReady
        pure (some (-1))
      else do
        let locked ← onDisk (F.isWriteProtected lun)
        if locked ≠ 0 then do
          scsiSenseCode 2 0x27
          notReady
          pure (some (-1))
        else do
          setBlocks (be32 params 2) (blkLen params)
          let range ← scsiCheckAddressRange lun (be32 params 2) (blkLen params)
          if range < 0 then pure (some (-1))
          else do
            let h ← Prog.get id
            if h.dDataLength ≠ h.left then returning (refuse 5 0x20)
            else do
              setBotState .dataOut
              Prog.modify fun h => { h with rx := some (.data (min h.left mscMediaPacket)) }
              pure (some 0)
  else scsiProcessWrite F lun

/-- `SCSI_Write10`. -/
def scsiWrite10 : ℕ → (ℕ → UInt8) → Prog (Msc σ) (Option ℤ) :=
  scsiWrite F (fun params => be16 params 7) (pure ())

/-- `SCSI_Write12`. -/
def scsiWrite12 : ℕ → (ℕ → UInt8) → Prog (Msc σ) (Option ℤ) :=
  scsiWrite F (fun params => be32 params 6) (setBotState .noData)

/-- `SCSI_Verify10`.  It looks at the blocks of the command before. -/
def scsiVerify10 (lun : ℕ) (params : ℕ → UInt8) : Prog (Msc σ) ℤ := do
  if params 1 &&& 0x02 = 0x02 then refuse 5 0x24
  else do
    let h ← Prog.get id
    let range ← scsiCheckAddressRange lun (h.scsiBlkAddr % 4294967296) h.scsiBlkLen
    if range < 0 then pure (-1)
    else do
      setDataLength 0
      pure 0

/-- The `default` of `SCSI_ProcessCmd`. -/
def unknownCmd : Prog (Msc σ) (Option ℤ) := do
  scsiSenseCode 5 0x20
  Prog.modify fun h => { h with botStatus := .error }
  pure (some (-1))

/-- `SCSI_ProcessCmd`. -/
def scsiProcessCmd (lun : ℕ) (cmd : ℕ → UInt8) : Prog (Msc σ) (Option ℤ) :=
  if cmd 0 = 0x00 then returning (scsiTestUnitReady F lun)
  else if cmd 0 = 0x03 then returning (scsiRequestSense cmd)
  else if cmd 0 = 0x12 then returning (scsiInquiry F lun cmd)
  else if cmd 0 = 0x1B then returning (scsiStartStopUnit cmd)
  else if cmd 0 = 0x1E then returning (scsiAllowPreventRemovable cmd)
  else if cmd 0 = 0x1A then returning (scsiModeSense6 cmd)
  else if cmd 0 = 0x5A then returning (scsiModeSense10 cmd)
  else if cmd 0 = 0x23 then returning (scsiReadFormatCapacity F lun)
  else if cmd 0 = 0x25 then returning (scsiReadCapacity10 F lun)
  else if cmd 0 = 0x9E then scsiReadCapacity16 F lun cmd
  else if cmd 0 = 0x28 then scsiRead10 F lun cmd
  else if cmd 0 = 0xA8 then scsiRead12 F lun cmd
  else if cmd 0 = 0x2A then scsiWrite10 F lun cmd
  else if cmd 0 = 0xAA then scsiWrite12 F lun cmd
  else if cmd 0 = 0x2F then returning (scsiVerify10 lun cmd)
  else unknownCmd

@[simp] theorem state_returning (p : Prog (Msc σ) ℤ) (h : Msc σ) :
    (returning p).state h = p.state h := (rfl)

variable {lun : ℕ} {cmd : ℕ → UInt8}

theorem processCmd_read10 (hcmd : cmd 0 = 0x28) :
    scsiProcessCmd F lun cmd = scsiRead10 F lun cmd := by
  rw [scsiProcessCmd, hcmd]
  rfl

theorem processCmd_read12 (hcmd : cmd 0 = 0xA8) :
    scsiProcessCmd F lun cmd = scsiRead12 F lun cmd := by
  rw [scsiProcessCmd, hcmd]
  rfl

theorem processCmd_readCapacity10 (hcmd : cmd 0 = 0x25) :
    scsiProcessCmd F lun cmd = returning (scsiReadCapacity10 F lun) := by
  rw [scsiProcessCmd, hcmd]
  rfl

theorem processCmd_write10 (hcmd : cmd 0 = 0x2A) :
    scsiProcessCmd F lun cmd = scsiWrite10 F lun cmd := by
  rw [scsiProcessCmd, hcmd]
  rfl

theorem processCmd_write12 (hcmd : cmd 0 = 0xAA) :
    scsiProcessCmd F lun cmd = scsiWrite12 F lun cmd := by
  rw [scsiProcessCmd, hcmd]
  rfl

end Code

/-! ## Commands that move no blocks -/

/-- A command that reads, and one that writes. -/
def isRead (cmd : UInt8) : Prop := cmd = 0x28 ∨ cmd = 0xA8
def isWrite (cmd : UInt8) : Prop := cmd = 0x2A ∨ cmd = 0xAA

/-- The blocks of a command that the class lets through are about to be moved. -/
def Begun {σ : Type} (lun : ℕ) (blkLen : (ℕ → UInt8) → ℕ) (params : ℕ → UInt8) (t : Msc σ) : Prop :=
  t.scsiBlkAddr = be32 params 2 ∧ t.scsiBlkLen = blkLen params ∧
    (be32 params 2 + blkLen params) % 4294967296 ≤ t.scsiBlkNbr lun ∧ t.dDataLength = t.left

/-- `Q` is about nothing that a command for this unit changes before it moves a block. -/
structure Undisturbed {σ : Type} (F : Fops σ) (lun : ℕ) (Q : Msc σ → Prop) : Prop where
  data : ∀ h n p, Q h → Q { h with botDataLength := n, botData := p }
  sense : ∀ h s i j, Q h → Q { h with scsiSense := s, scsiSenseHead := i, scsiSenseTail := j }
  medium : ∀ h m, Q h → Q { h with scsiMediumState := m }
  blocks : ∀ h a n, Q h → Q { h with scsiBlkAddr := a, scsiBlkLen := n }
  noData : ∀ h, Q h → Q { h with botState := .noData }
  isReady : (onDisk (F.isReady lun)).Maintains Q
  isWriteProtected : (onDisk (F.isWriteProtected lun)).Maintains Q
  getCapacity : ∀ old, (onDisk (F.getCapacity lun old)).Maintains Q
  noteCapacity : (noteCapacity F lun).Maintains Q

/-- The CBW, the CSW and the endpoints. -/
def Msc.link {σ : Type} (h : Msc σ) :
    (ℕ → UInt8) × Csw × Option Tx × Option Rx × Bool × Bool :=
  (h.cbw, h.csw, h.tx, h.rx, h.stallIn, h.stallOut)

theorem undisturbed_link {σ : Type} (F : Fops σ) (lun : ℕ) (h : Msc σ) :
    Undisturbed F lun fun t => t.link = h.link where
  data _ _ _ h := h
  sense _ _ _ _ h := h
  medium _ _ h := h
  blocks _ _ _ h := h
  noData _ h := h
  isReady _ h := h
  isWriteProtected _ h := h
  getCapacity _ _ h := h
  noteCapacity _ h := h

theorem Undisturbed.and {σ : Type} {F : Fops σ} {lun : ℕ} {Q R : Msc σ → Prop}
    (hQ : Undisturbed F lun Q) (hR : Undisturbed F lun R) :
    Undisturbed F lun fun t => Q t ∧ R t where
  data _ _ _ h := ⟨hQ.data _ _ _ h.1, hR.data _ _ _ h.2⟩
  sense _ _ _ _ h := ⟨hQ.sense _ _ _ _ h.1, hR.sense _ _ _ _ h.2⟩
  medium _ _ h := ⟨hQ.medium _ _ h.1, hR.medium _ _ h.2⟩
  blocks _ _ _ h := ⟨hQ.blocks _ _ _ h.1, hR.blocks _ _ _ h.2⟩
  noData _ h := ⟨hQ.noData _ h.1, hR.noData _ h.2⟩
  isReady _ h := ⟨hQ.isReady _ h.1, hR.isReady _ h.2⟩
  isWriteProtected _ h := ⟨hQ.isWriteProtected _ h.1, hR.isWriteProtected _ h.2⟩
  getCapacity _ _ h := ⟨hQ.getCapacity _ _ h.1, hR.getCapacity _ _ h.2⟩
  noteCapacity _ h := ⟨hQ.noteCapacity _ h.1, hR.noteCapacity _ h.2⟩

namespace Undisturbed
variable {σ : Type} {F : Fops σ} {lun : ℕ} {Q : Msc σ → Prop} (hQ : Undisturbed F lun Q)
include hQ

theorem setDataLength {n : ℕ} : (setDataLength n).Maintains Q :=
  .modify fun h hq => hQ.data h n _ hq

theorem putData {a : ℕ} {p : ℕ → UInt8} {n : ℕ} : (putData a p n).Maintains Q :=
  .modify fun h hq => hQ.data h _ _ hq

theorem updateBotData {p : ℕ → UInt8} {n : ℕ} : (scsiUpdateBotData p n).Maintains Q :=
  .bind hQ.setDataLength fun _ => hQ.putData

theorem senseCode {sKey asc : ℕ} : (scsiSenseCode sKey asc).Maintains Q :=
  .modify fun h hq => hQ.sense h _ _ _ hq

theorem refuse {sKey asc : ℕ} : (refuse sKey asc).Maintains Q :=
  .bind hQ.senseCode fun _ => .pure _

theorem setNoData : (setBotState .noData).Maintains Q := .modify hQ.noData

theorem testUnitReady : (scsiTestUnitReady F lun).Maintains Q := by
  have hnone : (do
      scsiSenseCode 2 0x3A
      setBotState .noData
      pure (-1) : Prog (Msc σ) ℤ).Maintains Q :=
    .bind hQ.senseCode fun _ => .bind hQ.setNoData fun _ => .pure _
  refine .bind (.get _) fun h => .ite _ hQ.refuse (.ite _ hnone ?_)
  exact .bind hQ.isReady fun ready => .ite _ hnone (.bind hQ.setDataLength fun _ => .pure _)

theorem inquiry (params : ℕ → UInt8) : (scsiInquiry F lun params).Maintains Q := by
  have hgive {p : ℕ → UInt8} {n : ℕ} : (do
      scsiUpdateBotData p n
      pure 0 : Prog (Msc σ) ℤ).Maintains Q := .bind hQ.updateBotData fun _ => .pure _
  refine .bind (.get _) fun h => .ite _ hQ.refuse (.ite _ (.ite _ hgive ?_) hgive)
  exact .ite _ hgive hQ.refuse

theorem readCapacity10 : (scsiReadCapacity10 F lun).Maintains Q :=
  .bind hQ.noteCapacity fun _ => .ite _
    (.bind (.get _) fun _ => .bind hQ.putData fun _ => .bind hQ.putData fun _ =>
      .bind hQ.setDataLength fun _ => .pure _)
    hQ.refuse

theorem readCapacity16 (params : ℕ → UInt8) : (scsiReadCapacity16 F lun params).Maintains Q := by
  have hround (length i idx : ℕ) : (clearRound length i idx).Maintains Q :=
    .ite _ (.bind hQ.putData fun _ => .pure _) (.pure _)
  refine .bind hQ.noteCapacity fun _ => .ite _ (.bind (.loop (hround _) _ _ _) fun cleared => ?_)
    (.bind hQ.refuse fun _ => .pure _)
  cases cleared with
  | next idx => exact .pure _
  | exit u =>
      exact .bind (.get _) fun _ => .bind hQ.putData fun _ => .bind hQ.putData
        fun _ => .bind hQ.setDataLength fun _ => .pure _

theorem readFormatCapacity : (scsiReadFormatCapacity F lun).Maintains Q :=
  .bind (.get _) fun _ => .bind (hQ.getCapacity _) fun _ => .ite _
    (.bind hQ.putData fun _ => .bind hQ.putData fun _ => .bind hQ.putData fun _ =>
      .bind hQ.putData fun _ => .bind hQ.putData fun _ => .bind hQ.setDataLength fun _ => .pure _)
    hQ.refuse

theorem takeSense : takeSense.Maintains Q :=
  .bind (.get _) fun _ => .ite _
    (.bind hQ.putData fun _ => .bind hQ.putData fun _ => .bind hQ.putData fun _ =>
      .modify fun h hq => hQ.sense h _ _ _ hq)
    (.pure _)

theorem requestSense (params : ℕ → UInt8) : (scsiRequestSense params).Maintains Q :=
  .bind (.get _) fun _ => .ite _ hQ.refuse
    (.bind hQ.putData fun _ => .bind hQ.putData fun _ => .bind hQ.putData fun _ =>
      .bind hQ.takeSense fun _ => .bind hQ.setDataLength fun _ => .pure _)

theorem startStopUnit (params : ℕ → UInt8) : (scsiStartStopUnit params).Maintains Q :=
  .bind (.get _) fun _ => .ite _ hQ.refuse
    (.bind (.modify fun h hq => hQ.medium h _ hq) fun _ => .bind hQ.setDataLength fun _ => .pure _)

theorem verify10 (params : ℕ → UInt8) : (scsiVerify10 lun params).Maintains Q := by
  refine .ite _ hQ.refuse (.bind (.get _) fun _ => .bind ?_ fun _ => .ite _ (.pure _)
    (.bind hQ.setDataLength fun _ => .pure _))
  exact .bind (.get _) fun _ => .ite _ hQ.refuse (.pure _)

/-- A command that moves no blocks keeps it, unless it is none that the class knows. -/
theorem processCmd {cmd : ℕ → UInt8} (hread : ¬ isRead (cmd 0)) (hwrite : ¬ isWrite (cmd 0)) :
    scsiProcessCmd F lun cmd = unknownCmd ∨ (scsiProcessCmd F lun cmd).Maintains Q := by
  have hreturn {p : Prog (Msc σ) ℤ} (hp : p.Maintains Q) : (returning p).Maintains Q :=
    .bind hp fun _ => .pure _
  have hite {c : Prop} [Decidable c] {p q : Prog (Msc σ) (Option ℤ)} (hp : p.Maintains Q)
      (hq : q = unknownCmd ∨ q.Maintains Q) :
      (if c then p else q) = unknownCmd ∨ (if c then p else q).Maintains Q := by
    split
    · exact .inr hp
    · exact hq
  rw [isRead, not_or] at hread
  rw [isWrite, not_or] at hwrite
  rw [scsiProcessCmd, if_neg hread.1, if_neg hread.2, if_neg hwrite.1, if_neg hwrite.2]
  refine hite (hreturn hQ.testUnitReady) (hite (hreturn (hQ.requestSense _))
    (hite (hreturn (hQ.inquiry _)) (hite (hreturn (hQ.startStopUnit _))
    (hite (hreturn ?_) (hite (hreturn ?_) (hite (hreturn ?_)
    (hite (hreturn hQ.readFormatCapacity) (hite (hreturn hQ.readCapacity10)
    (hite (hQ.readCapacity16 _) (hite (hreturn (hQ.verify10 _)) (.inl rfl)))))))))))
  · exact .bind (.modify fun h hq => hQ.medium h _ hq) fun _ => .bind hQ.setDataLength
      fun _ => .pure _
  · exact .bind hQ.updateBotData fun _ => .pure _
  · exact .bind hQ.updateBotData fun _ => .pure _

theorem refused {t : Msc σ} (ht : Q t) (sKey asc : ℕ) :
    ∃ t', returning (Usb.refuse sKey asc) t = (some (-1), t') ∧ Q t' :=
  ⟨_, rfl, hQ.senseCode t ht⟩

/-- The last checks of a command that moves blocks. -/
theorem range_cases {blkLen : (ℕ → UInt8) → ℕ} {params : ℕ → UInt8} {t : Msc σ} (ht : Q t)
    (go : Prog (Msc σ) (Option ℤ)) :
    let checks : Prog (Msc σ) (Option ℤ) := do
      setBlocks (be32 params 2) (blkLen params)
      let range ← scsiCheckAddressRange lun (be32 params 2) (blkLen params)
      if range < 0 then pure (some (-1))
      else do
        let h ← Prog.get id
        if h.dDataLength ≠ h.left then returning (Usb.refuse 5 0x20) else go
    (∃ t', checks t = (some (-1), t') ∧ Q t') ∨
      ∃ t', Q t' ∧ Begun lun blkLen params t' ∧ checks t = go t' := by
  intro checks
  have hq : Q ((setBlocks (be32 params 2) (blkLen params)).state t) := hQ.blocks _ _ _ ht
  have haddr : ((setBlocks (be32 params 2) (blkLen params)).state t).scsiBlkAddr =
    be32 params 2 := rfl
  have hlen : ((setBlocks (be32 params 2) (blkLen params)).state t).scsiBlkLen =
    blkLen params := rfl
  simp only [checks]
  rw [Prog.bind_apply]
  generalize (setBlocks (be32 params 2) (blkLen params)).state t = t₁ at hq haddr hlen
  by_cases hrange : t₁.scsiBlkNbr lun < (be32 params 2 + blkLen params) % 4294967296
  · rw [Prog.bind_of (checkAddressRange_out hrange)]
    exact .inl ⟨_, rfl, hQ.senseCode t₁ hq⟩
  rw [Prog.bind_of (checkAddressRange_in hrange), if_neg (by decide), Prog.bind_apply,
    Prog.val_get, Prog.state_get, id]
  by_cases hbytes : t₁.dDataLength = t₁.left
  · rw [if_neg (not_not.2 hbytes)]
    exact .inr ⟨t₁, hq, ⟨haddr, hlen, Nat.le_of_not_lt hrange, hbytes⟩, rfl⟩
  · rw [if_pos hbytes]
    exact .inl (hQ.refused hq _ _)

/-- A read that begins is refused, or its blocks are read from here. -/
theorem read_cases (blkLen : (ℕ → UInt8) → ℕ) (params : ℕ → UInt8) {h : Msc σ}
    (hidle : h.botState = .idle) (hq : Q h) :
    (∃ t, scsiRead F blkLen lun params h = (some (-1), t) ∧ Q t) ∨
      ∃ t, Q t ∧ Begun lun blkLen params t ∧ scsiRead F blkLen lun params h =
        scsiProcessRead F lun { t with botState := .dataIn, botDataLength := mscMediaPacket } := by
  rw [scsiRead, Prog.bind_apply, Prog.val_get, Prog.state_get, id, if_pos hidle]
  by_cases hflag : h.bmFlags &&& 0x80 ≠ 0x80
  · rw [if_pos hflag]
    exact .inl (hQ.refused hq _ _)
  rw [if_neg hflag]
  by_cases hejected : h.scsiMediumState = .ejected
  · rw [if_pos hejected]
    exact .inl (hQ.refused hq _ _)
  rw [if_neg hejected, Prog.bind_apply]
  have hq₁ := hQ.isReady h hq
  by_cases hready : (onDisk (F.isReady lun)).val h ≠ 0
  · rw [if_pos hready]
    exact .inl (hQ.refused hq₁ _ _)
  rw [if_neg hready]
  exact hQ.range_cases hq₁ _

/-- A write that begins is refused, or its first blocks are asked for. -/
theorem write_cases (blkLen : (ℕ → UInt8) → ℕ) {notReady : Prog (Msc σ) Unit}
    (hnot : notReady.Maintains Q) (params : ℕ → UInt8) {h : Msc σ} (hidle : h.botState = .idle)
    (hq : Q h) :
    (∃ t, scsiWrite F blkLen notReady lun params h = (some (-1), t) ∧ Q t) ∨
      ∃ t, Q t ∧ Begun lun blkLen params t ∧ scsiWrite F blkLen notReady lun params h =
        (some 0,
          { t with botState := .dataOut, rx := some (.data (min t.left mscMediaPacket)) }) := by
  rw [scsiWrite, Prog.bind_apply, Prog.val_get, Prog.state_get, id, if_pos hidle]
  by_cases hnone : h.dDataLength = 0
  · rw [if_pos hnone]
    exact .inl (hQ.refused hq _ _)
  rw [if_neg hnone]
  by_cases hflag : h.bmFlags &&& 0x80 = 0x80
  · rw [if_pos hflag]
    exact .inl (hQ.refused hq _ _)
  rw [if_neg hflag, Prog.bind_apply]
  have hq₁ := hQ.isReady h hq
  by_cases hready : (onDisk (F.isReady lun)).val h ≠ 0
  · rw [if_pos hready]
    exact .inl ⟨_, rfl, hnot _ (hQ.senseCode _ hq₁)⟩
  rw [if_neg hready, Prog.bind_apply]
  have hq₂ := hQ.isWriteProtected _ hq₁
  by_cases hlocked : (onDisk (F.isWriteProtected lun)).val ((onDisk (F.isReady lun)).state h) ≠ 0
  · rw [if_pos hlocked]
    exact .inl ⟨_, rfl, hnot _ (hQ.senseCode _ hq₂)⟩
  rw [if_neg hlocked]
  exact hQ.range_cases hq₂ _

end Undisturbed

end Apollo.Usb
