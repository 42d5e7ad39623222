import Apollo.Usb.Scsi

/-!
# The bulk-only transport

`usbd_msc_bot.c` takes a CBW, has its command carried out, moves the data and sends the CSW.  It
is driven by what the host does: a packet to the OUT endpoint, a poll of the IN endpoint, the end
of a halt, a reset of the class.  These may come in any order.

A transfer is one step here, of however many packets, and it is over when the host has all of it.
A packet longer than what the endpoint was prepared for is left out: it is not taken.

## Main definitions

* `mscBotInit`, `mscBotReset`, `mscBotDataIn`, `mscBotDataOut`, `mscBotCBWDecode`,
  `mscBotSendData`, `mscBotAbort`, `mscBotCplClrFeature` — the code.
* `HostEvent`, `Answer`, `HostEvent.run` — what the host does and what it gets.
* `runHost` — a run, in any order.
-/

namespace Apollo.Usb
open Lib

section Code
variable {σ : Type} (F : Fops σ)

/-- `MSC_BOT_Init`. -/
def mscBotInit : Prog (Msc σ) Unit := do
  Prog.modify fun h =>
    { h with
      botState := .idle
      botStatus := .normal
      scsiSenseTail := 0
      scsiSenseHead := 0
      scsiMediumState := .unlocked }
  let _ ← onDisk (F.init 0)
  Prog.modify fun h => { h with tx := none, rx := some .cbw }

/-- `MSC_BOT_Reset`. -/
def mscBotReset : Prog (Msc σ) Unit := Prog.modify fun h =>
  { h with
    botState := .idle
    botStatus := .recovery
    stallIn := false
    stallOut := false
    rx := some .cbw }

/-- `MSC_BOT_SendData`. -/
def mscBotSendData (len : ℕ) : Prog (Msc σ) Unit := Prog.modify fun h =>
  { h with
    csw := { h.csw with
      dDataResidue := sub32 h.csw.dDataResidue len
      bStatus := 0x00 }
    botState := .sendData
    tx := some (.data (min h.dDataLength len)) }

/-- `MSC_BOT_Abort`. -/
def mscBotAbort : Prog (Msc σ) Unit := Prog.modify fun h =>
  { h with
    stallIn := true
    stallOut := h.stallOut ||
      (h.bmFlags = 0 ∧ h.dDataLength ≠ 0 ∧ h.botStatus = .normal) || h.botStatus = .error }

/-- What is the matter with a CBW of this many bytes. -/
def Msc.badCbw (h : Msc σ) : Prop :=
  h.rxSize ≠ 31 ∨ h.dSignature ≠ 0x43425355 ∨ 3 < h.bLUN ∨ h.bCBLength < 1 ∨ 16 < h.bCBLength

instance (h : Msc σ) : Decidable h.badCbw := inferInstanceAs (Decidable (_ ∨ _))

/-- What `MSC_BOT_CBW_Decode` does with the result of the command. -/
def afterCmd (r : ℤ) : Prog (Msc σ) Unit := do
  let h ← Prog.get id
  if r < 0 then
    if h.botState = .noData then mscBotSendCSW 0x01 else mscBotAbort
  else if h.botState ≠ .dataIn ∧ h.botState ≠ .dataOut ∧ h.botState ≠ .lastDataIn then
    if 0 < h.botDataLength then mscBotSendData h.botDataLength else mscBotSendCSW 0x00
  else pure ()

/-- `MSC_BOT_CBW_Decode`. -/
def mscBotCBWDecode : Prog (Msc σ) (Option Unit) := do
  Prog.modify fun h =>
    { h with csw := { h.csw with dTag := h.dTag, dDataResidue := h.dDataLength } }
  let h ← Prog.get id
  if h.badCbw then do
    scsiSenseCode 5 0x20
    Prog.modify fun h => { h with botStatus := .error }
    mscBotAbort
    pure (some ())
  else do
    let r ← scsiProcessCmd F h.bLUN h.cb
    match r with
    | none => pure none
    | some r => do
      afterCmd r
      pure (some ())

/-- One more part of a transfer. -/
def goOn : Prog (Msc σ) (Option Unit) := do
  let h ← Prog.get id
  let r ← scsiProcessCmd F h.bLUN h.cb
  match r with
  | none => pure none
  | some r => do
    if r < 0 then mscBotSendCSW 0x01 else pure ()
    pure (some ())

/-- `MSC_BOT_DataIn`. -/
def mscBotDataIn : Prog (Msc σ) (Option Unit) := do
  let h ← Prog.get id
  match h.botState with
  | .dataIn => goOn F
  | .sendData => do
    mscBotSendCSW 0x00
    pure (some ())
  | .lastDataIn => do
    mscBotSendCSW 0x00
    pure (some ())
  | _ => pure (some ())

/-- `MSC_BOT_DataOut`. -/
def mscBotDataOut : Prog (Msc σ) (Option Unit) := do
  let h ← Prog.get id
  match h.botState with
  | .idle => mscBotCBWDecode F
  | .dataOut => goOn F
  | _ => pure (some ())

/-- `MSC_BOT_CplClrFeature`, for the IN endpoint or the OUT endpoint. -/
def mscBotCplClrFeature (epIn : Bool) : Prog (Msc σ) Unit := do
  let h ← Prog.get id
  if h.botStatus = .error then
    Prog.modify fun h => { h with stallIn := true, stallOut := true }
  else if epIn = true ∧ h.botStatus ≠ .recovery then mscBotSendCSW 0x01
  else pure ()

end Code

/-! ## The host -/

/-- What the host does. -/
inductive HostEvent where
  /-- It sends a packet. -/
  | out (size : ℕ) (bytes : ℕ → UInt8)
  /-- It polls the IN endpoint. -/
  | poll
  /-- It clears the halt of the IN endpoint, or of the OUT endpoint. -/
  | clearHalt (epIn : Bool)
  /-- It resets the class. -/
  | reset
  /-- It asks for the number of units. -/
  | getMaxLun

/-- What the host gets. -/
inductive Answer where
  | ack
  | nak
  | stall
  | data (bytes : List UInt8)
  | status (csw : Csw)
  | maxLun (n : ℤ)
  deriving DecidableEq

section Host
variable {σ : Type} (F : Fops σ)

/-- The host has taken or sent all of a transfer, and the class is told. -/
def answered (answer : Answer) (p : Prog (Msc σ) (Option Unit)) : Prog (Msc σ) (Option Answer) := do
  let r ← p
  pure (r.map fun _ => answer)

/-- What the IN endpoint sends. -/
def Msc.sends (h : Msc σ) : Tx → Answer
  | .data len => .data ((List.range len).map h.botData)
  | .csw => .status h.csw

/-- A packet comes in. -/
def takePacket (size : ℕ) (bytes : ℕ → UInt8) (h : Msc σ) : Msc σ :=
  match h.rx with
  | none => h
  | some .cbw => { h with rx := none, rxSize := size, cbw := overlay h.cbw 0 bytes size }
  | some (.data _) =>
    { h with rx := none, rxSize := size, botData := overlay h.botData 0 bytes size }

theorem takePacket_cbw {h : Msc σ} (hrx : h.rx = some .cbw) (size : ℕ) (bytes : ℕ → UInt8) :
    takePacket size bytes h =
      { h with rx := none, rxSize := size, cbw := overlay h.cbw 0 bytes size } := by
  rw [takePacket, hrx]

theorem takePacket_data {h : Msc σ} {len : ℕ} (hrx : h.rx = some (.data len)) (size : ℕ)
    (bytes : ℕ → UInt8) : takePacket size bytes h =
      { h with rx := none, rxSize := size, botData := overlay h.botData 0 bytes size } := by
  rw [takePacket, hrx]

/-- The longest packet that is taken. -/
def Msc.room (h : Msc σ) : Option ℕ :=
  h.rx.map fun
    | .cbw => 31
    | .data len => len

/-- The host does something.  The class may not answer at all. -/
def HostEvent.run : HostEvent → Prog (Msc σ) (Option Answer)
  | .out size bytes => do
      let h ← Prog.get id
      if h.stallOut = true then pure (some .stall)
      else
        match h.room with
        | none => pure (some .nak)
        | some room =>
          if room < size then pure (some .nak)
          else do
            Prog.modify (takePacket size bytes)
            answered .ack (mscBotDataOut F)
  | .poll => do
      let h ← Prog.get id
      if h.stallIn = true then pure (some .stall)
      else
        match h.tx with
        | none => pure (some .nak)
        | some t => do
          Prog.modify fun h => { h with tx := none }
          answered (h.sends t) (mscBotDataIn F)
  | .clearHalt epIn => do
      Prog.modify fun h =>
        if epIn = true then { h with stallIn := false, tx := none }
        else { h with stallOut := false }
      mscBotCplClrFeature epIn
      pure (some .ack)
  | .reset => do
      mscBotReset
      pure (some .ack)
  | .getMaxLun => do
      let n ← onDisk F.getMaxLun
      Prog.modify fun h => { h with maxLun := n.toNat }
      pure (some (.maxLun n))

/-- The host does one thing after the other, until the class does not answer. -/
def runHost : List HostEvent → Prog (Msc σ) (List Answer)
  | [] => pure []
  | e :: es => do
      let a ← e.run F
      match a with
      | none => pure []
      | some a => do
        let as ← runHost es
        pure (a :: as)

end Host

end Apollo.Usb
