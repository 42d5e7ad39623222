import Apollo.Usb.Bot

/-!
# What the host can do to the medium

Whatever the host does and in whatever order, the medium is read and written inside the capacity
that it reports and never by more than the buffer holds, as long as no CBW is for the unit after the
last and the end of its blocks does not run over 32 bits.  The class checks neither.

So whatever a medium keeps up over the reads and writes that are in range it keeps up over every
run.

## Main definitions

* `Serves` — what the medium keeps up, call by call.
* `Fair` — a CBW whose blocks do not run over; `FairRun` — a run whose CBWs are so.
* `Settled` — the invariant of a run.
* `runHost_settled` — every run keeps it; `accesses_inRange` — so every access is in range.
-/

namespace Apollo.Usb
open Lib

/-- `I` is kept up by the medium, which has no more than `cap lun` blocks for each unit, of `w`
bytes at least. -/
structure Serves {σ : Type} (F : Fops σ) (I : σ → Prop) (cap : ℕ → ℕ) (w : ℕ) : Prop where
  init : (F.init 0).Maintains I
  capacity : ∀ lun < 3, ∀ old d, I d → ((F.getCapacity lun old).val d).2.1 ≤ cap lun ∧
    w ≤ ((F.getCapacity lun old).val d).2.2
  getCapacity : ∀ lun < 3, ∀ old, (F.getCapacity lun old).Maintains I
  isReady : ∀ lun < 3, (F.isReady lun).Maintains I
  isWriteProtected : ∀ lun < 3, (F.isWriteProtected lun).Maintains I
  read : ∀ lun < 3, ∀ buf addr n, addr + n ≤ cap lun → n * w ≤ mscMediaPacket →
    (F.read lun buf addr n).Maintains I
  write : ∀ lun < 3, ∀ buf addr n, addr + n ≤ cap lun → n * w ≤ mscMediaPacket →
    (F.write lun buf addr n).Maintains I
  getMaxLun : F.getMaxLun.Maintains I

/-- The number of blocks of a command. -/
def blocksOf (params : ℕ → UInt8) : ℕ :=
  if params 0 = 0x28 ∨ params 0 = 0x2A then be16 params 7 else be32 params 6

/-- The CBW is not for unit 3, which is let through, and the end of its blocks is a number of 32
bits. -/
def Fair (cbw : ℕ → UInt8) : Prop :=
  (cbw 13).toNat ≠ 3 ∧
    (isRead (cbw 15) ∨ isWrite (cbw 15) →
      be32 (shift cbw 15) 2 + blocksOf (shift cbw 15) < 4294967296)

/-- A packet that the class takes for a CBW is fair. -/
def HostEvent.Fair {σ : Type} (h : Msc σ) : HostEvent → Prop
  | out size bytes => h.rx = some .cbw → size = 31 → Usb.Fair bytes
  | _ => True

/-- The capacities that the class has noted are none that the medium does not have. -/
def Known (cap : ℕ → ℕ) (w : ℕ) (nbr : ℕ → ℕ) (size : ℕ) : Prop :=
  (∀ lun < 3, nbr lun ≤ cap lun) ∧ (w ≤ size ∨ ∀ lun < 3, nbr lun = 0)

section Run
variable {σ : Type} {F : Fops σ} {I : σ → Prop} {cap : ℕ → ℕ} {w : ℕ}

variable (I cap w) in
/-- The medium is fine, and so is what is known of it. -/
def Served (h : Msc σ) : Prop := I h.disk ∧ Known cap w h.scsiBlkNbr h.scsiBlkSize

variable (I cap w) in
/-- A command is being carried out that moves no blocks. -/
def Quiet (h : Msc σ) : Prop :=
  Served I cap w h ∧ h.rx = none ∧ (h.botState = .idle ∨ h.botState = .noData)

/-- Blocks are being moved by a command of this kind. -/
def Moving (kind : UInt8 → Prop) (h : Msc σ) : Prop :=
  h.bLUN < 3 ∧ kind (h.cb 0) ∧ h.scsiBlkAddr + h.scsiBlkLen ≤ h.scsiBlkNbr h.bLUN ∧
    h.scsiBlkAddr + h.scsiBlkLen < 4294967296

variable (I cap w) in
/-- Between two events of the host. -/
structure Settled (h : Msc σ) : Prop where
  served : Served I cap w h
  cbw : h.rx = some .cbw → h.botState = .idle
  data : ∀ len, h.rx = some (.data len) → h.botState = .dataOut
  reading : h.botState = .dataIn → Moving isRead h
  writing : h.botState = .dataOut → Moving isWrite h

/-! ## Commands that move no blocks -/

theorem quiet_onDisk {α : Type} {p : Prog σ α} (hp : p.Maintains I) :
    (onDisk p).Maintains (Quiet I cap w) := fun s h => ⟨⟨hp s.disk h.1.1, h.1.2⟩, h.2⟩

/-- The capacity that is noted is that of the medium. -/
theorem quiet_noteCapacity (hF : Serves F I cap w) {lun : ℕ} (hlun : lun < 3) :
    (noteCapacity F lun).Maintains (Quiet I cap w) := by
  rintro s ⟨⟨hI, hnbr, -⟩, hrest⟩
  obtain ⟨hcap, hsize⟩ := hF.capacity lun hlun (s.scsiBlkNbr lun, s.scsiBlkSize) s.disk hI
  have hdisk := hF.getCapacity lun hlun (s.scsiBlkNbr lun, s.scsiBlkSize) s.disk hI
  refine ⟨⟨hdisk, fun l hl => ?_, .inl hsize⟩, hrest⟩
  change Function.update s.scsiBlkNbr lun
    ((F.getCapacity lun (s.scsiBlkNbr lun, s.scsiBlkSize)).val s.disk).2.1 l ≤ cap l
  rw [Function.update_apply]
  split
  · rename_i heq
    rw [heq]
    exact hcap
  · exact hnbr l hl

theorem quiet_undisturbed (hF : Serves F I cap w) {lun : ℕ} (hlun : lun < 3) :
    Undisturbed F lun (Quiet I cap w) where
  data _ _ _ h := h
  sense _ _ _ _ h := h
  medium _ _ h := h
  blocks _ _ _ h := h
  noData _ h := ⟨h.1, h.2.1, .inr rfl⟩
  isReady := quiet_onDisk (hF.isReady lun hlun)
  isWriteProtected := quiet_onDisk (hF.isWriteProtected lun hlun)
  getCapacity old := quiet_onDisk (hF.getCapacity lun hlun old)
  noteCapacity := quiet_noteCapacity hF hlun

/-! ## Commands that move blocks -/

/-- A part of a transfer is whole blocks that are left, and fits in the buffer. -/
theorem chunk_blocks {h : Msc σ} (hknown : Known cap w h.scsiBlkNbr h.scsiBlkSize)
    (hlun : h.bLUN < 3) (hin : h.scsiBlkAddr + h.scsiBlkLen ≤ h.scsiBlkNbr h.bLUN) :
    h.chunk / h.scsiBlkSize ≤ h.scsiBlkLen ∧
      h.chunk / h.scsiBlkSize * w ≤ mscMediaPacket := by
  have hleft : h.chunk ≤ h.scsiBlkLen * h.scsiBlkSize :=
    Nat.le_trans (Nat.min_le_left ..) (Nat.mod_le ..)
  refine ⟨Nat.div_le_of_le_mul ((Nat.mul_comm ..).symm ▸ hleft), ?_⟩
  rcases hknown.2 with hsize | hnone
  · calc h.chunk / h.scsiBlkSize * w ≤ h.chunk / h.scsiBlkSize * h.scsiBlkSize :=
          Nat.mul_le_mul_left _ hsize
      _ ≤ h.chunk := Nat.div_mul_le_self ..
      _ ≤ mscMediaPacket := Nat.min_le_right ..
  · have hzero : h.scsiBlkLen = 0 := by
      rw [hnone _ hlun] at hin
      omega
    rw [hzero, Nat.zero_mul, Nat.le_zero] at hleft
    rw [hleft, Nat.zero_div, Nat.zero_mul]
    exact Nat.zero_le _

theorem Settled.of_none {h : Msc σ} (hserved : Served I cap w h) (hrx : h.rx = none)
    (hreading : h.botState = .dataIn → Moving isRead h)
    (hwriting : h.botState = .dataOut → Moving isWrite h) : Settled I cap w h := by
  refine ⟨hserved, fun hcbw => ?_, fun len hdata => ?_, hreading, hwriting⟩
  · rw [hrx] at hcbw; cases hcbw
  · rw [hrx] at hdata; cases hdata

theorem Settled.of_idle {h : Msc σ} (hserved : Served I cap w h) (hidle : h.botState = .idle)
    (hrx : ∀ len, h.rx ≠ some (.data len)) : Settled I cap w h := by
  refine ⟨hserved, fun _ => hidle, fun len hdata => absurd hdata (hrx len), fun h => ?_,
    fun h => ?_⟩
  · rw [hidle] at h; cases h
  · rw [hidle] at h; cases h

/-- Blocks that are done are blocks that were left. -/
theorem moving_advance {kind : UInt8 → Prop} {h : Msc σ} {len : ℕ} (hmove : Moving kind h)
    (hlen : len / h.scsiBlkSize ≤ h.scsiBlkLen) : Moving kind ((advance len).state h) := by
  obtain ⟨hlun, hkind, hin, hlt⟩ := hmove
  have hsum : h.scsiBlkAddr + len / h.scsiBlkSize + (h.scsiBlkLen - len / h.scsiBlkSize) =
      h.scsiBlkAddr + h.scsiBlkLen := by omega
  rw [Moving, Msc.bLUN, Msc.cb, advance_cbw, advance_blkNbr, advance_blkAddr, advance_blkLen, hsum]
  exact ⟨hlun, hkind, hin, hlt⟩

/-- The medium is fine after a part of a read. -/
theorem served_readChunk (hF : Serves F I cap w) {h : Msc σ} {kind : UInt8 → Prop}
    (hserved : Served I cap w h) (hmove : Moving kind h) : I (readChunk F h.bLUN h).2 := by
  obtain ⟨hlun, -, hin, hlt⟩ := hmove
  obtain ⟨hblocks, hfit⟩ := chunk_blocks hserved.2 hlun hin
  have haddr : h.scsiBlkAddr % 4294967296 = h.scsiBlkAddr := Nat.mod_eq_of_lt (by omega)
  have hn : h.chunk / h.scsiBlkSize % 65536 ≤ h.chunk / h.scsiBlkSize := Nat.mod_le ..
  have hcap := hserved.2.1 _ hlun
  rw [readChunk, haddr]
  exact hF.read _ hlun h.botData _ _ (by omega) (Nat.le_trans (Nat.mul_le_mul_right w hn) hfit)
    h.disk hserved.1

theorem served_writeChunk (hF : Serves F I cap w) {h : Msc σ} {kind : UInt8 → Prop}
    (hserved : Served I cap w h) (hmove : Moving kind h) : I (writeChunk F h.bLUN h).2 := by
  obtain ⟨hlun, -, hin, hlt⟩ := hmove
  obtain ⟨hblocks, hfit⟩ := chunk_blocks hserved.2 hlun hin
  have haddr : h.scsiBlkAddr % 4294967296 = h.scsiBlkAddr := Nat.mod_eq_of_lt (by omega)
  have hn : h.chunk / h.scsiBlkSize % 65536 ≤ h.chunk / h.scsiBlkSize := Nat.mod_le ..
  have hcap := hserved.2.1 _ hlun
  rw [writeChunk, haddr]
  exact hF.write _ hlun h.botData _ _ (by omega) (Nat.le_trans (Nat.mul_le_mul_right w hn) hfit)
    h.disk hserved.1

/-- One part is read. -/
theorem settled_processRead (hF : Serves F I cap w) {h : Msc σ} (hserved : Served I cap w h)
    (hrx : h.rx = none) (hmove : Moving isRead h) (hstate : h.botState = .dataIn) :
    Settled I cap w ((scsiProcessRead F h.bLUN).state h) ∧
      ((scsiProcessRead F h.bLUN).state h).rx = none := by
  have hdisk := served_readChunk hF hserved hmove
  have hstopped : Settled I cap w (wasRead F h.bLUN h) := by
    refine .of_none ⟨hdisk, hserved.2⟩ hrx (fun _ => hmove) fun hout => ?_
    exact absurd (hstate.symm.trans hout) (by decide)
  rw [Prog.state, processRead_apply]
  split
  · exact ⟨hstopped, hrx⟩
  split
  · exact ⟨⟨hstopped.served, hstopped.cbw, hstopped.data, hstopped.reading, hstopped.writing⟩, hrx⟩
  · set t := (advance h.chunk).state { wasRead F h.bLUN h with tx := some (.data h.chunk) } with ht
    have hmoved : Moving isRead t :=
      moving_advance hmove (chunk_blocks hserved.2 hmove.1 hmove.2.2.1).1
    have hserved' : Served I cap w t := ⟨hdisk, hserved.2⟩
    have hrx' : t.rx = none := hrx
    have hstate' : t.botState = .dataIn := hstate
    change Settled I cap w (endRead t) ∧ (endRead t).rx = none
    rw [endRead]
    split
    · exact ⟨.of_none hserved' hrx' (fun hin => by cases hin) (fun hout => by cases hout), hrx'⟩
    · refine ⟨.of_none hserved' hrx' (fun _ => hmoved) fun hout => ?_, hrx'⟩
      exact absurd (hstate'.symm.trans hout) (by decide)

/-- One part is written. -/
theorem settled_processWrite (hF : Serves F I cap w) {h : Msc σ} (hserved : Served I cap w h)
    (hrx : h.rx = none) (hmove : Moving isWrite h) (hstate : h.botState = .dataOut) :
    Settled I cap w ((scsiProcessWrite F h.bLUN).state h) := by
  have hdisk := served_writeChunk hF hserved hmove
  have hstopped : Settled I cap w (wasWritten F h.bLUN h) := by
    refine .of_none ⟨hdisk, hserved.2⟩ hrx (fun hin => ?_) (fun _ => hmove)
    exact absurd (hstate.symm.trans hin) (by decide)
  rw [Prog.state, processWrite_apply]
  split
  · exact hstopped
  split
  · exact ⟨hstopped.served, hstopped.cbw, hstopped.data, hstopped.reading, hstopped.writing⟩
  · set t := (advance h.chunk).state (wasWritten F h.bLUN h) with ht
    have hmoved : Moving isWrite t :=
      moving_advance hmove (chunk_blocks hserved.2 hmove.1 hmove.2.2.1).1
    have hserved' : Served I cap w t := ⟨hdisk, hserved.2⟩
    have hstate' : t.botState = .dataOut := hstate
    change Settled I cap w (endWrite t)
    rw [endWrite]
    split
    · exact .of_idle hserved' rfl (fun len h => by cases h)
    · refine ⟨hserved', fun h => (by cases h), fun _ _ => hstate', fun hin => ?_, fun _ => hmoved⟩
      exact absurd (hstate'.symm.trans hin) (by decide)

theorem Quiet.settled {h : Msc σ} (hq : Quiet I cap w h) : Settled I cap w h ∧ h.rx = none := by
  refine ⟨.of_none hq.1 hq.2.1 (fun hin => ?_) (fun hout => ?_), hq.2.1⟩
  · rcases hq.2.2 with hs | hs <;> exact absurd (hs.symm.trans hin) (by decide)
  · rcases hq.2.2 with hs | hs <;> exact absurd (hs.symm.trans hout) (by decide)

/-- The blocks of a command that the class lets through are on the unit. -/
theorem Begun.moving {kind : UInt8 → Prop} {blkLen : (ℕ → UInt8) → ℕ} {h : Msc σ}
    (hbegun : Begun h.bLUN blkLen h.cb h) (hlun : h.bLUN < 3) (hkind : kind (h.cb 0))
    (hlt : be32 h.cb 2 + blkLen h.cb < 4294967296) : Moving kind h := by
  obtain ⟨haddr, hlen, hrange, -⟩ := hbegun
  rw [Nat.mod_eq_of_lt hlt] at hrange
  rw [Moving, haddr, hlen]
  exact ⟨hlun, hkind, hrange, hlt⟩

theorem quiet_link (hF : Serves F I cap w) {h : Msc σ} (hlun : h.bLUN < 3) :
    Undisturbed F h.bLUN fun t => Quiet I cap w t ∧ t.link = h.link :=
  (quiet_undisturbed hF hlun).and (undisturbed_link F h.bLUN h)

/-- A read begins. -/
theorem settled_read (hF : Serves F I cap w) (blkLen : (ℕ → UInt8) → ℕ) {h : Msc σ}
    (hq : Quiet I cap w h) (hidle : h.botState = .idle) (hlun : h.bLUN < 3)
    (hkind : isRead (h.cb 0)) (hlt : be32 h.cb 2 + blkLen h.cb < 4294967296) :
    Settled I cap w ((scsiRead F blkLen h.bLUN h.cb).state h) ∧
      ((scsiRead F blkLen h.bLUN h.cb).state h).rx = none := by
  rcases (quiet_link hF hlun).read_cases blkLen h.cb hidle ⟨hq, rfl⟩ with
    ⟨t, hrun, ht, -⟩ | ⟨t, ⟨ht, hlink⟩, hbegun, hrun⟩
  · rw [Prog.state, hrun]
    exact ht.settled
  · set t' : Msc σ := { t with botState := .dataIn, botDataLength := mscMediaPacket } with ht'
    have hcbw : t'.cbw = h.cbw := congrArg Prod.fst hlink
    have hsame : t'.bLUN = h.bLUN := congrArg (fun c => (c 13).toNat) hcbw
    have hcb : t'.cb = h.cb := congrArg (shift · 15) hcbw
    have hmove : Moving isRead t' := by
      refine Begun.moving ?_ (by rwa [hsame]) (by rwa [hcb]) (by rwa [hcb])
      rw [hsame, hcb]
      exact hbegun
    have hdone := settled_processRead (h := t') hF ht.1 ht.2.1 hmove rfl
    rw [Prog.state, hrun]
    rwa [hsame] at hdone

/-- A write begins. -/
theorem settled_write (hF : Serves F I cap w) (blkLen : (ℕ → UInt8) → ℕ)
    {notReady : Prog (Msc σ) Unit}
    (hnot : ∀ h : Msc σ, notReady.Maintains fun t => Quiet I cap w t ∧ t.link = h.link) {h : Msc σ}
    (hq : Quiet I cap w h) (hidle : h.botState = .idle) (hlun : h.bLUN < 3)
    (hkind : isWrite (h.cb 0)) (hlt : be32 h.cb 2 + blkLen h.cb < 4294967296) :
    Settled I cap w ((scsiWrite F blkLen notReady h.bLUN h.cb).state h) ∧
      ((scsiWrite F blkLen notReady h.bLUN h.cb).state h).rx ≠ some .cbw := by
  rcases (quiet_link hF hlun).write_cases blkLen (hnot h) h.cb hidle ⟨hq, rfl⟩ with
    ⟨t, hrun, ht, -⟩ | ⟨t, ⟨ht, hlink⟩, hbegun, hrun⟩
  · rw [Prog.state, hrun]
    exact ⟨ht.settled.1, fun hcbw => by rw [ht.2.1] at hcbw; cases hcbw⟩
  · have hcbw : t.cbw = h.cbw := congrArg Prod.fst hlink
    have hsame : t.bLUN = h.bLUN := congrArg (fun c => (c 13).toNat) hcbw
    have hcb : t.cb = h.cb := congrArg (shift · 15) hcbw
    have hmove : Moving isWrite t := by
      refine Begun.moving ?_ (by rwa [hsame]) (by rwa [hcb]) (by rwa [hcb])
      rwa [hsame, hcb]
    rw [Prog.state, hrun]
    exact ⟨⟨ht.1, fun hcbw => (by cases hcbw), fun _ _ => rfl, fun hin => (by cases hin),
      fun _ => hmove⟩, fun hcbw => (by cases hcbw)⟩

/-- A command is carried out. -/
theorem settled_processCmd (hF : Serves F I cap w) {h : Msc σ} (hq : Quiet I cap w h)
    (hidle : h.botState = .idle) (hlun : h.bLUN < 3)
    (hlt : isRead (h.cb 0) ∨ isWrite (h.cb 0) → be32 h.cb 2 + blocksOf h.cb < 4294967296) :
    Settled I cap w ((scsiProcessCmd F h.bLUN h.cb).state h) ∧
      ((scsiProcessCmd F h.bLUN h.cb).state h).rx ≠ some .cbw := by
  have hquiet {t : Msc σ} (ht : Quiet I cap w t) : Settled I cap w t ∧ t.rx ≠ some .cbw :=
    ⟨ht.settled.1, fun hcbw => by rw [ht.2.1] at hcbw; cases hcbw⟩
  by_cases hread : isRead (h.cb 0)
  · have hin := hlt (.inl hread)
    rcases hread with hcmd | hcmd
    · rw [blocksOf, if_pos (.inl hcmd)] at hin
      rw [processCmd_read10 F hcmd, scsiRead10]
      have hdone := settled_read hF (fun p => be16 p 7) hq hidle hlun (.inl hcmd) hin
      exact ⟨hdone.1, fun hcbw => by rw [hdone.2] at hcbw; cases hcbw⟩
    · rw [blocksOf, hcmd, if_neg (by decide)] at hin
      rw [processCmd_read12 F hcmd, scsiRead12]
      have hdone := settled_read hF (fun p => be32 p 6) hq hidle hlun (.inr hcmd) hin
      exact ⟨hdone.1, fun hcbw => by rw [hdone.2] at hcbw; cases hcbw⟩
  by_cases hwrite : isWrite (h.cb 0)
  · have hin := hlt (.inr hwrite)
    rcases hwrite with hcmd | hcmd
    · rw [blocksOf, if_pos (.inr hcmd)] at hin
      rw [processCmd_write10 F hcmd, scsiWrite10]
      exact settled_write hF (fun p => be16 p 7) (fun _ => .pure ()) hq hidle hlun (.inl hcmd) hin
    · rw [blocksOf, hcmd, if_neg (by decide)] at hin
      rw [processCmd_write12 F hcmd, scsiWrite12]
      have hnot (t : Msc σ) : (setBotState .noData).Maintains fun t' =>
          Quiet I cap w t' ∧ t'.link = t.link :=
        .modify fun _ ht => ⟨⟨ht.1.1, ht.1.2.1, .inr rfl⟩, ht.2⟩
      exact settled_write hF (fun p => be32 p 6) hnot hq hidle hlun (.inr hcmd) hin
  have hdone : Quiet I cap w ((scsiProcessCmd F h.bLUN h.cb).state h) := by
    rcases (quiet_undisturbed hF hlun).processCmd hread hwrite with hnone | hkept
    · rw [hnone]
      exact hq
    · exact hkept h hq
  exact hquiet hdone

theorem settled_sendCSW {h : Msc σ} (hserved : Served I cap w h) (n : ℕ) :
    Settled I cap w ((mscBotSendCSW n).state h) :=
  .of_idle hserved rfl fun _ hdata => by cases hdata

/-- A transfer goes on. -/
theorem settled_goOn {h : Msc σ} (hset : Settled I cap w ((scsiProcessCmd F h.bLUN h.cb).state h)) :
    Settled I cap w ((goOn F).state h) := by
  rw [goOn, Prog.state_bind, Prog.val_get, Prog.state_get, Prog.state_bind]
  cases (scsiProcessCmd F (id h).bLUN (id h).cb).val h with
  | none => exact hset
  | some r =>
      simp only [id]
      split
      · exact settled_sendCSW hset.served 1
      · exact hset

theorem settled_moreRead (hF : Serves F I cap w) {h : Msc σ} (hserved : Served I cap w h)
    (hrx : h.rx = none) (hmove : Moving isRead h) (hstate : h.botState = .dataIn) :
    Settled I cap w ((scsiProcessCmd F h.bLUN h.cb).state h) := by
  have hbusy : ¬ h.botState = .idle := by rw [hstate]; decide
  have hmore (blkLen : (ℕ → UInt8) → ℕ) :
      Settled I cap w ((scsiRead F blkLen h.bLUN h.cb).state h) := by
    rw [scsiRead, Prog.state_bind, Prog.val_get, Prog.state_get, id, if_neg hbusy,
      Prog.state_bind]
    set h₁ : Msc σ := (setDataLength mscMediaPacket).state h with hh₁
    have hserved₁ : Served I cap w h₁ := hserved
    have hmove₁ : Moving isRead h₁ := hmove
    have hsame : h₁.bLUN = h.bLUN := rfl
    have hdone := (settled_processRead hF hserved₁ hrx hmove₁ hstate).1
    rwa [hsame] at hdone
  rcases hmove.2.1 with hcmd | hcmd
  · rw [processCmd_read10 F hcmd]
    exact hmore _
  · rw [processCmd_read12 F hcmd]
    exact hmore _

theorem settled_moreWrite (hF : Serves F I cap w) {h : Msc σ} (hserved : Served I cap w h)
    (hrx : h.rx = none) (hmove : Moving isWrite h) (hstate : h.botState = .dataOut) :
    Settled I cap w ((scsiProcessCmd F h.bLUN h.cb).state h) := by
  have hbusy : ¬ h.botState = .idle := by rw [hstate]; decide
  have hmore (blkLen : (ℕ → UInt8) → ℕ) (notReady : Prog (Msc σ) Unit) :
      Settled I cap w ((scsiWrite F blkLen notReady h.bLUN h.cb).state h) := by
    rw [scsiWrite, Prog.state_bind, Prog.val_get, Prog.state_get, id, if_neg hbusy]
    exact settled_processWrite hF hserved hrx hmove hstate
  rcases hmove.2.1 with hcmd | hcmd
  · rw [processCmd_write10 F hcmd]
    exact hmore _ _
  · rw [processCmd_write12 F hcmd]
    exact hmore _ _

/-- The command is over, or its data is being moved. -/
theorem settled_afterCmd {h : Msc σ} (hset : Settled I cap w h) (hrx : h.rx ≠ some .cbw) (r : ℤ) :
    Settled I cap w ((afterCmd r).state h) := by
  rw [afterCmd, Prog.state_bind, Prog.val_get, Prog.state_get, id, Prog.state_ite]
  split
  · rw [Prog.state_ite]
    split
    · exact settled_sendCSW hset.served 1
    · exact ⟨hset.served, hset.cbw, hset.data, hset.reading, hset.writing⟩
  · rw [Prog.state_ite]
    split
    · rename_i hover
      rw [Prog.state_ite]
      split
      · refine ⟨hset.served, fun hcbw => absurd hcbw hrx, fun len hdata => ?_,
          fun hin => (by cases hin), fun hout => (by cases hout)⟩
        exact absurd (hset.data len hdata) hover.2.1
      · exact settled_sendCSW hset.served 0
    · exact hset

/-- A CBW is taken. -/
theorem settled_cbwDecode (hF : Serves F I cap w) {h : Msc σ} (hserved : Served I cap w h)
    (hrx : h.rx = none) (hidle : h.botState = .idle) (hfair : h.rxSize = 31 → Fair h.cbw) :
    Settled I cap w ((mscBotCBWDecode F).state h) := by
  rw [mscBotCBWDecode, Prog.state_bind, Prog.state_modify, Prog.state_bind, Prog.val_get,
    Prog.state_get]
  set h₁ : Msc σ :=
    { h with csw := { h.csw with dTag := h.dTag, dDataResidue := h.dDataLength } } with hh₁
  have hq : Quiet I cap w h₁ := ⟨hserved, hrx, .inl hidle⟩
  simp only [id]
  rw [Prog.state_ite]
  split
  · have hset := (show Quiet I cap w ((scsiSenseCode 5 0x20).state h₁) from hq).settled.1
    exact ⟨hset.served, hset.cbw, hset.data, hset.reading, hset.writing⟩
  · rename_i hgood
    have hsize : h.rxSize = 31 := by
      by_contra hne
      exact hgood (.inl hne)
    obtain ⟨hunit, hlt⟩ := hfair hsize
    have hlun : h.bLUN < 3 := by
      have hle : h.bLUN ≤ 3 := Nat.le_of_not_lt fun hlt' => hgood (.inr (.inr (.inl hlt')))
      exact Nat.lt_of_le_of_ne hle hunit
    obtain ⟨hset, hrx'⟩ := settled_processCmd (h := h₁) hF hq hidle hlun hlt
    rw [Prog.state_bind]
    cases (scsiProcessCmd F h₁.bLUN h₁.cb).val h₁ with
    | none => exact hset
    | some r => exact settled_afterCmd hset hrx' r

theorem Settled.rx_dataIn {h : Msc σ} (hset : Settled I cap w h) (hstate : h.botState = .dataIn) :
    h.rx = none := by
  cases hrx : h.rx with
  | none => rfl
  | some r =>
      cases r with
      | cbw => exact absurd (hstate.symm.trans (hset.cbw hrx)) (by decide)
      | data len => exact absurd (hstate.symm.trans (hset.data len hrx)) (by decide)

/-- A transfer to the host is over. -/
theorem settled_dataIn (hF : Serves F I cap w) {h : Msc σ} (hset : Settled I cap w h) :
    Settled I cap w ((mscBotDataIn F).state h) := by
  rw [mscBotDataIn, Prog.state_bind, Prog.val_get, Prog.state_get]
  cases hstate : h.botState with
  | dataIn =>
      simp only [id, hstate]
      exact settled_goOn (settled_moreRead hF hset.served (hset.rx_dataIn hstate)
        (hset.reading hstate) hstate)
  | sendData =>
      simp only [id, hstate]
      exact settled_sendCSW hset.served 0
  | lastDataIn =>
      simp only [id, hstate]
      exact settled_sendCSW hset.served 0
  | _ =>
      simp only [id, hstate]
      exact hset

/-- Only the bytes of the packet matter. -/
theorem fair_overlay {cbw bytes : ℕ → UInt8} (hfair : Fair bytes) :
    Fair (overlay cbw 0 bytes 31) := by
  have hbyte (j : ℕ) (hj : j < 31) : overlay cbw 0 bytes 31 j = bytes j :=
    overlay_inside (Nat.zero_le _) (by omega)
  simpa [Fair, be32, be16, blocksOf, shift_apply, hbyte] using hfair

variable (F) in
/-- The CBWs of the run are fair. -/
def FairRun : List HostEvent → Msc σ → Prop
  | [], _ => True
  | e :: es, h => e.Fair h ∧ FairRun es ((e.run F).state h)

/-- A packet is taken. -/
theorem settled_packet (hF : Serves F I cap w) {h : Msc σ} (hset : Settled I cap w h) {size : ℕ}
    {bytes : ℕ → UInt8} (hfair : h.rx = some .cbw → size = 31 → Fair bytes) (hrx : h.rx ≠ none) :
    Settled I cap w ((mscBotDataOut F).state (takePacket size bytes h)) := by
  cases hcase : h.rx with
  | none => exact absurd hcase hrx
  | some r =>
      cases r with
      | cbw =>
          have hidle := hset.cbw hcase
          rw [takePacket_cbw hcase, mscBotDataOut, Prog.state_bind, Prog.val_get, Prog.state_get]
          simp only [id, hidle]
          refine settled_cbwDecode hF hset.served rfl rfl fun hsize => ?_
          obtain rfl : size = 31 := hsize
          exact fair_overlay (hfair hcase rfl)
      | data len =>
          have hout := hset.data len hcase
          rw [takePacket_data hcase, mscBotDataOut, Prog.state_bind, Prog.val_get, Prog.state_get]
          simp only [id, hout]
          refine settled_goOn (settled_moreWrite hF hset.served rfl ?_ rfl)
          exact hset.writing hout

/-- Whatever the host does, one thing at a time. -/
theorem settled_event (hF : Serves F I cap w) {e : HostEvent} {h : Msc σ} (he : e.Fair h)
    (hset : Settled I cap w h) : Settled I cap w ((e.run F).state h) := by
  cases e with
  | out size bytes =>
      rw [HostEvent.run, Prog.state_bind, Prog.val_get, Prog.state_get, Prog.state_ite]
      split
      · exact hset
      cases hrx : h.rx with
      | none =>
          have hroom : (id h).room = none := by rw [id, Msc.room, hrx]; rfl
          simp only [hroom]
          exact hset
      | some r =>
          have htaken : Settled I cap w ((mscBotDataOut F).state (takePacket size bytes h)) :=
            settled_packet hF hset he (by rw [hrx]; exact Option.some_ne_none r)
          cases hroom : (id h).room with
          | none => exact hset
          | some room =>
              simp only []
              rw [Prog.state_ite]
              split
              · exact hset
              · exact htaken
  | poll =>
      rw [HostEvent.run, Prog.state_bind, Prog.val_get, Prog.state_get, Prog.state_ite]
      split
      · exact hset
      cases htx : (id h).tx with
      | none => exact hset
      | some t =>
          have hidle : Settled I cap w { h with tx := none } :=
            ⟨hset.served, hset.cbw, hset.data, hset.reading, hset.writing⟩
          exact settled_dataIn hF hidle
  | clearHalt epIn =>
      rw [HostEvent.run, Prog.state_bind, Prog.state_modify, Prog.state_bind, Prog.state_pure]
      set h₁ : Msc σ :=
        (if epIn = true then { h with stallIn := false, tx := none }
        else { h with stallOut := false }) with hh₁
      have hset₁ : Settled I cap w h₁ := by
        rw [hh₁]
        split <;> exact ⟨hset.served, hset.cbw, hset.data, hset.reading, hset.writing⟩
      rw [mscBotCplClrFeature, Prog.state_bind, Prog.val_get, Prog.state_get, Prog.state_ite]
      split
      · exact ⟨hset₁.served, hset₁.cbw, hset₁.data, hset₁.reading, hset₁.writing⟩
      rw [Prog.state_ite]
      split
      · exact settled_sendCSW hset₁.served 1
      · exact hset₁
  | reset => exact .of_idle hset.served rfl fun _ hdata => by cases hdata
  | getMaxLun =>
      exact ⟨⟨hF.getMaxLun _ hset.served.1, hset.served.2⟩, hset.cbw, hset.data, hset.reading,
        hset.writing⟩

/-- Whatever the host does, in whatever order, as long as none of its CBWs is for unit 3 or has
blocks that run over 32 bits: what the medium keeps up over the reads and writes that are in range
is kept up, and the class stays ready for more. -/
theorem runHost_settled (hF : Serves F I cap w) {es : List HostEvent} {h : Msc σ}
    (hes : FairRun F es h) (hset : Settled I cap w h) :
    Settled I cap w ((runHost F es).state h) := by
  induction es generalizing h with
  | nil => exact hset
  | cons e es ih =>
      have hone := settled_event hF hes.1 hset
      rw [runHost, Prog.state_bind]
      cases (e.run F).val h with
      | none => exact hone
      | some a =>
          rw [Prog.state_bind]
          exact ih hes.2 hone

/-- The class starts with nothing known of the medium, or with what is right. -/
theorem settled_init (hF : Serves F I cap w) {h : Msc σ} (hserved : Served I cap w h) :
    Settled I cap w ((mscBotInit F).state h) := by
  rw [mscBotInit, Prog.state_bind, Prog.state_modify, Prog.state_bind, Prog.state_modify]
  exact .of_idle ⟨hF.init _ hserved.1, hserved.2⟩ rfl fun _ hdata => by cases hdata

end Run

/-! ## Every access -/

/-- A read or a write of the medium. -/
structure Access where
  lun : ℕ
  blkAddr : ℕ
  blkLen : ℕ
  deriving DecidableEq

/-- The medium, with a list of the accesses to it. -/
def logged {σ : Type} (F : Fops σ) : Fops (σ × List Access) where
  init lun := (F.init lun).within Prod.fst fun d s => (d, s.2)
  getCapacity lun old := (F.getCapacity lun old).within Prod.fst fun d s => (d, s.2)
  isReady lun := (F.isReady lun).within Prod.fst fun d s => (d, s.2)
  isWriteProtected lun := (F.isWriteProtected lun).within Prod.fst fun d s => (d, s.2)
  read lun buf blkAddr blkLen :=
    (F.read lun buf blkAddr blkLen).within Prod.fst fun d s => (d, ⟨lun, blkAddr, blkLen⟩ :: s.2)
  write lun buf blkAddr blkLen :=
    (F.write lun buf blkAddr blkLen).within Prod.fst fun d s => (d, ⟨lun, blkAddr, blkLen⟩ :: s.2)
  getMaxLun := F.getMaxLun.within Prod.fst fun d s => (d, s.2)
  inquiry := F.inquiry

/-- The access is inside the unit, and of no more than the buffer holds of blocks of `w` bytes. -/
def Access.InRange (cap : ℕ → ℕ) (w : ℕ) (a : Access) : Prop :=
  a.lun < 3 ∧ a.blkAddr + a.blkLen ≤ cap a.lun ∧ a.blkLen * w ≤ mscMediaPacket

/-- All accesses are. -/
def AllInRange (cap : ℕ → ℕ) (w : ℕ) (l : List Access) : Prop := ∀ a ∈ l, a.InRange cap w

theorem serves_logged {σ : Type} {F : Fops σ} {cap : ℕ → ℕ} {w : ℕ}
    (hcap : ∀ lun < 3, ∀ old d, ((F.getCapacity lun old).val d).2.1 ≤ cap lun ∧
      w ≤ ((F.getCapacity lun old).val d).2.2) :
    Serves (logged F) (fun s => AllInRange cap w s.2) cap w where
  init _ h := h
  capacity lun hlun old d _ := hcap lun hlun old d.1
  getCapacity _ _ _ _ h := h
  isReady _ _ _ h := h
  isWriteProtected _ _ _ h := h
  read _ hlun _ _ _ hin hfit _ h :=
    List.forall_mem_cons.2 ⟨⟨hlun, hin, hfit⟩, h⟩
  write _ hlun _ _ _ hin hfit _ h :=
    List.forall_mem_cons.2 ⟨⟨hlun, hin, hfit⟩, h⟩
  getMaxLun _ h := h

/-- A medium of units of 100 blocks that leaves every buffer as it is. -/
def still : Fops Unit where
  init _ := pure 0
  getCapacity _ _ := pure (0, 100, 512)
  isReady _ := pure 0
  isWriteProtected _ := pure 0
  read _ buf _ _ := pure (some 0, buf)
  write _ _ _ _ := pure (some 0)
  getMaxLun := pure 2
  inquiry _ := 0

/-- The handle as it is allocated, of memory that is zero. -/
def Msc.fresh {σ : Type} (disk : σ) : Msc σ where
  maxLun := 0
  botState := .idle
  botStatus := .normal
  botDataLength := 0
  botData _ := 0
  cbw _ := 0
  csw := ⟨0, 0, 0, 0⟩
  scsiSense _ := ⟨0, 0, 0⟩
  scsiSenseHead := 0
  scsiSenseTail := 0
  scsiMediumState := .unlocked
  scsiBlkSize := 0
  scsiBlkNbr _ := 0
  scsiBlkAddr := 0
  scsiBlkLen := 0
  tx := none
  rx := none
  rxSize := 0
  stallIn := false
  stallOut := false
  disk := disk

/-- A CBW with this tag, for so many bytes to the host, of unit 0. -/
def cbwIn (tag len : UInt8) (high : UInt8) (cmd : List UInt8) : HostEvent :=
  .out 31 fun j =>
    ([0x55, 0x53, 0x42, 0x43, tag, 0, 0, 0, len, high, 0, 0, 0x80, 0, 10] ++ cmd).getD j 0

/-- The capacity is asked for, and the last two blocks are read. -/
def readLastTwo : List HostEvent :=
  [cbwIn 1 8 0 [0x25], .poll, .poll, cbwIn 2 0 4 [0x28, 0, 0, 0, 0, 98, 0, 0, 2], .poll, .poll]

example : ((runHost (logged still) readLastTwo).state
    ((mscBotInit (logged still)).state (.fresh ((), [])))).disk.2 = [⟨0, 98, 2⟩] := by decide

-- A block that runs over is let through.
example : ((runHost (logged still)
    [cbwIn 1 8 0 [0x25], .poll, .poll, cbwIn 2 0 2 [0x28, 0, 255, 255, 255, 255, 0, 0, 1]]).state
      ((mscBotInit (logged still)).state (.fresh ((), [])))).disk.2 = [⟨0, 4294967295, 1⟩] := by
  decide

end Apollo.Usb
