import Apollo.Usb.Host

/-!
# The disk that the host sees

A host that asks for the capacity of a unit, and then reads and writes blocks that the unit has,
sees a row of bytes: each read gives what was last written, each command passes with nothing left
over, and the class is ready for the next.

## Main definitions

* `Stores` — the medium is a row of bytes for each unit.
* `Fine`, `Ready`, `Passed`, `Moves`, `Reading`, `Writing` — the states of a command that passes.
* `gives_capacity`, `gives_read`, `gives_write` — each command.
* `runHost_ops` — what the host gets, and what is in the units in the end.
-/

namespace Apollo.Usb
open Lib

/-- The medium keeps a row of bytes for each unit of `U`, and nothing is ever the matter. -/
structure Stores {σ : Type} (F : Fops σ) (content : σ → ℕ → ℕ → UInt8) (cap : ℕ → ℕ)
    (U : ℕ → Prop) : Prop where
  unit : ∀ lun, U lun → lun ≤ 3
  size : ∀ lun, U lun → cap lun < 2 ^ 32
  init : (F.init 0).Keeps content
  capacity : ∀ lun, U lun → ∀ old d, (F.getCapacity lun old).val d = (0, cap lun, 512)
  getCapacity : ∀ lun, U lun → ∀ old, (F.getCapacity lun old).Keeps content
  ready : ∀ lun, U lun → ∀ d, (F.isReady lun).val d = 0
  isReady : ∀ lun, U lun → (F.isReady lun).Keeps content
  unprotected : ∀ lun, U lun → ∀ d, (F.isWriteProtected lun).val d = 0
  isWriteProtected : ∀ lun, U lun → (F.isWriteProtected lun).Keeps content
  read : ∀ lun, U lun → ∀ buf addr n, 0 < n → addr + n ≤ cap lun → n ≤ 64 → ∀ d,
    (∃ r ≥ 0, ((F.read lun buf addr n).val d).1 = some r) ∧
      content ((F.read lun buf addr n).state d) = content d ∧ ∀ j < n * 512,
        ((F.read lun buf addr n).val d).2 j = content d lun (addr * 512 + j)
  write : ∀ lun, U lun → ∀ buf addr n, 0 < n → addr + n ≤ cap lun → n ≤ 64 → ∀ d,
    (∃ r ≥ 0, (F.write lun buf addr n).val d = some r) ∧
      content ((F.write lun buf addr n).state d) = stored (content d) lun addr n buf

/-! ## Between two commands, and during one -/

section Disk
variable {σ : Type} {F : Fops σ} {content : σ → ℕ → ℕ → UInt8} {cap : ℕ → ℕ} {U : ℕ → Prop}

variable (content cap) in
/-- Nothing is the matter, the units hold `c`, and these have been asked for their capacity. -/
structure Fine (c : ℕ → ℕ → UInt8) (noted : List ℕ) (h : Msc σ) : Prop where
  content : content h.disk = c
  nbr : ∀ lun ∈ noted, h.scsiBlkNbr lun = cap lun
  size : noted ≠ [] → h.scsiBlkSize = 512
  medium : h.scsiMediumState ≠ .ejected
  stallIn : h.stallIn = false
  stallOut : h.stallOut = false

variable (content cap) in
/-- The class waits for a CBW. -/
structure Ready (c : ℕ → ℕ → UInt8) (noted : List ℕ) (h : Msc σ) : Prop
    extends Fine content cap c noted h where
  idle : h.botState = .idle
  tx : h.tx = none
  rx : h.rx = some .cbw

variable (content cap) in
/-- A command has passed, and its CSW is on its way. -/
structure Passed (c : ℕ → ℕ → UInt8) (noted : List ℕ) (tag : ℕ) (h : Msc σ) : Prop
    extends Fine content cap c noted h where
  idle : h.botState = .idle
  tx : h.tx = some .csw
  rx : h.rx = some .cbw
  csw : h.csw = ⟨0x53425355, tag, 0, 0⟩

/-- The blocks that are about to be moved are `n` blocks from `blk` on. -/
structure Blocks (noted : List ℕ) (cap : ℕ → ℕ) (lun blk n : ℕ) : Prop where
  noted : lun ∈ noted
  pos : 0 < n
  inside : blk + n ≤ cap lun
  fits : n < 2 ^ 23

variable (content cap) in
/-- `n` blocks from `blk` on are still to be moved. -/
structure Moves (c : ℕ → ℕ → UInt8) (noted : List ℕ) (tag lun blk n : ℕ) (h : Msc σ) : Prop
    extends Fine content cap c noted h where
  unit : h.bLUN = lun
  addr : h.scsiBlkAddr = blk
  len : h.scsiBlkLen = n
  tag : h.csw.dTag = tag
  residue : h.csw.dDataResidue = n * 512
  tx : h.tx = none
  rx : h.rx = none

section Moves
variable {c : ℕ → ℕ → UInt8} {noted : List ℕ} {tag lun blk n : ℕ} {h : Msc σ}

theorem Blocks.rest (hb : Blocks noted cap lun blk n) (hmore : 64 < n) :
    Blocks noted cap lun (blk + 64) (n - 64) := by
  have hin := hb.inside
  have hfits := hb.fits
  exact ⟨hb.noted, by omega, by omega, by omega⟩

theorem Moves.blkSize (hm : Moves content cap c noted tag lun blk n h)
    (hb : Blocks noted cap lun blk n) : h.scsiBlkSize = 512 :=
  hm.toFine.size (List.ne_nil_of_mem hb.noted)

theorem Moves.left (hm : Moves content cap c noted tag lun blk n h)
    (hb : Blocks noted cap lun blk n) : h.left = n * 512 := by
  have hfits := hb.fits
  rw [Msc.left, hm.blkSize hb, hm.len, Nat.mod_eq_of_lt (by omega)]

/-- A part is 64 blocks, or what is left. -/
theorem Moves.chunk (hm : Moves content cap c noted tag lun blk n h)
    (hb : Blocks noted cap lun blk n) : h.chunk = min n 64 * 512 := by
  rw [Msc.chunk, hm.left hb]
  change min (n * 512) (64 * 512) = _
  omega

theorem Moves.chunk_blocks (hm : Moves content cap c noted tag lun blk n h)
    (hb : Blocks noted cap lun blk n) : h.chunk / h.scsiBlkSize = min n 64 := by
  rw [hm.chunk hb, hm.blkSize hb, Nat.mul_div_cancel _ (by decide)]

theorem sub32_blocks (hfits : n < 2 ^ 23) : sub32 (n * 512) (min n 64 * 512) = (n - 64) * 512 := by
  rw [sub32]
  omega

end Moves

/-! ## Reads -/

variable (content cap) in
/-- `n` blocks from `blk` on are still to be fetched, and the first part is on its way. -/
structure Reading (c : ℕ → ℕ → UInt8) (noted : List ℕ) (tag lun blk n : ℕ) (h : Msc σ) : Prop
    extends Fine content cap c noted h where
  unit : h.bLUN = lun
  kind : isRead (h.cb 0)
  addr : h.scsiBlkAddr = blk + min n 64
  len : h.scsiBlkLen = n - 64
  tag : h.csw.dTag = tag
  residue : h.csw.dDataResidue = (n - 64) * 512
  state : h.botState = if n ≤ 64 then .lastDataIn else .dataIn
  tx : h.tx = some (.data (min n 64 * 512))
  rx : h.rx = none
  data : ∀ j < min n 64 * 512, h.botData j = c lun (blk * 512 + j)

section Reads
variable {c : ℕ → ℕ → UInt8} {noted : List ℕ} {tag lun blk n : ℕ} {h : Msc σ}

theorem Moves.readChunk (hF : Stores F content cap U) (hU : ∀ lun ∈ noted, U lun)
    (hm : Moves content cap c noted tag lun blk n h) (hb : Blocks noted cap lun blk n) :
    Usb.readChunk F lun h = F.read lun h.botData blk (min n 64) h.disk := by
  have hsize := hF.size lun (hU lun hb.noted)
  have hin := hb.inside
  rw [Usb.readChunk, hm.chunk_blocks hb, hm.addr, Nat.mod_eq_of_lt (by omega),
    Nat.mod_eq_of_lt (by omega)]

/-- The next part is on its way. -/
theorem reading_processRead (hF : Stores F content cap U) (hU : ∀ lun ∈ noted, U lun)
    (hm : Moves content cap c noted tag lun blk n h) (hb : Blocks noted cap lun blk n)
    (hkind : isRead (h.cb 0)) (hstate : h.botState = .dataIn) :
    ∃ t, scsiProcessRead F lun h = (some 0, t) ∧ Reading content cap c noted tag lun blk n t := by
  have hpos := hb.pos
  have hin := hb.inside
  obtain ⟨⟨r, hok, hval⟩, hkept, hdata⟩ := hF.read lun (hU lun hb.noted) h.botData blk (min n 64)
    (by omega) (by omega) (Nat.min_le_right _ _) h.disk
  have hchunk := hm.readChunk hF hU hb
  have hnext : n - min n 64 = n - 64 := by omega
  have hval' : (Usb.readChunk F lun h).1.1 = some r := by rw [hchunk]; exact hval
  rw [processRead_apply, hval']
  dsimp only
  rw [if_neg (Int.not_lt.mpr hok), hm.chunk hb]
  refine ⟨_, rfl, ?_⟩
  set t := (advance (min n 64 * 512)).state
    { wasRead F lun h with tx := some (.data (min n 64 * 512)) } with ht
  have hsize : (wasRead F lun h).scsiBlkSize = 512 := hm.blkSize hb
  have hlen : t.scsiBlkLen = n - 64 := by
    rw [ht, advance_blkLen]
    dsimp only
    rw [hsize, Nat.mul_div_cancel _ (by decide)]
    change h.scsiBlkLen - min n 64 = _
    rw [hm.len, hnext]
  have hfine : Fine content cap c noted t := by
    refine ⟨?_, hm.nbr, hm.size, hm.medium, hm.stallIn, hm.stallOut⟩
    change content (Usb.readChunk F lun h).2 = c
    rw [hchunk]
    exact hkept.trans hm.content
  have haddr : t.scsiBlkAddr = blk + min n 64 := by
    rw [ht, advance_blkAddr]
    dsimp only
    rw [hsize, Nat.mul_div_cancel _ (by decide)]
    change h.scsiBlkAddr + _ = _
    rw [hm.addr]
  have hresidue : t.csw.dDataResidue = (n - 64) * 512 := by
    rw [ht, advance, Prog.state_modify]
    change sub32 h.csw.dDataResidue _ = _
    rw [hm.residue, sub32_blocks hb.fits]
  have hbytes (j : ℕ) (hj : j < min n 64 * 512) : t.botData j = c lun (blk * 512 + j) := by
    change (Usb.readChunk F lun h).1.2 j = _
    rw [hchunk, ← hm.content]
    exact hdata j hj
  by_cases hlast : t.scsiBlkLen = 0
  · rw [endRead, if_pos hlast]
    exact ⟨⟨hfine.content, hfine.nbr, hfine.size, hfine.medium, hfine.stallIn, hfine.stallOut⟩,
      hm.unit, hkind, haddr, hlen, hm.tag, hresidue, (if_pos (by omega)).symm, rfl, hm.rx, hbytes⟩
  · rw [endRead, if_neg hlast]
    exact ⟨hfine, hm.unit, hkind, haddr, hlen, hm.tag, hresidue,
      hstate.trans (if_neg (by omega)).symm, rfl, hm.rx, hbytes⟩

/-- The CSW is fetched. -/
theorem gives_passed (hp : Passed content cap c noted tag h) :
    Gives F [.poll] [passed tag] (Ready content cap c noted) h := by
  have hin : mscBotDataIn F { h with tx := none } = (some (), { h with tx := none }) :=
    dataIn_idle hp.idle
  have hsends : h.sends .csw = passed tag := congrArg Answer.status hp.csw
  rw [← hsends]
  refine gives_one (poll_run hp.stallIn hp.tx hin) ?_
  exact ⟨⟨hp.content, hp.nbr, hp.size, hp.medium, hp.stallIn, hp.stallOut⟩, hp.idle, rfl, hp.rx⟩

/-- A command with nothing left over passes. -/
theorem Fine.sendCSW (hf : Fine content cap c noted h) (htag : h.csw.dTag = tag)
    (hresidue : h.csw.dDataResidue = 0) :
    Passed content cap c noted tag ((mscBotSendCSW 0x00).state h) := by
  rw [mscBotSendCSW, Prog.state_modify]
  refine ⟨⟨hf.content, hf.nbr, hf.size, hf.medium, hf.stallIn, hf.stallOut⟩, rfl, rfl, rfl, ?_⟩
  change (⟨0x53425355, h.csw.dTag, h.csw.dDataResidue, 0⟩ : Csw) = _
  rw [htag, hresidue]

theorem Reading.sends (hr : Reading content cap c noted tag lun blk n h) :
    h.sends (.data (min n 64 * 512)) =
      .data ((List.range (min n 64 * 512)).map fun j => c lun (blk * 512 + j)) := by
  rw [Msc.sends, Answer.data.injEq]
  exact List.map_congr_left fun j hj => hr.data j (List.mem_range.mp hj)

/-- A read that goes on. -/
theorem scsiRead_more (blkLen : (ℕ → UInt8) → ℕ) {params : ℕ → UInt8} (hbusy : h.botState ≠ .idle) :
    scsiRead F blkLen lun params h =
      scsiProcessRead F lun { h with botDataLength := mscMediaPacket } := by
  rw [scsiRead, Prog.bind_apply, Prog.val_get, Prog.state_get, id, if_neg hbusy]
  rfl

/-- One part is fetched, and the next is on its way. -/
theorem reading_more (hF : Stores F content cap U) (hU : ∀ lun ∈ noted, U lun)
    (hr : Reading content cap c noted tag lun blk n h) (hb : Blocks noted cap lun blk n)
    (hmore : 64 < n) : ∃ t, mscBotDataIn F { h with tx := none } = (some (), t) ∧
      Reading content cap c noted tag lun (blk + 64) (n - 64) t := by
  have hpart : min n 64 = 64 := by omega
  have hstate : h.botState = .dataIn := hr.state.trans (if_neg (by omega))
  set h₁ : Msc σ := { h with tx := none, botDataLength := mscMediaPacket } with hh₁
  have hm : Moves content cap c noted tag lun (blk + 64) (n - 64) h₁ :=
    ⟨⟨hr.content, hr.nbr, hr.size, hr.medium, hr.stallIn, hr.stallOut⟩, hr.unit,
      by rw [← hpart]; exact hr.addr, hr.len, hr.tag, hr.residue, rfl, hr.rx⟩
  obtain ⟨t, hrun, ht⟩ := reading_processRead hF hU hm (hb.rest hmore) hr.kind hstate
  refine ⟨t, dataIn_more hstate ?_, ht⟩
  have hbusy : ({ h with tx := none } : Msc σ).botState ≠ .idle := by
    change h.botState ≠ .idle
    rw [hstate]
    decide
  have hread (blkLen : (ℕ → UInt8) → ℕ) :
      scsiRead F blkLen h.bLUN h.cb { h with tx := none } = (some 0, t) := by
    rw [hr.unit]
    exact (scsiRead_more blkLen hbusy).trans hrun
  rcases hr.kind with hcmd | hcmd
  · change scsiProcessCmd F h.bLUN h.cb _ = _
    rw [processCmd_read10 F hcmd]
    exact hread _
  · change scsiProcessCmd F h.bLUN h.cb _ = _
    rw [processCmd_read12 F hcmd]
    exact hread _

/-- All parts are fetched. -/
theorem gives_reading (hF : Stores F content cap U) (hU : ∀ lun ∈ noted, U lun) {k : ℕ}
    (hk : partsOf n = k) (hr : Reading content cap c noted tag lun blk n h)
    (hb : Blocks noted cap lun blk n) : Gives F (List.replicate k .poll)
      (readParts (c lun) k blk n) (Passed content cap c noted tag) h := by
  have hpos := hb.pos
  induction k generalizing blk n h with
  | zero =>
      rw [partsOf] at hk
      omega
  | succ k ih =>
      have hsends := hr.sends
      rw [List.replicate_succ, readParts]
      rcases Nat.lt_or_ge 64 n with hmore | hlast
      · obtain ⟨t, hin, ht⟩ := reading_more hF hU hr hb hmore
        have hpoll := poll_run hr.stallIn hr.tx hin
        rw [Gives, Prog.val, Prog.state, hpoll, hsends]
        refine ⟨rfl, ih ?_ ht (hb.rest hmore) (by omega)⟩
        rw [partsOf] at hk ⊢
        omega
      · have hstate : h.botState = .lastDataIn := hr.state.trans (if_pos hlast)
        have hpoll := poll_run hr.stallIn hr.tx (dataIn_last (F := F) (.inl hstate))
        obtain rfl : k = 0 := by
          rw [partsOf] at hk
          omega
        rw [Gives, Prog.val, Prog.state, hpoll, hsends]
        refine ⟨rfl, ?_⟩
        have hresidue : h.csw.dDataResidue = 0 := by
          rw [hr.residue]
          omega
        exact Fine.sendCSW ⟨hr.content, hr.nbr, hr.size, hr.medium, hr.stallIn, hr.stallOut⟩
          hr.tag hresidue

end Reads

/-! ## Writes -/

/-- Two adjacent writes are one. -/
theorem stored_rest (c : ℕ → ℕ → UInt8) (lun blk : ℕ) {n : ℕ} (bytes : ℕ → UInt8) (hmore : 64 < n) :
    stored (stored c lun blk 64 bytes) lun (blk + 64) (n - 64) (shift bytes (64 * 512)) =
      stored c lun blk n bytes := by
  have hn : 64 * 512 + (n - 64) * 512 = n * 512 := by omega
  rw [stored, stored, stored, Function.update_self, Function.update_idem, Nat.add_mul,
    overlay_append, hn]

/-- Only the bytes of the packet are stored. -/
theorem stored_packet (c : ℕ → ℕ → UInt8) (lun blk n : ℕ) (old bytes : ℕ → UInt8) :
    stored c lun blk n (overlay old 0 bytes (n * 512)) = stored c lun blk n bytes := by
  refine congrArg (Function.update c lun) (funext fun i => overlay_congr_at (fun _ => rfl) ?_)
  intro hfrom hto
  rw [overlay_inside (Nat.zero_le _) (by omega), Nat.sub_zero]

variable (content cap) in
/-- `n` blocks from `blk` on are still to be sent, and the first part is asked for. -/
structure Writing (c : ℕ → ℕ → UInt8) (noted : List ℕ) (tag lun blk n : ℕ) (h : Msc σ) : Prop
    extends Fine content cap c noted h where
  unit : h.bLUN = lun
  kind : isWrite (h.cb 0)
  addr : h.scsiBlkAddr = blk
  len : h.scsiBlkLen = n
  tag : h.csw.dTag = tag
  residue : h.csw.dDataResidue = n * 512
  state : h.botState = .dataOut
  tx : h.tx = none
  rx : h.rx = some (.data (min n 64 * 512))

section Writes
variable {c : ℕ → ℕ → UInt8} {noted : List ℕ} {tag lun blk n : ℕ} {h : Msc σ}

theorem Moves.writeChunk (hF : Stores F content cap U) (hU : ∀ lun ∈ noted, U lun)
    (hm : Moves content cap c noted tag lun blk n h) (hb : Blocks noted cap lun blk n) :
    Usb.writeChunk F lun h = F.write lun h.botData blk (min n 64) h.disk := by
  have hsize := hF.size lun (hU lun hb.noted)
  have hin := hb.inside
  rw [Usb.writeChunk, hm.chunk_blocks hb, hm.addr, Nat.mod_eq_of_lt (by omega),
    Nat.mod_eq_of_lt (by omega)]

/-- A part is stored; the next is asked for, or the command passes. -/
theorem writing_processWrite (hF : Stores F content cap U) (hU : ∀ lun ∈ noted, U lun)
    (hm : Moves content cap c noted tag lun blk n h) (hb : Blocks noted cap lun blk n)
    (hkind : isWrite (h.cb 0)) (hstate : h.botState = .dataOut) :
    ∃ t, scsiProcessWrite F lun h = (some 0, t) ∧
      if n ≤ 64 then Passed content cap (stored c lun blk n h.botData) noted tag t
      else Writing content cap (stored c lun blk 64 h.botData) noted tag lun (blk + 64) (n - 64)
        t := by
  have hpos := hb.pos
  have hin := hb.inside
  obtain ⟨⟨r, hok, hval⟩, hstored⟩ := hF.write lun (hU lun hb.noted) h.botData blk (min n 64)
    (by omega) (by omega) (Nat.min_le_right _ _) h.disk
  have hchunk := hm.writeChunk hF hU hb
  have hval' : (Usb.writeChunk F lun h).1 = some r := by rw [hchunk]; exact hval
  rw [processWrite_apply, hval']
  dsimp only
  rw [if_neg (Int.not_lt.mpr hok), hm.chunk hb]
  refine ⟨_, rfl, ?_⟩
  set t := (advance (min n 64 * 512)).state (wasWritten F lun h) with ht
  have hsize : (wasWritten F lun h).scsiBlkSize = 512 := hm.blkSize hb
  have hlen : t.scsiBlkLen = n - 64 := by
    rw [ht, advance_blkLen, hsize, Nat.mul_div_cancel _ (by decide)]
    change h.scsiBlkLen - min n 64 = _
    rw [hm.len]
    omega
  have haddr : t.scsiBlkAddr = blk + min n 64 := by
    rw [ht, advance_blkAddr, hsize, Nat.mul_div_cancel _ (by decide)]
    change h.scsiBlkAddr + _ = _
    rw [hm.addr]
  have hresidue : t.csw.dDataResidue = (n - 64) * 512 := by
    rw [ht, advance, Prog.state_modify]
    change sub32 h.csw.dDataResidue _ = _
    rw [hm.residue, sub32_blocks hb.fits]
  have hfine : Fine content cap (stored c lun blk (min n 64) h.botData) noted t := by
    refine ⟨?_, hm.nbr, hm.size, hm.medium, hm.stallIn, hm.stallOut⟩
    change content (Usb.writeChunk F lun h).2 = _
    rw [hchunk, ← hm.content]
    exact hstored
  rcases Nat.lt_or_ge 64 n with hmore | hlast
  · have hpart : min n 64 = 64 := by omega
    have hchunk' : t.chunk = min (n - 64) 64 * 512 := by
      have hfits := hb.fits
      have hbytes : t.scsiBlkSize = 512 := hm.blkSize hb
      rw [Msc.chunk, Msc.left, hbytes, hlen, Nat.mod_eq_of_lt (by omega)]
      change min ((n - 64) * 512) (64 * 512) = _
      omega
    rw [hpart] at hfine haddr
    rw [if_neg (by omega), endWrite, if_neg (by omega), hchunk']
    exact ⟨⟨hfine.content, hfine.nbr, hfine.size, hfine.medium, hfine.stallIn, hfine.stallOut⟩,
      hm.unit, hkind, haddr, hlen, hm.tag, hresidue, hstate, hm.tx, rfl⟩
  · have hpart : min n 64 = n := by omega
    rw [hpart] at hfine
    rw [if_pos hlast, endWrite, if_pos (by omega)]
    exact hfine.sendCSW hm.tag (by rw [hresidue]; omega)

/-- A write that goes on. -/
theorem scsiWrite_more (blkLen : (ℕ → UInt8) → ℕ) (notReady : Prog (Msc σ) Unit)
    {params : ℕ → UInt8} (hbusy : h.botState ≠ .idle) :
    scsiWrite F blkLen notReady lun params h = scsiProcessWrite F lun h := by
  rw [scsiWrite, Prog.bind_apply, Prog.val_get, Prog.state_get, id, if_neg hbusy]

/-- One part is sent, and the next is asked for, or the command passes. -/
theorem writing_part (hF : Stores F content cap U) (hU : ∀ lun ∈ noted, U lun)
    (hw : Writing content cap c noted tag lun blk n h) (hb : Blocks noted cap lun blk n)
    (bytes : ℕ → UInt8) :
    ∃ t, (HostEvent.out (min n 64 * 512) bytes).run F h = (some .ack, t) ∧
      if n ≤ 64 then Passed content cap (stored c lun blk n bytes) noted tag t
      else Writing content cap (stored c lun blk 64 bytes) noted tag lun (blk + 64) (n - 64) t := by
  set h₁ : Msc σ :=
    { h with rx := none, rxSize := min n 64 * 512,
             botData := overlay h.botData 0 bytes (min n 64 * 512) } with hh₁
  have hm : Moves content cap c noted tag lun blk n h₁ :=
    ⟨⟨hw.content, hw.nbr, hw.size, hw.medium, hw.stallIn, hw.stallOut⟩, hw.unit, hw.addr, hw.len,
      hw.tag, hw.residue, hw.tx, rfl⟩
  obtain ⟨t, hrun, ht⟩ := writing_processWrite hF hU hm hb hw.kind hw.state
  have hbusy : h₁.botState ≠ .idle := by
    change h.botState ≠ .idle
    rw [hw.state]
    decide
  have hwrite (blkLen : (ℕ → UInt8) → ℕ) (notReady : Prog (Msc σ) Unit) :
      scsiWrite F blkLen notReady h.bLUN h.cb h₁ = (some 0, t) := by
    rw [hw.unit]
    exact (scsiWrite_more blkLen notReady hbusy).trans hrun
  have hcmd : scsiProcessCmd F h₁.bLUN h₁.cb h₁ = (some 0, t) := by
    change scsiProcessCmd F h.bLUN h.cb h₁ = _
    rcases hw.kind with hcmd | hcmd
    · rw [processCmd_write10 F hcmd]
      exact hwrite _ _
    · rw [processCmd_write12 F hcmd]
      exact hwrite _ _
  have hroom : h.room = some (min n 64 * 512) := by
    rw [Msc.room, hw.rx]
    rfl
  refine ⟨t, out_run hw.stallOut hroom (Nat.le_refl _) ?_, ?_⟩
  · rw [takePacket_data hw.rx]
    exact dataOut_more hw.state hcmd
  · rcases Nat.lt_or_ge 64 n with hmore | hlast
    · have hpart : min n 64 = 64 := by omega
      rw [if_neg (by omega)] at ht ⊢
      rwa [hh₁, hpart, stored_packet] at ht
    · have hpart : min n 64 = n := by omega
      rw [if_pos hlast] at ht ⊢
      rwa [hh₁, hpart, stored_packet] at ht

/-- All parts are sent. -/
theorem gives_writing (hF : Stores F content cap U) (hU : ∀ lun ∈ noted, U lun) {k : ℕ}
    (hk : partsOf n = k) (hw : Writing content cap c noted tag lun blk n h)
    (hb : Blocks noted cap lun blk n) (bytes : ℕ → UInt8) :
    Gives F (writeParts k n bytes) (List.replicate k .ack)
      (Passed content cap (stored c lun blk n bytes) noted tag) h := by
  have hpos := hb.pos
  induction k generalizing c blk n bytes h with
  | zero =>
      rw [partsOf] at hk
      omega
  | succ k ih =>
      obtain ⟨t, hrun, ht⟩ := writing_part hF hU hw hb bytes
      rw [List.replicate_succ, writeParts, Gives, Prog.val, Prog.state, hrun]
      refine ⟨rfl, ?_⟩
      rcases Nat.lt_or_ge 64 n with hmore | hlast
      · rw [if_neg (by omega)] at ht
        rw [← stored_rest c lun blk bytes hmore]
        refine ih ?_ ht (hb.rest hmore) _ (by omega)
        rw [partsOf] at hk ⊢
        omega
      · obtain rfl : k = 0 := by
          rw [partsOf] at hk
          omega
        rw [if_pos hlast] at ht
        exact ht

end Writes

/-! ## Commands -/

section Commands
variable {c : ℕ → ℕ → UInt8} {noted : List ℕ} {tag lun blk n : ℕ} {h : Msc σ}

/-- The command of a good CBW is carried out. -/
theorem cbwDecode_good {r : ℤ} {t : Msc σ} (hgood : ¬ h.badCbw)
    (hrun : scsiProcessCmd F h.bLUN h.cb
      { h with csw := { h.csw with dTag := h.dTag, dDataResidue := h.dDataLength } } =
        (some r, t)) :
    mscBotCBWDecode F h = (some (), (afterCmd r).state t) := by
  set h₁ : Msc σ :=
    { h with csw := { h.csw with dTag := h.dTag, dDataResidue := h.dDataLength } } with hh₁
  have hgood' : ¬ (id h₁).badCbw := hgood
  rw [mscBotCBWDecode, Prog.bind_apply, Prog.state_modify, Prog.bind_apply, Prog.val_get,
    Prog.state_get, if_neg hgood']
  change (scsiProcessCmd F h.bLUN h.cb >>= _) _ = _
  rw [Prog.bind_of hrun]
  rfl

/-- The blocks of a read are there. -/
theorem scsiRead_first (hF : Stores F content cap U) (hU : ∀ lun ∈ noted, U lun)
    (hf : Fine content cap c noted h) (hb : Blocks noted cap lun blk n)
    (blkLen : (ℕ → UInt8) → ℕ) {params : ℕ → UInt8} (hidle : h.botState = .idle)
    (hflags : h.bmFlags = 0x80) (haddr : be32 params 2 = blk) (hlen : blkLen params = n)
    (hbytes : h.dDataLength = n * 512) :
    scsiRead F blkLen lun params h = scsiProcessRead F lun
      { h with
        disk := (F.isReady lun).state h.disk
        scsiBlkAddr := blk
        scsiBlkLen := n
        botState := .dataIn
        botDataLength := mscMediaPacket } := by
  have hin := hb.inside
  have hfits := hb.fits
  have hsize := hF.size lun (hU lun hb.noted)
  have hready : onDisk (F.isReady lun) h = (0, { h with disk := (F.isReady lun).state h.disk }) :=
    Prod.ext (hF.ready lun (hU lun hb.noted) h.disk) rfl
  rw [scsiRead, Prog.bind_apply, Prog.val_get, Prog.state_get, id, if_pos hidle, hflags,
    if_neg (by decide), if_neg hf.medium, Prog.bind_of hready, if_neg (by decide), haddr, hlen,
    Prog.bind_apply]
  set t : Msc σ := (setBlocks blk n).state { h with disk := (F.isReady lun).state h.disk } with ht
  have hnbr : t.scsiBlkNbr lun = cap lun := hf.nbr lun hb.noted
  have hbytes' : t.dDataLength = n * 512 := hbytes
  have hleft : t.left = n * 512 := by
    have hblk : t.scsiBlkSize = 512 := hf.size (List.ne_nil_of_mem hb.noted)
    rw [Msc.left, hblk]
    exact Nat.mod_eq_of_lt (by change n * 512 < _; omega)
  rw [Prog.bind_of (checkAddressRange_in (by rw [hnbr, Nat.mod_eq_of_lt (by omega)]; omega)),
    if_neg (by decide), Prog.bind_apply, Prog.val_get, Prog.state_get, id,
    if_neg (not_not.mpr (hbytes'.trans hleft.symm))]
  rfl

/-- The blocks of a write are there, and the first part is asked for. -/
theorem scsiWrite_first (hF : Stores F content cap U) (hU : ∀ lun ∈ noted, U lun)
    (hf : Fine content cap c noted h) (hb : Blocks noted cap lun blk n)
    (blkLen : (ℕ → UInt8) → ℕ) (notReady : Prog (Msc σ) Unit) {params : ℕ → UInt8}
    (hidle : h.botState = .idle) (hflags : h.bmFlags = 0) (haddr : be32 params 2 = blk)
    (hlen : blkLen params = n) (hbytes : h.dDataLength = n * 512) :
    scsiWrite F blkLen notReady lun params h = (some 0,
      { h with
        disk := (F.isWriteProtected lun).state ((F.isReady lun).state h.disk)
        scsiBlkAddr := blk
        scsiBlkLen := n
        botState := .dataOut
        rx := some (.data (min n 64 * 512)) }) := by
  have hpos := hb.pos
  have hin := hb.inside
  have hfits := hb.fits
  have hlun := hU lun hb.noted
  have hsize := hF.size lun hlun
  set d₁ := (F.isReady lun).state h.disk with hd₁
  set d₂ := (F.isWriteProtected lun).state d₁ with hd₂
  have hready : onDisk (F.isReady lun) h = (0, { h with disk := d₁ }) :=
    Prod.ext (hF.ready lun hlun h.disk) rfl
  have hopen : onDisk (F.isWriteProtected lun) { h with disk := d₁ } = (0, { h with disk := d₂ }) :=
    Prod.ext (hF.unprotected lun hlun d₁) rfl
  rw [scsiWrite, Prog.bind_apply, Prog.val_get, Prog.state_get, id, if_pos hidle,
    if_neg (by omega), hflags, if_neg (by decide), Prog.bind_of hready, if_neg (by decide),
    Prog.bind_of hopen, if_neg (by decide), haddr, hlen, Prog.bind_apply]
  set t : Msc σ := (setBlocks blk n).state { h with disk := d₂ } with ht
  have hnbr : t.scsiBlkNbr lun = cap lun := hf.nbr lun hb.noted
  have hbytes' : t.dDataLength = n * 512 := hbytes
  have hleft : t.left = n * 512 := by
    have hblk : t.scsiBlkSize = 512 := hf.size (List.ne_nil_of_mem hb.noted)
    rw [Msc.left, hblk]
    exact Nat.mod_eq_of_lt (by change n * 512 < _; omega)
  have hpart : min (n * 512) mscMediaPacket = min n 64 * 512 := by
    change min (n * 512) (64 * 512) = _
    omega
  rw [Prog.bind_of (checkAddressRange_in (by rw [hnbr, Nat.mod_eq_of_lt (by omega)]; omega)),
    if_neg (by decide), Prog.bind_apply, Prog.val_get, Prog.state_get, id,
    if_neg (not_not.mpr (hbytes'.trans hleft.symm))]
  change (some (0 : ℤ),
    { t with botState := .dataOut, rx := some (.data (min t.left mscMediaPacket)) }) = _
  rw [hleft, hpart]
  rfl

/-- Nothing more is done while blocks are moved. -/
theorem afterCmd_moving (hstate : h.botState = .dataIn ∨ h.botState = .dataOut ∨
    h.botState = .lastDataIn) : (afterCmd 0).state h = h := by
  rw [afterCmd, Prog.state_bind, Prog.val_get, Prog.state_get, id, if_neg (by decide), if_neg]
  · rfl
  · rcases hstate with hs | hs | hs <;> simp [hs]

/-- The fields of a command block that moves blocks. -/
theorem moveCmd_fields {short long : UInt8} {wide : Bool} {cb : ℕ → UInt8}
    (hcb : ∀ j < (moveCmd short long wide blk n).length,
      cb j = (moveCmd short long wide blk n).getD j 0)
    (hblk : blk < 2 ^ 32) (hn : if wide = true then n < 2 ^ 23 else n < 2 ^ 16) :
    cb 0 = (if wide = true then long else short) ∧ be32 cb 2 = blk ∧
      (if wide = true then be32 cb 6 else be16 cb 7) = n := by
  cases wide with
  | true =>
      have hcb' (j : ℕ) (hj : j < 12) := hcb j hj
      refine ⟨hcb' 0 (by decide), be32_beList hblk fun j hj => ?_, ?_⟩
      · rw [hcb' (2 + j) (by omega)]
        interval_cases j <;> rfl
      · have hn' : n < 2 ^ 23 := hn
        refine be32_beList (by omega) fun j hj => ?_
        rw [hcb' (6 + j) (by omega)]
        interval_cases j <;> rfl
  | false =>
      have hcb' (j : ℕ) (hj : j < 10) := hcb j hj
      refine ⟨hcb' 0 (by decide), be32_beList hblk fun j hj => ?_, ?_⟩
      · rw [hcb' (2 + j) (by omega)]
        interval_cases j <;> rfl
      · have hn' : n < 2 ^ 16 := hn
        change be16 cb 7 = n
        have h7 : cb 7 = UInt8.ofNat (n / 256) := hcb' 7 (by decide)
        have h8 : cb (7 + 1) = UInt8.ofNat n := hcb' 8 (by decide)
        rw [be16, h7, h8, UInt8.toNat_ofNat', UInt8.toNat_ofNat']
        omega

variable (content cap) in
/-- A command is about to be carried out. -/
structure Commanded (c : ℕ → ℕ → UInt8) (noted : List ℕ) (tag len flags lun : ℕ) (cmd : List UInt8)
    (h : Msc σ) : Prop extends Fine content cap c noted h where
  idle : h.botState = .idle
  tx : h.tx = none
  rx : h.rx = none
  unit : h.bLUN = lun
  flags : h.bmFlags = flags
  cb : ∀ j < cmd.length, h.cb j = cmd.getD j 0
  tag : h.csw.dTag = tag
  residue : h.csw.dDataResidue = len
  len : h.dDataLength = len

/-- The class takes a CBW, and carries out its command. -/
theorem gives_cbw {len flags : ℕ} {cmd : List UInt8} {Q : Msc σ → Prop}
    (hr : Ready content cap c noted h) (htag : tag < 2 ^ 32) (hlen : len < 2 ^ 32)
    (hflags : flags < 256) (hlun : lun ≤ 3) (hcmd : 1 ≤ cmd.length ∧ cmd.length ≤ 16)
    (hrun : ∀ t, Commanded content cap c noted tag len flags lun cmd t → ∃ r u,
      scsiProcessCmd F lun t.cb t = (some r, u) ∧ Q ((afterCmd r).state u)) :
    Gives F [sendCbw tag len flags lun cmd] [.ack] Q h := by
  have hdec := decoded_sendCbw hr.rx htag hlen hflags hlun hcmd.1 hcmd.2
  have hroom : h.room = some 31 := by rw [Msc.room, hr.rx]; rfl
  set h₁ := takePacket 31 (fun j => (cbwList tag len flags lun cmd).getD j 0) h with hh₁
  have hpacket := hh₁.trans (takePacket_cbw hr.rx _ _)
  have hstart : Commanded content cap c noted tag len flags lun cmd
      { h₁ with csw := { h₁.csw with dTag := h₁.dTag, dDataResidue := h₁.dDataLength } } := by
    refine ⟨⟨?_, ?_, ?_, ?_, ?_, ?_⟩, ?_, ?_, ?_, hdec.lun, hdec.flags, hdec.cb, hdec.tag,
      hdec.len, hdec.len⟩ <;> rw [hpacket]
    exacts [hr.content, hr.nbr, hr.size, hr.medium, hr.stallIn, hr.stallOut, hr.idle, hr.tx]
  have hidle : (id h₁).botState = .idle := by rw [id, hpacket]; exact hr.idle
  obtain ⟨r, u, hcarried, hQ⟩ := hrun _ hstart
  rw [← hdec.lun] at hcarried
  refine gives_one (out_run hr.stallOut hroom (Nat.le_refl _) ?_) hQ
  change mscBotDataOut F h₁ = _
  rw [mscBotDataOut, Prog.bind_apply, Prog.val_get, Prog.state_get]
  simp only [hidle]
  exact cbwDecode_good hdec.good hcarried

theorem moveCmd_length (short long : UInt8) (wide : Bool) (blk n : ℕ) :
    1 ≤ (moveCmd short long wide blk n).length ∧ (moveCmd short long wide blk n).length ≤ 16 := by
  cases wide with
  | true => exact ⟨by change 1 ≤ 12; decide, by change 12 ≤ 16; decide⟩
  | false => exact ⟨by change 1 ≤ 10; decide, by change 10 ≤ 16; decide⟩

/-- A read. -/
theorem gives_read (hF : Stores F content cap U) (hU : ∀ lun ∈ noted, U lun)
    (hr : Ready content cap c noted h) (htag : tag < 2 ^ 32) {wide : Bool}
    (hb : Blocks noted cap lun blk n) (hn : if wide = true then n < 2 ^ 23 else n < 2 ^ 16) :
    Gives F (HostOp.events tag (.read wide lun blk n))
      (HostOp.answers cap tag c (.read wide lun blk n)) (Ready content cap c noted) h := by
  have hlun := hU lun hb.noted
  have hsize := hF.size lun hlun
  have hin := hb.inside
  have hfits := hb.fits
  have hfirst : Gives F [sendCbw tag (n * 512) 0x80 lun (moveCmd 0x28 0xA8 wide blk n)] [.ack]
      (Reading content cap c noted tag lun blk n) h := by
    refine gives_cbw hr htag (by omega) (by decide) (hF.unit lun hlun) (moveCmd_length ..) ?_
    intro t ht
    obtain ⟨hop, hblk, hblocks⟩ := moveCmd_fields ht.cb (by omega) hn
    have hstart (blkLen : (ℕ → UInt8) → ℕ) (hlen : blkLen t.cb = n) (hkind : isRead (t.cb 0)) :
        ∃ u, scsiRead F blkLen lun t.cb t = (some 0, u) ∧
          Reading content cap c noted tag lun blk n ((afterCmd 0).state u) := by
      have hread := scsiRead_first hF hU ht.toFine hb blkLen ht.idle ht.flags hblk hlen ht.len
      set t₁ : Msc σ :=
        { t with
          disk := (F.isReady lun).state t.disk
          scsiBlkAddr := blk
          scsiBlkLen := n
          botState := .dataIn
          botDataLength := mscMediaPacket } with ht₁
      have hm : Moves content cap c noted tag lun blk n t₁ :=
        ⟨⟨(hF.isReady lun hlun t.disk).trans ht.content, ht.nbr, ht.size, ht.medium, ht.stallIn,
          ht.stallOut⟩, ht.unit, rfl, rfl, ht.tag, ht.residue, ht.tx, ht.rx⟩
      obtain ⟨u, hrun, hu⟩ := reading_processRead hF hU hm hb hkind rfl
      refine ⟨u, hread.trans hrun, ?_⟩
      rw [afterCmd_moving]
      · exact hu
      · rw [hu.state]
        split
        · exact .inr (.inr rfl)
        · exact .inl rfl
    cases wide with
    | true =>
        obtain ⟨u, hrun, hu⟩ := hstart (fun p => be32 p 6) hblocks (.inr hop)
        refine ⟨0, u, ?_, hu⟩
        rw [processCmd_read12 F hop]
        exact hrun
    | false =>
        obtain ⟨u, hrun, hu⟩ := hstart (fun p => be16 p 7) hblocks (.inl hop)
        refine ⟨0, u, ?_, hu⟩
        rw [processCmd_read10 F hop]
        exact hrun
  have hparts (t : Msc σ) (ht : Reading content cap c noted tag lun blk n t) :
      Gives F (List.replicate (partsOf n) .poll ++ [.poll])
        (readParts (c lun) (partsOf n) blk n ++ [passed tag]) (Ready content cap c noted) t :=
    (gives_reading hF hU rfl ht hb).append fun _ hp => gives_passed hp
  exact hfirst.append hparts

/-- A write. -/
theorem gives_write (hF : Stores F content cap U) (hU : ∀ lun ∈ noted, U lun)
    (hr : Ready content cap c noted h) (htag : tag < 2 ^ 32) {wide : Bool}
    (hb : Blocks noted cap lun blk n) (hn : if wide = true then n < 2 ^ 23 else n < 2 ^ 16)
    (bytes : ℕ → UInt8) :
    Gives F (HostOp.events tag (.write wide lun blk n bytes))
      (HostOp.answers cap tag c (.write wide lun blk n bytes))
      (Ready content cap (stored c lun blk n bytes) noted) h := by
  have hlun := hU lun hb.noted
  have hsize := hF.size lun hlun
  have hin := hb.inside
  have hfits := hb.fits
  have hfirst : Gives F [sendCbw tag (n * 512) 0 lun (moveCmd 0x2A 0xAA wide blk n)] [.ack]
      (Writing content cap c noted tag lun blk n) h := by
    refine gives_cbw hr htag (by omega) (by decide) (hF.unit lun hlun) (moveCmd_length ..) ?_
    intro t ht
    obtain ⟨hop, hblk, hblocks⟩ := moveCmd_fields ht.cb (by omega) hn
    have hstart (blkLen : (ℕ → UInt8) → ℕ) (notReady : Prog (Msc σ) Unit) (hlen : blkLen t.cb = n)
        (hkind : isWrite (t.cb 0)) :
        ∃ u, scsiWrite F blkLen notReady lun t.cb t = (some 0, u) ∧
          Writing content cap c noted tag lun blk n ((afterCmd 0).state u) := by
      have hwrite := scsiWrite_first hF hU ht.toFine hb blkLen notReady ht.idle ht.flags hblk hlen
        ht.len
      refine ⟨_, hwrite, ?_⟩
      rw [afterCmd_moving (.inr (.inl rfl))]
      have hkept := (hF.isWriteProtected lun hlun _).trans (hF.isReady lun hlun t.disk)
      exact ⟨⟨hkept.trans ht.content, ht.nbr, ht.size, ht.medium, ht.stallIn, ht.stallOut⟩, ht.unit,
        hkind, rfl, rfl, ht.tag, ht.residue, rfl, ht.tx, rfl⟩
    cases wide with
    | true =>
        obtain ⟨u, hrun, hu⟩ := hstart (fun p => be32 p 6) (setBotState .noData) hblocks (.inr hop)
        refine ⟨0, u, ?_, hu⟩
        rw [processCmd_write12 F hop]
        exact hrun
    | false =>
        obtain ⟨u, hrun, hu⟩ := hstart (fun p => be16 p 7) (pure ()) hblocks (.inl hop)
        refine ⟨0, u, ?_, hu⟩
        rw [processCmd_write10 F hop]
        exact hrun
  have hparts (t : Msc σ) (ht : Writing content cap c noted tag lun blk n t) :
      Gives F (writeParts (partsOf n) n bytes ++ [.poll])
        (List.replicate (partsOf n) .ack ++ [passed tag])
        (Ready content cap (stored c lun blk n bytes) noted) t :=
    (gives_writing hF hU rfl ht hb bytes).append fun _ hp => gives_passed hp
  exact hfirst.append hparts

variable (content cap) in
/-- The answer to a command is on its way. -/
structure Sending (c : ℕ → ℕ → UInt8) (noted : List ℕ) (tag len : ℕ) (bytes : ℕ → UInt8)
    (h : Msc σ) : Prop extends Fine content cap c noted h where
  state : h.botState = .sendData
  tx : h.tx = some (.data len)
  tag : h.csw.dTag = tag
  residue : h.csw.dDataResidue = 0
  data : ∀ j < len, h.botData j = bytes j

/-- The answer is fetched. -/
theorem gives_sending {len : ℕ} {bytes : ℕ → UInt8}
    (hs : Sending content cap c noted tag len bytes h) :
    Gives F [.poll] [.data ((List.range len).map bytes)] (Passed content cap c noted tag) h := by
  have hsends : h.sends (.data len) = .data ((List.range len).map bytes) := by
    rw [Msc.sends, Answer.data.injEq]
    exact List.map_congr_left fun j hj => hs.data j (List.mem_range.mp hj)
  rw [← hsends]
  refine gives_one (poll_run hs.stallIn hs.tx (dataIn_last (.inr hs.state))) ?_
  exact Fine.sendCSW ⟨hs.content, hs.nbr, hs.size, hs.medium, hs.stallIn, hs.stallOut⟩ hs.tag
    hs.residue

/-- The capacity is noted. -/
theorem noteCapacity_apply (hF : Stores F content cap U) (hlun : U lun)
    (hmedium : h.scsiMediumState ≠ .ejected) : ∃ d, content d = content h.disk ∧
      noteCapacity F lun h = (true, { h with
        disk := d
        scsiBlkNbr := Function.update h.scsiBlkNbr lun (cap lun)
        scsiBlkSize := 512 }) := by
  set old := (h.scsiBlkNbr lun, h.scsiBlkSize) with hold
  refine ⟨(F.getCapacity lun old).state h.disk, hF.getCapacity lun hlun old h.disk, ?_⟩
  have hval : onDisk (F.getCapacity lun old) h =
      ((0, cap lun, 512), { h with disk := (F.getCapacity lun old).state h.disk }) :=
    Prod.ext (hF.capacity lun hlun old h.disk) rfl
  rw [noteCapacity, Prog.bind_apply, Prog.val_get, Prog.state_get]
  change (onDisk (F.getCapacity lun old) >>= _) h = _
  rw [Prog.bind_of hval]
  refine Prod.ext ?_ rfl
  exact decide_eq_true ⟨rfl, hmedium⟩

/-- The capacity is on its way. -/
theorem gives_capacity (hF : Stores F content cap U) (hr : Ready content cap c noted h)
    (htag : tag < 2 ^ 32) (hlun : U lun) :
    Gives F (HostOp.events tag (.capacity lun)) (HostOp.answers cap tag c (.capacity lun))
      (Ready content cap c (lun :: noted)) h := by
  have hfirst : Gives F [sendCbw tag 8 0x80 lun [0x25, 0, 0, 0, 0, 0, 0, 0, 0, 0]] [.ack]
      (Sending content cap c (lun :: noted) tag 8 (capacityBytes (cap lun))) h := by
    refine gives_cbw hr htag (by decide) (by decide) (hF.unit lun hlun) (by decide) ?_
    intro t ht
    obtain ⟨d, hd, hnote⟩ := noteCapacity_apply hF hlun ht.medium
    have hop : t.cb 0 = 0x25 := ht.cb 0 (by decide)
    set t₁ : Msc σ :=
      { t with
        disk := d
        scsiBlkNbr := Function.update t.scsiBlkNbr lun (cap lun)
        scsiBlkSize := 512 } with ht₁
    have hnbr : (id t₁).scsiBlkNbr lun = cap lun := Function.update_self ..
    have hread : scsiReadCapacity10 F lun t = (0,
        { t₁ with
          botDataLength := 8
          botData :=
            overlay (overlay t₁.botData 0 (lastBlock (cap lun)) 4) 4 (beBytes 512) 4 }) := by
      rw [scsiReadCapacity10, Prog.bind_of hnote, if_pos rfl, Prog.bind_apply, Prog.val_get,
        Prog.state_get, hnbr]
      rfl
    refine ⟨0, _, by rw [processCmd_readCapacity10 F hop, returning, Prog.bind_of hread]; rfl, ?_⟩
    have hfine : Fine content cap c (lun :: noted) t₁ := by
      refine ⟨hd.trans ht.content, fun l hl => ?_, fun _ => rfl, ht.medium, ht.stallIn, ht.stallOut⟩
      change Function.update t.scsiBlkNbr lun (cap lun) l = cap l
      rw [Function.update_apply]
      split
      · rename_i hl'; rw [hl']
      · rename_i hl'; exact ht.nbr l ((List.mem_cons.mp hl).resolve_left hl')
    rw [afterCmd, Prog.state_bind, Prog.val_get, Prog.state_get, id, if_neg (by decide),
      if_pos (by rw [ht₁, ht.idle]; decide), if_pos (by change 0 < 8; decide), mscBotSendData,
      Prog.state_modify]
    have hlen : t.dDataLength = 8 := ht.len
    refine ⟨⟨hfine.content, hfine.nbr, hfine.size, hfine.medium, hfine.stallIn, hfine.stallOut⟩,
      rfl, ?_, ht.tag, ?_, fun j hj => ?_⟩
    · change some (Tx.data (min t.dDataLength 8)) = _
      rw [hlen]
      rfl
    · change sub32 t.csw.dDataResidue 8 = 0
      rw [ht.residue]
      rfl
    · change overlay (overlay t.botData 0 (lastBlock (cap lun)) 4) 4 (beBytes 512) 4 j = _
      rw [capacityBytes]
      split
      · rename_i hlow
        rw [overlay_before hlow, overlay_inside (Nat.zero_le j) (by omega), Nat.sub_zero]
      · rename_i hhigh
        rw [overlay_inside (by omega) (by omega)]
  exact hfirst.append fun t ht => (gives_sending ht).append fun _ hp => gives_passed hp

end Commands

/-! ## Runs -/

section Runs

/-- Each operation is valid when its turn comes, and has a tag of 32 bits. -/
def OpsValid (cap : ℕ → ℕ) (U : ℕ → Prop) : List ℕ → List (ℕ × HostOp) → Prop
  | _, [] => True
  | noted, (tag, op) :: ops =>
      tag < 2 ^ 32 ∧ op.Valid cap U noted ∧ OpsValid cap U (op.noted noted) ops

/-- What the host does. -/
def opsEvents (ops : List (ℕ × HostOp)) : List HostEvent := ops.flatMap fun p => p.2.events p.1

/-- What the host is to get. -/
def opsAnswers (cap : ℕ → ℕ) : (ℕ → ℕ → UInt8) → List (ℕ × HostOp) → List Answer
  | _, [] => []
  | c, (tag, op) :: ops => op.answers cap tag c ++ opsAnswers cap (op.effect c) ops

/-- What is in the units in the end. -/
def opsEffect (c : ℕ → ℕ → UInt8) (ops : List (ℕ × HostOp)) : ℕ → ℕ → UInt8 :=
  ops.foldl (fun c p => p.2.effect c) c

variable {c : ℕ → ℕ → UInt8} {noted : List ℕ} {h : Msc σ}

theorem gives_op (hF : Stores F content cap U) (hU : ∀ lun ∈ noted, U lun) {tag : ℕ} {op : HostOp}
    (htag : tag < 2 ^ 32) (hop : op.Valid cap U noted) (hr : Ready content cap c noted h) :
    Gives F (op.events tag) (op.answers cap tag c)
      (Ready content cap (op.effect c) (op.noted noted)) h := by
  have hblocks {wide : Bool} {n : ℕ} (hn : if wide = true then n < 2 ^ 23 else n < 2 ^ 16) :
      n < 2 ^ 23 := by
    cases wide with
    | true => exact hn
    | false => exact Nat.lt_trans hn (by decide)
  cases op with
  | capacity lun => exact gives_capacity hF hr htag hop
  | read wide lun blk n =>
      obtain ⟨hnoted, hpos, hin, hn⟩ := hop
      exact gives_read hF hU hr htag ⟨hnoted, hpos, hin, hblocks hn⟩ hn
  | write wide lun blk n bytes =>
      obtain ⟨hnoted, hpos, hin, hn⟩ := hop
      exact gives_write hF hU hr htag ⟨hnoted, hpos, hin, hblocks hn⟩ hn bytes

theorem gives_ops (hF : Stores F content cap U) {ops : List (ℕ × HostOp)}
    (hU : ∀ lun ∈ noted, U lun) (hops : OpsValid cap U noted ops)
    (hr : Ready content cap c noted h) : Gives F (opsEvents ops) (opsAnswers cap c ops)
      (fun t => content t.disk = opsEffect c ops) h := by
  induction ops generalizing c noted h with
  | nil => exact hr.content
  | cons p ops ih =>
      obtain ⟨tag, op⟩ := p
      obtain ⟨htag, hop, hrest⟩ := hops
      have hU' : ∀ lun ∈ op.noted noted, U lun := by
        cases op with
        | capacity lun => exact List.forall_mem_cons.mpr ⟨hop, hU⟩
        | read wide lun blk n => exact hU
        | write wide lun blk n bytes => exact hU
      rw [opsEvents, List.flatMap_cons, opsAnswers]
      exact (gives_op hF hU htag hop hr).append fun t ht => ih hU' hrest ht

/-- The class waits for a CBW as soon as it is initialised. -/
theorem ready_init (hF : Stores F content cap U) (hin : h.stallIn = false)
    (hout : h.stallOut = false) :
    Ready content cap (content h.disk) [] ((mscBotInit F).state h) := by
  rw [mscBotInit, Prog.state_bind, Prog.state_modify, Prog.state_bind, Prog.state_modify]
  exact ⟨⟨hF.init h.disk, fun _ hl => absurd hl List.not_mem_nil, fun hne => absurd rfl hne,
    by change MediumState.unlocked ≠ .ejected; decide, hin, hout⟩, rfl, rfl, rfl⟩

/-- Over a medium that keeps a row of bytes for each unit, whatever a host asks for in whatever
order: each read gives the bytes that are in the unit by then, in parts, each command passes with
its own tag and nothing left over, and in the end the units hold what has been written. -/
theorem runHost_ops (hF : Stores F content cap U) {ops : List (ℕ × HostOp)}
    (hops : OpsValid cap U [] ops) (hin : h.stallIn = false) (hout : h.stallOut = false) :
    (runHost F (opsEvents ops)).val ((mscBotInit F).state h) =
        opsAnswers cap (content h.disk) ops ∧
      content ((runHost F (opsEvents ops)).state ((mscBotInit F).state h)).disk =
        opsEffect (content h.disk) ops :=
  (gives_ops hF (fun _ hl => absurd hl List.not_mem_nil) hops (ready_init hF hin hout)).runHost

end Runs

end Disk

end Apollo.Usb
