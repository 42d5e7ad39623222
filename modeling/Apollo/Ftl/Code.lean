import Apollo.Nand.Driver
import Apollo.Lib.Scan

/-!
# The flash translation layer

The functions of `ftl.c`.  Each block has a tag in the first four spare bytes of
its first page: byte 0 is `0xFF` for a good block, byte 1 is `0xCC` once data has
been written, bytes 2 and 3 are the logical block number.  The table
`nand_dev.lut` is built from the tags by `ftl_create_lut`, which comes first here
because the copying functions call it.

The `goto retry` of `ftl_copy_and_write_to_block` and the sector loops of the two
disk functions have no bound in the source.  They run on `fuel`, and running out of
it is the result `none`, which no return value of the source stands for.

## Main definitions

* `ftlFindSamePlaneUnusedBlock`, `ftlBadblockMark`, `ftlUsedBlockmark`.
* `ftlCreateLut`, `ftlFormat` — build the table from the tags, write the tags.
* `ftlCopyAndWriteToBlock` — move a block and write into the copy.
* `ftlWriteSectors`, `ftlReadSectors` — the disk.
-/

namespace Apollo.Ftl
open Lib Nand

/-- What the searches return when there is no unused block. -/
abbrev noBlock : ℕ := 0xFFFFFFFF

/-! ## Tags -/

/-- `ftl_badblock_mark`: four bytes `0xAA` in the spare area of the first two pages. -/
def ftlBadblockMark (B : Board) (blocknum : ℕ) : NandM Unit := do
  let _ ← nandWritespare B (blocknum * B.blockPagenum) 0 (fun _ => 0xAA) 4
  let _ ← nandWritespare B (blocknum * B.blockPagenum + 1) 0 (fun _ => 0xAA) 4

/-- `ftl_check_badblock`: 0 for a good block. -/
def ftlCheckBadblock (B : Board) (blocknum : ℕ) : NandM ℕ := do
  let flag := (← nandReadspare B (blocknum * B.blockPagenum) 0 (fun _ => 0) 1).2
  if flag 0 = 0xFF then
    let flag := (← nandReadspare B (blocknum * B.blockPagenum + 1) 0 flag 1).2
    if flag 0 = 0xFF then pure 0 else pure 1
  else pure 2

/-- `ftl_used_blockmark`: `0xCC` in byte 1 of the tag. -/
def ftlUsedBlockmark (B : Board) (blocknum : ℕ) : NandM ℕ :=
  nandWritespare B (blocknum * B.blockPagenum) 1 (fun _ => 0xCC) 1

/-- The loop of `ftl_find_unused_block`: the blocks below `blocknum`, downwards.  The
local `temp` keeps the last four bytes read. -/
def ftlFindUnusedBlockFrom (B : Board) (flag : ℕ) : ℕ → Bytes → NandM ℕ
  | 0, _ => pure noBlock
  | blocknum + 1, temp =>
      if blocknum % 2 = flag then do
        let temp := (← nandReadspare B (blocknum * B.blockPagenum) 0 temp 4).2
        if word temp 0 = 0xFFFFFFFF then pure blocknum
        else ftlFindUnusedBlockFrom B flag blocknum temp
      else ftlFindUnusedBlockFrom B flag blocknum temp

/-- `ftl_find_unused_block`: the nearest unused block of one parity, at `sblock` or
below. -/
def ftlFindUnusedBlock (B : Board) (sblock flag : ℕ) : NandM ℕ :=
  ftlFindUnusedBlockFrom B flag (u32 (sblock + 1)) fun _ => 0

/-- The cursor set to `b`. -/
def setCurblock (b : ℕ) : NandM Unit := Prog.modify fun d => { d with curblock := b }

/-- `ftl_find_same_plane_unused_block`: search downwards from the static cursor, then
once more from the last block. -/
def ftlFindSamePlaneUnusedBlock (B : Board) (sblock : ℕ) : NandM ℕ := do
  let last := B.blockTotalnum - 1
  let curblock ← Prog.get fun d => if d.curblock > last then last else d.curblock
  setCurblock curblock
  let unusedblock ← ftlFindUnusedBlock B curblock (sblock % 2)
  let unusedblock ← (if unusedblock = noBlock ∧ curblock < last then do
      setCurblock last
      ftlFindUnusedBlock B last (sblock % 2)
    else pure unusedblock)
  if unusedblock = noBlock then
    pure noBlock
  else do
    setCurblock unusedblock
    pure unusedblock

/-! ## The table -/

/-- One round of the scan of `ftl_create_lut`. -/
def scanBlock (B : Board) (mode i : ℕ) (buf : Bytes) : NandM Bytes := do
  let buf := (← nandReadspare B (i * B.blockPagenum) 0 buf 4).2
  let buf ← (if buf 0 = 0xFF ∧ mode ≠ 0 then do
      let r ← nandReadspare B (i * B.blockPagenum + 1) 0 buf 1
      pure r.2
    else pure buf)
  if buf 0 = 0xFF then do
    let lbnnum := (buf 3).toNat <<< 8 + (buf 2).toNat
    Prog.modify fun d => { d with
      lut := if lbnnum < B.blockTotalnum then Function.update d.lut lbnnum i else d.lut
      goodBlocknum := d.goodBlocknum + 1 }
    pure buf
  else pure buf

/-- The head of `ftl_create_lut`: every entry invalid, no good block counted. -/
def resetLut (B : Board) : NandM Unit :=
  Prog.modify fun d => { d with
    lut := overlay d.lut 0 (fun _ => 0xFFFF) B.blockTotalnum
    goodBlocknum := 0 }

/-- The end of `ftl_create_lut`: the valid blocks end before the first invalid entry. -/
def countValid (B : Board) : NandM Unit :=
  Prog.modify fun d => { d with
    validBlocknum :=
      (firstEntry B.blockTotalnum fun i => B.blockTotalnum ≤ d.lut i).getD d.validBlocknum }

/-- `ftl_create_lut`: rebuild the table from the tags.  In mode 1 a block is good only
if its second page carries no mark either. -/
def ftlCreateLut (B : Board) (mode : ℕ) : NandM ℕ := do
  resetLut B
  let _ ← Prog.forUp (scanBlock B mode) B.blockTotalnum 0 B.uninit
  countValid B
  if (← Prog.get Dev.validBlocknum) < 100 then pure 2 else pure 0

/-! ## Moving a block -/

/-- The arguments of `ftl_copy_and_write_to_block` that its loop works on. -/
structure CopyArgs where
  colnum : ℕ
  pbuffer : Bytes
  numbyte : ℕ

/-- One round of the page loop of `ftl_copy_and_write_to_block`: its `temp`, and the
arguments after it. -/
def ftlCopyPage (B : Board) (sourceBlock unusedblock pageoffset i : ℕ) (v : CopyArgs) :
    NandM (ℕ × CopyArgs) :=
  if pageoffset ≤ i ∧ v.numbyte ≠ 0 then do
    -- the difference is converted to `uint32_t` for the comparison, to `uint16_t` by `wrlen`
    let wrlen := if v.numbyte > u32 (B.pageMainsize + 2 ^ 32 - v.colnum)
      then u16 (B.pageMainsize + 2 ^ 16 - v.colnum) else u16 v.numbyte
    let temp ← nandCopypageWithwrite B (sourceBlock * B.blockPagenum + i)
      (unusedblock * B.blockPagenum + i) v.colnum v.pbuffer wrlen
    pure (temp, ⟨0, shift v.pbuffer wrlen, u32 (v.numbyte + 2 ^ 32 - wrlen)⟩)
  else do
    let temp ← nandCopypageWithoutwrite B (sourceBlock * B.blockPagenum + i)
      (unusedblock * B.blockPagenum + i)
    pure (temp, v)

/-- The page loop: it leaves at the first page whose copy fails. -/
def ftlCopyPages (B : Board) (sourceBlock unusedblock pageoffset : ℕ) (v : CopyArgs) :
    NandM (Flow CopyArgs CopyArgs) :=
  Prog.loop (fun i v => do
    let r ← ftlCopyPage B sourceBlock unusedblock pageoffset i v
    pure (if r.1 ≠ 0 then .exit r.2 else .next r.2)) B.blockPagenum 0 v

/-- The first entry of the table that is `sourceBlock` becomes `unusedblock`. -/
def replaceEntry (B : Board) (sourceBlock unusedblock : ℕ) : NandM Unit :=
  Prog.modify fun d => { d with
    lut := match firstEntry B.blockTotalnum fun i => d.lut i = sourceBlock with
      | some i => Function.update d.lut i unusedblock
      | none => d.lut }

/-- One pass from the label `retry`: it leaves with the return value, or goes on to
the next pass with the arguments as the page loop left them. -/
def ftlCopyAttempt (B : Board) (sourceBlock pageoffset : ℕ) (v : CopyArgs) :
    NandM (Flow CopyArgs ℕ) := do
  let unusedblock ← ftlFindSamePlaneUnusedBlock B sourceBlock
  if unusedblock > B.blockTotalnum then
    pure (.exit 1)
  else do
    match ← ftlCopyPages B sourceBlock unusedblock pageoffset v with
    | .exit v' => do
        ftlBadblockMark B unusedblock
        let _ ← ftlCreateLut B 1
        pure (.next v')
    | .next _ => do
        let _ ← ftlUsedBlockmark B unusedblock
        let _ ← nandEraseblock B sourceBlock
        replaceEntry B sourceBlock unusedblock
        pure (.exit 0)

/-- `ftl_copy_and_write_to_block`: copy the block of a page to an unused block of the
same plane, writing a buffer into the copy from that page on. -/
def ftlCopyAndWriteToBlock (B : Board) (fuel sourcePagenum colnum : ℕ) (pbuffer : Bytes)
    (numbyteToWrite : ℕ) : NandM (Option ℕ) := do
  match ← Prog.loop (fun _ => ftlCopyAttempt B (sourcePagenum / B.blockPagenum)
      (sourcePagenum % B.blockPagenum)) fuel 0 ⟨colnum, pbuffer, numbyteToWrite⟩ with
  | .next _ => pure none
  | .exit r => pure (some r)

/-- `ftl_lbn_to_pbn`: logical block to physical block. -/
def ftlLbnToPbn (lbnnum : ℕ) : NandM ℕ :=
  Prog.get fun d => if lbnnum > d.validBlocknum then 0xFFFF else d.lut lbnnum

/-! ## Writing sectors -/

/-- How many sectors of `sectorsize` bytes the FTL puts into a block. -/
abbrev sectorsPerBlock (B : Board) (sectorsize : ℕ) : ℕ :=
  B.blockPagenum * (B.pageMainsize / sectorsize)

/-- The local `lbnno` of the two disk functions: the logical block of a sector. -/
def lbnno (B : Board) (sectorno sectorsize i : ℕ) : ℕ :=
  u32 (sectorno + i) / sectorsPerBlock B sectorsize

/-- The local `blockoffset`: the byte offset of a sector in its block. -/
def blockoffset (B : Board) (sectorno sectorsize i : ℕ) : ℕ :=
  u32 (sectorno + i) % sectorsPerBlock B sectorsize * sectorsize

/-- The local `wsecs`: how many of the remaining sectors are written now, given that
there is room for `temp`. -/
def wsecs (sectorcount i temp : ℕ) : ℕ :=
  if u16 (sectorcount - i) ≥ temp then temp else u16 (sectorcount - i)

/-- The locals that `ftl_write_sectors` carries from one round to the next. -/
structure WriteVars where
  i : ℕ
  pbuffer : Bytes
  markdpbn : ℕ

/-- The index after `n` sectors: `i += n - 1` in the body and `i++` in the loop head. -/
abbrev advance (i n : ℕ) : ℕ := u32 (u32 (i + n + (2 ^ 32 - 1)) + 1)

/-- The first half of a round of `ftl_write_sectors`: program the part of the page if it
is still `0xFF`.  It leaves with 2, or goes on with `flag` and `markdpbn`. -/
def writeInPlace (B : Board) (phypageno pageoffset : ℕ) (pbuffer : Bytes)
    (wlen temp pbnno markdpbn : ℕ) : NandM (Lib.Flow (ℕ × ℕ) ℕ) := do
  let cmp ← nandReadpagecomp B phypageno pageoffset 0xFFFFFFFF (wlen / 4) temp
  if cmp.1 ≠ 0 then
    pure (.exit 2)
  else do
    let flag ← (if cmp.2 = wlen / 4 then nandWritepage B phypageno pageoffset pbuffer wlen
      else pure 1)
    if flag = 0 ∧ markdpbn ≠ pbnno then do
      let flag ← ftlUsedBlockmark B pbnno
      pure (.next (flag, pbnno))
    else
      pure (.next (flag, markdpbn))

/-- One round of `ftl_write_sectors`. -/
def writeRound (B : Board) (fuel sectorno sectorsize sectorcount : ℕ) (v : WriteVars) :
    NandM (Flow WriteVars (Option ℕ)) :=
  if v.i < sectorcount then do
    let pbnno ← ftlLbnToPbn (lbnno B sectorno sectorsize v.i)
    if pbnno ≥ B.blockTotalnum then
      pure (.exit (some 1))
    else do
      let blockoffset := blockoffset B sectorno sectorsize v.i
      let phypageno := pbnno * B.blockPagenum + blockoffset / B.pageMainsize
      let pageoffset := blockoffset % B.pageMainsize
      let temp := (B.pageMainsize - pageoffset) / sectorsize
      let secs := wsecs sectorcount v.i temp
      match ← writeInPlace B phypageno pageoffset v.pbuffer (secs * sectorsize) temp pbnno
          v.markdpbn with
      | .exit r => pure (.exit (some r))
      | .next (flag, markdpbn) =>
          if flag ≠ 0 then do
            let temp := u16 ((B.blockPagenum * B.pageMainsize - blockoffset) / sectorsize)
            let secs := wsecs sectorcount v.i temp
            match ← ftlCopyAndWriteToBlock B fuel phypageno pageoffset v.pbuffer
                (secs * sectorsize) with
            | none => pure (.exit none)
            | some flag =>
                if flag ≠ 0 then pure (.exit (some 3))
                else pure (.next ⟨advance v.i secs, shift v.pbuffer (secs * sectorsize), markdpbn⟩)
          else
            pure (.next ⟨advance v.i secs, shift v.pbuffer (secs * sectorsize), markdpbn⟩)
  else
    pure (.exit (some 0))

/-- `ftl_write_sectors`. -/
def ftlWriteSectors (B : Board) (fuel : ℕ) (pbuffer : Bytes)
    (sectorno sectorsize sectorcount : ℕ) : NandM (Option ℕ) := do
  match ← Prog.loop (fun _ => writeRound B fuel sectorno sectorsize sectorcount) fuel 0
      ⟨0, pbuffer, 0xFFFFFFFF⟩ with
  | .next _ => pure none
  | .exit r => pure r

/-! ## Reading sectors -/

/-- The inner loop of `ftl_blockcompare`, which compares the first page of the block
each time.  It leaves with `k` at a difference. -/
def comparePages (B : Board) (blockx cmpval k : ℕ) : NandM (Lib.Flow ℕ ℕ) :=
  Prog.loop (fun _ k => do
    let r ← nandReadpagecomp B (blockx * B.blockPagenum) 0 cmpval (B.pageMainsize / 4) k
    pure (if r.2 ≠ B.pageMainsize / 4 then .exit r.2 else .next r.2)) B.blockPagenum 0 k

/-- One of the three chances of `ftl_blockcompare`: after a difference the block is
erased and, if it is tested for zeros, filled with zeros. -/
def compareRound (B : Board) (blockx cmpval k : ℕ) : NandM (Lib.Flow ℕ ℕ) := do
  match ← comparePages B blockx cmpval k with
  | .next _ => pure (.exit 0)
  | .exit k => do
      let res ← nandEraseblock B blockx
      if res ≠ 0 then pure (.next k)
      else if cmpval ≠ 0xFFFFFFFF then do
        Prog.forUp (fun k _ => do
          let _ ← nandWritePageconst B (blockx * B.blockPagenum + k) 0 0 (B.pageMainsize / 4)
          pure ()) B.blockPagenum 0 ()
        pure (.next B.blockPagenum)
      else pure (.next k)

/-- `ftl_blockcompare`: 0 if the block compares equal within three chances. -/
def ftlBlockcompare (B : Board) (blockx cmpval : ℕ) : NandM ℕ := do
  match ← Prog.loop (fun _ => compareRound B blockx cmpval) 3 0 (u16 (word B.uninit 0)) with
  | .next _ => pure 1
  | .exit r => pure r

/-- The end of a relocation in `ftl_read_sectors`: test the old block, then erase it or mark
it bad. -/
def retireBlock (B : Board) (old : ℕ) : NandM Unit := do
  let flag ← ftlBlockcompare B old 0xFFFFFFFF
  let flag ← (if flag = 0 then do
      let flag ← ftlBlockcompare B old 0x00
      let _ ← nandEraseblock B old
      pure flag
    else pure flag)
  if flag ≠ 0 then do
    ftlBadblockMark B old
    let _ ← ftlCreateLut B 1
    pure ()
  else pure ()

/-- What `ftl_read_sectors` does once a page has twice needed a correction: move the
block, and retire the old one whatever came of that. -/
def relocate (B : Board) (fuel phypageno pageoffset : ℕ) (pbuffer : Bytes) (numbyte : ℕ) :
    NandM (Option Unit) := do
  match ← ftlCopyAndWriteToBlock B fuel phypageno pageoffset pbuffer numbyte with
  | none => pure none
  | some _ => do
      retireBlock B (phypageno / B.blockPagenum)
      pure (some ())

/-- One page read of `ftl_read_sectors`: `flag` and the buffer after it. -/
def readAndRelocate (B : Board) (fuel phypageno pageoffset : ℕ) (pbuffer : Bytes)
    (numbyte : ℕ) : NandM (Option (ℕ × Bytes)) := do
  let r ← nandReadpage B phypageno pageoffset pbuffer numbyte
  if r.1 = nstaEcc1biterr then do
    -- read once more to be sure
    let r ← nandReadpage B phypageno pageoffset r.2 numbyte
    if r.1 = nstaEcc1biterr then do
      match ← relocate B fuel phypageno pageoffset r.2 numbyte with
      | none => pure none
      | some _ => pure (some (0, r.2))
    else pure (some r)
  else pure (some r)

/-- The locals that `ftl_read_sectors` carries from one round to the next; the pointer
`pbuffer` is the caller's buffer and an offset. -/
structure ReadVars where
  i : ℕ
  pbuffer : Bytes
  offset : ℕ

/-- One round of `ftl_read_sectors`. -/
def readRound (B : Board) (fuel sectorno sectorsize sectorcount : ℕ) (v : ReadVars) :
    NandM (Flow ReadVars (Option ℕ × Bytes)) :=
  if v.i < sectorcount then do
    let pbnno ← ftlLbnToPbn (lbnno B sectorno sectorsize v.i)
    if pbnno ≥ B.blockTotalnum then
      pure (.exit (some 1, v.pbuffer))
    else do
      let blockoffset := blockoffset B sectorno sectorsize v.i
      let phypageno := pbnno * B.blockPagenum + blockoffset / B.pageMainsize
      let pageoffset := blockoffset % B.pageMainsize
      let room := (B.pageMainsize - pageoffset) / sectorsize
      let rsecs := if room > sectorcount - v.i then sectorcount - v.i else room
      match ← readAndRelocate B fuel phypageno pageoffset (shift v.pbuffer v.offset)
          (rsecs * sectorsize) with
      | none => pure (.exit (none, v.pbuffer))
      | some (flag, p) =>
          let pbuffer := graft v.pbuffer v.offset p
          let flag := if flag = nstaEcc2biterr then 0 else flag
          if flag ≠ 0 then pure (.exit (some 2, pbuffer))
          else pure (.next ⟨advance v.i rsecs, pbuffer, v.offset + sectorsize * rsecs⟩)
  else
    pure (.exit (some 0, v.pbuffer))

/-- `ftl_read_sectors`: the return value and the caller's buffer. -/
def ftlReadSectors (B : Board) (fuel : ℕ) (pbuffer : Bytes)
    (sectorno sectorsize sectorcount : ℕ) : NandM (Option ℕ × Bytes) := do
  match ← Prog.loop (fun _ => readRound B fuel sectorno sectorsize sectorcount) fuel 0
      ⟨0, pbuffer, 0⟩ with
  | .next v => pure (none, v.pbuffer)
  | .exit r => pure r

/-! ## Formatting -/

/-- One round of the first loop of `ftl_format`: erase a good block, and mark it bad if
that fails. -/
def formatBlock (B : Board) (i : ℕ) : NandM Unit := do
  let temp ← ftlCheckBadblock B i
  if temp = 0 then do
    let temp ← nandEraseblock B i
    if temp ≠ 0 then ftlBadblockMark B i
    else Prog.modify fun d => { d with goodBlocknum := d.goodBlocknum + 1 }
  else pure ()

/-- One round of the second loop of `ftl_format`: a good block gets the next logical
number `n`, until `goodblock` have one. -/
def numberBlock (B : Board) (goodblock i n : ℕ) : NandM (Lib.Flow ℕ ℕ) := do
  let temp ← ftlCheckBadblock B i
  if temp = 0 then do
    let _ ← nandWritespare B (i * B.blockPagenum) 2 (wordByte n) 2
    pure (if n + 1 = goodblock then .exit (n + 1) else .next (n + 1))
  else pure (.next n)

/-- `ftl_format`, with the factory's bad-block marks (`FTL_USE_BAD_BLOCK_SEARCH` is 0). -/
def ftlFormat (B : Board) : NandM ℕ := do
  Prog.modify fun d => { d with goodBlocknum := 0 }
  Prog.forUp (fun i _ => formatBlock B i) B.blockTotalnum 0 ()
  let good ← Prog.get Dev.goodBlocknum
  if good < 100 then pure 1
  else do
    let _ ← Prog.loop (numberBlock B (good * 93 / 100)) B.blockTotalnum 0 0
    if (← ftlCreateLut B 1) ≠ 0 then pure 2 else pure 0

end Apollo.Ftl
