import Apollo.Nand.Chip

/-!
# The NAND driver

The functions of `nand.c`, in the order of the source.  The two ECC scratch arrays
of `nand_dev` are rewritten before every use, so they are local here: the words
the FMC computed are `hwEcc` of each 512 bytes that passed the data bus.

## Main definitions

* `nandWaitForReady`, `nandWaitrb` — the polls of the status register and the pin.
* `nandReadpage`, `nandReadpagecomp`, `nandWritepage`, `nandWritePageconst`.
* `nandCopypageWithoutwrite`, `nandCopypageWithwrite`, `nandEraseblock`.
* `nandReadspare`, `nandWritespare`, `nandEccCorrection`.
-/

namespace Apollo.Nand
open Lib

/-! ## Waiting -/

/-- The loop of `nand_wait_for_ready` with `k` polls left: read the status until bit
6 is set. -/
def nandWaitForReadyFrom (status : ℕ → UInt8) : ℕ → ℕ → ℕ
  | 0, _ => nstaTimeout
  | k + 1, time =>
      if status time &&& 0x40 ≠ 0 then nstaReady else nandWaitForReadyFrom status k (time + 1)

/-- `nand_wait_for_ready`: at most `0x1FFFFFFF` status reads, then a timeout. -/
def nandWaitForReady (status : ℕ → UInt8) : ℕ := nandWaitForReadyFrom status 0x1FFFFFFF 0

/-- The loop of `nand_waitrb` with `k` samples left. -/
def nandWaitrbFrom (pin : ℕ → Bool) (rb : Bool) : ℕ → ℕ → ℕ
  | 0, _ => 1
  | k + 1, time => if pin time = rb then 0 else nandWaitrbFrom pin rb k (time + 1)

/-- `nand_waitrb`: 0 once the pin has the level `rb`, 1 after `0x1FFFFFF` samples. -/
def nandWaitrb (pin : ℕ → Bool) (rb : Bool) : ℕ := nandWaitrbFrom pin rb 0x1FFFFFF 0

/-- One of the two waits on the R/B pin runs out. -/
abbrev Reply.RbTimeout (r : Reply) : Prop :=
  nandWaitrb r.rbLow false ≠ 0 ∨ nandWaitrb r.rbHigh true ≠ 0

/-- What the writing functions return after their command: 0 if the chip became
ready, else `NSTA_ERROR`. -/
def Reply.waitCode (r : Reply) : ℕ :=
  if nandWaitForReady r.status ≠ nstaReady then nstaError else 0

/-! ## Words and ECC -/

/-- The `k`-th 32-bit word of a byte buffer, least significant byte first. -/
def word (b : Bytes) (k : ℕ) : ℕ :=
  (b (4 * k)).toNat + 2 ^ 8 * (b (4 * k + 1)).toNat + 2 ^ 16 * (b (4 * k + 2)).toNat +
    2 ^ 24 * (b (4 * k + 3)).toNat

/-- Byte `j` of a word, least significant first. -/
def wordByte (w j : ℕ) : UInt8 := UInt8.ofNat (w / 2 ^ (8 * j))

/-- The odd (`oe = 1`) or even bits among the lowest `i` bits of `eccval`. -/
def nandEccGetOeFrom (oe eccval : ℕ) : ℕ → ℕ
  | 0 => 0
  | i + 1 => nandEccGetOeFrom oe eccval i +
      if i % 2 = oe ∧ eccval >>> i &&& 0x01 ≠ 0 then 1 <<< (i >>> 1) else 0

/-- `nand_ecc_get_oe`: the odd or even bits of a 24-bit ECC value, packed. -/
def nandEccGetOe (oe eccval : ℕ) : ℕ := nandEccGetOeFrom oe eccval 24

/-- `nand_ecc_correction`: flip the one wrong bit and return 0, or return 1 and leave
the data when more than one bit is wrong. -/
def nandEccCorrection (dataBuf : Bytes) (eccrd ecccl : ℕ) : ℕ × Bytes :=
  let eccrdo := nandEccGetOe 1 eccrd
  let eccrde := nandEccGetOe 0 eccrd
  let eccclo := nandEccGetOe 1 ecccl
  let ecccle := nandEccGetOe 0 ecccl
  let eccchk := eccrdo ^^^ eccrde ^^^ eccclo ^^^ ecccle
  if eccchk = 0xFFF then
    let errorpos := eccrdo ^^^ eccclo
    let bytepos := errorpos / 8
    (0, Function.update dataBuf bytepos
      (dataBuf bytepos ^^^ (1 <<< UInt8.ofNat (errorpos % 8))))
  else (1, dataBuf)

/-- The ECC word the FMC computes of sector `k` of what passes the data bus. -/
def hdEcc (B : Board) (data : Bytes) (k : ℕ) : ℕ :=
  (B.hwEcc fun t => data (nandEccSectorSize * k + t)).toNat

/-- The check of `nand_readpage`: compare the stored words with the computed ones,
sector by sector, and correct the buffer where they differ. -/
def eccCheck (eccrd ecchd : ℕ → ℕ) : ℕ → ℕ → ℕ × Bytes → ℕ × Bytes
  | 0, _, s => s
  | k + 1, i, (errsta, p) =>
      if eccrd i ≠ ecchd i then
        let (res, q) := nandEccCorrection (shift p (nandEccSectorSize * i)) (eccrd i) (ecchd i)
        eccCheck eccrd ecchd k (i + 1)
          (if res ≠ 0 then nstaEcc2biterr else nstaEcc1biterr, graft p (nandEccSectorSize * i) q)
      else eccCheck eccrd ecchd k (i + 1) (errsta, p)

/-! ## Reading -/

/-- Column of the ECC words that belong to the sector at column `colnum`. -/
def eccColumn (B : Board) (colnum : ℕ) : ℕ :=
  B.pageMainsize + 0x10 + colnum / nandEccSectorSize * 4

/-- `nand_readpage`: the return code and the buffer behind `pbuffer`. -/
def nandReadpage (B : Board) (pagenum colnum : ℕ) (pbuffer : Bytes) (numbyteToRead : ℕ) :
    NandM (ℕ × Bytes) := do
  let r ← command B .read
  let page ← Prog.get fun d => d.flash pagenum
  if r.RbTimeout then
    pure (nstaTimeout, pbuffer)
  else
    let pbuffer := overlay pbuffer 0 (shift page colnum) numbyteToRead
    let (errsta, pbuffer) :=
      if numbyteToRead % nandEccSectorSize ≠ 0 then (0, pbuffer)
      else
        let eccnum := numbyteToRead / nandEccSectorSize
        -- bit errors of the transfer reach the words read back from the spare area
        let eccRdbuf := fun k => word (shift page (eccColumn B colnum)) k ^^^ (r.eccFlip k).toNat
        eccCheck eccRdbuf (hdEcc B (shift page colnum)) eccnum 0 (0, pbuffer)
    if nandWaitForReady r.status ≠ nstaReady then
      pure (nstaError, pbuffer)
    else
      pure (errsta, pbuffer)

/-- How many of the next `k` words from word `i` on equal `cmpval`, up to the first
that does not. -/
def equalWords (data : Bytes) (cmpval : ℕ) : ℕ → ℕ → ℕ
  | 0, i => i
  | k + 1, i => if word data i ≠ cmpval then i else equalWords data cmpval k (i + 1)

/-- `nand_readpagecomp`: the return code and `*numbyte_equal`, which keeps its value
when the chip does not answer. -/
def nandReadpagecomp (B : Board) (pagenum colnum cmpval numbyteToRead numbyteEqual : ℕ) :
    NandM (ℕ × ℕ) := do
  let r ← command B .read
  let page ← Prog.get fun d => d.flash pagenum
  if r.RbTimeout then
    pure (nstaTimeout, numbyteEqual)
  else
    let i := equalWords (shift page colnum) cmpval numbyteToRead 0
    if nandWaitForReady r.status ≠ nstaReady then
      pure (nstaError, i)
    else
      pure (0, i)

/-- `nand_readspare`: read spare bytes, never past the spare area. -/
def nandReadspare (B : Board) (pagenum colnum : ℕ) (pbuffer : Bytes) (numbyteToRead : ℕ) :
    NandM (ℕ × Bytes) :=
  let remainbyte := (B.pageSparesize + 2 ^ 16 - colnum) % 2 ^ 8
  let numbyteToRead := if numbyteToRead > remainbyte then remainbyte else numbyteToRead
  nandReadpage B pagenum (u16 (colnum + B.pageMainsize)) pbuffer numbyteToRead

/-! ## Writing -/

/-- The page register after `numbyteToWrite` bytes have been sent to column `colnum`:
whole ECC sectors are followed by their ECC words, sent to the spare area. -/
def loadRegister (B : Board) (reg : Bytes) (colnum : ℕ) (pbuffer : Bytes) (numbyteToWrite : ℕ) :
    Bytes :=
  let reg := overlay reg colnum pbuffer numbyteToWrite
  if numbyteToWrite % nandEccSectorSize ≠ 0 then reg
  else
    let eccnum := numbyteToWrite / nandEccSectorSize
    overlay reg (eccColumn B colnum) (fun j => wordByte (hdEcc B pbuffer (j / 4)) (j % 4))
      (4 * eccnum)

/-- `nand_writepage`: program bytes of a page; columns that are not sent stay as they
are. -/
def nandWritepage (B : Board) (pagenum colnum : ℕ) (pbuffer : Bytes) (numbyteToWrite : ℕ) :
    NandM ℕ := do
  let r ← command B .program
  programPage .program r pagenum (loadRegister B erasedPage colnum pbuffer numbyteToWrite)
  pure r.waitCode

/-- `nand_write_pageconst`: program `numbyteToWrite` words `cval`. -/
def nandWritePageconst (B : Board) (pagenum colnum cval numbyteToWrite : ℕ) : NandM ℕ := do
  let r ← command B .program
  programPage .program r pagenum
    (overlay erasedPage colnum (fun j => wordByte cval (j % 4)) (4 * numbyteToWrite))
  pure r.waitCode

/-- `nand_writespare`: program spare bytes, never past the spare area. -/
def nandWritespare (B : Board) (pagenum colnum : ℕ) (pbuffer : Bytes) (numbyteToWrite : ℕ) :
    NandM ℕ :=
  let remainbyte := (B.pageSparesize + 2 ^ 16 - colnum) % 2 ^ 8
  let numbyteToWrite := if numbyteToWrite > remainbyte then remainbyte else numbyteToWrite
  nandWritepage B pagenum (u16 (colnum + B.pageMainsize)) pbuffer numbyteToWrite

/-- The common part of the two copy-backs: the source page passes through the page
register, where `edit` changes it, and is programmed into the destination. -/
def copyback (B : Board) (sourcePagenum destPagenum : ℕ) (edit : Bytes → Bytes) : NandM ℕ :=
  let sourceBlock := u16 (sourcePagenum / B.blockPagenum)
  let destBlock := u16 (destPagenum / B.blockPagenum)
  if sourceBlock % 2 ≠ destBlock % 2 then
    pure nstaError
  else do
    let r ← command B .copyback
    let page ← Prog.get fun d => d.flash sourcePagenum
    if r.RbTimeout then
      pure nstaTimeout
    else do
      programPage .copyback r destPagenum (edit page)
      pure r.waitCode

/-- `nand_copypage_withoutwrite`. -/
def nandCopypageWithoutwrite (B : Board) (sourcePagenum destPagenum : ℕ) : NandM ℕ :=
  copyback B sourcePagenum destPagenum id

/-- `nand_copypage_withwrite`. -/
def nandCopypageWithwrite (B : Board) (sourcePagenum destPagenum colnum : ℕ) (pbuffer : Bytes)
    (numbyteToWrite : ℕ) : NandM ℕ :=
  copyback B sourcePagenum destPagenum fun page =>
    loadRegister B page colnum pbuffer numbyteToWrite

/-- `nand_eraseblock`: the row address is the block number shifted by the part's
pages per block. -/
def nandEraseblock (B : Board) (blocknum : ℕ) : NandM ℕ := do
  let row :=
    if B.id = mt29f16g08ababa then u32 (blocknum <<< 7)
    else if B.id = mt29f4g08abada then u32 (blocknum <<< 6)
    else blocknum
  let r ← command B .erase
  eraseRow B r row
  pure r.waitCode

end Apollo.Nand
