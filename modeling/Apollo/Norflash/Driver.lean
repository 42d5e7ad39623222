import Apollo.Lib.Prog
import Apollo.Lib.Overlay
import Apollo.Lib.Scan
import Mathlib.Algebra.Group.Nat.Defs

/-!
# The NOR flash driver

The driver talks to the chip in frames: the bytes it sends while chip select is low.
An erase makes the 4096 bytes of a sector `0xFF`; a page program ANDs its bytes into the
page of its address and wraps at the end of that page; both need the write enable latch,
which they clear.  The chip has finished a command before the driver's wait returns.

`norflash_write` takes sector after sector: if the bytes to be written are blank it
programs them in place, else it erases the sector and writes all of it from a buffer.

## Main definitions

* `Part` — the chip that is fitted; `sendAddress`, `Part.address` — addresses in a frame.
* `Nor` — the chip, the sector buffer, and a record of the page programs.
* `frame`, `readFrame` — what the chip does with a frame.
* `norflashWritePage`, `norflashWriteNocheck`, `norflashEraseSector`, `norflashWrite`.
-/

namespace Apollo.Norflash
open Lib

/-- `W25Q256`. -/
abbrev w25q256 : ℕ := 0xEF18
/-- `BY25Q256`. -/
abbrev by25q256 : ℕ := 0x6818

/-- The chips that take addresses of four bytes. -/
def Wide (type : ℕ) : Prop := type = w25q256 ∨ type = by25q256

instance (type : ℕ) : Decidable (Wide type) := inferInstanceAs (Decidable (_ ∨ _))

/-- The chip that is fitted: `g_norflash_type` and its capacity, in whole sectors, which its
addresses can reach. -/
structure Part where
  type : ℕ
  size : ℕ
  sectors : 4096 ∣ size
  fits : size ≤ if Wide type then 2 ^ 32 else 2 ^ 24

/-- The 32 MB chip of the board. -/
def part25q256 : Part := ⟨by25q256, 2 ^ 25, by decide, by decide⟩

/-- A page program as it was issued: its address, its length, and the chip before it. -/
structure PageProgram where
  addr : ℕ
  len : ℕ
  before : ℕ → UInt8

/-- The chip and `g_norflash_buf`. -/
structure Nor where
  mem : ℕ → UInt8
  /-- The write enable latch. -/
  wel : Bool
  programs : List PageProgram
  norflashBuf : ℕ → UInt8

/-- A chip that has never been programmed. -/
def Nor.fresh : Nor := ⟨fun _ => 0xFF, false, [], fun _ => 0⟩

/-! ## The chip -/

/-- The bytes of `norflash_send_address`. -/
def sendAddress (P : Part) (address : ℕ) : List UInt8 :=
  (if Wide P.type then [UInt8.ofNat (address / 2 ^ 24)] else []) ++
    [UInt8.ofNat (address / 2 ^ 16), UInt8.ofNat (address / 2 ^ 8), UInt8.ofNat address]

/-- The number that some bytes spell, highest first. -/
def bigEndian (bytes : List UInt8) : ℕ := bytes.foldl (fun n b => n * 2 ^ 8 + b.toNat) 0

/-- The address at the head of a frame, and the data behind it. -/
def Part.address (P : Part) (bytes : List UInt8) : ℕ × List UInt8 :=
  let n := if Wide P.type then 4 else 3
  (bigEndian (bytes.take n), bytes.drop n)

/-- Where the `i`-th byte of a page program goes. -/
def pageAddr (addr i : ℕ) : ℕ := addr / 256 * 256 + (addr + i) % 256

/-- The chip after the bytes from the `i`-th on have been programmed. -/
def programFrom (addr : ℕ) : ℕ → List UInt8 → (ℕ → UInt8) → ℕ → UInt8
  | _, [], mem => mem
  | i, b :: data, mem =>
      programFrom addr (i + 1) data
        (Function.update mem (pageAddr addr i) (mem (pageAddr addr i) &&& b))

/-- A chip whose sector at `addr` has been erased. -/
def eraseSector (addr : ℕ) (mem : ℕ → UInt8) : ℕ → UInt8 :=
  fun a => if a / 4096 = addr / 4096 then 0xFF else mem a

/-- What the chip does with a frame that it does not answer. -/
def frame (P : Part) (opcode : UInt8) (bytes : List UInt8) : Prog Nor Unit :=
  Prog.modify fun c =>
    let (addr, data) := P.address bytes
    if opcode = 0x06 then { c with wel := true }
    else if c.wel = false then c
    else if opcode = 0x02 then
      { c with
        mem := programFrom addr 0 data c.mem
        wel := false
        programs := c.programs ++ [⟨addr, data.length, c.mem⟩] }
    else if opcode = 0x20 then { c with mem := eraseSector addr c.mem, wel := false }
    else c

/-- The bytes the chip answers to a read. -/
def readFrame (P : Part) (bytes : List UInt8) : Prog Nor (ℕ → UInt8) :=
  Prog.get fun c => shift c.mem (P.address bytes).1

/-! ## The driver -/

variable (P : Part)

def norflashWriteEnable : Prog Nor Unit := frame P 0x06 []

/-- `norflash_read`: the buffer afterwards. -/
def norflashRead (pbuf : ℕ → UInt8) (addr datalen : ℕ) : Prog Nor (ℕ → UInt8) := do
  let reply ← readFrame P (sendAddress P addr)
  pure (overlay pbuf 0 reply datalen)

/-- `norflash_read(g_norflash_buf, addr, datalen)`. -/
def norflashReadBuf (addr datalen : ℕ) : Prog Nor Unit := do
  let reply ← readFrame P (sendAddress P addr)
  Prog.modify fun c => { c with norflashBuf := overlay c.norflashBuf 0 reply datalen }

def norflashWritePage (pbuf : ℕ → UInt8) (addr datalen : ℕ) : Prog Nor Unit := do
  norflashWriteEnable P
  frame P 0x02 (sendAddress P addr ++ (List.range datalen).map pbuf)

def norflashEraseSector (saddr : ℕ) : Prog Nor Unit := do
  norflashWriteEnable P
  frame P 0x20 (sendAddress P (saddr * 4096 % 2 ^ 32))

/-- What the loop of `norflash_write_nocheck` carries. -/
structure PageLoop where
  pbuf : ℕ → UInt8
  addr : ℕ
  datalen : ℕ
  pageremain : ℕ

def writePageRound (_i : ℕ) (a : PageLoop) : Prog Nor (Flow PageLoop Unit) := do
  norflashWritePage P a.pbuf a.addr a.pageremain
  if a.datalen = a.pageremain then pure (.exit ())
  else
    let datalen := (a.datalen + 2 ^ 16 - a.pageremain) % 2 ^ 16
    pure (.next {
      pbuf := shift a.pbuf a.pageremain
      addr := (a.addr + a.pageremain) % 2 ^ 32
      datalen := datalen
      pageremain := if datalen > 256 then 256 else datalen })

/-- The loop of `norflash_write_nocheck`, with a round for each byte to spare. -/
def writePages (pbuf : ℕ → UInt8) (addr datalen : ℕ) : Prog Nor (Flow PageLoop Unit) :=
  let pageremain := 256 - addr % 256
  Prog.loop (writePageRound P) (datalen + 1) 0
    ⟨pbuf, addr, datalen, if datalen ≤ pageremain then datalen else pageremain⟩

def norflashWriteNocheck (pbuf : ℕ → UInt8) (addr datalen : ℕ) : Prog Nor Unit := do
  let _ ← writePages P pbuf addr datalen
  pure ()

/-- What the loop of `norflash_write` carries. -/
structure SectorLoop where
  pbuf : ℕ → UInt8
  addr : ℕ
  datalen : ℕ
  secpos : ℕ
  secoff : ℕ
  secremain : ℕ

/-- One round of `norflash_write`: the part of the data that lies in one sector. -/
def writeSector (a : SectorLoop) : Prog Nor Unit := do
  norflashReadBuf P (a.secpos * 4096 % 2 ^ 32) 4096
  let dirty ← Prog.get fun c =>
    firstEntry a.secremain fun i => c.norflashBuf (a.secoff + i) ≠ 0xFF
  if dirty.isSome then do
    norflashEraseSector P a.secpos
    Prog.forUp (fun i _ => Prog.modify fun c =>
      { c with norflashBuf := Function.update c.norflashBuf (i + a.secoff) (a.pbuf i) })
      a.secremain 0 ()
    let buf ← Prog.get fun c => c.norflashBuf
    norflashWriteNocheck P buf (a.secpos * 4096 % 2 ^ 32) 4096
  else norflashWriteNocheck P a.pbuf a.addr a.secremain

def writeSectorRound (_i : ℕ) (a : SectorLoop) : Prog Nor (Flow SectorLoop Unit) := do
  writeSector P a
  if a.datalen = a.secremain then pure (.exit ())
  else
    let datalen := (a.datalen + 2 ^ 16 - a.secremain) % 2 ^ 16
    pure (.next {
      pbuf := shift a.pbuf a.secremain
      addr := (a.addr + a.secremain) % 2 ^ 32
      datalen := datalen
      secpos := a.secpos + 1
      secoff := 0
      secremain := if datalen > 4096 then 4096 else datalen })

/-- The loop of `norflash_write`, with a round for each byte to spare. -/
def writeSectors (pbuf : ℕ → UInt8) (addr datalen : ℕ) : Prog Nor (Flow SectorLoop Unit) :=
  let secoff := addr % 4096
  let secremain := 4096 - secoff
  Prog.loop (writeSectorRound P) (datalen + 1) 0
    ⟨pbuf, addr, datalen, addr / 4096, secoff, if datalen ≤ secremain then datalen else secremain⟩

def norflashWrite (pbuf : ℕ → UInt8) (addr datalen : ℕ) : Prog Nor Unit := do
  let _ ← writeSectors P pbuf addr datalen
  pure ()

/-- `norflash_init`, for a chip with its type whose third status register reads `sr3`. -/
def norflashInit (sr3 : UInt8) : Prog Nor Unit :=
  if Wide P.type ∧ sr3 &&& 0x01 = 0 then do
    norflashWriteEnable P
    frame P 0x11 [sr3 ||| 0x02]
    frame P 0xB7 []
  else pure ()

end Apollo.Norflash
