import Apollo.Lib.Prog
import Apollo.Lib.Overlay
import Mathlib.Algebra.Group.Nat.Defs
import Mathlib.Tactic.Common

/-!
# The NAND chip and the device state

The array is pages of bytes.  Erasing a block makes every byte of it `0xFF`; a
program ANDs the page register into the page.  What the rest of the chip does is
a parameter of the board: for each command, a `Reply` says how the R/B pin and the
status register answer, what the array really did, and which bit errors a read
picked up in the ECC words.  The commands of one kind are numbered in the order
they are issued, so a board is one behaviour of the chip and a statement about
every board is about every pattern of failures.

## Main definitions

* `Geometry` — the part of `nand_attriute` that `nand_init` fills in.
* `Reply`, `Effect`, `Board` — how the chip answers.
* `Dev` — the array and the FTL's RAM; `NandM` — programs over it.
* `command`, `programPage`, `eraseRow` — what a command does.
-/

namespace Apollo.Nand
open Lib

/-! ## Constants of `nand.h` -/

/-- `NAND_ECC_SECTOR_SIZE`. -/
abbrev nandEccSectorSize : ℕ := 512
/-- `NSTA_READY`, `nand` is ready. -/
abbrev nstaReady : ℕ := 0x40
/-- `NSTA_ERROR`. -/
abbrev nstaError : ℕ := 0x01
/-- `NSTA_TIMEOUT`. -/
abbrev nstaTimeout : ℕ := 0x02
/-- `NSTA_ECC1BITERR`, one bit was wrong and has been corrected. -/
abbrev nstaEcc1biterr : ℕ := 0x03
/-- `NSTA_ECC2BITERR`, two bits or more were wrong. -/
abbrev nstaEcc2biterr : ℕ := 0x04
/-- The identifier of the 2 GB part. -/
abbrev mt29f16g08ababa : ℕ := 0x48002689
/-- The identifier of the 512 MB part. -/
abbrev mt29f4g08abada : ℕ := 0xDC909556

/-- The 16-bit value a C assignment to `uint16_t` keeps. -/
abbrev u16 (n : ℕ) : ℕ := n % 2 ^ 16
/-- The 32-bit value a C assignment to `uint32_t` keeps. -/
abbrev u32 (n : ℕ) : ℕ := n % 2 ^ 32

/-- Memory seen through a pointer to bytes. -/
abbrev Bytes := ℕ → UInt8

/-- The array: page address, then column, to byte. -/
abbrev Flash := ℕ → Bytes

/-- A page after an erase. -/
def erasedPage : Bytes := fun _ => 0xFF

@[simp] theorem erasedPage_apply (c : ℕ) : erasedPage c = 0xFF := rfl

/-- The sizes `nand_init` stores in `nand_dev`, with what its table guarantees:
a page is whole ECC sectors, its spare area holds their ECC words from byte `0x10`
on, and the pages of a block agree with the shift `nand_eraseblock` makes. -/
structure Geometry where
  id : ℕ
  pageMainsize : ℕ
  pageSparesize : ℕ
  blockPagenum : ℕ
  blockTotalnum : ℕ
  mainsize_pos : 0 < pageMainsize
  mainsize_sectors : nandEccSectorSize ∣ pageMainsize
  mainsize_le : pageMainsize ≤ 4096
  ecc_fits : 0x10 + 4 * (pageMainsize / nandEccSectorSize) ≤ pageSparesize
  sparesize_lt : pageSparesize < 2 ^ 8
  pagenum_of_id : (id = mt29f16g08ababa ∧ blockPagenum = 128) ∨
    (id = mt29f4g08abada ∧ blockPagenum = 64)
  total_pos : 0 < blockTotalnum
  total_lt : blockTotalnum < 2 ^ 16

/-- The table of `nand_init`: the sizes of the part with this identifier, or
nothing for a part it does not know. -/
def nandInit (id : ℕ) : Option Geometry :=
  if h : id = mt29f16g08ababa then
    some {
      id := id, pageMainsize := 4096, pageSparesize := 224, blockPagenum := 128,
      blockTotalnum := 4096, mainsize_pos := by decide, mainsize_sectors := by decide,
      mainsize_le := by decide, ecc_fits := by decide, sparesize_lt := by decide,
      pagenum_of_id := .inl ⟨h, rfl⟩, total_pos := by decide, total_lt := by decide }
  else if h : id = mt29f4g08abada then
    some {
      id := id, pageMainsize := 2048, pageSparesize := 64, blockPagenum := 64,
      blockTotalnum := 4096, mainsize_pos := by decide, mainsize_sectors := by decide,
      mainsize_le := by decide, ecc_fits := by decide, sparesize_lt := by decide,
      pagenum_of_id := .inr ⟨h, rfl⟩, total_pos := by decide, total_lt := by decide }
  else none

/-- The 512 MB part, as `nand_init` sets it up. -/
def part512 : Geometry := (nandInit mt29f4g08abada).get (by decide)

/-! ## How the chip answers -/

/-- The commands that are numbered apart. -/
inductive Cmd where
  | read
  | program
  | copyback
  | erase
  deriving DecidableEq

/-- What a program, copy-back or erase really did to the page it addresses. -/
inductive Effect where
  /-- The operation was carried out. -/
  | done
  /-- The page kept its bytes. -/
  | nothing
  /-- The page at this address now holds these bytes. -/
  | garbage (left : Flash)

/-- The bytes of page `page` after an operation that should have turned `old` into
`new`. -/
def Effect.apply : Effect → ℕ → Bytes → Bytes → Bytes
  | .done, _, _, new => new
  | .nothing, _, old, _ => old
  | .garbage left, page, _, _ => left page

/-- The chip's answer to one command. -/
structure Reply where
  /-- Levels of the R/B pin seen while waiting for it to go low. -/
  rbLow : ℕ → Bool
  /-- Levels of the R/B pin seen while waiting for it to go high. -/
  rbHigh : ℕ → Bool
  /-- The bytes successive status reads return. -/
  status : ℕ → UInt8
  /-- What happened to the array. -/
  effect : Effect
  /-- Bit errors this read picked up in the ECC words, one word a sector. -/
  eccFlip : ℕ → UInt32

/-- The answer of a chip that is ready at once and did what it was asked. -/
def Reply.sound : Reply where
  rbLow := fun _ => false
  rbHigh := fun _ => true
  status := fun _ => 0xE0
  effect := .done
  eccFlip := fun _ => 0

/-- A board: the part that is fitted, the function the FMC's ECC unit computes of
512 bytes, and the answer to the `n`-th command of each kind. -/
structure Board extends Geometry where
  hwEcc : (Fin nandEccSectorSize → UInt8) → UInt32
  reply : Cmd → ℕ → Reply
  /-- What a local that the source leaves uninitialised holds. -/
  uninit : Bytes

/-! ## The device state -/

/-- One program, copy-back or erase: the command and its number among those of its kind,
the page it addresses (the first one of a block that is erased), and the array after it. -/
structure Op where
  cmd : Cmd
  index : ℕ
  page : ℕ
  flash : Flash

/-- The array together with what the driver and the FTL keep in RAM. -/
structure Dev where
  flash : Flash
  /-- `nand_dev.lut`, logical block to physical block. -/
  lut : ℕ → ℕ
  /-- `nand_dev.good_blocknum`. -/
  goodBlocknum : ℕ
  /-- `nand_dev.valid_blocknum`. -/
  validBlocknum : ℕ
  /-- The static cursor of `ftl_find_same_plane_unused_block`. -/
  curblock : ℕ
  /-- How many commands of each kind have been issued. -/
  ticks : Cmd → ℕ
  /-- The programs, copy-backs and erases so far.  No code reads it: it says what a power
  cut may leave behind. -/
  log : List Op

/-- A chip out of the factory: every byte `0xFF`, nothing in RAM. -/
def Dev.blank : Dev where
  flash := fun _ => erasedPage
  lut := fun _ => 0
  goodBlocknum := 0
  validBlocknum := 0
  curblock := 0xFFFFFFFF
  ticks := fun _ => 0
  log := []

/-- Programs of the driver and the FTL. -/
abbrev NandM := Prog Dev

/-- One more command of kind `c` issued. -/
def Dev.tick (d : Dev) (c : Cmd) : Dev :=
  { d with ticks := Function.update d.ticks c (d.ticks c + 1) }

/-- The array changed to `f` by the command of kind `c` that was issued last. -/
def Dev.store (d : Dev) (c : Cmd) (page : ℕ) (f : Flash) : Dev :=
  { d with flash := f, log := d.log ++ [⟨c, d.ticks c - 1, page, f⟩] }

@[simp] theorem Dev.flash_tick (d : Dev) (c : Cmd) : (d.tick c).flash = d.flash := rfl
@[simp] theorem Dev.lut_tick (d : Dev) (c : Cmd) : (d.tick c).lut = d.lut := rfl
@[simp] theorem Dev.goodBlocknum_tick (d : Dev) (c : Cmd) :
    (d.tick c).goodBlocknum = d.goodBlocknum := rfl
@[simp] theorem Dev.validBlocknum_tick (d : Dev) (c : Cmd) :
    (d.tick c).validBlocknum = d.validBlocknum := rfl
@[simp] theorem Dev.curblock_tick (d : Dev) (c : Cmd) : (d.tick c).curblock = d.curblock := rfl
@[simp] theorem Dev.log_tick (d : Dev) (c : Cmd) : (d.tick c).log = d.log := rfl

section Store
variable (d : Dev) (c : Cmd) (page : ℕ) (f : Flash)

@[simp] theorem Dev.flash_store : (d.store c page f).flash = f := rfl
@[simp] theorem Dev.lut_store : (d.store c page f).lut = d.lut := rfl
@[simp] theorem Dev.goodBlocknum_store : (d.store c page f).goodBlocknum = d.goodBlocknum := rfl
@[simp] theorem Dev.validBlocknum_store :
    (d.store c page f).validBlocknum = d.validBlocknum := rfl
@[simp] theorem Dev.curblock_store : (d.store c page f).curblock = d.curblock := rfl
@[simp] theorem Dev.ticks_store : (d.store c page f).ticks = d.ticks := rfl

end Store

@[simp] theorem Dev.ticks_tick_self (d : Dev) (c : Cmd) :
    (d.tick c).ticks c = d.ticks c + 1 := by simp [Dev.tick]
@[simp] theorem Dev.ticks_tick_of_ne (d : Dev) {c c' : Cmd} (h : c' ≠ c) :
    (d.tick c).ticks c' = d.ticks c' := by simp [Dev.tick, h]

/-! ## What a command does -/

/-- Issue a command of kind `c` and take the chip's answer to it. -/
def command (B : Board) (c : Cmd) : NandM Reply :=
  fun d => (B.reply c (d.ticks c), d.tick c)

@[simp] theorem val_command (B : Board) (c : Cmd) (d : Dev) :
    (command B c).val d = B.reply c (d.ticks c) := (rfl)
@[simp] theorem state_command (B : Board) (c : Cmd) (d : Dev) :
    (command B c).state d = d.tick c := (rfl)

/-- The array after the register `reg` has been programmed into page `page`. -/
def programmed (f : Flash) (r : Reply) (page : ℕ) (reg : Bytes) : Flash :=
  Function.update f page (r.effect.apply page (f page) (fun c => f page c &&& reg c))

/-- Program the page register into a page, by a program or a copy-back. -/
def programPage (c : Cmd) (r : Reply) (page : ℕ) (reg : Bytes) : NandM Unit :=
  Prog.modify fun d => d.store c page (programmed d.flash r page reg)

@[simp] theorem state_programPage (c : Cmd) (r : Reply) (page : ℕ) (reg : Bytes) (d : Dev) :
    (programPage c r page reg).state d = d.store c page (programmed d.flash r page reg) := (rfl)

/-- The array after the block that contains row `row` has been erased. -/
def erasedAt (B : Board) (f : Flash) (r : Reply) (row : ℕ) : Flash :=
  fun p => if p / B.blockPagenum = row / B.blockPagenum then
    r.effect.apply p (f p) erasedPage else f p

/-- Erase the block that contains row `row`. -/
def eraseRow (B : Board) (r : Reply) (row : ℕ) : NandM Unit :=
  Prog.modify fun d =>
    d.store .erase (row / B.blockPagenum * B.blockPagenum) (erasedAt B d.flash r row)

@[simp] theorem state_eraseRow (B : Board) (r : Reply) (row : ℕ) (d : Dev) :
    (eraseRow B r row).state d =
      d.store .erase (row / B.blockPagenum * B.blockPagenum) (erasedAt B d.flash r row) := (rfl)

end Apollo.Nand
