import Apollo.Lib.Prog
import Mathlib.Order.Interval.Finset.Nat
import Mathlib.Tactic.Common

/-!
# The memory pools

Three pools of 64-byte blocks, each with a map that holds one word a block: `0` for a
free block, else the length of the allocation it belongs to.  `my_mem_malloc` scans a
map downwards for a run of free blocks; `my_mem_free` reads the length from the entry
it is pointed at.

The maps are arrays of `memtblsize` words.  An access past the end of one does not
change the model's maps; it is recorded in `past`.

## Main definitions

* `Memx`, `memblksize`, `memsize`, `memtblsize` — the pools.
* `Link`, `Link.membase` — where the linker put them.
* `Dev` — the maps, the ready flags and the memory.
* `myMemMalloc`, `myMemFree`, `mymalloc`, `myfree`, `myrealloc` — the operations.
-/

namespace Apollo.Malloc
open Lib

/-- The pools: internal SRAM, core-coupled memory, SDRAM. -/
inductive Memx where
  | sramin
  | sramccm
  | sramex
  deriving DecidableEq, Repr

def memblksize : Memx → ℕ
  | .sramin => 64
  | .sramccm => 64
  | .sramex => 64

def memsize : Memx → ℕ
  | .sramin => 50 * 1024
  | .sramccm => 60 * 1024
  | .sramex => 28912 * 1024

def memtblsize (memx : Memx) : ℕ := memsize memx / memblksize memx

theorem memblksize_pos (memx : Memx) : 0 < memblksize memx := by
  cases memx <;> decide

/-- The blocks fill the pool. -/
theorem memtblsize_mul (memx : Memx) : memtblsize memx * memblksize memx = memsize memx := by
  cases memx <;> decide

/-- `my_mem_perused` scales the number of blocks without overflow. -/
theorem memtblsize_lt (memx : Memx) : memtblsize memx * 1000 < 2 ^ 32 := by
  cases memx <;> decide

theorem memsize_lt (memx : Memx) : memsize memx < 0xFFFFFFFF := by
  cases memx <;> decide

/-- The link addresses: `mem1base` is the linker's choice. -/
structure Link where
  mem1base : ℕ
  pos : 0 < mem1base
  fits : mem1base + memsize .sramin ≤ 2 ^ 32

namespace Link

def membase (L : Link) : Memx → ℕ
  | .sramin => L.mem1base
  | .sramccm => 0x10000000
  | .sramex => 0xC01F4000

variable (L : Link)

theorem membase_pos (memx : Memx) : 0 < L.membase memx := by
  cases memx
  · exact L.pos
  · exact Nat.zero_lt_succ _
  · exact Nat.zero_lt_succ _

/-- No pool reaches past the end of the address space. -/
theorem membase_fits (memx : Memx) : L.membase memx + memsize memx ≤ 2 ^ 32 := by
  cases memx
  · exact L.fits
  · exact (by decide : (0x10000000 : ℕ) + memsize .sramccm ≤ 2 ^ 32)
  · exact (by decide : (0xC01F4000 : ℕ) + memsize .sramex ≤ 2 ^ 32)

/-- `(uint32_t)ptr - (uint32_t)membase[memx]`. -/
def offset (memx : Memx) (ptr : ℕ) : ℕ := (ptr + 2 ^ 32 - L.membase memx) % 2 ^ 32

theorem offset_membase_add (memx : Memx) {n : ℕ} (h : n < memsize memx) :
    L.offset memx (L.membase memx + n) = n := by
  have hfits := L.membase_fits memx
  rw [offset, show L.membase memx + n + 2 ^ 32 - L.membase memx = n + 2 ^ 32 by omega,
    Nat.add_mod_right, Nat.mod_eq_of_lt (by omega)]

end Link

/-- `mallco_dev` and the memory behind the pools. -/
structure Dev where
  memmap : Memx → ℕ → ℕ
  memrdy : Memx → Bool
  mem : ℕ → ℕ
  /-- Some access has gone past the end of a map. -/
  past : Bool

/-! ## Access to a map -/

/-- `mallco_dev.memmap[memx][i]`, read. -/
def getMap (memx : Memx) (i : ℕ) : Prog Dev ℕ := fun d =>
  (d.memmap memx i, if i < memtblsize memx then d else { d with past := true })

/-- `mallco_dev.memmap[memx][i] = v`. -/
def setMap (memx : Memx) (i v : ℕ) : Prog Dev Unit :=
  Prog.modify fun d =>
    if i < memtblsize memx then
      { d with memmap := Function.update d.memmap memx (Function.update (d.memmap memx) i v) }
    else { d with past := true }

/-- Write `v` into `count` entries from `first` on. -/
def fillMap (memx : Memx) (first count v : ℕ) : Prog Dev Unit :=
  Prog.forUp (fun i _ => setMap memx (first + i) v) count 0 ()

/-! ## The operations -/

def myMemCopy (des src n : ℕ) : Prog Dev Unit :=
  Prog.forUp (fun i _ => Prog.modify fun d =>
    { d with
      mem := Function.update d.mem ((des + i) % 2 ^ 32) (d.mem ((src + i) % 2 ^ 32)) }) n 0 ()

def myMemInit (memx : Memx) : Prog Dev Unit := do
  fillMap memx 0 (memtblsize memx) 0
  Prog.modify fun d => { d with memrdy := Function.update d.memrdy memx true }

def myMemPerused (memx : Memx) : Prog Dev ℕ := do
  let used ← Prog.forUp (fun i used => do
    let e ← getMap memx i
    pure (if e ≠ 0 then used + 1 else used)) (memtblsize memx) 0 0
  pure (used * 1000 % 2 ^ 32 / memtblsize memx % 2 ^ 16)

/-- The blocks needed for `size` bytes. -/
def nmemb (memx : Memx) (size : ℕ) : ℕ :=
  size / memblksize memx + if size % memblksize memx ≠ 0 then 1 else 0

/-- One round of the search, for `offset = memtblsize[memx] - 1 - i`. -/
def mallocRound (memx : Memx) (n i cmemb : ℕ) : Prog Dev (Lib.Flow ℕ ℕ) := do
  let offset := memtblsize memx - 1 - i
  let e ← getMap memx offset
  let cmemb := if e = 0 then cmemb + 1 else 0
  if cmemb = n then do
    fillMap memx offset n n
    pure (.exit (offset * memblksize memx))
  else pure (.next cmemb)

def myMemMalloc (memx : Memx) (size : ℕ) : Prog Dev ℕ := do
  let rdy ← Prog.get fun d => d.memrdy memx
  if rdy = false then myMemInit memx else pure ()
  if size = 0 then pure 0xFFFFFFFF
  else do
    let r ← Prog.loop (mallocRound memx (nmemb memx size)) (memtblsize memx) 0 0
    match r with
    | .exit offset => pure offset
    | .next _ => pure 0xFFFFFFFF

def myMemFree (memx : Memx) (offset : ℕ) : Prog Dev ℕ := do
  let rdy ← Prog.get fun d => d.memrdy memx
  if rdy = false then do
    myMemInit memx
    pure 1
  else if offset < memsize memx then do
    let index := offset / memblksize memx
    let n ← getMap memx index
    fillMap memx index n 0
    pure 0
  else pure 2

def myfree (L : Link) (memx : Memx) (ptr : ℕ) : Prog Dev Unit :=
  if ptr = 0 then pure ()
  else do
    let _ ← myMemFree memx (L.offset memx ptr)
    pure ()

def mymalloc (L : Link) (memx : Memx) (size : ℕ) : Prog Dev ℕ := do
  let offset ← myMemMalloc memx size
  if offset = 0xFFFFFFFF then pure 0
  else pure (L.membase memx + offset)

def myrealloc (L : Link) (memx : Memx) (ptr size : ℕ) : Prog Dev ℕ := do
  let offset ← myMemMalloc memx size
  if offset = 0xFFFFFFFF then pure 0
  else do
    myMemCopy (L.membase memx + offset) ptr size
    myfree L memx ptr
    pure (L.membase memx + offset)

end Apollo.Malloc
