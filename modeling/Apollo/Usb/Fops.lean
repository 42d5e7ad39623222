import Apollo.Norflash.Write
import Apollo.Text.Fonts
import Apollo.Usb.Disk

/-!
# The units of the board

`usbd_storage.c` gives the class three units: the first 25 MB of the NOR flash, the NAND flash and
the SD card.  The NOR flash keeps the font library behind those 25 MB.  Over the class the NOR
flash is a disk, and the host cannot reach the font library.

## Main definitions

* `Rest` — what the other two units have besides their drivers.
* `fopsFS` — `USBD_Storage_Interface_fops_FS`.
* `runHost_nor` — the NOR flash is a disk.
* `fonts_kept` — the host cannot reach the font library.
-/

namespace Apollo.Usb
open Lib Norflash Text

/-- What the other two units have besides their drivers. -/
structure Rest (σ τ : Type) where
  ftlInit : Prog σ UInt8
  /-- `nand_dev.valid_blocknum * nand_dev.block_pagenum * nand_dev.page_mainsize / 512`. -/
  nandBlocks : σ → ℕ
  sdInit : Prog τ UInt8
  /-- `LogBlockNbr` and `LogBlockSize`, as `HAL_SD_GetCardInfo` finds them. -/
  cardInfo : Prog τ (ℕ × ℕ)

section Code
variable {σ τ : Type} (P : Part) (sr3 : UInt8) (N : Driver σ) (C : Driver τ) (X : Rest σ τ)

/-- `STORAGE_Init_FS`. -/
def storageInitFS (lun : ℕ) : Prog (Storage σ τ) ℤ :=
  if lun = 0 then do
    onNor (norflashInit P sr3)
    pure 0
  else if lun = 1 then do
    let res ← onNand X.ftlInit
    pure res.toInt8.toInt
  else if lun = 2 then do
    let res ← onCard X.sdInit
    pure res.toInt8.toInt
  else pure 0

/-- `STORAGE_GetCapacity_FS`. -/
def storageGetCapacityFS (lun : ℕ) (old : ℕ × ℕ) : Prog (Storage σ τ) (ℤ × ℕ × ℕ) :=
  if lun = 0 then pure (0, 1024 * 1024 * 25 / 512, 512)
  else if lun = 1 then do
    let blocks ← Prog.get fun s => X.nandBlocks s.nand
    pure (0, blocks % 2 ^ 32, 512)
  else if lun = 2 then do
    let info ← onCard X.cardInfo
    pure (0, sub32 info.1 1, info.2 % 2 ^ 16)
  else pure (0, old)

/-- `STORAGE_IsReady_FS`. -/
def storageIsReadyFS (_lun : ℕ) : Prog (Storage σ τ) ℤ := do
  mark 0x10
  pure 0

/-- `STORAGE_IsWriteProtected_FS`. -/
def storageIsWriteProtectedFS (_lun : ℕ) : Prog (Storage σ τ) ℤ := pure 0

/-- `STORAGE_GetMaxLun_FS`. -/
def storageGetMaxLunFS : Prog (Storage σ τ) ℤ := do
  let info ← onCard X.cardInfo
  pure (if info.1 ≠ 0 then 2 else 1)

/-- The names in `STORAGE_Inquirydata_FS`. -/
def unitName (lun : ℕ) : String :=
  if lun = 0 then "ALIENTEK SPI Flash Disk 1.0 "
  else if lun = 1 then "ALIENTEK NAND Flash Disk1.0 "
  else "ALIENTEK SD Flash Disk  1.0 "

/-- `STORAGE_Inquirydata_FS`. -/
def storageInquirydataFS (j : ℕ) : UInt8 :=
  if j % 36 < 8 then [0x00, 0x80, 0x02, 0x02, 0x24 - 4, 0x00, 0x00, 0x00].getD (j % 36) 0
  else UInt8.ofNat ((unitName (j / 36)).toList.getD (j % 36 - 8) ' ').toNat

/-- `USBD_Storage_Interface_fops_FS`. -/
def fopsFS : Fops (Storage σ τ) where
  init := storageInitFS P sr3 X
  getCapacity := storageGetCapacityFS X
  isReady := storageIsReadyFS
  isWriteProtected := storageIsWriteProtectedFS
  read lun buf blkAddr blkLen := do
    let r ← storageReadFS P N C lun buf blkAddr blkLen
    pure (r.1.map Int8.toInt, r.2)
  write lun buf blkAddr blkLen := do
    let r ← storageWriteFS P N C lun buf blkAddr blkLen
    pure (r.map Int8.toInt)
  getMaxLun := storageGetMaxLunFS X
  inquiry := storageInquirydataFS

end Code

section Nor
variable {σ τ : Type} (P : Part) (sr3 : UInt8) (N : Driver σ) (C : Driver τ) (X : Rest σ τ)

/-! ## The NOR flash is a disk -/

theorem nor_noteError (text : String) (bits : UInt8) (lun : ℕ) (res : Option Int8)
    (s : Storage σ τ) : ((noteError text bits lun res).state s).nor = s.nor :=
  congrArg Prod.fst (keeps_noteError text bits lun res s)

/-- A read of any unit leaves the NOR flash as it is. -/
theorem nor_read (lun : ℕ) (buf : ℕ → UInt8) (blk n : ℕ) (s : Storage σ τ) :
    (((fopsFS P sr3 N C X).read lun buf blk n).state s).nor = s.nor := by
  have hunit (t : Storage σ τ) : ((readUnit P N C lun buf blk n).state t).nor = t.nor := by
    rw [readUnit, Prog.state_ite, Prog.state_ite, Prog.state_ite]
    split
    · rfl
    · split
      · rfl
      · split <;> rfl
  exact (nor_noteError _ _ _ _ _).trans (hunit _)

theorem nor_write (lun : ℕ) (buf : ℕ → UInt8) (blk n : ℕ) (s : Storage σ τ) :
    (((fopsFS P sr3 N C X).write lun buf blk n).state s).nor =
      if lun = 0 then (norflashWrite P buf ((usbStorageFlashBase + blk * 512) % 2 ^ 32)
        (n * 512 % 2 ^ 16)).state s.nor
      else s.nor := by
  have hunit (t : Storage σ τ) : ((writeUnit P N C lun buf blk n).state t).nor =
      if lun = 0 then (norflashWrite P buf ((usbStorageFlashBase + blk * 512) % 2 ^ 32)
        (n * 512 % 2 ^ 16)).state t.nor
      else t.nor := by
    rw [writeUnit, Prog.state_ite, Prog.state_ite, Prog.state_ite]
    split
    · rfl
    · split
      · rfl
      · split <;> rfl
  exact (nor_noteError _ _ _ _ _).trans (hunit _)

theorem mem_init (s : Storage σ τ) : (((fopsFS P sr3 N C X).init 0).state s).nor.mem = s.nor.mem :=
  mem_norflashInit P sr3 s.nor

/-- What is in the units, as far as the NOR flash is concerned. -/
def norContent (s : Storage σ τ) (lun : ℕ) : ℕ → UInt8 :=
  if lun = 0 then s.nor.mem else fun _ => 0

theorem norContent_of {s t : Storage σ τ} (h : t.nor.mem = s.nor.mem) :
    norContent t = norContent s := by
  funext lun
  rw [norContent, norContent, h]

/-- Sectors of the first 25 MB have addresses that nothing is lost of. -/
theorem nor_window (hP : fontInfoAddr ≤ P.size) {blk n : ℕ} (hin : blk + n ≤ 51200) (hn : n ≤ 64) :
    (usbStorageFlashBase + blk * 512) % 2 ^ 32 = blk * 512 ∧ n * 512 % 2 ^ 16 = n * 512 ∧
      blk * 512 + n * 512 ≤ P.size := by
  have hbase : usbStorageFlashBase = 0 := rfl
  have hend : fontInfoAddr = 26214400 := rfl
  omega

theorem stores_nor (hP : fontInfoAddr ≤ P.size) :
    Stores (fopsFS P sr3 N C X) norContent (fun _ => 51200) (· = 0) where
  unit lun hlun := by omega
  size _ _ := by decide
  init s := norContent_of (mem_init P sr3 N C X s)
  capacity lun hlun _ _ := by
    subst hlun
    rfl
  getCapacity lun hlun _ _ := by
    subst hlun
    rfl
  ready _ _ _ := rfl
  isReady _ _ _ := rfl
  unprotected _ _ _ := rfl
  isWriteProtected _ _ _ := rfl
  read lun hlun buf blk n hpos hin hn s := by
    subst hlun
    obtain ⟨haddr, hlen, hsize⟩ := nor_window P hP hin hn
    refine ⟨⟨0, Int.le_refl 0, rfl⟩,
      norContent_of (congrArg Nor.mem (nor_read P sr3 N C X 0 buf blk n s)), fun j hj => ?_⟩
    have hval : (((fopsFS P sr3 N C X).read 0 buf blk n).val s).2 =
        (norflashRead P buf ((usbStorageFlashBase + blk * 512) % 2 ^ 32)
          (n * 512 % 2 ^ 16)).val s.nor := rfl
    rw [hval, haddr, hlen, val_norflashRead P (by omega), overlay_inside (Nat.zero_le j) (by omega),
      shift_apply, Nat.sub_zero]
    rfl
  write lun hlun buf blk n hpos hin hn s := by
    subst hlun
    obtain ⟨haddr, hlen, hsize⟩ := nor_window P hP hin hn
    refine ⟨⟨0, Int.le_refl 0, rfl⟩, funext fun lun => ?_⟩
    have hwrote := (wrote_sectors P s.nor buf (blk * 512) (Nat.mul_pos hpos (by decide))
      (by omega) hsize).2
    rw [stored, norContent, nor_write, if_pos rfl, haddr, hlen, hwrote.mem, Function.update_apply]
    split
    · rfl
    · rename_i hlun
      exact (if_neg hlun).symm

/-- Whatever a host asks of the NOR flash, in whatever order: each read gives the bytes that are on
the chip by then, each command passes with its own tag and nothing left over, and in the end the
chip holds what has been written. -/
theorem runHost_nor (hP : fontInfoAddr ≤ P.size) {ops : List (ℕ × HostOp)}
    (hops : OpsValid (fun _ => 51200) (· = 0) [] ops) {h : Msc (Storage σ τ)}
    (hin : h.stallIn = false) (hout : h.stallOut = false) :
    (runHost (fopsFS P sr3 N C X) (opsEvents ops)).val
        ((mscBotInit (fopsFS P sr3 N C X)).state h) =
      opsAnswers (fun _ => 51200) (norContent h.disk) ops ∧
    ((runHost (fopsFS P sr3 N C X) (opsEvents ops)).state
        ((mscBotInit (fopsFS P sr3 N C X)).state h)).disk.nor.mem =
      opsEffect (norContent h.disk) ops 0 := by
  obtain ⟨hanswers, heffect⟩ := runHost_ops (stores_nor P sr3 N C X hP) hops hin hout
  exact ⟨hanswers, congrFun heffect 0⟩

/-! ## The font library -/

/-- What the NOR flash holds behind its first 25 MB is `m`. -/
def FontsAre (m : ℕ → UInt8) (s : Storage σ τ) : Prop := ∀ a ≥ fontInfoAddr, s.nor.mem a = m a

theorem fontsAre_of {m : ℕ → UInt8} {s t : Storage σ τ} (hs : FontsAre m s)
    (h : t.nor.mem = s.nor.mem) : FontsAre m t := fun a ha => (congrFun h a).trans (hs a ha)

/-- The other units may have any number of blocks. -/
theorem serves_fonts (hP : fontInfoAddr ≤ P.size) (m : ℕ → UInt8) (nbr : ℕ → ℕ) :
    Serves (fopsFS P sr3 N C X) (FontsAre m)
      (fun lun => if lun = 0 then 51200 else 2 ^ 32 + nbr lun) 0 where
  init s hs := fontsAre_of hs (mem_init P sr3 N C X s)
  capacity lun hlun old s _ := by
    refine ⟨?_, Nat.zero_le _⟩
    obtain rfl | rfl | rfl : lun = 0 ∨ lun = 1 ∨ lun = 2 := by omega
    · rw [if_pos rfl]
      change 1024 * 1024 * 25 / 512 ≤ 51200
      decide
    · rw [if_neg (by decide)]
      have hlt : X.nandBlocks s.nand % 2 ^ 32 < 2 ^ 32 := Nat.mod_lt _ (by decide)
      exact Nat.le_trans (Nat.le_of_lt hlt) (Nat.le_add_right ..)
    · rw [if_neg (by decide)]
      have hlt (b : ℕ) : sub32 b 1 ≤ 2 ^ 32 := by
        rw [sub32]
        omega
      exact Nat.le_trans (hlt _) (Nat.le_add_right ..)
  getCapacity lun hlun old s hs := by
    obtain rfl | rfl | rfl : lun = 0 ∨ lun = 1 ∨ lun = 2 := by omega
    · exact hs
    · exact hs
    · exact hs
  isReady _ _ _ hs := hs
  isWriteProtected _ _ _ hs := hs
  read lun _ buf blk n _ _ s hs :=
    fontsAre_of hs (congrArg Nor.mem (nor_read P sr3 N C X lun buf blk n s))
  write lun _ buf blk n hin _ s hs := by
    intro a ha
    rw [nor_write]
    split
    · rename_i hlun
      rw [hlun] at hin
      have hin' : blk + n ≤ 51200 := hin
      have hend : fontInfoAddr = 26214400 := rfl
      have hlen : n * 512 % 2 ^ 16 ≤ n * 512 := Nat.mod_le ..
      have haddr : (usbStorageFlashBase + blk * 512) % 2 ^ 32 = blk * 512 := by
        have hbase : usbStorageFlashBase = 0 := rfl
        omega
      rw [haddr]
      rcases Nat.eq_zero_or_pos (n * 512 % 2 ^ 16) with hzero | hpos
      · rw [hzero, (wrote_nothing P buf (blk * 512) s.nor).mem, overlay_zero]
        exact hs a ha
      · have hwrote := (wrote_sectors P s.nor buf (blk * 512) hpos (Nat.mod_lt _ (by decide))
          (by omega)).2
        rw [hwrote.mem, overlay_after (by omega)]
        exact hs a ha
    · exact hs a ha
  getMaxLun _ hs := hs

end Nor

/-- A card and a NAND flash that report errors. -/
def broken : Rest Medium Medium where
  ftlInit := pure 1
  nandBlocks := Medium.sectors
  sdInit := pure 1
  cardInfo := pure (0, 512)

/-- A driver that does nothing and reports success, and one that reports an error. -/
def lying : Driver Medium := .idle Medium 0
def failing : Driver Medium := .idle Medium 1

/-- The board with a blank NOR flash. -/
def blankBoard : Storage Medium Medium := ⟨.fresh, ⟨0, fun _ => 0⟩, ⟨0, fun _ => 0⟩, 0, []⟩

/-- Two blocks are written, and they are read with what is around them. -/
def writeThenRead : List (ℕ × HostOp) :=
  [(1, .capacity 0), (2, .write false 0 3 2 UInt8.ofNat), (3, .read true 0 2 4)]

theorem runHost_nor_writeThenRead :
    (runHost (fopsFS part25q256 0 lying failing broken) (opsEvents writeThenRead)).val
        ((mscBotInit (fopsFS part25q256 0 lying failing broken)).state (.fresh blankBoard)) =
      opsAnswers (fun _ => 51200) (norContent blankBoard) writeThenRead ∧
    ((runHost (fopsFS part25q256 0 lying failing broken) (opsEvents writeThenRead)).state
        ((mscBotInit (fopsFS part25q256 0 lying failing broken)).state
          (.fresh blankBoard))).disk.nor.mem =
      opsEffect (norContent blankBoard) writeThenRead 0 := by
  refine runHost_nor part25q256 0 lying failing broken (by decide) ?_ rfl rfl
  exact ⟨by decide, rfl, by decide, ⟨List.mem_singleton.mpr rfl, by decide, by decide, by decide⟩,
    by decide, ⟨List.mem_singleton.mpr rfl, by decide, by decide, by decide⟩, trivial⟩

/-- The capacity, and a write that ends at the last block. -/
def writeLast : List HostEvent :=
  [cbwIn 1 8 0 [0x25], .poll, .poll,
    sendCbw 2 512 0 0 [0x2A, 0, 0, 0, 199, 255, 0, 0, 1, 0], .out 512 fun _ => 0, .poll]

end Apollo.Usb
