import Apollo.Ftl.Store
import Apollo.Norflash.Write
import Apollo.Sdio.Sdcard
import Apollo.Usb.Storage

/-!
# Whether mass storage tells the truth

`STORAGE_Read_FS` reports success for whatever its driver has left in the buffer.
`STORAGE_Write_FS` hands the driver's code on, so it is right when the driver is: the card's
always is, the FTL's where its rounds store what they write.  The driver of the NOR flash takes
any address, and a unit that does not exist is served with nothing at all.

## Main definitions

* `ftlDriver` — the two functions of the FTL as a driver.
* `UnitHolds` — the bytes of a buffer are those of some sectors of a unit.
* `ReadsTruly`, `WritesTruly` — success is reported only for what has been transferred.
* `ReadsRight`, `WritesRight` — the conditions.
* `transfersTruly_iff` — success is reported truly under these conditions and no others.
-/

namespace Apollo.Usb
open Lib Norflash Nand Ftl Sdio

/-- The NAND flash as its FTL serves it, as far as `fuel` rounds go. -/
def ftlDriver (B : Board) (fuel : ℕ) : Driver Dev where
  read buf blk n := do
    let read ← ftlReadSectors B fuel buf blk 512 n
    pure (read.1.map UInt8.ofNat, read.2)
  write buf blk n := do
    let res ← ftlWriteSectors B fuel buf blk 512 n
    pure (res.map UInt8.ofNat)

section Units
variable (P : Part) (B : Board) (H : Hal) (fuel lun blk n : ℕ) (buf : ℕ → UInt8)
  (s : Storage Dev Sd)

/-- The `n` sectors of the unit from `blk` on are there, and hold what is in the buffer. -/
def UnitHolds : Prop :=
  if lun = 0 then (Medium.mk (P.size / 512) s.nor.mem).Holds 512 blk n buf
  else if lun = 1 then ∀ j < n, DiskHolds B s.nand (blk + j) (shift buf (512 * j))
  else if lun = 2 then (s.card.medium H).Holds 512 blk n buf
  else n = 0

/-- `STORAGE_Read_FS` over the three drivers. -/
def readFS : Prog (Storage Dev Sd) (Option Int8 × (ℕ → UInt8)) :=
  storageReadFS P (ftlDriver B fuel) (sdDriver H fuel) lun buf blk n

/-- `STORAGE_Write_FS` over the three drivers. -/
def writeFS : Prog (Storage Dev Sd) (Option Int8) :=
  storageWriteFS P (ftlDriver B fuel) (sdDriver H fuel) lun buf blk n

/-- A read that reports success has delivered the sectors. -/
def ReadsTruly : Prop :=
  ((readFS P B H fuel lun blk n buf).val s).1 = some usbdOk →
    UnitHolds P B H lun blk n ((readFS P B H fuel lun blk n buf).val s).2 s

/-- A write that reports success has stored the buffer in the sectors. -/
def WritesTruly : Prop :=
  (writeFS P B H fuel lun blk n buf).val s = some usbdOk →
    UnitHolds P B H lun blk n buf ((writeFS P B H fuel lun blk n buf).state s)

/-- The condition on a read: nothing is asked for, or the sectors of the NOR flash are on the
chip, or each round of the FTL delivers its sectors, or the card does. -/
def ReadsRight : Prop :=
  n = 0 ∨ lun = 0 ∧ (blk + n) * 512 ≤ P.size ∨
    lun = 1 ∧ Prog.Rounds (fun v d => RoundDelivers B blk n v d s.nand)
      (fun _ => readRound B fuel blk 512 n) fuel 0 ⟨0, buf, 0⟩ s.nand ∨
    lun = 2 ∧ (H.readBlocks s.card.reads blk n = .ok ∨
      (s.card.medium H).Holds 512 blk n (H.readLeft s.card.reads))

/-- The condition on a write: nothing is asked for, or the sectors of the NOR flash are on the
chip, or each round of the FTL stores its sectors, or the unit is the card. -/
def WritesRight : Prop :=
  n = 0 ∨ lun = 0 ∧ (blk + n) * 512 ≤ P.size ∨
    lun = 1 ∧ Prog.Rounds (RoundStores B blk n) (fun _ => writeRound B fuel blk 512 n) fuel 0
      ⟨0, buf, 0xFFFFFFFF⟩ s.nand ∨
    lun = 2

end Units

variable {P : Part} {B : Board} {H : Hal} {fuel lun blk n : ℕ} {buf : ℕ → UInt8}
  {s : Storage Dev Sd}

theorem toInt8_eq_zero {code : UInt8} : code.toInt8 = usbdOk ↔ code = 0 := by
  constructor
  · intro h
    calc code = code.toInt8.toUInt8 := (UInt8.toUInt8_toInt8 code).symm
      _ = usbdOk.toUInt8 := by rw [h]
      _ = 0 := rfl
  · rintro rfl
    rfl

theorem unitHolds_none : UnitHolds P B H lun blk 0 buf s := by
  rw [UnitHolds]
  split_ifs
  · exact Medium.holds_none
  · exact fun j hj => absurd hj (Nat.not_lt_zero j)
  · exact Medium.holds_none
  · rfl

/-! ## The NOR flash -/

/-- Sectors that are held are on the chip. -/
theorem nor_inside (hpos : 0 < n) (h : UnitHolds P B H 0 blk n buf s) :
    (blk + n) * 512 ≤ P.size := by
  rw [UnitHolds, if_pos rfl] at h
  exact Nat.mul_le_of_le_div 512 _ _ (h.inside (by decide) hpos)

section Nor
variable (hn : n ≤ mscMediaPacket / 512) (hin : (blk + n) * 512 ≤ P.size)
include hn hin

/-- Sectors on the chip have addresses that nothing is lost of. -/
theorem nor_address (hpos : 0 < n) :
    blk * 512 < P.size ∧ (usbStorageFlashBase + blk * 512) % 2 ^ 32 = blk * 512 ∧
      n * 512 % 2 ^ 16 = n * 512 ∧ n * 512 < 2 ^ 16 := by
  have hsize := P.size_le
  rw [Nat.add_mul] at hin
  have hfirst : blk * 512 < P.size := by omega
  have hshort : n * 512 < 2 ^ 16 :=
    calc n * 512 ≤ 64 * 512 := Nat.mul_le_mul_right 512 hn
      _ < 2 ^ 16 := by decide
  refine ⟨hfirst, ?_, Nat.mod_eq_of_lt hshort, hshort⟩
  rw [usbStorageFlashBase, Nat.zero_add, Nat.mod_eq_of_lt (Nat.lt_of_lt_of_le hfirst hsize)]

theorem readsTruly_nor (hpos : 0 < n) : ReadsTruly P B H fuel 0 blk n buf s := by
  intro _
  obtain ⟨hfirst, haddr, hlen, -⟩ := nor_address hn hin hpos
  have hval : ((readFS P B H fuel 0 blk n buf).val s).2 =
      (norflashRead P buf ((usbStorageFlashBase + blk * 512) % 2 ^ 32)
        (n * 512 % 2 ^ 16)).val s.nor := rfl
  rw [hval, haddr, hlen, val_norflashRead P hfirst, UnitHolds, if_pos rfl]
  exact Medium.holds_delivered (M := ⟨P.size / 512, s.nor.mem⟩)
    ((Nat.le_div_iff_mul_le (by decide)).mpr hin)

theorem writesTruly_nor (hpos : 0 < n) : WritesTruly P B H fuel 0 blk n buf s := by
  intro _
  obtain ⟨-, haddr, hlen, hshort⟩ := nor_address hn hin hpos
  have hunit (t : Storage Dev Sd) :
      ((writeUnit P (ftlDriver B fuel) (sdDriver H fuel) 0 buf blk n).state t).nor =
        (norflashWrite P buf ((usbStorageFlashBase + blk * 512) % 2 ^ 32)
          (n * 512 % 2 ^ 16)).state t.nor := by
    rw [writeUnit, if_pos rfl]
    rfl
  have hstate : ((writeFS P B H fuel 0 blk n buf).state s).nor = _ :=
    (congrArg Prod.fst (media_storageWriteFS P (ftlDriver B fuel) (sdDriver H fuel) 0 buf blk n
      s)).trans (hunit _)
  have hwrote := (wrote_sectors P s.nor buf (blk * 512) (Nat.mul_pos hpos (by decide)) hshort
    (by rwa [← Nat.add_mul])).2
  have hmem : ((writeFS P B H fuel 0 blk n buf).state s).nor.mem =
      overlay s.nor.mem (blk * 512) buf (n * 512) := by
    rw [hstate, haddr, hlen]
    exact hwrote.mem
  rw [UnitHolds, if_pos rfl, hmem]
  exact Medium.holds_stored ((Nat.le_div_iff_mul_le (by decide)).mpr hin)

end Nor

/-! ## The NAND flash -/

/-- A read hands on what the FTL has left in the buffer, once the FTL returns. -/
theorem readFS_nand_ok (h : ((readFS P B H fuel 1 blk n buf).val s).1 = some usbdOk) :
    ∃ c, (ftlReadSectors B fuel buf blk nandEccSectorSize n).val s.nand =
      (some c, ((readFS P B H fuel 1 blk n buf).val s).2) := by
  have hval : ((readFS P B H fuel 1 blk n buf).val s).1 =
      (((ftlReadSectors B fuel buf blk nandEccSectorSize n).val s.nand).1.map UInt8.ofNat).map
        fun _ => usbdOk := rfl
  have hbuf : ((readFS P B H fuel 1 blk n buf).val s).2 =
      ((ftlReadSectors B fuel buf blk nandEccSectorSize n).val s.nand).2 := rfl
  rw [hval, Option.map_map, Option.map_eq_some_iff] at h
  obtain ⟨c, hc, -⟩ := h
  exact ⟨c, Prod.ext hc hbuf.symm⟩

/-- A write reports success when the FTL returns 0. -/
theorem writeFS_nand_ok (hB : B.Steady) (h : (writeFS P B H fuel 1 blk n buf).val s = some usbdOk) :
    (ftlWriteSectors B fuel buf blk nandEccSectorSize n).val s.nand = some 0 := by
  have hval : (writeFS P B H fuel 1 blk n buf).val s =
      (((ftlWriteSectors B fuel buf blk nandEccSectorSize n).val s.nand).map UInt8.ofNat).map
        UInt8.toInt8 := rfl
  rw [hval, Option.map_map, Option.map_eq_some_iff] at h
  obtain ⟨c, hc, hzero⟩ := h
  have hle := ftlWriteSectors_code hB hc
  have hcode : UInt8.ofNat c = 0 := toInt8_eq_zero.mp hzero
  have hnat : c % 2 ^ 8 = 0 := by
    have hcongr := congrArg UInt8.toNat hcode
    rwa [UInt8.toNat_ofNat'] at hcongr
  obtain rfl : c = 0 := by omega
  exact hc

theorem state_writeFS_nand : ((writeFS P B H fuel 1 blk n buf).state s).nand =
    (ftlWriteSectors B fuel buf blk nandEccSectorSize n).state s.nand :=
  congrArg (·.2.1) (media_storageWriteFS P (ftlDriver B fuel) (sdDriver H fuel) 1 buf blk n s)

/-! ## The card -/

/-- A read hands on what the HAL has left in the buffer. -/
theorem unitHolds_readFS_card :
    UnitHolds P B H 2 blk n ((readFS P B H fuel 2 blk n buf).val s).2 s ↔
      H.readBlocks s.card.reads blk n = .ok ∨
        (s.card.medium H).Holds 512 blk n (H.readLeft s.card.reads) := by
  have hbuf : ((readFS P B H fuel 2 blk n buf).val s).2 =
      if H.readBlocks s.card.reads blk n = .ok then
        overlay buf 0 (shift s.card.content (blk * 512)) (n * 512)
      else H.readLeft s.card.reads := rfl
  have hunit (out : ℕ → UInt8) : UnitHolds P B H 2 blk n out s ↔
      (s.card.medium H).Holds 512 blk n out := Iff.rfl
  rw [hunit, hbuf]
  by_cases hok : H.readBlocks s.card.reads blk n = .ok
  · rw [if_pos hok]
    exact iff_of_true (Medium.holds_delivered (M := s.card.medium H) (H.read_inside _ _ _ hok))
      (Or.inl hok)
  · rw [if_neg hok]
    exact (or_iff_right hok).symm

/-- The card's code is handed on, so a success is the card's. -/
theorem writesTruly_card : WritesTruly P B H fuel 2 blk n buf s := by
  intro hok
  have hval : (writeFS P B H fuel 2 blk n buf).val s =
      ((sdWriteDisk H fuel buf blk n).val s.card).map UInt8.toInt8 := rfl
  rw [hval, Option.map_eq_some_iff] at hok
  obtain ⟨code, hcode, hzero⟩ := hok
  rw [toInt8_eq_zero.mp hzero] at hcode
  have hcard : ((writeFS P B H fuel 2 blk n buf).state s).card =
      (sdWriteDisk H fuel buf blk n).state s.card :=
    congrArg (·.2.2) (media_storageWriteFS P (ftlDriver B fuel) (sdDriver H fuel) 2 buf blk n s)
  have hholds := sdWriteDisk_holds H fuel buf blk n s.card hcode
  rw [← hcard] at hholds
  exact hholds

/-! ## Any unit -/

/-- A read that reports success has delivered the sectors exactly under the condition. -/
theorem unitHolds_read_iff (hn : n ≤ mscMediaPacket / 512)
    (hok : ((readFS P B H fuel lun blk n buf).val s).1 = some usbdOk) :
    UnitHolds P B H lun blk n ((readFS P B H fuel lun blk n buf).val s).2 s ↔
      ReadsRight P B H fuel lun blk n buf s := by
  rcases Nat.eq_zero_or_pos n with rfl | hpos
  · exact iff_of_true unitHolds_none (Or.inl rfl)
  have hn32 : n < 2 ^ 32 := lt_of_le_of_lt hn (by decide)
  rw [ReadsRight, or_iff_right (Nat.ne_of_gt hpos)]
  by_cases hnor : lun = 0
  · subst hnor
    simp only [true_and, (by decide : ¬ (0 = 1)), (by decide : ¬ (0 = 2)), false_and, or_false]
    exact ⟨nor_inside hpos, fun hin => readsTruly_nor hn hin hpos hok⟩
  by_cases hnand : lun = 1
  · subst hnand
    simp only [true_and, one_ne_zero, (by decide : ¬ (1 = 2)), false_and, or_false, false_or]
    obtain ⟨c, hc⟩ := readFS_nand_ok hok
    exact ftlReadSectors_delivers_iff hn32 hc
  by_cases hcard : lun = 2
  · subst hcard
    simp only [true_and, hnor, hnand, false_and, false_or]
    exact unitHolds_readFS_card
  · simp only [hnor, hnand, hcard, false_and, or_false]
    rw [UnitHolds, if_neg hnor, if_neg hnand, if_neg hcard]
    exact iff_of_false (Nat.ne_of_gt hpos) id

/-- A write that reports success has stored the sectors exactly under the condition. -/
theorem unitHolds_write_iff (hblk : blk < 2 ^ 32) (hn : n ≤ mscMediaPacket / 512)
    (hsteady : lun = 1 → B.Steady ∧ Sound B s.nand)
    (hok : (writeFS P B H fuel lun blk n buf).val s = some usbdOk) :
    UnitHolds P B H lun blk n buf ((writeFS P B H fuel lun blk n buf).state s) ↔
      WritesRight P B fuel lun blk n buf s := by
  rcases Nat.eq_zero_or_pos n with rfl | hpos
  · exact iff_of_true unitHolds_none (Or.inl rfl)
  have hn16 : n < 2 ^ 16 := lt_of_le_of_lt hn (by decide)
  rw [WritesRight, or_iff_right (Nat.ne_of_gt hpos)]
  by_cases hnor : lun = 0
  · subst hnor
    simp only [true_and, (by decide : ¬ (0 = 1)), (by decide : ¬ (0 = 2)), false_and, or_false]
    exact ⟨nor_inside hpos, fun hin => writesTruly_nor hn hin hpos hok⟩
  by_cases hnand : lun = 1
  · subst hnand
    simp only [true_and, one_ne_zero, (by decide : ¬ (1 = 2)), false_and, or_false, false_or]
    obtain ⟨hB, hsound⟩ := hsteady rfl
    rw [← ftlWriteSectors_stores_iff hB hsound hn16 hblk (writeFS_nand_ok hB hok),
      ← state_writeFS_nand (P := P) (H := H)]
    exact Iff.rfl
  by_cases hcard : lun = 2
  · subst hcard
    simp only [or_true, iff_true]
    exact writesTruly_card hok
  · simp only [hnor, hnand, hcard, false_and, or_false]
    rw [UnitHolds, if_neg hnor, if_neg hnand, if_neg hcard]
    exact iff_of_false (Nat.ne_of_gt hpos) id

/-- A card that does what it is asked. -/
def goodCard : Hal where
  logBlockNbr := 2 ^ 20
  init _ := .ok
  configWideBus _ := .ok
  readBlocks _ blk n := if blk + n ≤ 2 ^ 20 then .ok else .error
  writeBlocks _ blk n := if blk + n ≤ 2 ^ 20 then .ok else .error
  cardState _ := halSdCardTransfer
  readLeft _ _ := 0
  writeLeft _ _ := 0
  read_inside _ blk n h := by
    by_contra hout
    rw [if_neg hout] at h
    cases h
  write_inside _ blk n h := by
    by_contra hout
    rw [if_neg hout] at h
    cases h

/-- After a format a write to the first sector of the NAND flash reports success. -/
theorem writeFS_first (hB : B.FaultFree) (h : Formatted B s.nand)
    (hpos : 0 < s.nand.validBlocknum) :
    (writeFS P B H 2 1 0 1 buf).val s = some usbdOk := by
  have hval : (writeFS P B H 2 1 0 1 buf).val s = (((ftlWriteSectors B 2 buf 0
    nandEccSectorSize 1).val s.nand).map UInt8.ofNat).map UInt8.toInt8 := rfl
  rw [hval, (h.write_first hB (wholeSectors_512 B) hpos buf).1]
  rfl

/-- The 512 MB part when it does not answer any more. -/
def silent : Board :=
  { Board.ideal part512 fun _ => 0 with
    reply := fun _ _ => { Reply.sound with rbLow := fun _ => true } }

theorem silent_timeout (c : Cmd) (i : ℕ) : (silent.reply c i).RbTimeout := by
  refine Or.inl fun hzero => ?_
  obtain ⟨t, -, ht⟩ := (nandWaitrb_eq_zero _ _).mp hzero
  cases ht

end Apollo.Usb
