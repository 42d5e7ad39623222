import Apollo.Ftl.Read
import Apollo.Nand.Ecc

/-!
# What the disk contains

A disk is the history of the writes to it: a sector holds what the last write that
covered it put there, and `0xFF` if there was none.  On a chip on which nothing fails the
FTL is such a disk, from a format on and over any number of restarts.

## Main definitions

* `SectorWrite`, `lastWritten` — a history and what it says.
* `Run` — the states the FTL goes through.
* `Contains` — the disk holds what the history says.
* `read_your_writes` — so a read delivers it.
-/

namespace Apollo.Ftl
open Lib Nand

variable {B : Board}

/-! ## Histories -/

/-- A call of `ftl_write_sectors` with sectors of 512 bytes. -/
structure SectorWrite where
  pbuffer : Bytes
  sectorno : ℕ
  sectorcount : ℕ

/-- The sector is one of those the call writes. -/
def SectorWrite.Covers (w : SectorWrite) (s : ℕ) : Prop :=
  w.sectorno ≤ s ∧ s < w.sectorno + w.sectorcount

instance (w : SectorWrite) (s : ℕ) : Decidable (w.Covers s) := inferInstanceAs (Decidable (_ ∧ _))

/-- The bytes of sector `s` after a history, the newest write first: those of the last write
that covered it, or `0xFF` if none did. -/
def lastWritten : List SectorWrite → ℕ → Bytes
  | [], _ => fun _ => 0xFF
  | w :: older, s =>
      if w.Covers s then shift w.pbuffer ((s - w.sectorno) * nandEccSectorSize)
      else lastWritten older s

/-- `Run B ws d`: from a successful format the writes `ws` have led to the state `d`, each
within the disk and returning 0.  In between the FTL may have been started again from
the array. -/
inductive Run (B : Board) : List SectorWrite → Dev → Prop where
  | format {d₀ : Dev} (marks : FirstPageMarks B d₀.flash) (formatted : (ftlFormat B).val d₀ = 0) :
      Run B [] ((ftlFormat B).state d₀)
  | start {ws : List SectorWrite} {d d' : Dev} (run : Run B ws d) (same : d'.flash = d.flash)
      (built : (ftlCreateLut B 1).val d' = 0) : Run B ws ((ftlCreateLut B 1).state d')
  | write {ws : List SectorWrite} {d : Dev} (run : Run B ws d) (fuel : ℕ) (w : SectorWrite)
      (count : w.sectorcount < 2 ^ 16)
      (inRange : InRange B w.sectorno nandEccSectorSize w.sectorcount d)
      (returned : (ftlWriteSectors B fuel w.pbuffer w.sectorno nandEccSectorSize
        w.sectorcount).val d = some 0) :
      Run B (w :: ws) ((ftlWriteSectors B fuel w.pbuffer w.sectorno nandEccSectorSize
        w.sectorcount).state d)

/-! ## The simulation -/

/-- The state is sound and every sector of the disk holds what the history says. -/
structure Contains (B : Board) (ws : List SectorWrite) (d : Dev) : Prop where
  sound : Sound B d
  sector : ∀ s < diskSectors B nandEccSectorSize d, ∀ j < nandEccSectorSize,
    disk B d (s * nandEccSectorSize + j) = lastWritten ws s j

theorem Formatted.contains {d : Dev} (h : Formatted B d) : Contains B [] d where
  sound := h.sound
  sector := by
    intro s hs j hj
    have hlt := sector_byte_lt hs hj
    have hx : (s * nandEccSectorSize + j) % blockSize B < blockSize B :=
      Nat.mod_lt _ (blockSize_pos B)
    have hcol := offset_col_lt B (o := (s * nandEccSectorSize + j) % blockSize B)
    exact h.clean _ (Nat.div_lt_of_lt_mul (by rwa [Nat.mul_comm (blockSize B)])) _
      (offset_page_lt B hx) _ (by omega)

theorem Contains.start (hB : B.FaultFree) {ws : List SectorWrite} {d d' : Dev}
    (h : Contains B ws d) (same : d'.flash = d.flash) :
    Contains B ws ((ftlCreateLut B 1).state d') := by
  have hrebuilt := ftlCreateLut_state hB.steady.reads d'
  obtain ⟨hlut, hvalid⟩ := h.sound.rebuilt same hrebuilt
  have hlt := h.sound.valid_lt
  refine ⟨?_, fun s hs j hj => ?_⟩
  · rw [Sound, hrebuilt.flash, same, hvalid]
    exact h.sound.of_lut hlut
  · rw [diskSectors, hvalid] at hs
    have hbyte := sector_byte_lt hs hj
    have hl : (s * nandEccSectorSize + j) / blockSize B < d.validBlocknum :=
      Nat.div_lt_of_lt_mul (by rwa [Nat.mul_comm (blockSize B)])
    rw [← h.sector s hs j hj, disk, disk, hrebuilt.flash, same, hlut _ (by omega)]

theorem Contains.write (hB : B.FaultFree) {ws : List SectorWrite} {d : Dev} (h : Contains B ws d)
    {fuel : ℕ} {w : SectorWrite} (count : w.sectorcount < 2 ^ 16)
    (inRange : InRange B w.sectorno nandEccSectorSize w.sectorcount d)
    (returned : (ftlWriteSectors B fuel w.pbuffer w.sectorno nandEccSectorSize
      w.sectorcount).val d = some 0) :
    Contains B (w :: ws) ((ftlWriteSectors B fuel w.pbuffer w.sectorno nandEccSectorSize
      w.sectorcount).state d) := by
  have hwritten := ftlWriteSectors_disk hB (wholeSectors_512 B) count w.pbuffer h.sound inRange
    returned
  refine ⟨hwritten.sound, fun s hs j hj => ?_⟩
  rw [diskSectors, hwritten.validBlocknum] at hs
  have hold := h.sector s hs j hj
  rw [hwritten.disk _ (sector_byte_lt hs hj), lastWritten]
  simp only [nandEccSectorSize] at hj hold ⊢
  by_cases hin : w.Covers s
  · obtain ⟨hge, hlt⟩ := hin
    rw [if_pos ⟨hge, hlt⟩, overlay_inside (by omega) (by omega), shift_apply]
    congr 1
    omega
  · have hout : ¬(w.sectorno ≤ s ∧ s < w.sectorno + w.sectorcount) := hin
    rw [if_neg hin, overlay_outside (by omega), hold]

/-- Every run keeps the disk and its history together. -/
theorem Run.contains (hB : B.FaultFree) {ws : List SectorWrite} {d : Dev} (h : Run B ws d) :
    Contains B ws d := by
  induction h with
  | format marks formatted => exact (ftlFormat_spec hB.steady marks formatted).contains
  | start _ same _ ih => exact ih.start hB same
  | write _ fuel w count inRange returned ih => exact ih.write hB count inRange returned

/-- On a chip on which nothing fails and which delivers what is stored, a read of any window
of the disk returns 0, and each sector of the window is what the last write that covered
it put there, or `0xFF`. -/
theorem read_your_writes (hB : B.FaultFree) {ws : List SectorWrite} {d : Dev} (hrun : Run B ws d)
    (hclean : ReadsClean B d) {sectorno sectorcount : ℕ}
    (hr : InRange B sectorno nandEccSectorSize sectorcount d) {fuel : ℕ}
    (hfuel : sectorcount < fuel) (pbuffer : Bytes) :
    ∃ out, (ftlReadSectors B fuel pbuffer sectorno nandEccSectorSize sectorcount).val d =
        (some 0, out) ∧
      ∀ k < sectorcount, ∀ j < nandEccSectorSize,
        out (k * nandEccSectorSize + j) = lastWritten ws (sectorno + k) j := by
  have hcontains := hrun.contains hB
  obtain ⟨hval, -⟩ := ftlReadSectors_clean fuel (wholeSectors_512 B) pbuffer
    hcontains.sound.toPlaced hclean hr hfuel
  refine ⟨_, hval, fun k hk j hj => ?_⟩
  have hin : k * nandEccSectorSize + j < 0 + sectorcount * nandEccSectorSize := by
    have hle : (k + 1) * nandEccSectorSize ≤ sectorcount * nandEccSectorSize :=
      Nat.mul_le_mul_right _ hk
    rw [Nat.succ_mul] at hle
    omega
  rw [overlay_inside (Nat.zero_le _) hin, shift_apply, ← hcontains.sector _ (hr k hk) j hj,
    Nat.add_mul, Nat.sub_zero, Nat.add_assoc]

/-! ## An ECC unit that computes all ones -/

section AllOnes
variable (hecc : ∀ data, B.hwEcc data = 0xFFFFFFFF)
include hecc

/-- Whole sectors bring no 0 into the spare area. -/
theorem loadRegister_spare_ff (pbuffer : Bytes) {m c : ℕ}
    (hm : nandEccSectorSize * m ≤ B.pageMainsize) (hc : B.pageMainsize ≤ c) :
    loadRegister B erasedPage (nandEccSectorSize * 0) pbuffer (nandEccSectorSize * m) c = 0xFF := by
  have hword : ∀ data k, hdEcc B data k = 0xFFFFFFFF := fun data k => by rw [hdEcc, hecc]; rfl
  simp only [loadRegister, Nat.mul_mod_right, ne_eq, not_true_eq_false, if_false, overlay, hword]
  rw [if_neg (by omega : ¬(nandEccSectorSize * 0 ≤ c ∧
    c < nandEccSectorSize * 0 + nandEccSectorSize * m)), erasedPage_apply]
  split
  · exact wordByte_ff (Nat.mod_lt _ (by decide))
  · rfl

/-- Where nothing fails and the ECC areas are blank, everything is read clean. -/
theorem readsClean_of_ff (hB : B.FaultFree)
    (hflip : ∀ n k, (B.reply .read n).eccFlip k = 0) {d : Dev}
    (hspare : ∀ l < d.validBlocknum, ∀ i < B.blockPagenum, ∀ c, B.pageMainsize + 0x10 ≤ c →
      d.flash (d.lut l * B.blockPagenum + i) c = 0xFF) : ReadsClean B d := by
  intro d' hflash l hl i hi colnum n pbuffer _ _ _
  refine ⟨0, Or.inl rfl, ?_⟩
  rw [← hflash]
  refine nandReadpage_clean hB _ colnum pbuffer n d' fun k _ => ?_
  have hstored : word (shift (d'.flash (d.lut l * B.blockPagenum + i)) (eccColumn B colnum)) k =
      0xFFFFFFFF := by
    simp only [word, shift_apply, eccColumn, hflash]
    rw [hspare l hl i hi _ (by omega), hspare l hl i hi _ (by omega),
      hspare l hl i hi _ (by omega), hspare l hl i hi _ (by omega)]
    rfl
  rw [hstored, hflip, hdEcc, hecc]
  rfl

/-- After a format and the first write everything is read clean. -/
theorem Formatted.readsClean_write (hB : B.FaultFree)
    (hflip : ∀ n k, (B.reply .read n).eccFlip k = 0) {d : Dev} (h : Formatted B d)
    (hpos : 0 < d.validBlocknum) (pbuffer : Bytes) :
    ReadsClean B ((ftlWriteSectors B 2 pbuffer 0 nandEccSectorSize 1).state d) := by
  obtain ⟨-, hprog⟩ := h.write_first hB (wholeSectors_512 B) hpos pbuffer
  refine readsClean_of_ff hecc hB hflip fun l hl i hi c hc => ?_
  rw [hprog.validBlocknum] at hl
  rw [hprog.lut, hprog.first.column (loadRegister_spare_ff hecc _
    (Nat.le_of_dvd B.mainsize_pos B.mainsize_sectors) (by omega)) (by omega)]
  exact h.clean l hl i hi c (by omega)

end AllOnes

/-- A sector written after the format is read back. -/
theorem read_your_writes_first :
    let d := (ftlWriteSectors board512 2 (fun _ => 0) 0 nandEccSectorSize 1).state
      ((ftlFormat board512).state Dev.blank)
    ∃ out, (ftlReadSectors board512 2 erasedPage 0 nandEccSectorSize 1).val d = (some 0, out) ∧
      ∀ k < 1, ∀ j < nandEccSectorSize, out (k * nandEccSectorSize + j) =
        lastWritten [⟨fun _ => 0, 0, 1⟩] (0 + k) j := by
  intro d
  have hw := wholeSectors_512 board512
  obtain ⟨hval, hformatted, hvalid, -⟩ :=
    ftlFormat_blank board512_faultFree.steady board512_faultFree.erases
    board512_total
  have hpos := lt_of_lt_of_le (by decide : 0 < 100) (hvalid ▸ board512_total)
  obtain ⟨hwrite, -⟩ := hformatted.write_first board512_faultFree hw hpos fun _ => 0
  exact read_your_writes board512_faultFree
    (.write (.format (fun _ _ _ => rfl) hval) 2 ⟨fun _ => 0, 0, 1⟩ (by decide)
      (inRange_first hw hpos) hwrite)
    (hformatted.readsClean_write (fun _ => rfl) board512_faultFree (fun _ _ => rfl) hpos _)
    (hformatted.inRange_write board512_faultFree hw hpos _) (by decide) erasedPage

end Apollo.Ftl
