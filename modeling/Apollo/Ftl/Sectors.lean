import Apollo.Ftl.Write

/-!
# Sectors

Where the sectors of the disk are stored, and that none of the conversions of the disk
functions loses anything on a window of the disk.  The shortest write is one sector over
a blank one: it is programmed where it is stored, and nothing else happens.

## Main definitions

* `WholeSectors` — pages are whole sectors, sectors are whole ECC sectors.
* `InRange` — a window of the disk; `sector_address` — where its sectors are stored.
* `ftlWriteSectors_blank` — one sector over a blank one.
-/

namespace Apollo.Ftl
open Lib Nand

variable {B : Board}

/-! ## Positions -/

/-- Sectors are whole ECC sectors, and pages are whole sectors. -/
structure WholeSectors (B : Board) (sectorsize : ℕ) : Prop where
  pos : 0 < sectorsize
  ecc : nandEccSectorSize ∣ sectorsize
  page : sectorsize ∣ B.pageMainsize

/-- How many sectors the disk has. -/
abbrev diskSectors (B : Board) (sectorsize : ℕ) (d : Dev) : ℕ :=
  d.validBlocknum * B.blockPagenum * B.pageMainsize / sectorsize

/-- Every sector of a window is on the disk. -/
def InRange (B : Board) (sectorno sectorsize sectorcount : ℕ) (d : Dev) : Prop :=
  ∀ i < sectorcount, sectorno + i < diskSectors B sectorsize d

/-- The sectors of `ftl.c`'s callers, 512 bytes. -/
theorem wholeSectors_512 (B : Board) : WholeSectors B nandEccSectorSize :=
  ⟨by decide, Nat.dvd_refl _, B.mainsize_sectors⟩

section Positions
variable {sectorsize sectorno sectorcount i : ℕ} {d : Dev}

theorem WholeSectors.toSectorSize (hw : WholeSectors B sectorsize) : SectorSize B sectorsize :=
  ⟨hw.pos, Nat.le_of_dvd B.mainsize_pos hw.page⟩

theorem sectorsPerBlock_mul (hw : WholeSectors B sectorsize) :
    sectorsPerBlock B sectorsize * sectorsize = blockSize B := by
  rw [sectorsPerBlock, Nat.mul_assoc, Nat.div_mul_cancel hw.page]

/-- A sector on the disk ends on the disk. -/
theorem InRange.end_le (hr : InRange B sectorno sectorsize sectorcount d) (hi : i < sectorcount) :
    (sectorno + i + 1) * sectorsize ≤ d.validBlocknum * blockSize B := by
  have hlt := Nat.mul_le_of_le_div sectorsize _ _ (hr i hi)
  rwa [Nat.mul_assoc] at hlt

/-- The sector numbers of the disk are far below `2 ^ 32`. -/
theorem InRange.sector_lt (hw : WholeSectors B sectorsize)
    (hvalid : d.validBlocknum < B.blockTotalnum)
    (hr : InRange B sectorno sectorsize sectorcount d) (hi : i < sectorcount) :
    sectorno + i < 2 ^ 31 := by
  have hend := hr.end_le hi
  have htot := B.total_lt
  have hP := B.pagenum_lt
  have hms := B.mainsize_le
  have hss : nandEccSectorSize ≤ sectorsize := Nat.le_of_dvd hw.pos hw.ecc
  have hle : (sectorno + i + 1) * nandEccSectorSize ≤ 2 ^ 16 * (2 ^ 8 * 4096) :=
    calc (sectorno + i + 1) * nandEccSectorSize
        ≤ (sectorno + i + 1) * sectorsize := Nat.mul_le_mul_left _ hss
      _ ≤ d.validBlocknum * blockSize B := hend
      _ ≤ 2 ^ 16 * (2 ^ 8 * 4096) :=
          Nat.mul_le_mul (by omega) (Nat.mul_le_mul (by omega) hms)
  simp only [nandEccSectorSize] at hle
  omega

theorem InRange.u32_eq (hw : WholeSectors B sectorsize)
    (hvalid : d.validBlocknum < B.blockTotalnum)
    (hr : InRange B sectorno sectorsize sectorcount d) (hi : i < sectorcount) :
    u32 (sectorno + i) = sectorno + i := by
  have hlt := hr.sector_lt hw hvalid hi
  simp only [u32]
  omega

/-- So is the number of sectors of a window. -/
theorem InRange.count_lt (hw : WholeSectors B sectorsize)
    (hvalid : d.validBlocknum < B.blockTotalnum)
    (hr : InRange B sectorno sectorsize sectorcount d) : sectorcount < 2 ^ 32 := by
  by_contra hge
  have hlt := hr.sector_lt hw hvalid (show 2 ^ 31 < sectorcount by omega)
  omega

/-- The logical block of a sector and its offset make up its address. -/
theorem sector_address (hw : WholeSectors B sectorsize) (sectorno i : ℕ) :
    lbnno B sectorno sectorsize i * blockSize B + blockoffset B sectorno sectorsize i =
      u32 (sectorno + i) * sectorsize := by
  rw [lbnno, blockoffset, ← sectorsPerBlock_mul hw, ← Nat.mul_assoc, ← Nat.add_mul,
    Nat.div_add_mod']

/-- A sector on the disk belongs to a logical block. -/
theorem InRange.lbnno_lt (hw : WholeSectors B sectorsize)
    (hvalid : d.validBlocknum < B.blockTotalnum)
    (hr : InRange B sectorno sectorsize sectorcount d) (hi : i < sectorcount) :
    lbnno B sectorno sectorsize i < d.validBlocknum := by
  have hend := hr.end_le hi
  have haddr := sector_address hw sectorno i
  rw [hr.u32_eq hw hvalid hi] at haddr
  have hpos := hw.pos
  have hsucc : (sectorno + i + 1) * sectorsize = (sectorno + i) * sectorsize + sectorsize :=
    Nat.succ_mul _ _
  by_contra hge
  have hle := Nat.mul_le_mul_right (blockSize B) (Nat.not_lt.mp hge)
  omega

/-- With fewer than `2 ^ 16` sectors the conversion in `wsecs` loses nothing. -/
theorem wsecs_eq (hcount : sectorcount < 2 ^ 16) (i temp : ℕ) :
    wsecs sectorcount i temp = min temp (sectorcount - i) := by
  have hu : u16 (sectorcount - i) = sectorcount - i := by
    simp only [u16]
    omega
  rw [wsecs, hu]
  split <;> omega

/-- Neither path handles more sectors than are left. -/
theorem wsecs_le_left (sectorcount i temp : ℕ) : wsecs sectorcount i temp ≤ sectorcount - i := by
  have hmod : u16 (sectorcount - i) ≤ sectorcount - i := Nat.mod_le _ _
  rw [wsecs]
  split <;> omega

theorem pageSecs_le (B : Board) (sectorno sectorsize sectorcount i : ℕ) :
    pageSecs B sectorno sectorsize sectorcount i ≤ sectorcount - i := wsecs_le_left _ _ _

theorem blockSecs_le (B : Board) (sectorno sectorsize sectorcount i : ℕ) :
    blockSecs B sectorno sectorsize sectorcount i ≤ sectorcount - i := wsecs_le_left _ _ _

/-- The index moves on by the sectors handled. -/
theorem advance_eq {n : ℕ} (hcount : i + n < 2 ^ 32) : advance i n = i + n := by
  simp only [advance, u32]
  omega

end Positions

/-! ## Writing one sector over a blank one -/

section OneSector
variable {sectorno sectorsize : ℕ} {pbuffer : Bytes} {d : Dev}

/-- Where a sector is stored. -/
def sectorPage (B : Board) (sectorno sectorsize : ℕ) (d : Dev) : ℕ :=
  d.lut (lbnno B sectorno sectorsize 0) * B.blockPagenum +
    blockoffset B sectorno sectorsize 0 / B.pageMainsize

/-- Column of the page in which a sector is stored. -/
def sectorColumn (B : Board) (sectorno sectorsize : ℕ) : ℕ :=
  blockoffset B sectorno sectorsize 0 % B.pageMainsize

/-- `d'` is `d` after one sector has been programmed into its page. -/
abbrev SectorProgrammed (B : Board) (pbuffer : Bytes) (sectorno sectorsize : ℕ) (d d' : Dev) :
    Prop :=
  Programmed B (sectorPage B sectorno sectorsize d) (d.lut (lbnno B sectorno sectorsize 0))
    (loadRegister B erasedPage (sectorColumn B sectorno sectorsize) pbuffer sectorsize) d d'

/-- The only round that writes. -/
theorem writeRound_blank (hB : B.FaultFree) (fuel : ℕ) (hw : WholeSectors B sectorsize)
    (pbuffer : Bytes) (h : Placed B d.flash d.lut d.validBlocknum)
    (hr : InRange B sectorno sectorsize 1 d)
    (hblank : PartBlank d.flash (sectorPage B sectorno sectorsize d)
      (sectorColumn B sectorno sectorsize) sectorsize) (m : ℕ) :
    pageSecs B sectorno sectorsize 1 0 = 1 ∧
    ∃ w, w.i = 1 ∧ (writeRound B fuel sectorno sectorsize 1 ⟨0, pbuffer, m⟩).val d = .next w ∧
      SectorProgrammed B pbuffer sectorno sectorsize d
        ((writeRound B fuel sectorno sectorsize 1 ⟨0, pbuffer, m⟩).state d) := by
  have hl := hr.lbnno_lt hw h.valid_lt (show 0 < 1 by omega)
  -- there is room for the sector in its page
  have hcol := offset_col_lt B (o := blockoffset B sectorno sectorsize 0)
  have hdvd : sectorsize ∣ B.pageMainsize - blockoffset B sectorno sectorsize 0 % B.pageMainsize :=
    Nat.dvd_sub hw.page ((Nat.dvd_mod_iff hw.page).mpr (Nat.dvd_mul_left _ _))
  have hroom := Nat.div_pos (Nat.le_of_dvd (by omega) hdvd) hw.pos
  have hsecs : pageSecs B sectorno sectorsize 1 0 = 1 := by
    rw [pageSecs, wsecs_eq (by omega)]
    omega
  have hfour : 4 * (sectorsize / 4) = sectorsize :=
    Nat.mul_div_cancel' (Nat.dvd_trans (by decide) hw.ecc)
  refine ⟨hsecs, ?_⟩
  set v : WriteVars := ⟨0, pbuffer, m⟩ with hv
  have hround := writeRound_cases fuel sectorno sectorsize 1 v d hB.steady
  revert hround
  generalize (writeRound B fuel sectorno sectorsize 1 v).val d = out
  generalize (writeRound B fuel sectorno sectorsize 1 v).state d = d'
  intro hround
  cases hround with
  | finished hi => exact absurd (show 0 < 1 by omega) hi
  | outside _ hunmapped _ =>
      have hlut := h.lut_lt _ hl
      rcases hunmapped with hlt | hge
      · exact absurd hl (Nat.not_lt.mpr (Nat.le_of_lt hlt))
      · exact absurd hlut (Nat.not_lt.mpr hge)
  | unreadable _ hfault _ => exact absurd hB hfault
  | inPlace m _ _ _ _ hp =>
      refine ⟨_, ?_, rfl, ?_⟩
      · show advance 0 (pageSecs B sectorno sectorsize 1 0) = 1
        rw [hsecs]
        rfl
      · rw [roundReg, hv, hsecs, Nat.one_mul] at hp
        exact hp
  | rewrite m _ _ _ htried =>
      refine absurd ?_ (htried.agrees hB).2
      rw [RoundBlank, hv, hsecs, Nat.one_mul, hfour]
      exact hblank

/-- Writing one sector over a blank one programs it into its page and returns 0. -/
theorem ftlWriteSectors_blank (hB : B.FaultFree) (fuel : ℕ) (hw : WholeSectors B sectorsize)
    (pbuffer : Bytes) (h : Placed B d.flash d.lut d.validBlocknum)
    (hr : InRange B sectorno sectorsize 1 d)
    (hblank : PartBlank d.flash (sectorPage B sectorno sectorsize d)
      (sectorColumn B sectorno sectorsize) sectorsize) :
    (ftlWriteSectors B (fuel + 2) pbuffer sectorno sectorsize 1).val d = some 0 ∧
      SectorProgrammed B pbuffer sectorno sectorsize d
        ((ftlWriteSectors B (fuel + 2) pbuffer sectorno sectorsize 1).state d) := by
  obtain ⟨-, w, hi, hval, hp⟩ := writeRound_blank hB (fuel + 2) hw pbuffer h hr hblank 0xFFFFFFFF
  set v : WriteVars := ⟨0, pbuffer, 0xFFFFFFFF⟩ with hv
  set body := fun _ : ℕ => writeRound B (fuel + 2) sectorno sectorsize 1 with hbody
  have hlast : ∀ t, (body 1 w).val t = .exit (some 0) ∧ (body 1 w).state t = t := by
    intro t
    simp only [hbody, writeRound, if_neg (show ¬ w.i < 1 by omega)]
    exact ⟨rfl, rfl⟩
  have hloop : (Prog.loop body (fuel + 2) 0 v).val d = .exit (some 0) ∧
      (Prog.loop body (fuel + 2) 0 v).state d = (body 0 v).state d := by
    rw [Prog.val_loop_next body hval, Prog.state_loop_next body hval,
      Prog.val_loop_exit body (hlast _).1, Prog.state_loop_exit body (hlast _).1]
    exact ⟨rfl, (hlast _).2⟩
  simp only [ftlWriteSectors, Prog.val_bind, Prog.state_bind, ← hv, ← hbody, hloop.1, hloop.2]
  exact ⟨rfl, hp⟩

/-- The first sector of a disk that has any logical block. -/
theorem inRange_first (hw : WholeSectors B sectorsize) (hvalid : 0 < d.validBlocknum) :
    InRange B 0 sectorsize 1 d := by
  intro i hi
  have hle : sectorsize ≤ d.validBlocknum * B.blockPagenum * B.pageMainsize :=
    Nat.le_trans hw.toSectorSize.le
      (Nat.le_mul_of_pos_left _ (Nat.mul_pos hvalid B.pagenum_pos))
  have hpos := Nat.div_pos hle hw.pos
  rw [diskSectors]
  omega

theorem sectorPage_first : sectorPage B 0 sectorsize d = d.lut 0 * B.blockPagenum := by
  simp [sectorPage, lbnno, blockoffset]

theorem sectorColumn_first : sectorColumn B 0 sectorsize = 0 := by
  simp [sectorColumn, blockoffset]

/-- After a format the first sector is blank. -/
theorem Formatted.partBlank_first (h : Formatted B d) (hw : WholeSectors B sectorsize)
    (hvalid : 0 < d.validBlocknum) :
    PartBlank d.flash (sectorPage B 0 sectorsize d) (sectorColumn B 0 sectorsize) sectorsize := by
  intro j hj
  have hle := hw.toSectorSize.le
  rw [sectorPage_first, sectorColumn_first]
  exact h.clean 0 hvalid 0 B.pagenum_pos (0 + j) (by omega)

/-- The first sector can be written after a format. -/
theorem Formatted.write_first (hB : B.FaultFree) (h : Formatted B d)
    (hw : WholeSectors B sectorsize)
    (hvalid : 0 < d.validBlocknum) (pbuffer : Bytes) :
    (ftlWriteSectors B 2 pbuffer 0 sectorsize 1).val d = some 0 ∧
      SectorProgrammed B pbuffer 0 sectorsize d
        ((ftlWriteSectors B 2 pbuffer 0 sectorsize 1).state d) :=
  ftlWriteSectors_blank hB 0 hw pbuffer h.sound.toPlaced (inRange_first hw hvalid)
    (h.partBlank_first hw hvalid)

theorem Formatted.inRange_write (hB : B.FaultFree) (h : Formatted B d)
    (hw : WholeSectors B sectorsize) (hvalid : 0 < d.validBlocknum) (pbuffer : Bytes) :
    InRange B 0 sectorsize 1 ((ftlWriteSectors B 2 pbuffer 0 sectorsize 1).state d) := by
  obtain ⟨-, hprog⟩ := h.write_first hB hw hvalid pbuffer
  exact inRange_first hw (by rwa [hprog.validBlocknum])

/-- The first sector is the first sector of the first page of logical block 0. -/
theorem SectorProgrammed.first {d' : Dev}
    (hp : SectorProgrammed B pbuffer 0 nandEccSectorSize d d') :
    Programmed B (d.lut 0 * B.blockPagenum + 0) (d.lut 0)
      (loadRegister B erasedPage (nandEccSectorSize * 0) pbuffer (nandEccSectorSize * 1)) d d' := by
  have hlbn : lbnno B 0 nandEccSectorSize 0 = 0 := by simp [lbnno]
  rwa [SectorProgrammed, sectorPage_first, sectorColumn_first, hlbn] at hp

end OneSector
end Apollo.Ftl
