import Apollo.Ftl.Repair
import Apollo.Nand.ReadCode

/-!
# What a read relocates

A round of `ftl_read_sectors` relocates its range when two reads of it report a corrected
bit.  The code of a read is that of the last sector whose words differ, so a range whose
last such sector is corrected is moved whatever the sectors before it are: an uncorrectable
one gets fresh ECC words.

## Main definitions

* `MovesCorrectable` — the round relocates no uncorrectable sector.
* `EndsCorrectable`, `movesCorrectable_iff` — exactly when it does not.
* `reads_report_worst_iff` — the codes of reads, and what calls relocate.
-/

namespace Apollo.Ftl
open Lib Nand

variable {B : Board}

/-! ## A round -/

/-- A page reports twice when the reads end on a sector that is corrected. -/
theorem reportsTwice_iff {page colnum n : ℕ} {d : Dev} (hn : nandEccSectorSize ∣ n)
    (pbuffer : Bytes) :
    ReportsTwice B page colnum pbuffer n d ↔ ReadEndsOn B page colnum n d nstaEcc1biterr ∧
      ReadEndsOn B page colnum n (d.reads 1) nstaEcc1biterr := by
  rw [← nandReadpage_code_eq page colnum d hn (Or.inl rfl) pbuffer,
    ← nandReadpage_code_eq page colnum (d.reads 1) hn (Or.inl rfl)
      ((nandReadpage B page colnum pbuffer n).val d).2]
  constructor
  · intro h
    exact ⟨h.first, h.second⟩
  · rintro ⟨hfirst, hsecond⟩
    exact ⟨hfirst, hsecond⟩

section Round
variable (B : Board) (sectorno sectorsize sectorcount : ℕ) (v : ReadVars) (d : Dev)

/-- No sector of the range that the round reads is uncorrectable, in either of two reads. -/
def RangeCorrectable : Prop :=
  ∀ d' ∈ [d, d.reads 1], ReadsCorrectable B (readPage B sectorno sectorsize v.i d)
    (blockoffset B sectorno sectorsize v.i % B.pageMainsize)
    (readSecs B sectorno sectorsize sectorcount v.i * sectorsize) d'

/-- Both reads of the range that the round reads end on a sector that is corrected. -/
def RangeEndsCorrected : Prop :=
  ∀ d' ∈ [d, d.reads 1], ReadEndsOn B (readPage B sectorno sectorsize v.i d)
    (blockoffset B sectorno sectorsize v.i % B.pageMainsize)
    (readSecs B sectorno sectorsize sectorcount v.i * sectorsize) d' nstaEcc1biterr

/-- If the round relocates its range, none of its sectors is uncorrectable. -/
def MovesCorrectable : Prop :=
  MovesPage B sectorno sectorsize sectorcount v d →
    RangeCorrectable B sectorno sectorsize sectorcount v d

/-- If the last sector of its range whose words differ is corrected, in two reads, none is
uncorrectable. -/
def EndsCorrectable : Prop :=
  v.i < sectorcount → lbnno B sectorno sectorsize v.i ≤ d.validBlocknum →
    d.lut (lbnno B sectorno sectorsize v.i) < B.blockTotalnum →
    RangeEndsCorrected B sectorno sectorsize sectorcount v d →
    RangeCorrectable B sectorno sectorsize sectorcount v d

variable {sectorsize}

theorem movesCorrectable_iff (hw : WholeSectors B sectorsize) :
    MovesCorrectable B sectorno sectorsize sectorcount v d ↔
      EndsCorrectable B sectorno sectorsize sectorcount v d := by
  have htwice : ReportsTwice B (readPage B sectorno sectorsize v.i d)
      (blockoffset B sectorno sectorsize v.i % B.pageMainsize) (shift v.pbuffer v.offset)
      (readSecs B sectorno sectorsize sectorcount v.i * sectorsize) d ↔
      RangeEndsCorrected B sectorno sectorsize sectorcount v d := by
    rw [reportsTwice_iff (Nat.dvd_mul_left_of_dvd hw.ecc _), RangeEndsCorrected]
    simp only [List.forall_mem_cons, List.not_mem_nil, false_implies, implies_true, and_true]
  constructor
  · intro h hi hl hmap hends
    exact h ⟨hi, hl, hmap, htwice.mpr hends⟩
  · intro h hmoves
    exact h hmoves.left hmoves.lbn_le hmoves.mapped (htwice.mp hmoves.twice)

end Round

/-! ## Reads and calls -/

/-- A read of whole sectors reports its worst sector just when none of them is uncorrectable, or
the read ends without an error on one that is.  A call relocates no uncorrectable sector just
when, in every round of it, none is uncorrectable among sectors of which the last one whose
words differ is corrected, in two reads. -/
theorem reads_report_worst_iff (B : Board) :
    (∀ (pagenum colnum n : ℕ) (pbuffer : Bytes) (d : Dev), nandEccSectorSize ∣ n →
      (ReportsWorst ((nandReadpage B pagenum colnum pbuffer n).val d).1
          (eccRdbuf B pagenum colnum d) (eccHdbuf B pagenum colnum d) (n / nandEccSectorSize) ↔
        ReadsCorrectable B pagenum colnum n d ∨
          ReadEndsOn B pagenum colnum n d nstaEcc2biterr)) ∧
    ∀ (fuel sectorno sectorsize sectorcount : ℕ) (pbuffer : Bytes) (d : Dev),
      WholeSectors B sectorsize →
      (Prog.Rounds (MovesCorrectable B sectorno sectorsize sectorcount)
          (fun _ => readRound B fuel sectorno sectorsize sectorcount) fuel 0 ⟨0, pbuffer, 0⟩ d ↔
        Prog.Rounds (EndsCorrectable B sectorno sectorsize sectorcount)
          (fun _ => readRound B fuel sectorno sectorsize sectorcount) fuel 0
          ⟨0, pbuffer, 0⟩ d) := by
  refine ⟨?_, ?_⟩
  · intro pagenum colnum n pbuffer d hn
    exact reportsWorst_iff hn
  · intro fuel sectorno sectorsize sectorcount pbuffer d hw
    have hround : MovesCorrectable B sectorno sectorsize sectorcount =
        EndsCorrectable B sectorno sectorsize sectorcount := by
      funext v t
      exact propext (movesCorrectable_iff B sectorno sectorcount v t hw)
    rw [hround]

/-- A read of a blank page on an ideal chip. -/
theorem reads_report_worst_blank :
    let B := Board.ideal part512 hammingEcc
    (ReportsWorst ((nandReadpage B 0 0 erasedPage nandEccSectorSize).val Dev.blank).1
        (eccRdbuf B 0 0 Dev.blank) (eccHdbuf B 0 0 Dev.blank)
        (nandEccSectorSize / nandEccSectorSize) ↔
      ReadsCorrectable B 0 0 nandEccSectorSize Dev.blank ∨
        ReadEndsOn B 0 0 nandEccSectorSize Dev.blank nstaEcc2biterr) ∧
    (Prog.Rounds (MovesCorrectable B 0 nandEccSectorSize 1)
        (fun _ => readRound B 1 0 nandEccSectorSize 1) 1 0 ⟨0, erasedPage, 0⟩ Dev.blank ↔
      Prog.Rounds (EndsCorrectable B 0 nandEccSectorSize 1)
        (fun _ => readRound B 1 0 nandEccSectorSize 1) 1 0 ⟨0, erasedPage, 0⟩ Dev.blank) :=
  ⟨(reads_report_worst_iff _).1 0 0 _ erasedPage Dev.blank (Nat.dvd_refl _),
    (reads_report_worst_iff _).2 1 0 _ 1 erasedPage Dev.blank (wholeSectors_512 _)⟩

/-! ## Two bits in the first sector, one in the second -/

/-- A disk all of whose pages have the same three wrong bits. -/
def wornDev : Dev :=
  { Dev.blank with flash := fun _ => wornPage, validBlocknum := 100 }

section Worn
variable (G : Geometry)

theorem readDone_ideal (hwEcc : (Fin nandEccSectorSize → UInt8) → UInt32) (d : Dev) :
    ReadDone (.ideal G hwEcc) d :=
  ⟨Reply.sound_answers, (nandWaitForReady_eq_ready _).mpr
    ((waitCode_eq_zero _).mp Reply.sound_waitCode)⟩

/-- A read of the first two sectors ends on the second, which is corrected. -/
theorem worn_endsOn {d : Dev} {pagenum : ℕ} (hpage : d.flash pagenum = wornPage) :
    ReadEndsOn (.ideal G hammingEcc) pagenum 0 (2 * nandEccSectorSize) d nstaEcc1biterr := by
  obtain ⟨hrd, -, hhd⟩ := wornPage_words (G := G) hpage
  refine ⟨readDone_ideal G _ d, 1, Nat.one_lt_two, ?_, fun j h₁ h₂ => ?_⟩
  · rw [hrd 1 Nat.one_lt_two, hhd]
    exact sectorCode_single
  · rw [Nat.mul_div_cancel _ (by decide)] at h₂
    omega

/-- The first of them is uncorrectable. -/
theorem worn_uncorrectable {d : Dev} {pagenum : ℕ} (hpage : d.flash pagenum = wornPage) :
    ¬ ReadsCorrectable (.ideal G hammingEcc) pagenum 0 (2 * nandEccSectorSize) d := by
  obtain ⟨hrd, hhd, -⟩ := wornPage_words (G := G) hpage
  intro hnone
  refine hnone 0 Nat.two_pos ?_
  rw [hrd 0 Nat.two_pos, hhd]
  exact sectorCode_double

theorem worn_not_reportsWorst (pbuffer : Bytes) :
    let B := Board.ideal G hammingEcc
    ¬ ReportsWorst ((nandReadpage B 0 0 pbuffer (2 * nandEccSectorSize)).val wornDev).1
      (eccRdbuf B 0 0 wornDev) (eccHdbuf B 0 0 wornDev)
      (2 * nandEccSectorSize / nandEccSectorSize) := by
  intro B h
  have hcode := (nandReadpage_code_eq 0 0 wornDev (Nat.dvd_mul_left _ 2) (Or.inl rfl) pbuffer).mpr
    (worn_endsOn G (show wornDev.flash 0 = wornPage from rfl))
  exact worn_uncorrectable G (d := wornDev) rfl (h.corrected hcode).2

/-- A read of the first two sectors of the disk relocates them. -/
theorem worn_not_movesCorrectable (hpage : 2 * nandEccSectorSize ≤ G.pageMainsize)
    (pbuffer : Bytes) :
    ¬ MovesCorrectable (.ideal G hammingEcc) 0 nandEccSectorSize 2 ⟨0, pbuffer, 0⟩ wornDev := by
  set B := Board.ideal G hammingEcc with hB
  have hlbn : lbnno B 0 nandEccSectorSize 0 = 0 := by simp [lbnno]
  have hoff : blockoffset B 0 nandEccSectorSize 0 % B.pageMainsize = 0 := by simp [blockoffset]
  have hsecs : readSecs B 0 nandEccSectorSize 2 0 = 2 := by
    have hroom : 2 ≤ B.pageMainsize / nandEccSectorSize :=
      (Nat.le_div_iff_mul_le (by decide)).mpr hpage
    rw [readSecs, hoff, Nat.sub_zero]
    omega
  rw [movesCorrectable_iff B 0 2 _ _ (wholeSectors_512 B), EndsCorrectable, hlbn,
    RangeEndsCorrected,
    RangeCorrectable, hoff, hsecs]
  intro h
  refine worn_uncorrectable G (d := wornDev) rfl (h Nat.two_pos (Nat.zero_le _) B.total_pos ?_ _
    (List.mem_cons_self))
  intro d' hd'
  have hflash : d'.flash = fun _ => wornPage := by
    simp only [List.mem_cons, List.not_mem_nil, or_false] at hd'
    rcases hd' with rfl | rfl
    · rfl
    · rfl
  exact worn_endsOn G (congrFun hflash _)

end Worn

/-- On the 512 MB part: two wrong bits in the first sector of a page and one in the second.  A
read of both reports a corrected bit, and relocates them. -/
theorem read_hides_uncorrectable :
    let B := Board.ideal part512 hammingEcc
    ¬ ReportsWorst ((nandReadpage B 0 0 erasedPage (2 * nandEccSectorSize)).val wornDev).1
      (eccRdbuf B 0 0 wornDev) (eccHdbuf B 0 0 wornDev)
      (2 * nandEccSectorSize / nandEccSectorSize) ∧
    ¬ Prog.Rounds (MovesCorrectable B 0 nandEccSectorSize 2)
      (fun _ => readRound B 1 0 nandEccSectorSize 2) 1 0 ⟨0, erasedPage, 0⟩ wornDev := by
  intro B
  refine ⟨worn_not_reportsWorst part512 erasedPage, fun hrounds => ?_⟩
  exact worn_not_movesCorrectable part512 (by decide) erasedPage hrounds.1

end Apollo.Ftl
