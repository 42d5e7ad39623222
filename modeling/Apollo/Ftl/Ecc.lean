import Apollo.Nand.Ecc
import Apollo.Ftl.Disk

/-!
# ECC words along a run

Every page of a logical block stays coherent as long as each round of a write that
programs part of a page in place finds ECC words it can program its own over.  The copy
into another block always leaves coherent pages, because there the words are loaded over
the old ones in the page register.  What breaks coherence is a sector written with `0xFF`:
its ECC word is programmed although the sector still counts as blank.

## Main definitions

* `EccSound` — the pages of the logical blocks are coherent.
* `RoundFits`, `WriteFits` — the condition on a round, on a call.
* `ecc_coherent` — runs of writes that meet the condition.
-/

namespace Apollo.Ftl
open Lib Nand

variable {B : Board}

/-- Every page of every logical block is coherent. -/
def EccSound (B : Board) (d : Dev) : Prop :=
  ∀ l < d.validBlocknum, ∀ i < B.blockPagenum, Coherent B (d.flash (d.lut l * B.blockPagenum + i))

theorem EccSound.of_agrees {d d' : Dev} (h : EccSound B d) (ha : Agrees d d') : EccSound B d' := by
  rw [EccSound, ha.flash, ha.lut, ha.validBlocknum]
  exact h

/-! ## Copying -/

/-- Whole sectors are to be written from a sector boundary on. -/
structure CopyArgs.Aligned (v : CopyArgs) : Prop where
  colnum : nandEccSectorSize ∣ v.colnum
  numbyte : nandEccSectorSize ∣ v.numbyte

theorem CopyArgs.Aligned.wrlen {v : CopyArgs} (h : v.Aligned) (hv : v.InPage B) :
    nandEccSectorSize ∣ v.wrlen B := by
  rw [hv.wrlen]
  rcases Nat.le_total v.numbyte (B.pageMainsize - v.colnum) with hle | hle
  · rw [Nat.min_eq_left hle]
    exact h.numbyte
  · rw [Nat.min_eq_right hle]
    exact Nat.dvd_sub B.mainsize_sectors h.colnum

theorem CopyArgs.Aligned.argsAt {v : CopyArgs} (h : v.Aligned) (hv : v.InPage B)
    (pageoffset i : ℕ) : (argsAt B pageoffset v i).Aligned := by
  induction i with
  | zero => exact h
  | succ i ih =>
      have hi := hv.argsAt pageoffset i
      rw [Ftl.argsAt, hi.step_eq, ← hi.wrlen]
      split
      · exact ⟨Nat.dvd_zero _, Nat.dvd_sub ih.numbyte (ih.wrlen hi)⟩
      · exact ih

/-- The edit of a page keeps it coherent. -/
theorem coherent_editAt {v : CopyArgs} (hv : v.InPage B) (ha : v.Aligned) (pageoffset i : ℕ)
    {page : Bytes} (h : Coherent B page) : Coherent B (editAt B pageoffset v i page) := by
  have hvi := hv.argsAt pageoffset i
  have hcol := hvi.colnum_lt
  have hai := ha.argsAt hv pageoffset i
  rw [editAt, CopyArgs.edit]
  split
  · obtain ⟨a, hcolnum⟩ := hai.colnum
    obtain ⟨m, hlen⟩ := hai.wrlen hvi
    have hfit : nandEccSectorSize * a + nandEccSectorSize * m ≤ B.pageMainsize := by
      rw [← hcolnum, ← hlen, hvi.wrlen]
      omega
    rw [hcolnum, hlen]
    exact h.loadRegister hfit
  · exact h

/-- A move keeps the logical blocks coherent. -/
theorem Moved.eccSound {d d' : Dev} {l u pageoffset : ℕ} {v : CopyArgs} (h : Sound B d)
    (hecc : EccSound B d) (hl : l < d.validBlocknum) (hv : v.InPage B) (ha : v.Aligned)
    (ht : Target B d.flash (d.lut l) u) (hm : Moved B (d.lut l) u pageoffset v d d') :
    EccSound B d' := by
  have hsu : d.lut l ≠ u := h.ne_of_blank hl ht.blank
  have hlut : d'.lut = Function.update d.lut l u := by rw [hm.lut, h.replaced_eq hl]
  intro l' hl' i hi
  rw [hm.validBlocknum] at hl'
  rw [hlut, hm.flash]
  by_cases hne : l' = l
  · rw [hne, Function.update_self]
    refine (coherent_editAt hv ha pageoffset i (hecc l hl i hi)).congr fun c hc => ?_
    exact moved_dest hsu hi (congrFun (h.erased u ht.lt ht.blank i hi) c) (by omega)
  · rw [Function.update_of_ne hne, moved_other]
    · exact hecc l' hl' i hi
    · rw [B.page_div _ hi]
      exact fun heq => hne (h.injective hl' hl heq)
    · rw [B.page_div _ hi]
      exact h.ne_of_blank hl' ht.blank

/-! ## Programming in place -/

/-- Programming whole sectors into a blank part of a page keeps the logical blocks coherent
exactly when the ECC words fit. -/
theorem Programmed.eccSound_iff {d d' : Dev} {l i a m : ℕ} {pbuffer : Bytes}
    (hecc : EccSound B d) (hl : l < d.validBlocknum) (hi : i < B.blockPagenum)
    (hfit : nandEccSectorSize * a + nandEccSectorSize * m ≤ B.pageMainsize)
    (hblank : PartBlank d.flash (d.lut l * B.blockPagenum + i) (nandEccSectorSize * a)
      (nandEccSectorSize * m))
    (hp : Programmed B (d.lut l * B.blockPagenum + i) (d.lut l)
      (loadRegister B erasedPage (nandEccSectorSize * a) pbuffer (nandEccSectorSize * m)) d d') :
    EccSound B d' ↔ EccFits B (d.flash (d.lut l * B.blockPagenum + i)) a pbuffer m := by
  rw [← (hecc l hl i hi).program_iff hfit hblank]
  -- the used mark is neither data nor ECC
  have hcolumn : ∀ q c, c < B.pageMainsize ∨ B.pageMainsize + 0x10 ≤ c →
      d'.flash q c = andPage d.flash (d.lut l * B.blockPagenum + i)
        (loadRegister B erasedPage (nandEccSectorSize * a) pbuffer (nandEccSectorSize * m)) q c :=
    fun q c hc => hp.apply (by omega) q
  constructor
  · intro hecc'
    have hpage := hecc' l (by rwa [hp.validBlocknum]) i hi
    rw [hp.lut] at hpage
    refine hpage.congr fun c hc => ?_
    rw [hcolumn _ c hc, andPage_same]
  · intro hpage l' hl' j hj
    rw [hp.validBlocknum] at hl'
    rw [hp.lut]
    by_cases hsame : d.lut l' * B.blockPagenum + j = d.lut l * B.blockPagenum + i
    · refine hpage.congr fun c hc => ?_
      rw [hcolumn _ c hc, hsame, andPage_same]
    · refine (hecc l' hl' j hj).congr fun c hc => ?_
      rw [hcolumn _ c hc, andPage_of_ne _ _ hsame]

/-! ## Rounds and calls -/

section Round
variable (B : Board) (fuel sectorno sectorsize sectorcount : ℕ) (v : WriteVars) (d : Dev)

/-- The round at hand programs its sectors into their page. -/
structure TakesPage : Prop where
  left : v.i < sectorcount
  lbn_le : lbnno B sectorno sectorsize v.i ≤ d.validBlocknum
  mapped : d.lut (lbnno B sectorno sectorsize v.i) < B.blockTotalnum
  blank : RoundBlank B sectorno sectorsize sectorcount v d

/-- If the round programs its sectors into their page, the ECC words of those that are not
`0xFF` can be programmed over the words that stand there. -/
def RoundFits : Prop :=
  TakesPage B sectorno sectorsize sectorcount v d →
    EccFits B (d.flash (roundPage B sectorno sectorsize v d))
      (blockoffset B sectorno sectorsize v.i % B.pageMainsize / nandEccSectorSize) v.pbuffer
      (pageSecs B sectorno sectorsize sectorcount v.i * sectorsize / nandEccSectorSize)

variable {B fuel sectorno sectorsize sectorcount v d}

/-- On a chip on which nothing fails, a round keeps the logical blocks coherent exactly when
its ECC words fit. -/
theorem WriteRound.eccSound_iff (hB : B.FaultFree) (hw : WholeSectors B sectorsize) {d' : Dev}
    {out : Flow WriteVars (Option ℕ)} (h : Sound B d) (hecc : EccSound B d)
    (hround : WriteRound B fuel sectorno sectorsize sectorcount v d out d') :
    EccSound B d' ↔ RoundFits B sectorno sectorsize sectorcount v d := by
  have hoff := blockoffset_lt hw.toSectorSize sectorno v.i
  have hpage := offset_page_lt B hoff
  have hcoldvd : nandEccSectorSize ∣ blockoffset B sectorno sectorsize v.i % B.pageMainsize :=
    (Nat.dvd_mod_iff B.mainsize_sectors).mpr (Nat.dvd_mul_left_of_dvd hw.ecc _)
  have hother : ∀ {t : Dev}, EccSound B t → ¬ TakesPage B sectorno sectorsize sectorcount v d →
      (EccSound B t ↔ RoundFits B sectorno sectorsize sectorcount v d) :=
    fun ht hnot => iff_of_true ht fun htakes => absurd htakes hnot
  cases hround with
  | finished hi => exact hother hecc fun ht => hi ht.left
  | outside _ hunmapped ha =>
      refine hother (hecc.of_agrees ha) fun ht => ?_
      have := ht.lbn_le
      have := ht.mapped
      omega
  | unreadable _ hfault _ => exact absurd hB hfault
  | inPlace m hi hl hmap hblank hp =>
      have htakes : TakesPage B sectorno sectorsize sectorcount v d := ⟨hi, hl, hmap, hblank⟩
      obtain ⟨a, hcol⟩ := hcoldvd
      obtain ⟨s, hsecs⟩ : nandEccSectorSize ∣
          pageSecs B sectorno sectorsize sectorcount v.i * sectorsize :=
        Nat.dvd_mul_left_of_dvd hw.ecc _
      have hfit := pageSecs_fits B sectorno sectorsize sectorcount v.i
      have hfour : 4 * (nandEccSectorSize * s / 4) = nandEccSectorSize * s := by
        simp only [nandEccSectorSize]
        omega
      rw [hcol, hsecs] at hfit
      rw [RoundBlank, hcol, hsecs, hfour] at hblank
      rw [roundReg, hcol, hsecs] at hp
      rw [RoundFits, hcol, hsecs, Nat.mul_div_cancel_left _ (by decide),
        Nat.mul_div_cancel_left _ (by decide)]
      have hiff := Programmed.eccSound_iff hecc (h.lt_of_lut_lt hl hmap) hpage hfit hblank hp
      exact hiff.trans ⟨fun hf _ => hf, fun hf => hf htakes⟩
  | @rewrite m d₁ hi hl hmap htried =>
      obtain ⟨ha, hnot⟩ := htried.agrees hB
      have hlv : lbnno B sectorno sectorsize v.i < d₁.validBlocknum := by
        rw [ha.validBlocknum]
        exact h.lt_of_lut_lt hl hmap
      have h₁ := h.of_agrees ha
      have hfits := blockSecs_fits B sectorno sectorsize sectorcount v.i
      have hsize := blockSize_lt B
      have hnum : blockSecs B sectorno sectorsize sectorcount v.i * sectorsize < 2 ^ 32 := by omega
      have hcol := offset_col_lt B (o := blockoffset B sectorno sectorsize v.i)
      refine hother ?_ fun ht => hnot ht.blank
      have hcopy := ftlCopyAndWriteToBlock_faultFree hB fuel
        (blockoffset B sectorno sectorsize v.i % B.pageMainsize) v.pbuffer
        (blockSecs B sectorno sectorsize sectorcount v.i * sectorsize) (h₁.lut_lt _ hlv)
        (h₁.not_blank hlv) hpage
      rw [ha.lut] at hcopy
      rcases hcopy with ⟨-, -, hstate⟩ | ⟨-, -, ha'⟩ | ⟨u, ht, -, hm⟩
      · rw [roundCopy, roundPage, hstate]
        exact hecc.of_agrees ha
      · exact hecc.of_agrees (ha.trans ha')
      · rw [← ha.lut] at ht hm
        have hmoved := hm.eccSound h₁ (hecc.of_agrees ha) hlv ⟨hcol, hnum⟩
          ⟨hcoldvd, Nat.dvd_mul_left_of_dvd hw.ecc _⟩ ht
        rwa [ha.lut] at hmoved

end Round

/-- Every round of a call meets the condition. -/
def WriteFits (B : Board) (fuel : ℕ) (pbuffer : Bytes) (sectorno sectorsize sectorcount : ℕ)
    (d : Dev) : Prop :=
  Prog.Rounds (RoundFits B sectorno sectorsize sectorcount)
    (fun _ => writeRound B fuel sectorno sectorsize sectorcount) fuel 0 ⟨0, pbuffer, 0xFFFFFFFF⟩ d

/-- A call whose rounds meet the condition keeps the logical blocks coherent. -/
theorem eccSound_ftlWriteSectors (hB : B.FaultFree) {sectorsize : ℕ}
    (hw : WholeSectors B sectorsize)
    (fuel : ℕ) (pbuffer : Bytes) (sectorno sectorcount : ℕ) {d : Dev} (h : Sound B d)
    (hecc : EccSound B d) (hfits : WriteFits B fuel pbuffer sectorno sectorsize sectorcount d) :
    EccSound B ((ftlWriteSectors B fuel pbuffer sectorno sectorsize sectorcount).state d) := by
  have hround : ∀ j < fuel, ∀ v t, RoundFits B sectorno sectorsize sectorcount v t →
      (Sound B t ∧ EccSound B t) →
      ((writeRound B fuel sectorno sectorsize sectorcount v).val t).Holds
        (fun _ => Sound B ((writeRound B fuel sectorno sectorsize sectorcount v).state t) ∧
          EccSound B ((writeRound B fuel sectorno sectorsize sectorcount v).state t))
        (fun _ => EccSound B
          ((writeRound B fuel sectorno sectorsize sectorcount v).state t)) := by
    intro j _ v t hfit ht
    have hcases := writeRound_cases fuel sectorno sectorsize sectorcount v t hB.steady
    have hsound := hcases.sound hB.steady hw.toSectorSize ht.1
    have hcoh := (hcases.eccSound_iff hB hw ht.1 ht.2).mpr hfit
    cases (writeRound B fuel sectorno sectorsize sectorcount v).val t with
    | next w => exact ⟨hsound, hcoh⟩
    | exit c => exact hcoh
  have hloop := Prog.loop_inv_rounds (I := fun _ _ t => Sound B t ∧ EccSound B t)
    (Q := fun _ t => EccSound B t) hround (Nat.zero_add _) hfits ⟨h, hecc⟩
  simp only [ftlWriteSectors, Prog.state_bind]
  revert hloop
  cases (Prog.loop (fun _ => writeRound B fuel sectorno sectorsize sectorcount) fuel 0
      ⟨0, pbuffer, 0xFFFFFFFF⟩).val d with
  | next v => exact fun hx => hx.2
  | exit c => exact fun hx => hx

/-! ## Runs -/

/-- A call of `ftl_write_sectors` with sectors of 512 bytes that returned and whose ECC words
fit. -/
inductive FittingWrite (B : Board) (d : Dev) : Dev → Prop where
  | write (fuel : ℕ) (pbuffer : Bytes) (sectorno sectorcount c : ℕ)
      (fits : WriteFits B fuel pbuffer sectorno nandEccSectorSize sectorcount d)
      (returned :
        (ftlWriteSectors B fuel pbuffer sectorno nandEccSectorSize sectorcount).val d = some c) :
      FittingWrite B d
        ((ftlWriteSectors B fuel pbuffer sectorno nandEccSectorSize sectorcount).state d)

/-- After a format the logical blocks are coherent, because they are blank. -/
theorem Formatted.eccSound {d : Dev} (h : Formatted B d) : EccSound B d :=
  fun l hl i hi => .of_blank fun c hc => h.clean l hl i hi c (by omega)

theorem FittingWrite.eccSound (hB : B.FaultFree) {d d' : Dev} (h : Sound B d ∧ EccSound B d)
    (hc : FittingWrite B d d') : Sound B d' ∧ EccSound B d' := by
  cases hc with
  | write fuel pbuffer sectorno sectorcount c fits returned =>
      have hw := wholeSectors_512 B
      exact ⟨sound_ftlWriteSectors hB.steady hw.toSectorSize fuel pbuffer sectorno sectorcount h.1,
        eccSound_ftlWriteSectors hB hw fuel pbuffer sectorno sectorcount h.1 h.2 fits⟩

/-- Along a run of writes whose ECC words fit, from a successful format of a chip with
first-page marks: the ECC word of every sector of a logical block that is not blank is that
of its data, and a read that picks up no bit error reports nothing and delivers the data. -/
theorem ecc_coherent (hB : B.FaultFree) {d₀ d : Dev} (hmarks : FirstPageMarks B d₀.flash)
    (hformat : (ftlFormat B).val d₀ = 0)
    (hrun : Relation.ReflTransGen (FittingWrite B) ((ftlFormat B).state d₀) d) :
    ∀ l < d.validBlocknum, ∀ i < B.blockPagenum, ∀ k < B.pageMainsize / nandEccSectorSize,
      let pagenum := d.lut l * B.blockPagenum + i
      ¬ SectorBlank (d.flash pagenum) k →
      storedEcc B (d.flash pagenum) k = hdEcc B (d.flash pagenum) k ∧
      ∀ (d' : Dev) (pbuffer : Bytes), d'.flash = d.flash →
        (B.reply .read (d'.ticks .read)).eccFlip 0 = 0 →
        (nandReadpage B pagenum (nandEccSectorSize * k) pbuffer nandEccSectorSize).val d' =
          (0, overlay pbuffer 0 (shift (d.flash pagenum) (nandEccSectorSize * k))
            nandEccSectorSize) := by
  have hinv : Sound B d ∧ EccSound B d := by
    induction hrun with
    | refl =>
        have hf := ftlFormat_spec hB.steady hmarks hformat
        exact ⟨hf.sound, hf.eccSound⟩
    | tail _ hc ih => exact hc.eccSound hB ih
  intro l hl i hi k hk pagenum hnot
  have hword := hinv.2 l hl i hi k hk hnot
  refine ⟨hword, fun d' pbuffer hd' hflip => ?_⟩
  rw [← hd']
  refine nandReadpage_clean hB _ _ _ _ _ fun j hj => ?_
  rw [Nat.div_self (by decide), Nat.lt_one_iff] at hj
  have hcol : eccColumn B (nandEccSectorSize * k) = B.pageMainsize + 0x10 + 4 * k := by
    rw [eccColumn, Nat.mul_div_cancel_left _ (by decide), Nat.mul_comm k]
  rw [hj, hflip, hd', hcol]
  have hdata : hdEcc B (shift (d.flash pagenum) (nandEccSectorSize * k)) 0 =
      hdEcc B (d.flash pagenum) k :=
    hdEcc_congr fun t _ => by rw [shift_apply, Nat.mul_zero, Nat.zero_add]
  rw [hdata, ← hword, storedEcc]
  simp only [word, shift_apply, Nat.add_assoc]
  exact Nat.xor_zero _

/-- The condition on a write of one sector over a blank one is the condition on its word. -/
theorem writeFits_blank (hB : B.FaultFree) (fuel : ℕ) {pbuffer : Bytes} {sectorno : ℕ} {d : Dev}
    (h : Placed B d.flash d.lut d.validBlocknum)
    (hr : InRange B sectorno nandEccSectorSize 1 d)
    (hblank : PartBlank d.flash (sectorPage B sectorno nandEccSectorSize d)
      (sectorColumn B sectorno nandEccSectorSize) nandEccSectorSize)
    (hfits : EccFits B (d.flash (sectorPage B sectorno nandEccSectorSize d))
      (sectorColumn B sectorno nandEccSectorSize / nandEccSectorSize) pbuffer 1) :
    WriteFits B (fuel + 2) pbuffer sectorno nandEccSectorSize 1 d := by
  obtain ⟨hsecs, w, hi, hval, -⟩ := writeRound_blank hB (fuel + 2) (wholeSectors_512 B) pbuffer h hr
    hblank 0xFFFFFFFF
  refine ⟨fun _ => ?_, ?_⟩
  · rw [hsecs]
    exact hfits
  · rw [hval]
    refine ⟨fun htakes => ?_, ?_⟩
    · have := htakes.left
      omega
    · simp only [writeRound, if_neg (show ¬ w.i < 1 by omega)]
      trivial

/-! ## The first sector after a format -/

section First
variable {d : Dev} {pbuffer : Bytes}

theorem mainsize_div_pos (B : Board) : 0 < B.pageMainsize / nandEccSectorSize :=
  Nat.div_pos (Nat.le_of_dvd B.mainsize_pos B.mainsize_sectors) (by decide)

/-- A sector that is not blank is written after a format: its word fits. -/
theorem fittingWrite_first (hB : B.FaultFree) (pbuffer : Bytes) (h : Formatted B d)
    (hpos : 0 < d.validBlocknum) (hdata : ¬ SectorBlank pbuffer 0) :
    let d' := (ftlWriteSectors B 2 pbuffer 0 nandEccSectorSize 1).state d
    FittingWrite B d d' ∧ 0 < d'.validBlocknum ∧
      ¬ SectorBlank (d'.flash (d'.lut 0 * B.blockPagenum + 0)) 0 := by
  have hw := wholeSectors_512 B
  have hr := inRange_first hw hpos
  have hblank := h.partBlank_first hw hpos
  obtain ⟨hval, hp⟩ := ftlWriteSectors_blank hB 0 hw pbuffer h.sound.toPlaced hr hblank
  have hk := mainsize_div_pos B
  refine ⟨.write 2 pbuffer 0 1 0 (writeFits_blank hB 0 h.sound.toPlaced hr hblank ?_) hval, ?_,
    fun hall => hdata fun t ht => ?_⟩
  · intro k _ _ j hj
    rw [sectorPage_first, ← Nat.add_zero (d.lut 0 * _),
      h.clean 0 hpos 0 B.pagenum_pos _ (by omega), ff_and]
  · rwa [hp.validBlocknum]
  · have hle : nandEccSectorSize ≤ B.pageMainsize := Nat.le_of_dvd B.mainsize_pos B.mainsize_sectors
    have hff := h.clean 0 hpos 0 B.pagenum_pos (nandEccSectorSize * 0 + t) (by omega)
    have hbyte := hall t ht
    rwa [hp.lut, hp.first.apply (by omega), andPage_apply, hff, ff_and, loadRegister_main hk ht,
      if_pos (by omega)] at hbyte

/-- The first sector is written with `0xFF` and then with data whose word needs a bit that the
word of the `0xFF` does not have: both writes succeed, and the sector is left incoherent. -/
theorem not_eccSound_of_blank_write (hB : B.FaultFree) (pbuffer : Bytes) (h : Formatted B d)
    (hpos : 0 < d.validBlocknum) (hdata : ¬ SectorBlank pbuffer 0) {j : ℕ} (hj : j < 4)
    (hbit : wordByte (hdEcc B (fun _ => 0xFF) 0) j &&& wordByte (hdEcc B pbuffer 0) j ≠
      wordByte (hdEcc B pbuffer 0) j) :
    let first := ftlWriteSectors B 2 (fun _ => 0xFF) 0 nandEccSectorSize 1
    let second := ftlWriteSectors B 2 pbuffer 0 nandEccSectorSize 1
    first.val d = some 0 ∧ second.val (first.state d) = some 0 ∧
      ¬ EccSound B (second.state (first.state d)) := by
  intro first second
  have hw := wholeSectors_512 B
  have hk := mainsize_div_pos B
  have hle : nandEccSectorSize * 0 + nandEccSectorSize * 1 ≤ B.pageMainsize := by
    rw [Nat.mul_zero, Nat.zero_add, Nat.mul_one]
    exact Nat.le_of_dvd B.mainsize_pos B.mainsize_sectors
  have hclean : ∀ c, c < B.pageMainsize ∨ B.pageMainsize + 0x10 ≤ c →
      d.flash (d.lut 0 * B.blockPagenum + 0) c = 0xFF :=
    fun c hc => h.clean 0 hpos 0 B.pagenum_pos c (by omega)
  obtain ⟨hval₁, hprog₁⟩ := h.write_first hB hw hpos fun _ => 0xFF
  have hp₁ := hprog₁.first
  set d₁ := first.state d with hd₁
  have hpos₁ : 0 < d₁.validBlocknum := by rwa [hprog₁.validBlocknum]
  have hsound₁ : Sound B d₁ := sound_ftlWriteSectors hB.steady hw.toSectorSize 2 _ 0 1 h.sound
  have hecc₁ : EccSound B d₁ :=
    (Programmed.eccSound_iff h.eccSound hpos B.pagenum_pos hle
      (fun t _ => hclean _ (by omega)) hp₁).mpr fun _ _ hnot => absurd (fun _ _ => rfl) hnot
  -- the sector still counts as blank, and its word is that of the `0xFF`
  have hmain : ∀ t < nandEccSectorSize,
      d₁.flash (d₁.lut 0 * B.blockPagenum + 0) (nandEccSectorSize * 0 + t) = 0xFF := by
    intro t ht
    rw [hp₁.lut, hp₁.apply (by omega), andPage_apply, hclean _ (by omega), ff_and,
      loadRegister_main hk ht, if_pos (by omega)]
  have hword :
      d₁.flash (d₁.lut 0 * B.blockPagenum + 0) (B.pageMainsize + 0x10 + (4 * (0 + 0) + j)) =
      wordByte (hdEcc B (fun _ => 0xFF) 0) j := by
    rw [hp₁.lut, hp₁.apply (by omega), andPage_apply, hclean _ (by omega), ff_and,
      loadRegister_ecc hle hj, if_pos (by omega)]
  obtain ⟨hval₂, hprog₂⟩ := ftlWriteSectors_blank hB 0 hw pbuffer hsound₁.toPlaced
    (inRange_first hw hpos₁) (fun t ht => by
      rw [sectorPage_first, sectorColumn_first]
      exact hmain t ht)
  refine ⟨hval₁, hval₂, fun hecc₂ => ?_⟩
  have hfits := (Programmed.eccSound_iff hecc₁ hpos₁ B.pagenum_pos hle
    (fun t ht => hmain t (by omega)) hprog₂.first).mp hecc₂ 0 (by omega) hdata j hj
  rw [hword] at hfits
  exact hbit hfits

end First

/-! ## A unit under which words do not fit -/

/-- An ECC unit that computes 0 of bytes that begin with `0xFF`, as a parity code does of
bytes that are all `0xFF`, and all ones of the others. -/
def zeroOfBlank (data : Fin nandEccSectorSize → UInt8) : UInt32 :=
  if data 0 = 0xFF then 0 else 0xFFFFFFFF

/-- The 512 MB part with this unit, on which nothing fails. -/
def eccBoard : Board := .ideal part512 zeroOfBlank

theorem eccBoard_faultFree : eccBoard.FaultFree := Board.ideal_faultFree _ _

theorem eccBoard_total : 100 ≤ eccBoard.blockTotalnum * 93 / 100 := by decide

/-- Data other than `0xFF` written after the format meets the condition of `ecc_coherent`. -/
theorem ecc_coherent_first :
    let d := (ftlWriteSectors eccBoard 2 (fun _ => 0) 0 nandEccSectorSize 1).state
      ((ftlFormat eccBoard).state Dev.blank)
    storedEcc eccBoard (d.flash (d.lut 0 * eccBoard.blockPagenum + 0)) 0 =
      hdEcc eccBoard (d.flash (d.lut 0 * eccBoard.blockPagenum + 0)) 0 := by
  obtain ⟨hval, hformatted, hvalid, -⟩ :=
    ftlFormat_blank eccBoard_faultFree.steady eccBoard_faultFree.erases
    eccBoard_total
  have hpos := lt_of_lt_of_le (by decide : 0 < 100) (hvalid ▸ eccBoard_total)
  obtain ⟨hwrite, hpos', hnot⟩ := fittingWrite_first eccBoard_faultFree (fun _ => 0)
    hformatted hpos fun hall => absurd (hall 0 (by decide)) (by decide)
  exact (ecc_coherent eccBoard_faultFree (fun _ _ _ => rfl) hval (.tail .refl hwrite) 0 hpos' 0
    eccBoard.pagenum_pos 0 (mainsize_div_pos _) hnot).1

/-- A sector written with `0xFF` and then with zeros is left with a word that is not that of
its data. -/
theorem ecc_not_coherent :
    let d₁ := (ftlFormat eccBoard).state Dev.blank
    let first := ftlWriteSectors eccBoard 2 (fun _ => 0xFF) 0 nandEccSectorSize 1
    let second := ftlWriteSectors eccBoard 2 (fun _ => 0) 0 nandEccSectorSize 1
    let d₃ := second.state (first.state d₁)
    eccBoard.FaultFree ∧ FirstPageMarks eccBoard Dev.blank.flash ∧
      (ftlFormat eccBoard).val Dev.blank = 0 ∧ first.val d₁ = some 0 ∧
      second.val (first.state d₁) = some 0 ∧
      ¬ ∀ l < d₃.validBlocknum, ∀ i < eccBoard.blockPagenum,
        ∀ k < eccBoard.pageMainsize / nandEccSectorSize,
          ¬ SectorBlank (d₃.flash (d₃.lut l * eccBoard.blockPagenum + i)) k →
          storedEcc eccBoard (d₃.flash (d₃.lut l * eccBoard.blockPagenum + i)) k =
            hdEcc eccBoard (d₃.flash (d₃.lut l * eccBoard.blockPagenum + i)) k := by
  obtain ⟨hval, hformatted, hvalid, -⟩ :=
    ftlFormat_blank eccBoard_faultFree.steady eccBoard_faultFree.erases
    eccBoard_total
  have hpos := lt_of_lt_of_le (by decide : 0 < 100) (hvalid ▸ eccBoard_total)
  obtain ⟨hfirst, hsecond, hnot⟩ := not_eccSound_of_blank_write eccBoard_faultFree
    (fun _ => 0) hformatted hpos (j := 0) (fun hall => absurd (hall 0 (by decide)) (by decide))
    (by decide) (by decide)
  exact ⟨eccBoard_faultFree, fun _ _ _ => rfl, hval, hfirst, hsecond, hnot⟩

end Apollo.Ftl
