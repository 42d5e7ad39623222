import Apollo.Ftl.Deliver
import Apollo.Ftl.Ecc
import Apollo.Ftl.Progress
import Apollo.Ftl.Retry

/-!
# What a sector write stores

`ftl_write_sectors` takes a program for good when the chip is ready again, writes its ECC words
over those that stand in the page, and goes on after a failed copy with what is left of the
buffer.  Where programs and erases take effect, a call that returns 0 has stored its sectors
exactly when each round stores those it writes: in its page, or in the pages that the passes
have left for the block.

## Main definitions

* `Repaged` — one logical block has new pages; `Repaged.trans`.
* `RoundStores` — the condition on a round.
* `writeRound_stores` — what a round that goes on has stored.
* `ftlWriteSectors_stores_iff` — when a call that returns 0 has stored its sectors.
-/

namespace Apollo.Ftl
open Lib Nand

variable {B : Board}

/-! ## Pages of logical blocks -/

/-- Page `i` of logical block `l`. -/
def logicalPage (B : Board) (d : Dev) (l i : ℕ) : Bytes := d.flash (d.lut l * B.blockPagenum + i)

/-- Logical block `l` has the pages `pages`, but for the used mark, and every other block has the
pages that it had. -/
structure Repaged (B : Board) (l : ℕ) (pages : ℕ → Bytes) (d d' : Dev) : Prop where
  sound : Sound B d'
  validBlocknum : d'.validBlocknum = d.validBlocknum
  page : ∀ i < B.blockPagenum, ∀ c, c ≠ B.pageMainsize + 1 → logicalPage B d' l i c = pages i c
  other : ∀ l' < d.validBlocknum, l' ≠ l → ∀ i < B.blockPagenum,
    logicalPage B d' l' i = logicalPage B d l' i

section Repaged
variable {d d' d'' : Dev} {l : ℕ} {pages pages' : ℕ → Bytes}

theorem Repaged.of_agrees (h : Sound B d) (ha : Agrees d d') :
    Repaged B l (logicalPage B d l) d d' where
  sound := h.of_agrees ha
  validBlocknum := ha.validBlocknum
  page := fun i _ c _ => by rw [logicalPage, logicalPage, ha.flash, ha.lut]
  other := fun l' _ _ i _ => by rw [logicalPage, logicalPage, ha.flash, ha.lut]

theorem Repaged.trans (h : Repaged B l pages d d') (h' : Repaged B l pages' d' d'') :
    Repaged B l pages' d d'' where
  sound := h'.sound
  validBlocknum := h'.validBlocknum.trans h.validBlocknum
  page := h'.page
  other := fun l' hl' hne i hi =>
    (h'.other l' (by rwa [h.validBlocknum]) hne i hi).trans (h.other l' hl' hne i hi)

/-- Programming a page of a block. -/
theorem Programmed.repaged (h : Sound B d) (hl : l < d.validBlocknum) {i : ℕ}
    (hi : i < B.blockPagenum) {reg : Bytes}
    (hreg : ∀ c, B.pageMainsize ≤ c → c < B.pageMainsize + 4 → reg c = 0xFF)
    (hp : Programmed B (d.lut l * B.blockPagenum + i) (d.lut l) reg d d') :
    Repaged B l (fun j => andPage d.flash (d.lut l * B.blockPagenum + i) reg
      (d.lut l * B.blockPagenum + j)) d d' where
  sound := hp.sound h hl hi hreg
  validBlocknum := hp.validBlocknum
  page := fun j _ c hc => by rw [logicalPage, hp.lut, hp.apply hc]
  other := by
    intro l' hl' hne j hj
    rw [logicalPage, logicalPage, hp.lut]
    refine hp.other hi ?_
    rw [B.page_div _ hj]
    exact fun heq => hne (h.injective hl' hl heq)

/-- A rewrite that succeeds leaves each page as its edit does, with what the failed passes have
left of the arguments. -/
theorem Outcome.repaged {pageoffset : ℕ} {v : CopyArgs} (h : Sound B d) (hl : l < d.validBlocknum)
    (hv : v.InPage B) (ho : Outcome B (d.lut l) pageoffset v d 0 d') :
    ∃ failed, failedPages B (d.ticks .copyback) (unusedBlocks B d.flash (d.lut l % 2)).card =
        some failed ∧
      Repaged B l (fun i => editAt B pageoffset (argsAfter B pageoffset failed v) i
        (logicalPage B d l i)) d d' := by
  have hsound := ho.sound hl hv
  cases ho with
  | @done d₁ d' u failed hs hfailed ht hm =>
      have hl₁ : l < d₁.validBlocknum := by rwa [hs.validBlocknum]
      have hlut : d.lut l = d₁.lut l := by rw [hs.lut]
      have hentry : d'.lut = Function.update d.lut l u := by
        rw [hm.lut, hlut, hs.sound.replaced_eq hl₁ u, hs.lut]
      have hne : d.lut l ≠ u := hlut ▸ hs.sound.ne_of_blank hl₁ ht.blank
      refine ⟨failed, hfailed, hsound.1, hsound.2, fun i hi c hc => ?_, fun l' hl' hne' i hi => ?_⟩
      · rw [logicalPage, hentry, Function.update_self, hm.flash,
          moved_dest hne hi (congrFun (hs.sound.erased u ht.lt ht.blank i hi) c) hc,
          hs.flash _ (h.not_blank hl) i hi]
        rfl
      · have hblank : d.lut l' ≠ u := by
          have hne₁ := hs.sound.ne_of_blank (by rwa [hs.validBlocknum]) ht.blank (l := l')
          rwa [hs.lut] at hne₁
        rw [logicalPage, hentry, Function.update_of_ne hne', hm.flash, moved_other]
        · exact hs.flash _ (h.not_blank hl') i hi
        · rw [B.page_div _ hi]
          exact fun heq => hne' (h.injective hl' hl heq)
        · rwa [B.page_div _ hi]

end Repaged

/-- The edits begin at the first page that is to be written. -/
theorem editAt_before {pageoffset i : ℕ} {v : CopyArgs} (hi : i < pageoffset) :
    editAt B pageoffset v i = id := by
  rw [editAt, CopyArgs.edit, if_neg fun h => Nat.not_le.mpr hi h.1]

/-! ## Sectors of the disk -/

section Sector
variable {d d' : Dev} {l s : ℕ} {data : Bytes} {pages : ℕ → Bytes}

/-- A sector is on the disk when its block is. -/
theorem lt_diskSectors_iff :
    s < diskSectors B nandEccSectorSize d ↔
      s * nandEccSectorSize / blockSize B < d.validBlocknum := by
  obtain ⟨q, hq⟩ : nandEccSectorSize ∣ blockSize B :=
    Nat.dvd_mul_left_of_dvd B.mainsize_sectors _
  have hsectors : diskSectors B nandEccSectorSize d = d.validBlocknum * q := by
    have hsize : B.blockPagenum * B.pageMainsize = nandEccSectorSize * q := hq
    rw [diskSectors, Nat.mul_assoc, hsize, Nat.mul_left_comm, Nat.mul_div_cancel_left _ (by decide)]
  have hpos := blockSize_pos B
  rw [hq] at hpos ⊢
  have hqpos : 0 < q := Nat.pos_of_mul_pos_left hpos
  rw [hsectors, Nat.mul_comm s, Nat.mul_div_mul_left _ _ (by decide), Nat.div_lt_iff_lt_mul hqpos]

theorem diskIndex_lt (B : Board) (s : ℕ) : diskIndex B s < B.pageMainsize / nandEccSectorSize := by
  have hcol := offset_col_lt B (o := s * nandEccSectorSize % blockSize B)
  obtain ⟨q, hq⟩ := B.mainsize_sectors
  rw [hq] at hcol ⊢
  rw [diskIndex, hq, Nat.mul_div_cancel_left _ (by decide)]
  exact Nat.div_lt_of_lt_mul hcol

/-- The sectors of the block are those of its new pages. -/
theorem Repaged.diskHolds_iff (h : Repaged B l pages d d') (hl : l < d.validBlocknum)
    (hs : s * nandEccSectorSize / blockSize B = l) :
    DiskHolds B d' s data ↔
      SectorHolds B (pages (s * nandEccSectorSize % blockSize B / B.pageMainsize))
        (diskIndex B s) data := by
  have hpage := offset_page_lt B (Nat.mod_lt (s * nandEccSectorSize) (blockSize_pos B))
  rw [DiskHolds, lt_diskSectors_iff, hs, h.validBlocknum, and_iff_right hl, diskPage, hs]
  exact sectorHolds_page_congr (diskIndex_lt B s) (h.page _ hpage)

/-- A sector whose page has been kept holds what it held. -/
theorem Repaged.diskHolds_kept (h : Repaged B l pages d d') (hl : l < d.validBlocknum)
    (hkept : s * nandEccSectorSize / blockSize B = l → ∀ c, c ≠ B.pageMainsize + 1 →
      pages (s * nandEccSectorSize % blockSize B / B.pageMainsize) c =
        logicalPage B d l (s * nandEccSectorSize % blockSize B / B.pageMainsize) c) :
    DiskHolds B d' s data ↔ DiskHolds B d s data := by
  have hpage := offset_page_lt B (Nat.mod_lt (s * nandEccSectorSize) (blockSize_pos B))
  by_cases hs : s * nandEccSectorSize / blockSize B = l
  · rw [h.diskHolds_iff hl hs, DiskHolds, lt_diskSectors_iff, hs, and_iff_right hl, diskPage, hs]
    exact sectorHolds_page_congr (diskIndex_lt B s) (hkept hs)
  · rw [DiskHolds, DiskHolds, lt_diskSectors_iff, lt_diskSectors_iff, h.validBlocknum]
    refine and_congr_right fun hl' => ?_
    have hother := h.other _ hl' hs _ hpage
    rw [logicalPage, logicalPage] at hother
    rw [diskPage, diskPage, hother]

end Sector

/-! ## A round -/

section Round
variable (B : Board) (sectorno sectorcount : ℕ) (v : WriteVars) (d : Dev)

/-- Where the `k`-th sector of a round lies in its block. -/
def sectorOffset (k : ℕ) : ℕ := blockoffset B sectorno nandEccSectorSize v.i + nandEccSectorSize * k

/-- The first `m` sectors that are left in the buffer are in these pages of the block. -/
def PieceHolds (pages : ℕ → Bytes) (m : ℕ) : Prop :=
  ∀ k < m, SectorHolds B (pages (sectorOffset B sectorno v k / B.pageMainsize))
    (sectorOffset B sectorno v k % B.pageMainsize / nandEccSectorSize)
    (shift v.pbuffer (nandEccSectorSize * k))

/-- The pages of the block after a round that programs its page. -/
def programmedPages (i : ℕ) : Bytes :=
  andPage d.flash (roundPage B sectorno nandEccSectorSize v d)
    (roundReg B sectorno nandEccSectorSize sectorcount v)
    (d.lut (lbnno B sectorno nandEccSectorSize v.i) * B.blockPagenum + i)

/-- The pages of the block after a round that moves it, with passes that have failed at these
pages. -/
def movedPages (failed : List ℕ) (i : ℕ) : Bytes :=
  let first := blockoffset B sectorno nandEccSectorSize v.i / B.pageMainsize
  editAt B first
    (argsAfter B first failed (roundArgs B sectorno nandEccSectorSize sectorcount v)) i
    (logicalPage B ((roundInPlace B sectorno nandEccSectorSize sectorcount v d).state d)
      (lbnno B sectorno nandEccSectorSize v.i) i)

/-- The passes of a round that moves a block, before the one that succeeds, fail at these
pages. -/
def RoundFails (failed : List ℕ) : Prop :=
  let t := (roundInPlace B sectorno nandEccSectorSize sectorcount v d).state d
  failedPages B (t.ticks .copyback) (unusedBlocks B t.flash
    (t.lut (lbnno B sectorno nandEccSectorSize v.i) % 2)).card = some failed

/-- The condition on a round: the sectors that it writes are in the pages that it leaves. -/
def RoundStores : Prop :=
  v.i < sectorcount →
    (RoundServed B sectorno nandEccSectorSize sectorcount v d →
      PieceHolds B sectorno v (programmedPages B sectorno sectorcount v d)
        (pageSecs B sectorno nandEccSectorSize sectorcount v.i)) ∧
    (¬ RoundServed B sectorno nandEccSectorSize sectorcount v d →
      ∀ failed, RoundFails B sectorno sectorcount v d failed →
        PieceHolds B sectorno v (movedPages B sectorno sectorcount v d failed)
          (blockSecs B sectorno nandEccSectorSize sectorcount v.i))

variable {B sectorno sectorcount v d}

/-- A page that has been programmed is one of its block. -/
theorem Programmed.repaged_round (h : Sound B d)
    (hmap : RoundMapped B sectorno nandEccSectorSize v d) {d' : Dev}
    (hp : Programmed B (roundPage B sectorno nandEccSectorSize v d)
      (d.lut (lbnno B sectorno nandEccSectorSize v.i))
      (roundReg B sectorno nandEccSectorSize sectorcount v) d d') :
    Repaged B (lbnno B sectorno nandEccSectorSize v.i)
      (programmedPages B sectorno sectorcount v d) d d' := by
  have hpage := offset_page_lt B (blockoffset_lt (wholeSectors_512 B).toSectorSize sectorno v.i)
  exact hp.repaged h (h.lt_of_lut_lt hmap.1 hmap.2) hpage fun c h₁ h₂ =>
    loadRegister_tag _ (pageSecs_fits ..) h₁ (by omega)

/-- The pages before are not those of the round. -/
theorem programmedPages_before {i : ℕ}
    (hi : i < blockoffset B sectorno nandEccSectorSize v.i / B.pageMainsize) :
    programmedPages B sectorno sectorcount v d i =
      logicalPage B d (lbnno B sectorno nandEccSectorSize v.i) i := by
  rw [programmedPages, andPage_of_ne]
  · rfl
  · rw [roundPage]
    omega

/-- The path into the page leaves the other pages alone. -/
theorem roundInPlace_repaged (hB : B.Steady) (sectorcount : ℕ) (h : Sound B d)
    (hmap : RoundMapped B sectorno nandEccSectorSize v d) :
    ∃ pages, (∀ i < blockoffset B sectorno nandEccSectorSize v.i / B.pageMainsize,
        pages i = logicalPage B d (lbnno B sectorno nandEccSectorSize v.i) i) ∧
      Repaged B (lbnno B sectorno nandEccSectorSize v.i) pages d
        ((roundInPlace B sectorno nandEccSectorSize sectorcount v d).state d) := by
  rcases roundInPlace_cases hB sectorno nandEccSectorSize sectorcount v d with ⟨-, ha⟩ | hp
  · exact ⟨_, fun _ _ => rfl, .of_agrees h ha⟩
  · exact ⟨_, fun _ hi => programmedPages_before hi, hp.repaged_round h hmap⟩

/-- A page that is served has been programmed. -/
theorem RoundServed.repaged (hB : B.Steady) (h : Sound B d)
    (hmap : RoundMapped B sectorno nandEccSectorSize v d) (hans : PageAnswers B d)
    (hserved : RoundServed B sectorno nandEccSectorSize sectorcount v d) :
    Repaged B (lbnno B sectorno nandEccSectorSize v.i)
      (programmedPages B sectorno sectorcount v d) d
      ((roundInPlace B sectorno nandEccSectorSize sectorcount v d).state d) := by
  rcases roundInPlace_any B sectorno nandEccSectorSize sectorcount v d with
    ⟨hnot, -⟩ | ⟨-, hnot, -⟩ | ⟨-, -, m, hval⟩
  · exact absurd hans hnot
  · exact absurd hserved hnot
  · rcases roundInPlace_cases hB sectorno nandEccSectorSize sectorcount v d with ⟨hne, -⟩ | hp
    · exact absurd hval (hne m)
    · exact hp.repaged_round h hmap

/-! ### Words that fit, passes that use up nothing -/

/-- A sector that a copy takes from the buffer has its word. -/
theorem coherentAt_editAt {u : CopyArgs} (hv : u.InPage B) (ha : u.Aligned) {first i k : ℕ}
    (hk : k < B.pageMainsize / nandEccSectorSize)
    (hfirst : first * B.pageMainsize + u.colnum ≤ i * B.pageMainsize + nandEccSectorSize * k)
    (hlast : i * B.pageMainsize + nandEccSectorSize * k <
      first * B.pageMainsize + u.colnum + u.numbyte) (page : Bytes) :
    CoherentAt B (editAt B first u i page) k := by
  have hcol := hv.colnum_lt
  have hmain : nandEccSectorSize * k < B.pageMainsize := by
    rw [← Nat.mul_div_cancel' B.mainsize_sectors]
    exact Nat.mul_lt_mul_of_pos_left hk (by decide)
  have hle : first ≤ i := by
    by_contra hlt
    have hend := page_end_le B (Nat.not_le.mp hlt)
    omega
  -- the piece of the buffer that the page takes
  have hwindow : (argsAt B first u i).colnum ≤ nandEccSectorSize * k ∧
      nandEccSectorSize * k < (argsAt B first u i).colnum + (argsAt B first u i).numbyte := by
    rcases Nat.eq_or_lt_of_le hle with rfl | hlt
    · rw [argsAt_before (Nat.le_refl _)]
      omega
    · obtain ⟨hnum, -, hzero⟩ := argsAt_after first hv hlt
      have hsplit : i * B.pageMainsize =
          (i - first) * B.pageMainsize + first * B.pageMainsize := by
        rw [← Nat.add_mul, Nat.sub_add_cancel hle]
      have hnext : B.pageMainsize ≤ (i - first) * B.pageMainsize :=
        Nat.le_mul_of_pos_left _ (by omega)
      rw [taken] at hnum
      rw [hzero (by omega), hnum]
      omega
  have hvi := hv.argsAt first i
  have hai := ha.argsAt hv first i
  obtain ⟨a, hcolnum⟩ := hai.colnum
  obtain ⟨m, hlen⟩ := hai.wrlen hvi
  have hfit : nandEccSectorSize * a + nandEccSectorSize * m ≤ B.pageMainsize := by
    have hcoli := hvi.colnum_lt
    rw [← hcolnum, ← hlen, hvi.wrlen]
    omega
  have hin : a ≤ k ∧ k < a + m := by
    have hwrlen := hvi.wrlen
    rw [hlen, hcolnum] at hwrlen
    rw [hcolnum] at hwindow
    simp only [nandEccSectorSize] at hwrlen hwindow hmain ⊢
    omega
  rw [editAt, CopyArgs.edit, if_pos ⟨hle, by omega⟩, hcolnum, hlen]
  exact coherentAt_loadRegister hk hfit (Or.inl hin)

/-- A sector of a piece lies whole in the main area of its page. -/
theorem sectorOffset_index (B : Board) (sectorno : ℕ) (v : WriteVars) (k : ℕ) :
    nandEccSectorSize * (sectorOffset B sectorno v k % B.pageMainsize / nandEccSectorSize) =
        sectorOffset B sectorno v k % B.pageMainsize ∧
      sectorOffset B sectorno v k % B.pageMainsize / nandEccSectorSize <
        B.pageMainsize / nandEccSectorSize := by
  have hdvd : nandEccSectorSize ∣ sectorOffset B sectorno v k :=
    Nat.dvd_add (Nat.dvd_mul_left _ _) (Nat.dvd_mul_right _ _)
  have hcol := offset_col_lt B (o := sectorOffset B sectorno v k)
  refine ⟨Nat.mul_div_cancel' ((Nat.dvd_mod_iff B.mainsize_sectors).mpr hdvd), ?_⟩
  exact Nat.div_lt_div_of_lt_of_dvd B.mainsize_sectors hcol

/-- Passes that fail before the first page to be written leave the whole piece. -/
theorem pieceHolds_movedPages {failed : List ℕ}
    (hbefore : ∀ i ∈ failed,
      i < blockoffset B sectorno nandEccSectorSize v.i / B.pageMainsize) :
    PieceHolds B sectorno v (movedPages B sectorno sectorcount v d failed)
      (blockSecs B sectorno nandEccSectorSize sectorcount v.i) := by
  intro k hk
  have hcol := offset_col_lt B (o := blockoffset B sectorno nandEccSectorSize v.i)
  have heta := offset_eta B (o := blockoffset B sectorno nandEccSectorSize v.i)
  have hetak := offset_eta B (o := sectorOffset B sectorno v k)
  obtain ⟨hindex, hlt⟩ := sectorOffset_index B sectorno v k
  have hfits := blockSecs_fits B sectorno nandEccSectorSize sectorcount v.i
  have hsize := blockSize_lt B
  have hargs : (roundArgs B sectorno nandEccSectorSize sectorcount v).InPage B :=
    ⟨hcol, by simp only [roundArgs]; omega⟩
  have haligned : (roundArgs B sectorno nandEccSectorSize sectorcount v).Aligned :=
    ⟨(Nat.dvd_mod_iff B.mainsize_sectors).mpr (Nat.dvd_mul_left _ _), Nat.dvd_mul_left _ _⟩
  have hpiece : nandEccSectorSize * k + nandEccSectorSize ≤
      (roundArgs B sectorno nandEccSectorSize sectorcount v).numbyte := by
    have hmul := Nat.mul_le_mul_left nandEccSectorSize (Nat.succ_le_of_lt hk)
    rwa [Nat.mul_succ, Nat.mul_comm _ (blockSecs ..)] at hmul
  have hoffset : sectorOffset B sectorno v k =
      blockoffset B sectorno nandEccSectorSize v.i / B.pageMainsize * B.pageMainsize +
        (roundArgs B sectorno nandEccSectorSize sectorcount v).colnum + nandEccSectorSize * k := by
    rw [roundArgs, heta, sectorOffset]
  have hsector : 0 < nandEccSectorSize := by decide
  have hend := Nat.mul_le_mul_left nandEccSectorSize (Nat.succ_le_of_lt hlt)
  rw [Nat.mul_div_cancel' B.mainsize_sectors, Nat.mul_succ, hindex] at hend
  rw [movedPages, argsAfter_of_before hbefore]
  refine CoherentAt.holds (coherentAt_editAt hargs haligned hlt (by omega) (by omega) _)
    fun t ht => ?_
  rw [hindex, editAt_main hargs _ (by omega), overlay_inside (by omega) (by omega), shift_apply]
  exact congrArg v.pbuffer (by omega)

/-- Words that fit leave the whole piece in the page. -/
theorem pieceHolds_programmedPages
    (hserved : RoundServed B sectorno nandEccSectorSize sectorcount v d)
    (hfits : EccFits B (d.flash (roundPage B sectorno nandEccSectorSize v d))
      (blockoffset B sectorno nandEccSectorSize v.i % B.pageMainsize / nandEccSectorSize) v.pbuffer
      (pageSecs B sectorno nandEccSectorSize sectorcount v.i)) :
    PieceHolds B sectorno v (programmedPages B sectorno sectorcount v d)
      (pageSecs B sectorno nandEccSectorSize sectorcount v.i) := by
  intro k hk
  have hfit := pageSecs_fits B sectorno nandEccSectorSize sectorcount v.i
  have hcol := offset_col_lt B (o := blockoffset B sectorno nandEccSectorSize v.i)
  have heta := offset_eta B (o := blockoffset B sectorno nandEccSectorSize v.i)
  have hblank := hserved.1
  obtain ⟨a, ha⟩ : nandEccSectorSize ∣
      blockoffset B sectorno nandEccSectorSize v.i % B.pageMainsize :=
    (Nat.dvd_mod_iff B.mainsize_sectors).mpr (Nat.dvd_mul_left _ _)
  generalize hm : pageSecs B sectorno nandEccSectorSize sectorcount v.i = m at *
  have hfour : 4 * (m * nandEccSectorSize / 4) = nandEccSectorSize * m := by
    simp only [nandEccSectorSize]
    omega
  rw [ha, Nat.mul_div_cancel_left _ (by decide)] at hfits
  rw [ha, Nat.mul_comm m] at hfit
  rw [ha, hfour] at hblank
  have hoff : sectorOffset B sectorno v k =
      blockoffset B sectorno nandEccSectorSize v.i / B.pageMainsize * B.pageMainsize +
        nandEccSectorSize * (a + k) := by
    rw [sectorOffset, ← heta, ha, Nat.mul_add, Nat.add_assoc, offset_div B _ (by omega)]
  have hin : nandEccSectorSize * (a + k) < B.pageMainsize := by
    simp only [nandEccSectorSize] at hfit ⊢
    omega
  have hk' : a + k < B.pageMainsize / nandEccSectorSize := by
    rw [Nat.lt_div_iff_mul_lt' B.mainsize_sectors]
    exact hin
  rw [hoff, offset_div B _ hin, offset_mod B _ hin, Nat.mul_div_cancel_left _ (by decide)]
  have hpage : programmedPages B sectorno sectorcount v d
      (blockoffset B sectorno nandEccSectorSize v.i / B.pageMainsize) =
      fun c => d.flash (roundPage B sectorno nandEccSectorSize v d) c &&&
        loadRegister B erasedPage (nandEccSectorSize * a) v.pbuffer (nandEccSectorSize * m) c := by
    rw [programmedPages, roundReg, ha, hm, Nat.mul_comm m]
    exact andPage_same _ _ _
  rw [hpage]
  refine CoherentAt.holds (coherentAt_program hk' hfit hblank hfits fun hnot => absurd ?_ hnot)
    fun t ht => ?_
  · omega
  · rw [program_main hk' hblank ht, if_pos (by omega), Nat.add_sub_cancel_left]
    rfl

/-- A round stores its sectors when the words that it programs into its page fit there, or when
its passes fail before the first page that it writes. -/
theorem RoundStores.of_fits
    (hserved : RoundServed B sectorno nandEccSectorSize sectorcount v d →
      EccFits B (d.flash (roundPage B sectorno nandEccSectorSize v d))
        (blockoffset B sectorno nandEccSectorSize v.i % B.pageMainsize / nandEccSectorSize)
        v.pbuffer (pageSecs B sectorno nandEccSectorSize sectorcount v.i))
    (hmoved : ¬ RoundServed B sectorno nandEccSectorSize sectorcount v d →
      ∀ failed, RoundFails B sectorno sectorcount v d failed → ∀ i ∈ failed,
        i < blockoffset B sectorno nandEccSectorSize v.i / B.pageMainsize) :
    RoundStores B sectorno sectorcount v d :=
  fun _ => ⟨fun hs => pieceHolds_programmedPages hs (hserved hs),
    fun hs failed hfailed => pieceHolds_movedPages (hmoved hs failed hfailed)⟩

/-! ### What it leaves -/

/-- Where a round has written as much as fits, it ends with a page. -/
theorem pageSecs_whole (B : Board) (sectorno : ℕ) (v : WriteVars) (hcount : sectorcount < 2 ^ 16) :
    v.i + pageSecs B sectorno nandEccSectorSize sectorcount v.i = sectorcount ∨
      sectorcount ≤ v.i ∨ B.pageMainsize ∣ sectorOffset B sectorno v
        (pageSecs B sectorno nandEccSectorSize sectorcount v.i) := by
  have hcol := offset_col_lt B (o := blockoffset B sectorno nandEccSectorSize v.i)
  have heta := offset_eta B (o := blockoffset B sectorno nandEccSectorSize v.i)
  have hdvd : nandEccSectorSize ∣
      B.pageMainsize - blockoffset B sectorno nandEccSectorSize v.i % B.pageMainsize :=
    Nat.dvd_sub B.mainsize_sectors
      ((Nat.dvd_mod_iff B.mainsize_sectors).mpr (Nat.dvd_mul_left _ _))
  rw [pageSecs, wsecs_eq hcount]
  rcases Nat.le_total ((B.pageMainsize -
      blockoffset B sectorno nandEccSectorSize v.i % B.pageMainsize) / nandEccSectorSize)
    (sectorcount - v.i) with hle | hle
  · rw [Nat.min_eq_left hle, sectorOffset, Nat.mul_div_cancel' hdvd]
    refine Or.inr (Or.inr ⟨blockoffset B sectorno nandEccSectorSize v.i / B.pageMainsize + 1, ?_⟩)
    rw [Nat.mul_add, Nat.mul_comm B.pageMainsize]
    omega
  · rw [Nat.min_eq_right hle]
    omega

theorem blockSecs_whole (B : Board) (sectorno : ℕ) (v : WriteVars) (hcount : sectorcount < 2 ^ 16) :
    v.i + blockSecs B sectorno nandEccSectorSize sectorcount v.i = sectorcount ∨
      sectorcount ≤ v.i ∨ B.pageMainsize ∣ sectorOffset B sectorno v
        (blockSecs B sectorno nandEccSectorSize sectorcount v.i) := by
  have hoff := blockoffset_lt (wholeSectors_512 B).toSectorSize sectorno v.i
  have hdvd : nandEccSectorSize ∣ blockSize B - blockoffset B sectorno nandEccSectorSize v.i :=
    Nat.dvd_sub (Nat.dvd_mul_left_of_dvd B.mainsize_sectors _) (Nat.dvd_mul_left _ _)
  have hroom : u16 ((blockSize B - blockoffset B sectorno nandEccSectorSize v.i) /
      nandEccSectorSize) =
      (blockSize B - blockoffset B sectorno nandEccSectorSize v.i) / nandEccSectorSize := by
    refine Nat.mod_eq_of_lt ((Nat.div_lt_iff_lt_mul (by decide)).mpr ?_)
    exact lt_of_le_of_lt (Nat.sub_le _ _) (sectorsFit_512 B.toGeometry).block
  rw [blockSecs, wsecs_eq hcount, hroom]
  rcases Nat.le_total ((blockSize B - blockoffset B sectorno nandEccSectorSize v.i) /
      nandEccSectorSize) (sectorcount - v.i) with hle | hle
  · rw [Nat.min_eq_left hle, sectorOffset, Nat.mul_div_cancel' hdvd,
      Nat.add_sub_cancel' (Nat.le_of_lt hoff)]
    exact Or.inr (Or.inr (Nat.dvd_mul_left _ _))
  · rw [Nat.min_eq_right hle]
    omega

/-- A round that goes on has given its block these pages and written `m` sectors, which are
there exactly when it meets the condition. -/
structure RoundWrote (B : Board) (sectorno sectorcount : ℕ) (v : WriteVars) (d : Dev) (m : ℕ)
    (pages : ℕ → Bytes) (w : WriteVars) (d' : Dev) : Prop where
  index : w.i = v.i + m
  le : w.i ≤ sectorcount
  buffer : w.pbuffer = shift v.pbuffer (m * nandEccSectorSize)
  whole : w.i = sectorcount ∨ B.pageMainsize ∣ sectorOffset B sectorno v m
  inside : sectorOffset B sectorno v m ≤ blockSize B
  lbn_lt : lbnno B sectorno nandEccSectorSize v.i < d.validBlocknum
  repaged : Repaged B (lbnno B sectorno nandEccSectorSize v.i) pages d d'
  before : ∀ i < blockoffset B sectorno nandEccSectorSize v.i / B.pageMainsize,
    ∀ c, c ≠ B.pageMainsize + 1 →
      pages i c = logicalPage B d (lbnno B sectorno nandEccSectorSize v.i) i c
  stores_iff : RoundStores B sectorno sectorcount v d ↔ PieceHolds B sectorno v pages m

/-- A round that programs its page. -/
theorem RoundServed.wrote (hB : B.Steady) (h : Sound B d) (hcount : sectorcount < 2 ^ 16)
    (hi : v.i < sectorcount) (hmap : RoundMapped B sectorno nandEccSectorSize v d)
    (hans : PageAnswers B d)
    (hserved : RoundServed B sectorno nandEccSectorSize sectorcount v d) (m : ℕ) :
    RoundWrote B sectorno sectorcount v d
      (pageSecs B sectorno nandEccSectorSize sectorcount v.i)
      (programmedPages B sectorno sectorcount v d)
      (v.after nandEccSectorSize (pageSecs B sectorno nandEccSectorSize sectorcount v.i) m)
      ((roundInPlace B sectorno nandEccSectorSize sectorcount v d).state d) := by
  have hpage := offset_page_lt B (blockoffset_lt (wholeSectors_512 B).toSectorSize sectorno v.i)
  have hle := pageSecs_le B sectorno nandEccSectorSize sectorcount v.i
  have hafter := WriteVars.after_i (by omega) hi hle nandEccSectorSize m
  have hwhole := pageSecs_whole B sectorno v hcount
  have hfits := pageSecs_fits B sectorno nandEccSectorSize sectorcount v.i
  have hcol := offset_col_lt B (o := blockoffset B sectorno nandEccSectorSize v.i)
  have heta := offset_eta B (o := blockoffset B sectorno nandEccSectorSize v.i)
  have hend := page_end_le B hpage
  refine ⟨hafter, by omega, rfl, ?_, ?_, h.lt_of_lut_lt hmap.1 hmap.2,
    hserved.repaged hB h hmap hans, fun i hi' c _ => by rw [programmedPages_before hi'], ?_⟩
  · rcases hwhole with hx | hx | hx
    · exact Or.inl (hafter.trans hx)
    · omega
    · exact Or.inr hx
  · rw [sectorOffset, Nat.mul_comm nandEccSectorSize, blockSize]
    omega
  · exact ⟨fun hx => (hx hi).1 hserved,
      fun hx _ => ⟨fun _ => hx, fun hnot => absurd hserved hnot⟩⟩

/-- A round that moves its block. -/
theorem Outcome.wrote (hB : B.Steady) (h : Sound B d) (hcount : sectorcount < 2 ^ 16)
    (hi : v.i < sectorcount) (hmap : RoundMapped B sectorno nandEccSectorSize v d)
    (hnot : ¬ RoundServed B sectorno nandEccSectorSize sectorcount v d) (m : ℕ) {d' : Dev}
    (hout : Outcome B (d.lut (lbnno B sectorno nandEccSectorSize v.i))
      (blockoffset B sectorno nandEccSectorSize v.i / B.pageMainsize)
      (roundArgs B sectorno nandEccSectorSize sectorcount v)
      ((roundInPlace B sectorno nandEccSectorSize sectorcount v d).state d) 0 d') :
    ∃ failed, RoundWrote B sectorno sectorcount v d
      (blockSecs B sectorno nandEccSectorSize sectorcount v.i)
      (movedPages B sectorno sectorcount v d failed)
      (v.after nandEccSectorSize (blockSecs B sectorno nandEccSectorSize sectorcount v.i) m)
      d' := by
  have hpage := offset_page_lt B (blockoffset_lt (wholeSectors_512 B).toSectorSize sectorno v.i)
  have hcol := offset_col_lt B (o := blockoffset B sectorno nandEccSectorSize v.i)
  have hoff := blockoffset_lt (wholeSectors_512 B).toSectorSize sectorno v.i
  have hle := blockSecs_le B sectorno nandEccSectorSize sectorcount v.i
  have hafter := WriteVars.after_i (by omega) hi hle nandEccSectorSize m
  have hwhole := blockSecs_whole B sectorno v hcount
  have hfits := blockSecs_fits B sectorno nandEccSectorSize sectorcount v.i
  have hsize := blockSize_lt B
  have hlv := h.lt_of_lut_lt hmap.1 hmap.2
  obtain ⟨pages, hbefore, hpages⟩ := roundInPlace_repaged hB sectorcount h hmap
  obtain ⟨ht, hlut, hvalid⟩ := sound_roundInPlace hB (wholeSectors_512 B).toSectorSize
    sectorcount h hmap
  rw [← hlut] at hout
  obtain ⟨failed, hfailed, hmoved⟩ := hout.repaged ht (by rwa [hvalid])
    ⟨hcol, by simp only [roundArgs]; omega⟩
  refine ⟨failed, hafter, by omega, rfl, ?_, ?_, hlv, hpages.trans hmoved,
    fun i hi' c hc => ?_, ?_⟩
  · rcases hwhole with hx | hx | hx
    · exact Or.inl (hafter.trans hx)
    · omega
    · exact Or.inr hx
  · rw [sectorOffset, Nat.mul_comm nandEccSectorSize]
    omega
  · rw [← hbefore i hi', movedPages, editAt_before hi']
    exact hpages.page i (hi'.trans hpage) c hc
  · refine ⟨fun hx => (hx hi).2 hnot failed hfailed,
      fun hx _ => ⟨fun hyes => absurd hyes hnot, fun _ failed' hfailed' => ?_⟩⟩
    obtain rfl : failed = failed' := Option.some.inj (hfailed.symm.trans hfailed')
    exact hx

/-- What a round that goes on has stored. -/
theorem writeRound_stores (hB : B.Steady) (h : Sound B d) (hcount : sectorcount < 2 ^ 16)
    {fuel : ℕ} {w : WriteVars}
    (hval : (writeRound B fuel sectorno nandEccSectorSize sectorcount v).val d = .next w) :
    ∃ m pages, RoundWrote B sectorno sectorcount v d m pages w
      ((writeRound B fuel sectorno nandEccSectorSize sectorcount v).state d) := by
  rw [Prog.val] at hval
  rw [Prog.state]
  cases writeRound_any B sectorno nandEccSectorSize sectorcount v d with
  | returns r d' _ run =>
      rw [run fuel] at hval
      cases hval
  | served m hi mapped answers served run =>
      rw [run fuel] at hval ⊢
      obtain rfl := Flow.next.inj hval
      exact ⟨_, _, served.wrote hB h hcount hi mapped answers m⟩
  | moves m hi mapped answers served run =>
      rw [run fuel] at hval ⊢
      obtain ⟨ht, hlut, hvalid⟩ := sound_roundInPlace hB (wholeSectors_512 B).toSectorSize
        sectorcount h mapped
      have hspec := ftlCopyAndWriteToBlock_spec hB fuel
        (blockoffset B sectorno nandEccSectorSize v.i % B.pageMainsize) v.pbuffer
        (blockSecs B sectorno nandEccSectorSize sectorcount v.i * nandEccSectorSize) ht
        (l := lbnno B sectorno nandEccSectorSize v.i)
        (by rw [hvalid]; exact h.lt_of_lut_lt mapped.1 mapped.2)
        (offset_page_lt B (blockoffset_lt (wholeSectors_512 B).toSectorSize sectorno v.i))
      rw [hlut] at hspec
      rcases hspec with ⟨hnone, -, -⟩ | ⟨c, hc, hout⟩
      · rw [roundCopy, roundPage, hnone] at hval
        cases hval
      · rw [roundCopy, roundPage, hc] at hval
        by_cases hzero : c = 0
        case neg =>
          rw [afterCopy, if_pos hzero] at hval
          cases hval
        subst hzero
        obtain rfl := Flow.next.inj hval
        obtain ⟨failed, hwrote⟩ := hout.wrote hB h hcount hi mapped served m
        exact ⟨_, _, hwrote⟩

/-- Where the sectors of a round lie on the disk. -/
theorem sector_at (hfit : sectorno + sectorcount ≤ 2 ^ 32) (hi : v.i < sectorcount) (k : ℕ) :
    (sectorno + (v.i + k)) * nandEccSectorSize =
      lbnno B sectorno nandEccSectorSize v.i * blockSize B + sectorOffset B sectorno v k := by
  have haddr := sector_address (wholeSectors_512 B) sectorno v.i
  have hu : u32 (sectorno + v.i) = sectorno + v.i := Nat.mod_eq_of_lt (by omega)
  rw [hu] at haddr
  rw [sectorOffset, ← Nat.add_assoc, ← Nat.add_assoc, haddr, Nat.mul_comm nandEccSectorSize,
    ← Nat.add_mul]

section Wrote
variable {m : ℕ} {pages : ℕ → Bytes} {w : WriteVars} {d' : Dev}
  (hfit : sectorno + sectorcount ≤ 2 ^ 32) (hi : v.i < sectorcount)
  (h : RoundWrote B sectorno sectorcount v d m pages w d')
include hfit hi h

/-- The sectors that have been written are those of the new pages. -/
theorem RoundWrote.diskHolds_iff {k : ℕ} (hk : k < m) (data : Bytes) :
    DiskHolds B d' (sectorno + (v.i + k)) data ↔
      SectorHolds B (pages (sectorOffset B sectorno v k / B.pageMainsize))
        (sectorOffset B sectorno v k % B.pageMainsize / nandEccSectorSize) data := by
  have haddr := sector_at (B := B) hfit hi k
  have hlt : sectorOffset B sectorno v k < blockSize B := by
    have hend := h.inside
    simp only [sectorOffset, nandEccSectorSize] at hend ⊢
    omega
  have hdiv : (sectorno + (v.i + k)) * nandEccSectorSize / blockSize B =
      lbnno B sectorno nandEccSectorSize v.i := by
    rw [haddr, Nat.mul_comm, Nat.mul_add_div (blockSize_pos B), Nat.div_eq_of_lt hlt, Nat.add_zero]
  have hmod : (sectorno + (v.i + k)) * nandEccSectorSize % blockSize B =
      sectorOffset B sectorno v k := by
    rw [haddr, Nat.mul_add_mod_of_lt hlt]
  rw [h.repaged.diskHolds_iff h.lbn_lt hdiv, diskIndex, hmod]

/-- The sectors before are those that there were, where the round begins with a page. -/
theorem RoundWrote.diskHolds_before
    (hstart : B.pageMainsize ∣ (sectorno + v.i) * nandEccSectorSize) {j : ℕ} (hj : j < v.i)
    (data : Bytes) : DiskHolds B d' (sectorno + j) data ↔ DiskHolds B d (sectorno + j) data := by
  have haddr := sector_at (B := B) hfit hi 0
  rw [Nat.add_zero, sectorOffset, Nat.mul_zero, Nat.add_zero] at haddr
  refine h.repaged.diskHolds_kept h.lbn_lt fun hs => h.before _ ?_
  have hsector : (sectorno + j) * nandEccSectorSize < (sectorno + v.i) * nandEccSectorSize :=
    Nat.mul_lt_mul_of_pos_right (by omega) (by decide)
  have heta := Nat.div_add_mod' ((sectorno + j) * nandEccSectorSize) (blockSize B)
  rw [hs] at heta
  have hdvd : B.pageMainsize ∣ blockoffset B sectorno nandEccSectorSize v.i := by
    rw [haddr] at hstart
    exact (Nat.dvd_add_right (Nat.dvd_mul_left_of_dvd (Nat.dvd_mul_left _ _) _)).mp hstart
  exact Nat.div_lt_div_of_lt_of_dvd hdvd (by omega)

end Wrote

/-- The locals of a write stand at sector `v.i`, which begins a page unless it is the first of
the call or all have been written. -/
structure StoreAt (B : Board) (pbuffer : Bytes) (sectorno sectorcount : ℕ) (v : WriteVars)
    (d : Dev) : Prop where
  sound : Sound B d
  le : v.i ≤ sectorcount
  buffer : v.pbuffer = shift pbuffer (v.i * nandEccSectorSize)
  start : v.i = 0 ∨ v.i = sectorcount ∨ B.pageMainsize ∣ (sectorno + v.i) * nandEccSectorSize

theorem StoreAt.round {pbuffer : Bytes} {m : ℕ} {pages : ℕ → Bytes} {w : WriteVars} {d' : Dev}
    (hfit : sectorno + sectorcount ≤ 2 ^ 32) (hi : v.i < sectorcount)
    (h : StoreAt B pbuffer sectorno sectorcount v d)
    (hw : RoundWrote B sectorno sectorcount v d m pages w d') :
    StoreAt B pbuffer sectorno sectorcount w d' where
  sound := hw.repaged.sound
  le := hw.le
  buffer := by rw [hw.buffer, h.buffer, shift_shift, hw.index, Nat.add_mul]
  start := by
    refine Or.inr (hw.whole.imp_right fun hdvd => ?_)
    rw [hw.index, sector_at hfit hi m]
    exact Nat.dvd_add (Nat.dvd_mul_left_of_dvd (Nat.dvd_mul_left _ _) _) hdvd

end Round

/-! ## A call -/

/-- The codes that a round leaves with. -/
theorem WriteRound.code_le {fuel sectorno sectorsize sectorcount c : ℕ} {v : WriteVars}
    {d d' : Dev}
    (h : WriteRound B fuel sectorno sectorsize sectorcount v d (.exit (some c)) d') : c ≤ 3 := by
  generalize hout : Flow.exit (some c) = out at h
  cases h with
  | finished =>
      cases hout
      decide
  | outside =>
      cases hout
      decide
  | unreadable =>
      cases hout
      decide
  | inPlace => cases hout
  | @rewrite m d₁ =>
      revert hout
      cases (roundCopy B fuel sectorno sectorsize sectorcount v d).val d₁ with
      | none => simp [afterCopy]
      | some r =>
          rw [afterCopy]
          split
          · rintro ⟨⟩
            decide
          · rintro ⟨⟩

section Call
variable {fuel sectorno n : ℕ} {pbuffer : Bytes} {d : Dev}

/-- A loop that leaves with 0 has kept the sectors before `v.i`, and stored those from there on
exactly when its rounds meet the condition. -/
theorem writeLoop_stores_iff (hB : B.Steady) (hn : n < 2 ^ 16) (hfit : sectorno + n ≤ 2 ^ 32)
    {k i : ℕ} {v : WriteVars} {d : Dev} (h : StoreAt B pbuffer sectorno n v d)
    (hval : (Prog.loop (fun _ => writeRound B fuel sectorno nandEccSectorSize n) k i v).val d =
      .exit (some 0)) :
    let d' := (Prog.loop (fun _ => writeRound B fuel sectorno nandEccSectorSize n) k i v).state d
    (∀ j < v.i, ∀ data, DiskHolds B d' (sectorno + j) data ↔ DiskHolds B d (sectorno + j) data) ∧
      ((∀ j, v.i ≤ j → j < n →
          DiskHolds B d' (sectorno + j) (shift pbuffer (nandEccSectorSize * j))) ↔
        Prog.Rounds (RoundStores B sectorno n)
          (fun _ => writeRound B fuel sectorno nandEccSectorSize n) k i v d) := by
  induction k generalizing i v d with
  | zero => cases hval
  | succ k ih =>
      intro d'
      have hcases := writeRound_cases fuel sectorno nandEccSectorSize n v d hB
      cases hround : (writeRound B fuel sectorno nandEccSectorSize n v).val d with
      | exit c =>
          rw [Prog.val_loop_exit _ (i := i) hround] at hval
          cases hval
          rw [hround] at hcases
          obtain ⟨hge, hstate⟩ := hcases.exit_zero
          have hd' : d' = d := (Prog.state_loop_exit _ (i := i) hround).trans hstate
          rw [hd']
          refine ⟨fun _ _ _ => Iff.rfl, iff_of_true (fun j hj hlt => absurd hlt (by omega)) ?_⟩
          rw [Prog.Rounds, hround]
          exact ⟨fun hi => absurd hi (by omega), trivial⟩
      | next w =>
          have hi : v.i < n := by
            by_contra hnot
            have hlast : (writeRound B fuel sectorno nandEccSectorSize n v).val d =
                .exit (some 0) := by
              rw [writeRound, if_neg hnot]
              rfl
            cases hround.symm.trans hlast
          obtain ⟨m, pages, hw⟩ := writeRound_stores hB h.sound hn hround
          rw [Prog.val_loop_next _ (i := i) hround] at hval
          have hd' : d' = _ := Prog.state_loop_next _ (i := i) hround
          obtain ⟨hkept, hrest⟩ := ih (h.round hfit hi hw) hval
          rw [hw.index, ← hd'] at hkept hrest
          have hle := hw.index ▸ hw.le
          have hpiece : ∀ x < m, (DiskHolds B d' (sectorno + (v.i + x))
                (shift pbuffer (nandEccSectorSize * (v.i + x))) ↔
              SectorHolds B (pages (sectorOffset B sectorno v x / B.pageMainsize))
                (sectorOffset B sectorno v x % B.pageMainsize / nandEccSectorSize)
                (shift v.pbuffer (nandEccSectorSize * x))) := by
            intro x hx
            have hdata : shift pbuffer (nandEccSectorSize * (v.i + x)) =
                shift v.pbuffer (nandEccSectorSize * x) := by
              rw [h.buffer, shift_shift, Nat.mul_add, Nat.mul_comm v.i]
            rw [hkept _ (by omega), hw.diskHolds_iff hfit hi hx, hdata]
          refine ⟨fun j hj data => ?_, ?_⟩
          · have hstart := (h.start.resolve_left (by omega)).resolve_left (by omega)
            exact (hkept j (by omega) data).trans (hw.diskHolds_before hfit hi hstart hj data)
          · rw [Prog.Rounds, hround, Flow.holds_next, ← hrest, hw.stores_iff,
              forall_sectors_iff hle]
            exact and_congr_left fun _ => forall₂_congr hpiece

/-- Sectors of a mapped block have numbers that nothing is lost of. -/
theorem sector_lt_of_mapped (h : Sound B d) (hno : sectorno < 2 ^ 32)
    (hl : lbnno B sectorno nandEccSectorSize 0 < d.validBlocknum) : sectorno < 2 ^ 27 := by
  have htot := B.total_lt
  have hvalid := h.valid_lt
  have hP := B.pagenum_lt
  have hsecs : B.pageMainsize / nandEccSectorSize ≤ 8 :=
    Nat.div_le_of_le_mul B.mainsize_le
  have hspb : sectorsPerBlock B nandEccSectorSize ≤ 2 ^ 8 * 8 :=
    Nat.mul_le_mul (Nat.le_of_lt hP) hsecs
  have hpos : 0 < sectorsPerBlock B nandEccSectorSize := by
    have hsize := blockSize_pos B
    rw [← sectorsPerBlock_mul (wholeSectors_512 B)] at hsize
    exact Nat.pos_of_mul_pos_right hsize
  rw [lbnno, Nat.add_zero, u32, Nat.mod_eq_of_lt hno, Nat.div_lt_iff_lt_mul hpos] at hl
  calc sectorno < d.validBlocknum * sectorsPerBlock B nandEccSectorSize := hl
    _ ≤ 2 ^ 16 * (2 ^ 8 * 8) := Nat.mul_le_mul (by omega) hspb
    _ = 2 ^ 27 := by decide

/-- Where programs and erases take effect, a call that returns 0 has stored its sectors exactly
when each of its rounds meets the condition. -/
theorem ftlWriteSectors_stores_iff (hB : B.Steady) (h : Sound B d) (hn : n < 2 ^ 16)
    (hno : sectorno < 2 ^ 32)
    (hval : (ftlWriteSectors B fuel pbuffer sectorno nandEccSectorSize n).val d = some 0) :
    (∀ j < n, DiskHolds B ((ftlWriteSectors B fuel pbuffer sectorno nandEccSectorSize n).state d)
        (sectorno + j) (shift pbuffer (nandEccSectorSize * j))) ↔
      Prog.Rounds (RoundStores B sectorno n)
        (fun _ => writeRound B fuel sectorno nandEccSectorSize n) fuel 0
        ⟨0, pbuffer, 0xFFFFFFFF⟩ d := by
  have hloop := ftlWriteSectors_eq_some.mp hval
  have hstart : StoreAt B pbuffer sectorno n ⟨0, pbuffer, 0xFFFFFFFF⟩ d :=
    ⟨h, Nat.zero_le _, by rw [Nat.zero_mul, shift_zero], Or.inl rfl⟩
  have hstate : (ftlWriteSectors B fuel pbuffer sectorno nandEccSectorSize n).state d =
      (Prog.loop (fun _ => writeRound B fuel sectorno nandEccSectorSize n) fuel 0
        ⟨0, pbuffer, 0xFFFFFFFF⟩).state d := by
    rw [ftlWriteSectors, Prog.state_bind, hloop]
    rfl
  have hfit : sectorno + n ≤ 2 ^ 32 := by
    rcases Nat.eq_zero_or_pos n with rfl | hpos
    · omega
    obtain ⟨k, rfl⟩ : ∃ k, fuel = k + 1 := by
      cases fuel with
      | zero => cases hloop
      | succ k => exact ⟨k, rfl⟩
    have hcases := writeRound_cases (k + 1) sectorno nandEccSectorSize n
      ⟨0, pbuffer, 0xFFFFFFFF⟩ d hB
    cases hround : (writeRound B (k + 1) sectorno nandEccSectorSize n
        ⟨0, pbuffer, 0xFFFFFFFF⟩).val d with
    | exit c =>
        rw [Prog.val_loop_exit _ (i := 0) hround] at hloop
        cases hloop
        rw [hround] at hcases
        have hge : n ≤ 0 := hcases.exit_zero.1
        omega
    | next w =>
        obtain ⟨m, pages, hw⟩ := writeRound_stores hB h hn hround
        have hlt := sector_lt_of_mapped h hno hw.lbn_lt
        omega
  have hiff := (writeLoop_stores_iff hB hn hfit hstart hloop).2
  rw [hstate, ← hiff]
  exact forall_congr' fun j => ⟨fun hj _ hlt => hj hlt, fun hj hlt => hj (Nat.zero_le _) hlt⟩

/-- The codes of a call. -/
theorem ftlWriteSectors_code (hB : B.Steady) {c : ℕ}
    (h : (ftlWriteSectors B fuel pbuffer sectorno nandEccSectorSize n).val d = some c) : c ≤ 3 := by
  have hround : ∀ j < fuel, ∀ (v : WriteVars) (t : Dev), True →
      ((writeRound B fuel sectorno nandEccSectorSize n v).val t).Holds (fun _ => True)
        fun r => ∀ x, r = some x → x ≤ 3 := by
    intro _ _ v t _
    have hcases := writeRound_cases fuel sectorno nandEccSectorSize n v t hB
    cases hval : (writeRound B fuel sectorno nandEccSectorSize n v).val t with
    | next w => trivial
    | exit r =>
        rw [hval] at hcases
        rintro x rfl
        exact hcases.code_le
  have hloop := Prog.loop_inv (I := fun _ _ _ => True)
    (Q := fun r _ => ∀ x, r = some x → x ≤ 3) hround (Nat.zero_add fuel) (i := 0)
    (a := ⟨0, pbuffer, 0xFFFFFFFF⟩) (s := d) trivial
  rw [ftlWriteSectors_eq_some.mp h, Flow.holds_exit] at hloop
  exact hloop c rfl

end Call

/-! ## After a format -/

/-- The first sector is stored after a format, whatever is in it. -/
theorem Formatted.roundsStore_first {d : Dev} (hB : B.FaultFree) (h : Formatted B d)
    (hpos : 0 < d.validBlocknum) (pbuffer : Bytes) :
    Prog.Rounds (RoundStores B 0 1) (fun _ => writeRound B 2 0 nandEccSectorSize 1) 2 0
      ⟨0, pbuffer, 0xFFFFFFFF⟩ d := by
  have hw := wholeSectors_512 B
  obtain ⟨hsecs, w, hi, hval, -⟩ := writeRound_blank hB 2 hw pbuffer h.sound.toPlaced
    (inRange_first hw hpos) (h.partBlank_first hw hpos) 0xFFFFFFFF
  have hpage : roundPage B 0 nandEccSectorSize ⟨0, pbuffer, 0xFFFFFFFF⟩ d =
      d.lut 0 * B.blockPagenum + 0 := by
    simp [roundPage, lbnno, blockoffset]
  have hcol : blockoffset B 0 nandEccSectorSize 0 % B.pageMainsize = 0 := by
    simp [blockoffset]
  have hle : nandEccSectorSize ≤ B.pageMainsize := hw.toSectorSize.le
  have hserved : RoundServed B 0 nandEccSectorSize 1 ⟨0, pbuffer, 0xFFFFFFFF⟩ d := by
    rw [RoundServed, hpage, hsecs, hcol]
    exact ⟨fun j hj => h.clean 0 hpos 0 B.pagenum_pos _
      (by simp only [nandEccSectorSize] at hj hle; omega), hB.code _ _, fun _ => hB.code _ _⟩
  refine ⟨.of_fits (fun _ k _ _ j _ => ?_) fun hnot => absurd hserved hnot, ?_⟩
  · rw [hpage, h.clean 0 hpos 0 B.pagenum_pos _ (by omega), ff_and]
  · rw [hval, Flow.holds_next, Prog.Rounds]
    refine ⟨fun hlt => absurd hlt (by omega), ?_⟩
    cases (writeRound B 2 0 nandEccSectorSize 1 w).val
        ((writeRound B 2 0 nandEccSectorSize 1 ⟨0, pbuffer, 0xFFFFFFFF⟩).state d) with
    | next y => trivial
    | exit r => trivial

end Apollo.Ftl
