import Apollo.Ftl.Retry
import Apollo.Ftl.Read
import Apollo.Nand.Ecc

/-!
# Relocating a block while reading

A page that needs a correction twice is moved to another block: the corrected bytes are
written into the copy, and the old block is tested and then erased or marked bad.  As
long as the copy succeeds, the disk stays as it was, but for the corrected bits.  The
copy's return value is ignored, so where it fails the block that is retired is the one
that still holds the data.

## Main definitions

* `retireBlock_cases` — what becomes of the old block.
* `survives_retireBlock` — a block that is not mapped any more is retired without a loss.
* `retireBlock_mapped` — one that still is, is lost.
* `relocate_spec` — a relocation whose copy succeeds lays the buffer over its page, or nothing.
* `relocate_full` — one whose copy fails loses the block.
-/

namespace Apollo.Ftl
open Lib Nand

variable {B : Board}

/-! ## Retiring a block -/

/-- Everything but the pages of block `b`. -/
def others (B : Board) (b : ℕ) (d : Dev) : Flash × (ℕ → ℕ) × ℕ :=
  (eraseBlock B d.flash b, d.lut, d.validBlocknum)

theorem others_eq {b : ℕ} {d d' : Dev} (h : others B b d' = others B b d) :
    (∀ q, q / B.blockPagenum ≠ b → d'.flash q = d.flash q) ∧ d'.lut = d.lut ∧
      d'.validBlocknum = d.validBlocknum := by
  simp only [others, Prod.mk.injEq] at h
  refine ⟨fun q hq => ?_, h.2⟩
  rw [← eraseBlock_of_ne B d'.flash hq, h.1, eraseBlock_of_ne B d.flash hq]

theorem keeps_nandReadpagecomp (b pagenum colnum cmpval n k : ℕ) :
    Prog.Keeps (others B b) (nandReadpagecomp B pagenum colnum cmpval n k) := by
  intro d
  simp only [state_nandReadpagecomp]
  rfl

theorem keeps_nandEraseblock (hB : B.WritesOk) {b : ℕ} (hb : b < 2 ^ 16) :
    Prog.Keeps (others B b) (nandEraseblock B b) := by
  intro d
  rw [state_nandEraseblock hB hb, others, others, Dev.flash_erases]
  refine Prod.ext (funext fun q => ?_) rfl
  by_cases hq : q / B.blockPagenum = b
  · simp only [eraseBlock, if_pos hq]
  · simp only [eraseBlock, if_neg hq]

theorem keeps_nandWritePageconst (hB : B.WritesOk) {b i : ℕ} (hi : i < B.blockPagenum)
    (colnum cval n : ℕ) :
    Prog.Keeps (others B b) (nandWritePageconst B (b * B.blockPagenum + i) colnum cval n) := by
  intro d
  rw [state_nandWritePageconst hB.programs, others, others, Dev.flash_programs]
  refine Prod.ext (funext fun q => ?_) rfl
  by_cases hq : q / B.blockPagenum = b
  · simp only [eraseBlock, if_pos hq]
  · simp only [eraseBlock, if_neg hq]
    refine andPage_of_ne _ _ fun heq => hq ?_
    rw [heq, B.page_div _ hi]

theorem keeps_compareRound (hB : B.WritesOk) {b : ℕ} (hb : b < 2 ^ 16) (cmpval k : ℕ) :
    Prog.Keeps (others B b) (compareRound B b cmpval k) := by
  have hpages : Prog.Keeps (others B b) (comparePages B b cmpval k) :=
    .loop (fun _ _ => .bind (keeps_nandReadpagecomp _ _ _ _ _ _) fun _ => .pure _) _ _ _
  have hfill : Prog.Keeps (others B b) (Prog.forUp (fun k _ => do
      let _ ← nandWritePageconst B (b * B.blockPagenum + k) 0 0 (B.pageMainsize / 4)
      pure ()) B.blockPagenum 0 ()) :=
    .forUp (fun j hj _ => .bind (keeps_nandWritePageconst hB hj _ _ _) fun _ => .pure _) ()
      (Nat.zero_add _)
  refine .bind hpages fun r => ?_
  cases r with
  | next w => exact .pure _
  | exit k' =>
      refine .bind (keeps_nandEraseblock hB hb) fun res => .ite _ (.pure _) (.ite _ ?_ (.pure _))
      exact .bind hfill fun _ => .pure _

/-- The test changes no other block. -/
theorem keeps_ftlBlockcompare (hB : B.WritesOk) {b : ℕ} (hb : b < 2 ^ 16) (cmpval : ℕ) :
    Prog.Keeps (others B b) (ftlBlockcompare B b cmpval) := by
  refine .bind (.loop (fun _ k => keeps_compareRound hB hb cmpval k) _ _ _) fun r => ?_
  cases r <;> exact .pure _

/-- A retired block ends erased, or marked bad with the table rebuilt; the rest is as it was. -/
theorem retireBlock_cases (hB : B.Steady) {b : ℕ} (hb : b < 2 ^ 16) (d : Dev) :
    ∃ f : Flash, (∀ q, q / B.blockPagenum ≠ b → f q = d.flash q) ∧
      ((((retireBlock B b).state d).flash = eraseBlock B f b ∧
          ((retireBlock B b).state d).lut = d.lut ∧
          ((retireBlock B b).state d).validBlocknum = d.validBlocknum) ∨
        (((retireBlock B b).state d).flash = markBad B f b ∧
          ((retireBlock B b).state d).lut = table B ((retireBlock B b).state d).flash d.lut ∧
          ((retireBlock B b).state d).validBlocknum =
            (validOf B ((retireBlock B b).state d).lut).getD d.validBlocknum)) := by
  -- what the marks and the rebuild make of a state that has been tested
  have hmark : ∀ d₁, others B b d₁ = others B b d →
      ∃ f : Flash, (∀ q, q / B.blockPagenum ≠ b → f q = d.flash q) ∧
        let d₂ := (ftlCreateLut B 1).state ((ftlBadblockMark B b).state d₁)
        d₂.flash = markBad B f b ∧ d₂.lut = table B d₂.flash d.lut ∧
          d₂.validBlocknum = (validOf B d₂.lut).getD d.validBlocknum := by
    intro d₁ h₁
    obtain ⟨hother, hlut, hvalid⟩ := others_eq h₁
    have hr := ftlCreateLut_state hB.reads ((ftlBadblockMark B b).state d₁)
    have hflash : ((ftlBadblockMark B b).state d₁).flash = markBad B d₁.flash b := by
      rw [state_ftlBadblockMark hB.writes.programs]
      rfl
    have hsame : ((ftlBadblockMark B b).state d₁).lut = d.lut ∧
        ((ftlBadblockMark B b).state d₁).validBlocknum = d.validBlocknum := by
      rw [state_ftlBadblockMark hB.writes.programs]
      exact ⟨hlut, hvalid⟩
    refine ⟨d₁.flash, hother, hr.flash.trans hflash, ?_, ?_⟩
    · rw [hr.lut, hr.flash, hsame.1]
    · rw [hr.validBlocknum, hsame.2]
  set d₁ := (ftlBlockcompare B b 0xFFFFFFFF).state d with hd₁
  have h₁ : others B b d₁ = others B b d := keeps_ftlBlockcompare hB.writes hb _ d
  by_cases hones : (ftlBlockcompare B b 0xFFFFFFFF).val d = 0
  · set d₂ := (ftlBlockcompare B b 0).state d₁ with hd₂
    have h₂ : others B b d₂ = others B b d := (keeps_ftlBlockcompare hB.writes hb _ d₁).trans h₁
    by_cases hzeros : (ftlBlockcompare B b 0).val d₁ = 0
    · obtain ⟨hother, hlut, hvalid⟩ := others_eq h₂
      refine ⟨d₂.flash, hother, Or.inl ?_⟩
      have hstate : (retireBlock B b).state d = d₂.erases B b := by
        simp only [retireBlock, Prog.state_bind, Prog.val_bind, Prog.state_pure, Prog.val_pure,
          ← hd₁, ← hd₂, hones, hzeros, if_true, ne_eq,
          not_true_eq_false, if_false, state_nandEraseblock hB.writes hb]
      rw [hstate]
      exact ⟨rfl, hlut, hvalid⟩
    · have h₃ : others B b ((nandEraseblock B b).state d₂) = others B b d :=
        (keeps_nandEraseblock hB.writes hb d₂).trans h₂
      obtain ⟨f, hother, hrest⟩ := hmark _ h₃
      refine ⟨f, hother, Or.inr ?_⟩
      have hstate : (retireBlock B b).state d =
          (ftlCreateLut B 1).state
            ((ftlBadblockMark B b).state ((nandEraseblock B b).state d₂)) := by
        simp only [retireBlock, Prog.state_bind, Prog.val_bind, Prog.state_pure, Prog.val_pure,
          ← hd₁, ← hd₂, hones, hzeros, if_true, ne_eq,
          not_false_eq_true]
      rw [hstate]
      exact hrest
  · obtain ⟨f, hother, hrest⟩ := hmark _ h₁
    refine ⟨f, hother, Or.inr ?_⟩
    have hstate : (retireBlock B b).state d =
        (ftlCreateLut B 1).state ((ftlBadblockMark B b).state d₁) := by
      simp only [retireBlock, Prog.state_bind, Prog.state_pure, Prog.val_pure, ← hd₁, hones,
        if_false, ne_eq, not_false_eq_true, if_true]
    rw [hstate]
    exact hrest

theorem Survives.disk {d d' : Dev} (h : Sound B d) (hs : Survives B d d') {a : ℕ}
    (ha : a < d.validBlocknum * blockSize B) : disk B d' a = disk B d a := by
  have hl : a / blockSize B < d.validBlocknum := Nat.div_lt_of_lt_mul (by rwa [Nat.mul_comm])
  rw [Ftl.disk, Ftl.disk, hs.lut]
  exact blockData_congr (hs.flash _ (h.not_blank hl)) (Nat.mod_lt _ (blockSize_pos B))

/-- A block that has been left blank is retired without a loss. -/
theorem survives_retireBlock (hB : B.Steady) {b : ℕ} (hb : b < B.blockTotalnum) {d : Dev}
    (h : Sound B d) (hblank : Blank B d.flash b) : Survives B d ((retireBlock B b).state d) := by
  have htot := B.total_lt
  obtain ⟨f, hother, ⟨hflash, hlut, hvalid⟩ | ⟨hflash, hlut, hvalid⟩⟩ :=
    retireBlock_cases hB (show b < 2 ^ 16 by omega) d
  · have hsame : eraseBlock B f b = d.flash := by
      funext q
      by_cases hq : q / B.blockPagenum = b
      · rw [eraseBlock, if_pos hq, ← B.page_eta q, hq,
          h.erased b hb hblank _ (Nat.mod_lt _ B.pagenum_pos)]
      · rw [eraseBlock_of_ne B f hq, hother q hq]
    rw [hsame] at hflash
    refine ⟨?_, hlut, hvalid, fun c _ i _ => by rw [hflash]⟩
    rw [Sound, hflash, hlut, hvalid]
    exact h
  · exact .of_markBad h hblank hother hflash hlut hvalid

/-- A block that is still mapped when it is retired is lost: it is left erased, or mapped no
more. -/
theorem retireBlock_mapped (hB : B.Steady) {l : ℕ} {d : Dev} (h : Sound B d)
    (hl : l < d.validBlocknum) :
    let d' := (retireBlock B (d.lut l)).state d
    (∀ o < blockSize B, blockData B d'.flash (d'.lut l) o = 0xFF) ∨ d'.lut l = 0xFFFF := by
  intro d'
  have htot := B.total_lt
  have hvalid := h.valid_lt
  have hlt := h.lut_lt l hl
  obtain ⟨f, hother, ⟨hflash, hlut, -⟩ | ⟨hflash, hlut, -⟩⟩ :=
    retireBlock_cases hB (show d.lut l < 2 ^ 16 by omega) d
  · refine Or.inl fun o ho => ?_
    rw [hlut, hflash, blockData, eraseBlock_same _ _ _ (offset_page_lt B ho)]
    rfl
  · right
    rw [hlut]
    refine (rebuild_of_none fun b hb hown htag => ?_).trans
      (overlay_inside (Nat.zero_le _) (by omega))
    rw [hflash] at hown htag
    by_cases hbl : b = d.lut l
    · rw [hbl] at hown
      exact markBad_first hown.1.1
    · have hpage : ∀ i < B.blockPagenum, markBad B f (d.lut l) (b * B.blockPagenum + i) =
          d.flash (b * B.blockPagenum + i) := by
        intro i hi
        rw [markBad_other (by rwa [B.page_div _ hi]), hother _ (by rwa [B.page_div _ hi])]
      have hzero : markBad B f (d.lut l) (b * B.blockPagenum) = d.flash (b * B.blockPagenum) :=
        hpage 0 B.pagenum_pos
      have hone : markBad B f (d.lut l) (b * B.blockPagenum + 1) =
          d.flash (b * B.blockPagenum + 1) := hpage 1 B.two_le_pagenum
      rw [tag, hzero] at htag
      rw [Owner, Good, tag, hzero, hone] at hown
      have howner := (h.owner b hb hown).2
      rw [tag, htag] at howner
      exact hbl howner.symm

/-! ## Moving a page that has been corrected -/

/-- In a window that ends in its page the failed passes leave everything or nothing of the
buffer. -/
theorem argsAfter_inPage {v : CopyArgs} (hv : v.InPage B)
    (hfit : v.colnum + v.numbyte ≤ B.pageMainsize)
    (pageoffset : ℕ) (failed : List ℕ) :
    argsAfter B pageoffset failed v = v ∨
      ((argsAfter B pageoffset failed v).numbyte = 0 ∧
        (argsAfter B pageoffset failed v).colnum = 0) := by
  induction failed generalizing v with
  | nil => exact Or.inl rfl
  | cons i failed ih =>
      by_cases hn : v.numbyte = 0
      · exact Or.inl (argsAfter_of_empty hn (i :: failed))
      rw [argsAfter, List.foldl_cons]
      by_cases hi : i < pageoffset
      · rw [argsAt_before (Nat.succ_le_of_lt hi)]
        exact ih hv hfit
      · obtain ⟨hnum, -, hcol⟩ := argsAt_after pageoffset hv (show pageoffset < i + 1 by omega)
        have hle : B.pageMainsize ≤ (i + 1 - pageoffset) * B.pageMainsize :=
          Nat.le_mul_of_pos_left _ (by omega)
        have hzero : (argsAt B pageoffset v (i + 1)).numbyte = 0 := by
          rw [hnum, taken]
          omega
        right
        have hsame : argsAfter B pageoffset failed (argsAt B pageoffset v (i + 1)) = _ :=
          argsAfter_of_empty hzero failed
        rw [argsAfter] at hsame
        rw [hsame]
        exact ⟨hzero, hcol hn⟩

/-- A copy some pass of which succeeds, of a buffer that ends in its page, lays the whole buffer
over the page or nothing of it, and leaves the old block blank. -/
theorem Outcome.overlaid {d d' : Dev} {l pageoffset c : ℕ} {v : CopyArgs} (h : Sound B d)
    (hl : l < d.validBlocknum) (hp : pageoffset < B.blockPagenum) (hv : v.InPage B)
    (hfit : v.colnum + v.numbyte ≤ B.pageMainsize)
    (hfinds : failedPages B (d.ticks .copyback) (unusedBlocks B d.flash (d.lut l % 2)).card ≠ none)
    (ho : Outcome B (d.lut l) pageoffset v d c d') :
    Blank B d'.flash (d.lut l) ∧ ∃ m, (m = v.numbyte ∨ m = 0) ∧
      ∀ a < d.validBlocknum * blockSize B, disk B d' a = overlay (disk B d)
        (l * blockSize B + (pageoffset * B.pageMainsize + v.colnum)) v.pbuffer m a := by
  cases ho with
  | full _ hnone => exact absurd hnone hfinds
  | @done d₁ d' u failed hs _ ht hm =>
      have hl₁ : l < d₁.validBlocknum := by rwa [hs.validBlocknum]
      have hlut : d₁.lut l = d.lut l := by rw [hs.lut]
      have hend : pageoffset * B.pageMainsize + B.pageMainsize ≤ blockSize B := page_end_le B hp
      have hinPage := hv.argsAfter pageoffset failed
      refine ⟨by rw [hm.flash]; exact moved_blank, ?_⟩
      rcases argsAfter_inPage hv hfit pageoffset failed with hall | ⟨hnum, hcol⟩
      · refine ⟨v.numbyte, Or.inl rfl, fun a ha => ?_⟩
        rw [hall] at hm
        rw [← hs.validBlocknum] at ha
        rw [Moved.disk hs.sound hl₁ hv (by rwa [hlut]) (by rwa [hlut]) (by omega) ha]
        exact overlay_congr_at (fun _ => hs.disk h (by rwa [← hs.validBlocknum])) fun _ _ => rfl
      · refine ⟨0, Or.inr rfl, fun a ha => ?_⟩
        have ha₁ : a < d₁.validBlocknum * blockSize B := by rwa [hs.validBlocknum]
        rw [Moved.disk hs.sound hl₁ hinPage (by rwa [hlut]) (by rwa [hlut]) (by omega) ha₁, hnum,
          overlay_zero, overlay_zero]
        exact hs.disk h ha

/-- A relocation some pass of which succeeds lays its whole buffer over the page, or nothing of
it, and changes nothing else of the disk. -/
theorem relocate_spec (hB : B.Steady) {fuel l pageoffset colnum n : ℕ} (pbuffer : Bytes) {d : Dev}
    (h : Sound B d) (hl : l < d.validBlocknum) (hp : pageoffset < B.blockPagenum)
    (hcol : colnum < B.pageMainsize) (hfit : colnum + n ≤ B.pageMainsize)
    (hfuel : B.blockTotalnum < fuel)
    (hfinds : failedPages B (d.ticks .copyback)
      (unusedBlocks B d.flash (d.lut l % 2)).card ≠ none) :
    let r := relocate B fuel (d.lut l * B.blockPagenum + pageoffset) colnum pbuffer n
    r.val d = some () ∧ Sound B (r.state d) ∧ (r.state d).validBlocknum = d.validBlocknum ∧
      ∃ m, (m = n ∨ m = 0) ∧ ∀ a < d.validBlocknum * blockSize B, disk B (r.state d) a =
        overlay (disk B d) (l * blockSize B + (pageoffset * B.pageMainsize + colnum))
          pbuffer m a := by
  have hms := B.mainsize_le
  have hn : n < 2 ^ 32 := by omega
  have hv : CopyArgs.InPage B ⟨colnum, pbuffer, n⟩ := ⟨hcol, hn⟩
  have hcard := card_unusedBlocks_le B d.flash (d.lut l % 2)
  set copy := ftlCopyAndWriteToBlock B fuel (d.lut l * B.blockPagenum + pageoffset) colnum pbuffer n
    with hcopy
  have hspec := ftlCopyAndWriteToBlock_spec hB fuel colnum pbuffer n h hl hp
  rw [← hcopy] at hspec
  rcases hspec with ⟨-, -, hle⟩ | ⟨c, hval, ho⟩
  · omega
  · set d₁ := copy.state d with hd₁
    obtain ⟨hsound, hvalid⟩ := ho.sound hl hv
    obtain ⟨hblank, m, hm, hdisk⟩ := ho.overlaid h hl hp hv hfit hfinds
    have hs := survives_retireBlock hB (h.lut_lt l hl) hsound hblank
    have hstate : (relocate B fuel (d.lut l * B.blockPagenum + pageoffset) colnum pbuffer n) d =
        (some (), (retireBlock B (d.lut l)).state d₁) := by
      rw [relocate, B.page_div _ hp, ← hcopy, Prog.bind_apply, hval, ← hd₁]
      rfl
    simp only [Prog.val, Prog.state, hstate]
    refine ⟨trivial, hs.sound, hs.validBlocknum.trans hvalid, m, hm, fun a ha => ?_⟩
    rw [← hdisk a ha]
    exact hs.disk hsound (by rwa [hvalid])

/-- A relocation no pass of which succeeds goes on all the same, and loses the block. -/
theorem relocate_full (fuel colnum : ℕ) (hB : B.Steady) {l pageoffset n : ℕ}
    (pbuffer : Bytes) {d : Dev} (h : Sound B d) (hl : l < d.validBlocknum)
    (hp : pageoffset < B.blockPagenum) (hfuel : B.blockTotalnum < fuel)
    (hnone : failedPages B (d.ticks .copyback) (unusedBlocks B d.flash (d.lut l % 2)).card = none) :
    let r := relocate B fuel (d.lut l * B.blockPagenum + pageoffset) colnum pbuffer n
    r.val d = some () ∧
      ((∀ o < blockSize B, blockData B (r.state d).flash ((r.state d).lut l) o = 0xFF) ∨
        (r.state d).lut l = 0xFFFF) := by
  have hcard := card_unusedBlocks_le B d.flash (d.lut l % 2)
  set copy := ftlCopyAndWriteToBlock B fuel (d.lut l * B.blockPagenum + pageoffset) colnum pbuffer n
    with hcopy
  have hspec := ftlCopyAndWriteToBlock_spec hB fuel colnum pbuffer n h hl hp
  rw [← hcopy] at hspec
  rcases hspec with ⟨-, -, hle⟩ | ⟨c, hval, ho⟩
  · omega
  · have hs : Survives B d (copy.state d) := by
      cases ho with
      | full survives => exact survives
      | done _ hsome =>
          rw [hnone] at hsome
          cases hsome
    have hstate : (relocate B fuel (d.lut l * B.blockPagenum + pageoffset) colnum pbuffer n) d =
        (some (), (retireBlock B ((copy.state d).lut l)).state (copy.state d)) := by
      rw [relocate, B.page_div _ hp, ← hcopy, Prog.bind_apply, hval, hs.lut]
      rfl
    have hlost := retireBlock_mapped hB hs.sound (by rwa [hs.validBlocknum])
    simp only [Prog.val, Prog.state, hstate]
    exact ⟨trivial, hlost⟩

end Apollo.Ftl
