import Apollo.Ftl.Recover
import Apollo.Ftl.Disk

/-!
# What a retry writes

The retry loop of `ftl_copy_and_write_to_block` does not set its arguments back: a pass
that fails at a page at or behind the first page to be written has used up a piece of
the buffer, and the next pass goes on with the rest.  So the whole buffer arrives
exactly when every failed pass failed before that page.

## Main definitions

* `CopyArgs.reach` — where the window of the arguments ends; a retry moves it down.
* `argsAfter_of_before`, `argsAfter_reach_lt` — the two kinds of failed passes.
* `rewrite_data` — the data of a block after a rewrite that returned 0.
* `whole_buffer_iff` — when it is the whole buffer.
-/

namespace Apollo.Ftl
open Lib Nand

variable {B : Board} {pageoffset : ℕ} {v : CopyArgs}

/-! ## Where the window ends -/

/-- The end of the window that the arguments name, from the first page to be written on. -/
def CopyArgs.reach (v : CopyArgs) : ℕ := v.colnum + v.numbyte

theorem step_reach_le (hv : v.InPage B) (pageoffset i : ℕ) :
    (v.step B pageoffset i).reach ≤ v.reach := by
  rw [hv.step_eq]
  split
  · simp only [CopyArgs.reach]
    omega
  · exact Nat.le_refl _

/-- A page that takes a piece of the buffer moves the end down. -/
theorem step_reach_lt (hv : v.InPage B) {i : ℕ} (hi : pageoffset ≤ i) (hn : v.numbyte ≠ 0) :
    (v.step B pageoffset i).reach < v.reach := by
  have hcol := hv.colnum_lt
  rw [hv.step_eq, if_pos ⟨hi, hn⟩]
  simp only [CopyArgs.reach]
  omega

theorem argsAt_reach_antitone (hv : v.InPage B) (pageoffset : ℕ) {i j : ℕ} (h : i ≤ j) :
    (argsAt B pageoffset v j).reach ≤ (argsAt B pageoffset v i).reach := by
  induction j, h using Nat.le_induction with
  | base => exact Nat.le_refl _
  | succ j _ ih => exact (step_reach_le (hv.argsAt pageoffset j) pageoffset j).trans ih

/-- A pass that fails at a page from the first written one on has moved the end down. -/
theorem argsAt_reach_lt (hv : v.InPage B) {i : ℕ} (hi : pageoffset ≤ i) (hn : v.numbyte ≠ 0) :
    (argsAt B pageoffset v (i + 1)).reach < v.reach := by
  have hfirst : argsAt B pageoffset v pageoffset = v := argsAt_before (Nat.le_refl _)
  have hstep : (argsAt B pageoffset v (pageoffset + 1)).reach < v.reach := by
    rw [argsAt, hfirst]
    exact step_reach_lt hv (Nat.le_refl _) hn
  exact lt_of_le_of_lt (argsAt_reach_antitone hv pageoffset (Nat.succ_le_succ hi)) hstep

theorem argsAfter_reach_le (hv : v.InPage B) (pageoffset : ℕ) (failed : List ℕ) :
    (argsAfter B pageoffset failed v).reach ≤ v.reach := by
  induction failed generalizing v with
  | nil => exact Nat.le_refl _
  | cons i failed ih =>
      exact (ih (hv.argsAt pageoffset (i + 1))).trans
        (argsAt_reach_antitone hv pageoffset (Nat.zero_le (i + 1)))

/-- Passes that failed before the first page to be written have used up nothing. -/
theorem argsAfter_of_before {failed : List ℕ} (h : ∀ i ∈ failed, i < pageoffset) :
    argsAfter B pageoffset failed v = v := by
  induction failed with
  | nil => rfl
  | cons i failed ih =>
      have hi : argsAt B pageoffset v (i + 1) = v := argsAt_before (h i List.mem_cons_self)
      rw [argsAfter, List.foldl_cons, hi]
      exact ih fun j hj => h j (List.mem_cons_of_mem _ hj)

/-- With nothing to be written no pass changes the arguments. -/
theorem argsAfter_of_empty (hn : v.numbyte = 0) (failed : List ℕ) :
    argsAfter B pageoffset failed v = v := by
  have hargs : ∀ i, argsAt B pageoffset v i = v := by
    intro i
    induction i with
    | zero => rfl
    | succ i ih => rw [argsAt, ih, CopyArgs.step, if_neg fun h => h.2 hn]
  induction failed with
  | nil => rfl
  | cons i failed ih =>
      rw [argsAfter, List.foldl_cons, hargs]
      exact ih

/-- After any other failed pass the end of the window is not reached any more. -/
theorem argsAfter_reach_lt (hv : v.InPage B) (hn : v.numbyte ≠ 0) {failed : List ℕ} {i : ℕ}
    (hi : i ∈ failed) (hle : pageoffset ≤ i) :
    (argsAfter B pageoffset failed v).reach < v.reach := by
  induction failed with
  | nil => cases hi
  | cons j failed ih =>
      rw [argsAfter, List.foldl_cons]
      by_cases hj : pageoffset ≤ j
      · exact lt_of_le_of_lt (argsAfter_reach_le (hv.argsAt pageoffset (j + 1)) pageoffset failed)
          (argsAt_reach_lt hv hj hn)
      · have hsame : argsAt B pageoffset v (j + 1) = v := argsAt_before (by omega)
        rw [hsame]
        refine ih ((List.mem_cons.mp hi).resolve_left ?_)
        omega

/-! ## The data of a logical block -/

theorem ne_succ_byte (x : UInt8) : x ≠ x + 1 := by
  intro h
  have hnat := congrArg UInt8.toNat h
  have hlt := x.toNat_lt
  rw [UInt8.toNat_add, UInt8.toNat_one] at hnat
  omega

/-- The main bytes of logical block `l`. -/
def logicalData (B : Board) (d : Dev) (l : ℕ) : Bytes := blockData B d.flash (d.lut l)

/-- The buffer laid over the data of the source, from what the failed passes have left of
the arguments. -/
theorem Outcome.data {d d' : Dev} (h : Sound B d) {l : ℕ} (hl : l < d.validBlocknum)
    (hv : v.InPage B) (ho : Outcome B (d.lut l) pageoffset v d 0 d') :
    ∃ failed, failedPages B (d.ticks .copyback) (unusedBlocks B d.flash (d.lut l % 2)).card =
        some failed ∧
      ∀ o < blockSize B, logicalData B d' l o =
        overlay (logicalData B d l)
          (pageoffset * B.pageMainsize + (argsAfter B pageoffset failed v).colnum)
          (argsAfter B pageoffset failed v).pbuffer
            (argsAfter B pageoffset failed v).numbyte o := by
  cases ho with
  | @done d₁ d' u failed hs hfailed ht hm =>
      refine ⟨failed, hfailed, fun o ho => ?_⟩
      have hl₁ : l < d₁.validBlocknum := by rwa [hs.validBlocknum]
      have hlut : d.lut l = d₁.lut l := by rw [hs.lut]
      have hentry : d'.lut l = u := by
        rw [hm.lut, hlut, hs.sound.replaced_eq hl₁ u, Function.update_self]
      have hne : d.lut l ≠ u := hlut ▸ hs.sound.ne_of_blank hl₁ ht.blank
      have hsource : blockData B d₁.flash (d.lut l) o = logicalData B d l o := by
        rw [blockData, hs.flash _ (h.not_blank hl) _ (offset_page_lt B ho)]
        rfl
      rw [logicalData, hentry, hm.flash, blockData_moved (hv.argsAfter pageoffset failed) hne
        (hs.sound.erased u ht.lt ht.blank) ho]
      exact overlay_congr_at (fun _ => hsource) fun _ _ => rfl

section Rewrite
variable {l colnum n fuel : ℕ} {d : Dev}

/-- A rewrite that returns 0 has laid what the failed passes have left of the buffer over the
data of the block. -/
theorem rewrite_data (hB : B.Steady) (h : Sound B d) (hl : l < d.validBlocknum)
    (hp : pageoffset < B.blockPagenum) (hcol : colnum < B.pageMainsize) (hn : n < 2 ^ 32)
    (pbuffer : Bytes)
    (hval : (ftlCopyAndWriteToBlock B fuel (d.lut l * B.blockPagenum + pageoffset) colnum pbuffer
      n).val d = some 0) :
    ∃ failed, failedPages B (d.ticks .copyback) (unusedBlocks B d.flash (d.lut l % 2)).card =
        some failed ∧
      ∀ o < blockSize B,
        logicalData B ((ftlCopyAndWriteToBlock B fuel (d.lut l * B.blockPagenum + pageoffset) colnum
          pbuffer n).state d) l o =
        overlay (logicalData B d l)
          (pageoffset * B.pageMainsize +
            (argsAfter B pageoffset failed ⟨colnum, pbuffer, n⟩).colnum)
          (argsAfter B pageoffset failed ⟨colnum, pbuffer, n⟩).pbuffer
          (argsAfter B pageoffset failed ⟨colnum, pbuffer, n⟩).numbyte o := by
  rcases ftlCopyAndWriteToBlock_spec hB fuel colnum pbuffer n h hl hp with
    ⟨hnone, -, -⟩ | ⟨c, hc, ho⟩
  · rw [hval] at hnone
    cases hnone
  · obtain rfl : 0 = c := Option.some.inj (hval.symm.trans hc)
    exact ho.data h hl ⟨hcol, hn⟩

/-- A rewrite returns 0 when some pass succeeds. -/
theorem rewrite_returns (hB : B.Steady) (h : Sound B d) (hl : l < d.validBlocknum)
    (hp : pageoffset < B.blockPagenum) (colnum : ℕ) (pbuffer : Bytes) (n : ℕ)
    (hfuel : (unusedBlocks B d.flash (d.lut l % 2)).card < fuel) {failed : List ℕ}
    (hfailed : failedPages B (d.ticks .copyback) (unusedBlocks B d.flash (d.lut l % 2)).card =
      some failed) :
    (ftlCopyAndWriteToBlock B fuel (d.lut l * B.blockPagenum + pageoffset) colnum pbuffer n).val d =
      some 0 := by
  rcases ftlCopyAndWriteToBlock_spec hB fuel colnum pbuffer n h hl hp with ⟨-, -, hle⟩ | ⟨c, hc, ho⟩
  · omega
  · cases ho with
    | full _ hnone =>
        rw [hnone] at hfailed
        cases hfailed
    | done => exact hc

/-- For a logical block, a place in it and a length that fits in the rest of the block:
`ftl_copy_and_write_to_block` lays every buffer whole over the data, whenever it returns
0, if and only if the length is 0 or each failed pass before the one that succeeds fails
before the first page to be written.  There is fuel for every unused block. -/
theorem whole_buffer_iff (l pageoffset colnum n fuel : ℕ) (hB : B.Steady) (h : Sound B d)
    (hl : l < d.validBlocknum)
    (hp : pageoffset < B.blockPagenum) (hcol : colnum < B.pageMainsize)
    (hn : pageoffset * B.pageMainsize + colnum + n ≤ blockSize B)
    (hfuel : (unusedBlocks B d.flash (d.lut l % 2)).card < fuel) :
    (∀ pbuffer : Bytes,
      (ftlCopyAndWriteToBlock B fuel (d.lut l * B.blockPagenum + pageoffset) colnum
        pbuffer n).val d =
        some 0 →
      ∀ o < blockSize B,
        logicalData B ((ftlCopyAndWriteToBlock B fuel (d.lut l * B.blockPagenum + pageoffset) colnum
          pbuffer n).state d) l o =
        overlay (logicalData B d l) (pageoffset * B.pageMainsize + colnum) pbuffer n o) ↔
    n = 0 ∨ ∀ failed,
      failedPages B (d.ticks .copyback) (unusedBlocks B d.flash (d.lut l % 2)).card = some failed →
      ∀ i ∈ failed, i < pageoffset := by
  have hn32 : n < 2 ^ 32 := by
    have hsize := blockSize_lt B
    omega
  constructor
  · intro hwhole
    by_cases hzero : n = 0
    · exact Or.inl hzero
    refine Or.inr fun failed hfailed i hi => ?_
    by_contra hge
    -- the last byte of the buffer is beyond what the last pass writes
    set o := pageoffset * B.pageMainsize + colnum + (n - 1) with ho
    have hlt : o < blockSize B := by omega
    set pbuffer : Bytes := fun _ => logicalData B d l o + 1 with hbuffer
    have hval := rewrite_returns hB h hl hp colnum pbuffer n hfuel hfailed
    obtain ⟨failed', hfailed', hdata⟩ := rewrite_data hB h hl hp hcol hn32 pbuffer hval
    obtain rfl : failed = failed' := Option.some.inj (hfailed.symm.trans hfailed')
    have hreach := argsAfter_reach_lt (B := B) (v := ⟨colnum, pbuffer, n⟩) ⟨hcol, hn32⟩ hzero hi
      (Nat.not_lt.mp hge)
    simp only [CopyArgs.reach] at hreach
    have heq := (hdata o hlt).symm.trans (hwhole pbuffer hval o hlt)
    rw [overlay_after (by omega), overlay_inside (by omega) (by omega)] at heq
    exact ne_succ_byte _ heq
  · intro hcond pbuffer hval o ho
    obtain ⟨failed, hfailed, hdata⟩ := rewrite_data hB h hl hp hcol hn32 pbuffer hval
    have hargs : argsAfter B pageoffset failed ⟨colnum, pbuffer, n⟩ = ⟨colnum, pbuffer, n⟩ := by
      rcases hcond with hzero | hbefore
      · exact argsAfter_of_empty hzero failed
      · exact argsAfter_of_before (hbefore failed hfailed)
    rw [hargs] at hdata
    exact hdata o ho

end Rewrite

/-! ## A copy that fails once -/

section First
variable {d : Dev}

theorem failedPages_first {t m : ℕ} (hfail : ¬ CopyOk B t) (hok : ∀ j, CopyOk B (t + 1 + j))
    (hm : 2 ≤ m) : failedPages B t m = some [0] := by
  obtain ⟨m, rfl⟩ := Nat.exists_eq_add_of_le' hm
  rw [failedPages_of_failed B.pagenum_pos (fun j hj => absurd hj (Nat.not_lt_zero j)) hfail,
    failedPages_of_ok fun j _ => hok j]
  rfl

/-- Four unused blocks in a row are two of each plane. -/
theorem two_le_unusedBlocks {f : Flash} {first par : ℕ} (hpar : par < 2)
    (hblank : ∀ b < B.blockTotalnum, first ≤ b → Blank B f b)
    (hfirst : first + 3 < B.blockTotalnum) : 2 ≤ (unusedBlocks B f par).card := by
  have hmem : ∀ b, first ≤ b → b < B.blockTotalnum → b % 2 = par → b ∈ unusedBlocks B f par :=
    fun b hle hlt hb => mem_unusedBlocks.mpr ⟨hlt, hb, hblank b hlt hle⟩
  set b := first + (first + par) % 2 with hb
  exact Finset.one_lt_card.mpr ⟨b, hmem b (by omega) (by omega) (by omega), b + 2,
    hmem (b + 2) (by omega) (by omega) (by omega), by omega⟩

/-- On a chip out of the factory whose first copy-back fails, the first rewrite after a format
has one failed pass. -/
theorem failedPages_format (hB : B.Steady) (herase : B.ErasesOk)
    (htotal : 100 ≤ B.blockTotalnum * 93 / 100)
    (hroom : B.blockTotalnum * 93 / 100 + 3 < B.blockTotalnum) (hfail : ¬ CopyOk B 0)
    (hok : ∀ j, CopyOk B (1 + j)) :
    let d := (ftlFormat B).state Dev.blank
    (ftlFormat B).val Dev.blank = 0 ∧ Formatted B d ∧ 0 < d.validBlocknum ∧
      failedPages B (d.ticks .copyback) (unusedBlocks B d.flash (d.lut 0 % 2)).card = some [0] := by
  intro d
  obtain ⟨hval, hformatted, hvalid, -, hblank⟩ := ftlFormat_blank hB herase htotal
  have hlt : d.validBlocknum = B.blockTotalnum * 93 / 100 := hvalid
  have hticks : d.ticks .copyback = 0 := ftlFormat_copiesNothing hB.reads Dev.blank
  refine ⟨hval, hformatted, by omega, ?_⟩
  rw [hticks]
  exact failedPages_first hfail (fun j => by rw [Nat.zero_add]; exact hok j)
    (two_le_unusedBlocks (Nat.mod_lt (d.lut 0) (by decide)) hblank (by omega))

/-- A byte written into a blank first logical block does not arrive when the pass before has
failed at the first page. -/
theorem Formatted.not_whole (hB : B.Steady) (h : Formatted B d) (hpos : 0 < d.validBlocknum)
    (hfailed : failedPages B (d.ticks .copyback) (unusedBlocks B d.flash (d.lut 0 % 2)).card =
      some [0]) :
    let r := ftlCopyAndWriteToBlock B (B.blockTotalnum + 1) (d.lut 0 * B.blockPagenum + 0) 0
      (fun _ => 0) 1
    r.val d = some 0 ∧
      ¬ ∀ o < blockSize B, logicalData B (r.state d) 0 o =
        overlay (logicalData B d 0) (0 * B.pageMainsize + 0) (fun _ => 0) 1 o := by
  intro r
  have hval : r.val d = some 0 :=
    rewrite_returns hB h.sound hpos B.pagenum_pos 0 (fun _ => 0) 1
      (Nat.lt_succ_of_le (card_unusedBlocks_le ..)) hfailed
  refine ⟨hval, fun hwhole => ?_⟩
  obtain ⟨failed, hfailed', hdata⟩ := rewrite_data hB h.sound hpos B.pagenum_pos B.mainsize_pos
    (by decide) _ hval
  obtain rfl : [0] = failed := Option.some.inj (hfailed.symm.trans hfailed')
  have hreach := argsAfter_reach_lt (B := B) (v := ⟨0, fun _ => 0, 1⟩)
    ⟨B.mainsize_pos, by decide⟩ one_ne_zero (List.mem_singleton_self 0) (Nat.le_refl 0)
  have hms := B.mainsize_pos
  have hclean : logicalData B d 0 0 = 0xFF := by
    rw [logicalData, blockData, Nat.zero_div, Nat.zero_mod]
    exact h.clean 0 hpos 0 B.pagenum_pos 0 (by omega)
  have hzero := (hdata 0 (blockSize_pos B)).symm.trans (hwhole 0 (blockSize_pos B))
  simp only [CopyArgs.reach] at hreach
  rw [overlay_outside (by omega), overlay_inside (by omega) (by omega), hclean] at hzero
  exact absurd hzero (by decide)

end First

/-- The 512 MB part on a board on which the first copy-back fails and nothing else. -/
def retryBoard : Board := .faulty part512 (fun _ => 0xFFFFFFFF) 0 fun n => n = 0

theorem retryBoard_failedPages :
    let d := (ftlFormat retryBoard).state Dev.blank
    (ftlFormat retryBoard).val Dev.blank = 0 ∧ Formatted retryBoard d ∧ 0 < d.validBlocknum ∧
      failedPages retryBoard (d.ticks .copyback)
        (unusedBlocks retryBoard d.flash (d.lut 0 % 2)).card = some [0] :=
  have hcopy : ∀ t, CopyOk retryBoard t ↔ t ≠ 0 := fun _ =>
    copyOk_faulty.trans decide_eq_false_iff_not
  failedPages_format (Board.faulty_steady _ _ _ _) (Board.faulty_erases _ _ _ _) (by decide)
    (by decide) (fun h => (hcopy 0).mp h rfl) fun j => (hcopy _).mpr (by omega)

/-- A buffer written from the second page on arrives whole, although the first pass fails. -/
theorem whole_buffer_retryBoard :
    let d := (ftlFormat retryBoard).state Dev.blank
    let r := fun pbuffer => ftlCopyAndWriteToBlock retryBoard (retryBoard.blockTotalnum + 1)
      (d.lut 0 * retryBoard.blockPagenum + 1) 0 pbuffer 1
    ∀ pbuffer, (r pbuffer).val d = some 0 → ∀ o < blockSize retryBoard,
      logicalData retryBoard ((r pbuffer).state d) 0 o =
        overlay (logicalData retryBoard d 0) (1 * retryBoard.pageMainsize + 0) pbuffer 1 o := by
  obtain ⟨-, hformatted, hpos, hfailed⟩ := retryBoard_failedPages
  have hsteady : retryBoard.Steady := Board.faulty_steady _ _ _ _
  have hp : 1 < retryBoard.blockPagenum := by decide
  have hcol : 0 < retryBoard.pageMainsize := by decide
  have hn : 1 * retryBoard.pageMainsize + 0 + 1 ≤ blockSize retryBoard := by decide
  have hiff := whole_buffer_iff 0 1 0 1 (retryBoard.blockTotalnum + 1) hsteady
    hformatted.sound hpos hp hcol hn (Nat.lt_succ_of_le (card_unusedBlocks_le ..))
  refine hiff.mpr (Or.inr ?_)
  intro failed heq i hi
  obtain rfl : [0] = failed := Option.some.inj (hfailed.symm.trans heq)
  rw [List.mem_singleton.mp hi]
  exact Nat.one_pos

/-- After the format of a new chip a byte is written into the first logical block, and the
first copy-back fails: the call returns 0, and the byte is not there. -/
theorem retry_loses_buffer :
    let d := (ftlFormat retryBoard).state Dev.blank
    let r := ftlCopyAndWriteToBlock retryBoard (retryBoard.blockTotalnum + 1)
      (d.lut 0 * retryBoard.blockPagenum + 0) 0 (fun _ => 0) 1
    retryBoard.Steady ∧ Sound retryBoard d ∧ 0 < d.validBlocknum ∧ r.val d = some 0 ∧
      ¬ ∀ o < blockSize retryBoard, logicalData retryBoard (r.state d) 0 o =
        overlay (logicalData retryBoard d 0) (0 * retryBoard.pageMainsize + 0)
          (fun _ => 0) 1 o := by
  obtain ⟨-, hformatted, hpos, hfailed⟩ := retryBoard_failedPages
  have hsteady : retryBoard.Steady := Board.faulty_steady _ _ _ _
  exact ⟨hsteady, hformatted.sound, hpos, hformatted.not_whole hsteady hpos hfailed⟩

end Apollo.Ftl
