import Apollo.Ftl.Disk

/-!
# Reading sectors

One round of `ftl_read_sectors` reads the sectors of a page.  Where the chip delivers
the stored bytes and never reports a corrected bit, nothing is moved, and the whole
call delivers its window of the disk.

## Main definitions

* `readSecs` — how many sectors a round reads.
* `readRound_mapped` — a round that finds its block.
* `ReadsClean` — the chip delivers the stored bytes, with or without a report.
* `ftlReadSectors_clean` — a read of such a disk.
-/

namespace Apollo.Ftl
open Lib Nand

variable {B : Board}

/-! ## A round -/

/-- How many sectors a round reads. -/
def readSecs (B : Board) (sectorno sectorsize sectorcount i : ℕ) : ℕ :=
  min ((B.pageMainsize - blockoffset B sectorno sectorsize i % B.pageMainsize) / sectorsize)
    (sectorcount - i)

/-- The physical page a round reads. -/
def readPage (B : Board) (sectorno sectorsize i : ℕ) (d : Dev) : ℕ :=
  d.lut (lbnno B sectorno sectorsize i) * B.blockPagenum +
    blockoffset B sectorno sectorsize i / B.pageMainsize

/-- How a round goes on with what `readAndRelocate` returns. -/
def afterRead (B : Board) (sectorno sectorsize sectorcount : ℕ) (v : ReadVars) :
    Option (ℕ × Bytes) → Flow ReadVars (Option ℕ × Bytes)
  | none => .exit (none, v.pbuffer)
  | some (flag, p) =>
      if (if flag = nstaEcc2biterr then 0 else flag) ≠ 0 then
        .exit (some 2, graft v.pbuffer v.offset p)
      else .next ⟨advance v.i (readSecs B sectorno sectorsize sectorcount v.i),
        graft v.pbuffer v.offset p,
        v.offset + sectorsize * readSecs B sectorno sectorsize sectorcount v.i⟩

theorem readRound_finished (B : Board) (fuel sectorno sectorsize : ℕ) {sectorcount : ℕ}
    {v : ReadVars} (d : Dev)
    (hi : ¬ v.i < sectorcount) :
    readRound B fuel sectorno sectorsize sectorcount v d = (.exit (some 0, v.pbuffer), d) := by
  rw [readRound, if_neg hi]
  rfl

section Round
variable {fuel sectorno sectorsize sectorcount : ℕ} {v : ReadVars} {d : Dev}

/-- A round that finds its block reads a page of it. -/
theorem readRound_mapped (hi : v.i < sectorcount)
    (hl : lbnno B sectorno sectorsize v.i ≤ d.validBlocknum)
    (mapped : d.lut (lbnno B sectorno sectorsize v.i) < B.blockTotalnum) :
    readRound B fuel sectorno sectorsize sectorcount v d = (do
      let r ← readAndRelocate B fuel (readPage B sectorno sectorsize v.i d)
        (blockoffset B sectorno sectorsize v.i % B.pageMainsize) (shift v.pbuffer v.offset)
        (readSecs B sectorno sectorsize sectorcount v.i * sectorsize)
      pure (afterRead B sectorno sectorsize sectorcount v r) :
        NandM (Flow ReadVars (Option ℕ × Bytes))) d := by
  have hpbn : (ftlLbnToPbn (lbnno B sectorno sectorsize v.i)) d =
      (d.lut (lbnno B sectorno sectorsize v.i), d) := by
    rw [ftlLbnToPbn_apply, if_neg (by omega)]
  have hsecs : (if (B.pageMainsize - blockoffset B sectorno sectorsize v.i % B.pageMainsize) /
        sectorsize > sectorcount - v.i then sectorcount - v.i
      else (B.pageMainsize - blockoffset B sectorno sectorsize v.i % B.pageMainsize) /
        sectorsize) = readSecs B sectorno sectorsize sectorcount v.i := by
    rw [readSecs]
    split <;> omega
  rw [readRound, if_pos hi, Prog.bind_apply, Prog.val, Prog.state, hpbn]
  simp only [if_neg (Nat.not_le.mpr mapped), hsecs]
  refine congrFun (congrArg (readAndRelocate B _ _ _ _ _ >>= ·) (funext fun r => ?_)) d
  rcases r with - | ⟨flag, p⟩
  · rfl
  · simp only [afterRead]
    split <;> split <;> rfl

/-- What a round reads lies in its page. -/
theorem readSecs_fits (B : Board) (sectorno sectorsize sectorcount i : ℕ) :
    blockoffset B sectorno sectorsize i % B.pageMainsize +
      readSecs B sectorno sectorsize sectorcount i * sectorsize ≤ B.pageMainsize := by
  have hcol := offset_col_lt B (o := blockoffset B sectorno sectorsize i)
  have hdiv := Nat.div_mul_le_self
    (B.pageMainsize - blockoffset B sectorno sectorsize i % B.pageMainsize) sectorsize
  have hle := Nat.mul_le_mul_right sectorsize (Nat.min_le_left
    ((B.pageMainsize - blockoffset B sectorno sectorsize i % B.pageMainsize) / sectorsize)
    (sectorcount - i))
  rw [readSecs]
  omega

/-- A sector begins at a multiple of its size in its page. -/
theorem sectorsize_dvd_col (hw : WholeSectors B sectorsize) (sectorno i : ℕ) :
    sectorsize ∣ blockoffset B sectorno sectorsize i % B.pageMainsize :=
  (Nat.dvd_mod_iff hw.page).mpr (Nat.dvd_mul_left _ _)

/-- A round that has something to read reads it. -/
theorem readSecs_pos (hw : WholeSectors B sectorsize) (sectorno : ℕ) {i : ℕ}
    (hi : i < sectorcount) : 0 < readSecs B sectorno sectorsize sectorcount i := by
  have hcol := offset_col_lt B (o := blockoffset B sectorno sectorsize i)
  have hdvd := Nat.dvd_sub hw.page (sectorsize_dvd_col hw sectorno i)
  have hroom := Nat.div_pos (Nat.le_of_dvd (by omega) hdvd) hw.pos
  rw [readSecs]
  omega

end Round

/-! ## A clean read -/

/-- However often the logical blocks are read, whole ECC sectors of a page are delivered as
they are stored, with no report or with the report that they could not be corrected. -/
def ReadsClean (B : Board) (d : Dev) : Prop :=
  ∀ d' : Dev, d'.flash = d.flash → ∀ l < d.validBlocknum, ∀ i < B.blockPagenum,
    ∀ (colnum n : ℕ) (pbuffer : Bytes), nandEccSectorSize ∣ colnum → nandEccSectorSize ∣ n →
      colnum + n ≤ B.pageMainsize →
      ∃ c, (c = 0 ∨ c = nstaEcc2biterr) ∧
        (nandReadpage B (d.lut l * B.blockPagenum + i) colnum pbuffer n).val d' =
          (c, overlay pbuffer 0 (shift (d.flash (d.lut l * B.blockPagenum + i)) colnum) n)

/-- The bytes of a page are a piece of the disk. -/
theorem disk_page {d : Dev} {l o j : ℕ} (ho : o < blockSize B)
    (hj : o % B.pageMainsize + j < B.pageMainsize) :
    disk B d (l * blockSize B + o + j) =
      d.flash (d.lut l * B.blockPagenum + o / B.pageMainsize) (o % B.pageMainsize + j) := by
  have heta := offset_eta B (o := o)
  have hend : o / B.pageMainsize * B.pageMainsize + B.pageMainsize ≤ blockSize B :=
    page_end_le B (offset_page_lt B ho)
  have hoj : o + j = o / B.pageMainsize * B.pageMainsize + (o % B.pageMainsize + j) := by omega
  have hlt : o + j < blockSize B := by omega
  rw [disk, Nat.add_assoc, Nat.add_comm (l * blockSize B),
    Nat.add_mul_div_right _ _ (blockSize_pos B), Nat.div_eq_of_lt hlt, Nat.zero_add,
    Nat.add_mul_mod_self_right, Nat.mod_eq_of_lt hlt, blockData, hoj, offset_div B _ hj,
    offset_mod B _ hj]

section Clean
variable (fuel : ℕ) {sectorno sectorsize sectorcount : ℕ}

/-- The locals of a read stand at sector `v.i` of its window: what comes before has been
delivered. -/
structure Reading (B : Board) (pbuffer : Bytes) (sectorno sectorsize sectorcount : ℕ) (d : Dev)
    (v : ReadVars) (d' : Dev) : Prop where
  le : v.i ≤ sectorcount
  offset : v.offset = v.i * sectorsize
  buffer : v.pbuffer =
    overlay pbuffer 0 (shift (disk B d) (sectorno * sectorsize)) (v.i * sectorsize)
  agrees : Agrees d d'

/-- A round of a clean read delivers the next piece of the window, or leaves with 0 when
there is none. -/
theorem Reading.round (hw : WholeSectors B sectorsize) {pbuffer : Bytes} {v : ReadVars} {d t : Dev}
    (hplaced : Placed B d.flash d.lut d.validBlocknum)
    (hclean : ReadsClean B d) (hr : InRange B sectorno sectorsize sectorcount d)
    (h : Reading B pbuffer sectorno sectorsize sectorcount d v t) :
    ((readRound B fuel sectorno sectorsize sectorcount v).val t).Holds
      (fun w => Reading B pbuffer sectorno sectorsize sectorcount d w
          ((readRound B fuel sectorno sectorsize sectorcount v).state t) ∧
        sectorcount - w.i < sectorcount - v.i)
      (fun out => out = (some 0, overlay pbuffer 0 (shift (disk B d) (sectorno * sectorsize))
          (sectorcount * sectorsize)) ∧
        Agrees d ((readRound B fuel sectorno sectorsize sectorcount v).state t)) := by
  by_cases hi : v.i < sectorcount
  · have hl := hr.lbnno_lt hw hplaced.valid_lt hi
    have hu := hr.u32_eq hw hplaced.valid_lt hi
    have hcount := hr.count_lt hw hplaced.valid_lt
    have hoff := blockoffset_lt hw.toSectorSize sectorno v.i
    have hfits := readSecs_fits B sectorno sectorsize sectorcount v.i
    have hpos := readSecs_pos hw sectorno hi
    have hle : readSecs B sectorno sectorsize sectorcount v.i ≤ sectorcount - v.i :=
      Nat.min_le_right _ _
    have haddr := sector_address hw sectorno v.i
    rw [hu] at haddr
    set n := readSecs B sectorno sectorsize sectorcount v.i with hn
    set page := readPage B sectorno sectorsize v.i t with hpage
    set col := blockoffset B sectorno sectorsize v.i % B.pageMainsize with hcol
    have hpage' : page = d.lut (lbnno B sectorno sectorsize v.i) * B.blockPagenum +
        blockoffset B sectorno sectorsize v.i / B.pageMainsize := by
      rw [hpage, readPage, h.agrees.lut]
    obtain ⟨c, hc, hval⟩ := hclean t h.agrees.flash _ hl _ (offset_page_lt B hoff) col
      (n * sectorsize) (shift v.pbuffer v.offset)
      (Nat.dvd_trans hw.ecc (sectorsize_dvd_col hw sectorno v.i))
      (Nat.dvd_mul_left_of_dvd hw.ecc _) hfits
    rw [← hpage'] at hval
    have hne : c ≠ nstaEcc1biterr := by
      intro heq
      rcases hc with hc | hc <;> rw [hc] at heq <;> cases heq
    have hread : readAndRelocate B fuel page col (shift v.pbuffer v.offset) (n * sectorsize) t =
        (some (c, overlay (shift v.pbuffer v.offset) 0 (shift (d.flash page) col)
          (n * sectorsize)), t.reads 1) := by
      rw [readAndRelocate, Prog.bind_apply, hval, state_nandReadpage, if_neg hne]
      rfl
    have hround : readRound B fuel sectorno sectorsize sectorcount v t =
        (.next ⟨v.i + n, overlay v.pbuffer v.offset (shift (d.flash page) col) (n * sectorsize),
          v.offset + sectorsize * n⟩, t.reads 1) := by
      rw [readRound_mapped hi (by rw [h.agrees.validBlocknum]; omega)
        (by rw [h.agrees.lut]; exact hplaced.lut_lt _ hl), Prog.bind_apply, Prog.val, Prog.state,
        ← hn, ← hpage, ← hcol, hread]
      have hflag : ¬ (if c = nstaEcc2biterr then 0 else c) ≠ 0 := by
        rcases hc with hc | hc <;> rw [hc] <;> decide
      simp only [afterRead, if_neg hflag, graft_overlay, ← hn, advance_eq (show v.i + n < 2 ^ 32 by
        omega)]
      rfl
    simp only [Prog.val, Prog.state, hround, Flow.holds_next]
    have hstep : v.i + n ≤ sectorcount := by omega
    refine ⟨⟨hstep, ?_, ?_, h.agrees.trans (agrees_reads t 1)⟩,
      (Nat.sub_lt_sub_left hi (Nat.lt_add_of_pos_right hpos))⟩
    · show v.offset + sectorsize * n = (v.i + n) * sectorsize
      rw [h.offset, Nat.add_mul, Nat.mul_comm n]
    · show overlay v.pbuffer v.offset _ _ = overlay pbuffer 0 _ ((v.i + n) * sectorsize)
      rw [Nat.add_mul, ← overlay_append, Nat.zero_add, ← h.buffer, ← h.offset]
      funext x
      refine overlay_congr_at (fun _ => rfl) fun h₁ h₂ => ?_
      rw [shift_shift, shift_apply, shift_apply, hpage', h.offset, ← Nat.add_mul, ← haddr]
      exact (disk_page hoff (by rw [← hcol, ← h.offset]; omega)).symm
  · have hround := readRound_finished B fuel sectorno sectorsize t hi
    have heq : v.i = sectorcount := Nat.le_antisymm h.le (Nat.not_lt.mp hi)
    simp only [Prog.val, Prog.state, hround, Flow.holds_exit]
    refine ⟨?_, h.agrees⟩
    rw [h.buffer, heq]

/-- A read of a disk that is delivered clean returns 0 with its window of the disk, and
changes nothing but the number of reads. -/
theorem ftlReadSectors_clean (hw : WholeSectors B sectorsize) (pbuffer : Bytes) {d : Dev}
    (hplaced : Placed B d.flash d.lut d.validBlocknum)
    (hclean : ReadsClean B d) (hr : InRange B sectorno sectorsize sectorcount d)
    (hfuel : sectorcount < fuel) :
    (ftlReadSectors B fuel pbuffer sectorno sectorsize sectorcount).val d =
        (some 0, overlay pbuffer 0 (shift (disk B d) (sectorno * sectorsize))
          (sectorcount * sectorsize)) ∧
      Agrees d ((ftlReadSectors B fuel pbuffer sectorno sectorsize sectorcount).state d) := by
  have hstart : Reading B pbuffer sectorno sectorsize sectorcount d ⟨0, pbuffer, 0⟩ d :=
    ⟨Nat.zero_le _, (Nat.zero_mul _).symm, by rw [Nat.zero_mul, overlay_zero], .refl d⟩
  obtain ⟨out, hout⟩ := Prog.loop_exits (fun _ =>
      readRound B fuel sectorno sectorsize sectorcount)
    (I := Reading B pbuffer sectorno sectorsize sectorcount d) (μ := fun v => sectorcount - v.i)
    (fun _ v t ht =>
      (ht.round fuel hw hplaced hclean hr).imp (fun _ hnext => hnext) fun _ _ => trivial)
    (k := fuel) (i := 0) (a := ⟨0, pbuffer, 0⟩) hfuel hstart
  have hloop := Prog.loop_inv
    (I := fun _ => Reading B pbuffer sectorno sectorsize sectorcount d)
    (Q := fun out t => out = (some 0, overlay pbuffer 0 (shift (disk B d) (sectorno * sectorsize))
      (sectorcount * sectorsize)) ∧ Agrees d t)
    (fun _ _ v t ht =>
      (ht.round fuel hw hplaced hclean hr).imp (fun _ hnext => hnext.1) fun _ hexit => hexit)
    (Nat.zero_add fuel) hstart
  rw [hout] at hloop
  simp only [ftlReadSectors, Prog.val_bind, Prog.state_bind, hout]
  exact hloop

end Clean
end Apollo.Ftl
