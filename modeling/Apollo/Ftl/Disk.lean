import Apollo.Ftl.Recover

/-!
# The disk

The main bytes of the logical blocks in one row are the disk.  On a chip on which
nothing fails, a round of `ftl_write_sectors` overlays a piece of the caller's buffer
on it, on either of its two paths, and leaves every other byte alone; the pieces of a
call add up to its window.

## Main definitions

* `disk` — the bytes of the disk.
* `disk_overlay` — a change of one logical block.
* `WriteRound.disk` — one round of a write.
* `ftlWriteSectors_disk` — a write that returned 0.
-/

namespace Apollo.Ftl
open Lib Nand

variable {B : Board}

/-! ## The view -/

/-- The bytes of the disk, logical block after logical block. -/
def disk (B : Board) (d : Dev) : Bytes :=
  fun a => blockData B d.flash (d.lut (a / blockSize B)) (a % blockSize B)

theorem blockSize_pos (B : Board) : 0 < blockSize B := Nat.mul_pos B.pagenum_pos B.mainsize_pos

theorem Agrees.disk {d d' : Dev} (h : Agrees d d') : disk B d' = disk B d := by
  funext a
  rw [Ftl.disk, Ftl.disk, h.flash, h.lut]

/-- The bytes of a sector of the disk are on the disk. -/
theorem sector_byte_lt {d : Dev} {s j : ℕ} (hs : s < diskSectors B nandEccSectorSize d)
    (hj : j < nandEccSectorSize) :
    s * nandEccSectorSize + j < d.validBlocknum * blockSize B := by
  have hend : (s + 1) * nandEccSectorSize ≤ d.validBlocknum * B.blockPagenum * B.pageMainsize :=
    Nat.mul_le_of_le_div _ _ _ (Nat.succ_le_of_lt hs)
  rw [Nat.succ_mul, Nat.mul_assoc] at hend
  exact lt_of_lt_of_le (Nat.add_lt_add_left hj _) hend

/-- A change of a window of one logical block is a change of a window of the disk. -/
theorem disk_overlay {d d' : Dev} {valid l o n : ℕ} {g : Bytes} (hfit : o + n ≤ blockSize B)
    (hself : ∀ x < blockSize B, blockData B d'.flash (d'.lut l) x =
      overlay (blockData B d.flash (d.lut l)) o g n x)
    (hother : ∀ l' < valid, l' ≠ l → ∀ x < blockSize B,
      blockData B d'.flash (d'.lut l') x = blockData B d.flash (d.lut l') x)
    {a : ℕ} (ha : a < valid * blockSize B) :
    disk B d' a = overlay (disk B d) (l * blockSize B + o) g n a := by
  have hx : a % blockSize B < blockSize B := Nat.mod_lt _ (blockSize_pos B)
  have heta := Nat.div_add_mod' a (blockSize B)
  have hq : a / blockSize B < valid := Nat.div_lt_of_lt_mul (by rwa [Nat.mul_comm])
  by_cases hl : a / blockSize B = l
  · rw [disk, hl, hself _ hx]
    rw [hl] at heta
    by_cases hin : o ≤ a % blockSize B ∧ a % blockSize B < o + n
    · rw [overlay_inside hin.1 hin.2, overlay_inside (by omega) (by omega)]
      congr 1
      omega
    · rw [overlay_outside hin, overlay_outside (by omega), disk, hl]
  · have hout : ¬(l * blockSize B + o ≤ a ∧ a < l * blockSize B + o + n) := by
      rcases Nat.lt_or_gt_of_ne hl with hlt | hgt
      · have hend := Nat.mul_le_mul_right (blockSize B) (Nat.succ_le_of_lt hlt)
        rw [Nat.succ_mul] at hend
        omega
      · have hend := Nat.mul_le_mul_right (blockSize B) (Nat.succ_le_of_lt hgt)
        rw [Nat.succ_mul] at hend
        omega
    rw [disk, hother _ hq hl _ hx, overlay_outside hout, disk]

/-- The blocks of two states hold the same data where their pages are the same. -/
theorem blockData_congr {f f' : Flash} {b : ℕ}
    (h : ∀ i < B.blockPagenum, f' (b * B.blockPagenum + i) = f (b * B.blockPagenum + i)) {x : ℕ}
    (hx : x < blockSize B) : blockData B f' b x = blockData B f b x := by
  rw [blockData, blockData, h _ (offset_page_lt B hx)]

/-! ## The two changes -/

/-- Moving a block overlays the buffer on the logical block and on nothing else. -/
theorem Moved.disk {d d' : Dev} {l u pageoffset : ℕ} {v : CopyArgs} (h : Sound B d)
    (hl : l < d.validBlocknum) (hv : v.InPage B) (ht : Target B d.flash (d.lut l) u)
    (hm : Moved B (d.lut l) u pageoffset v d d')
    (hfit : pageoffset * B.pageMainsize + v.colnum + v.numbyte ≤ blockSize B) {a : ℕ}
    (ha : a < d.validBlocknum * blockSize B) :
    disk B d' a = overlay (disk B d) (l * blockSize B + (pageoffset * B.pageMainsize + v.colnum))
      v.pbuffer v.numbyte a := by
  have hsu : d.lut l ≠ u := h.ne_of_blank hl ht.blank
  have hlut : d'.lut = Function.update d.lut l u := by rw [hm.lut, h.replaced_eq hl]
  refine disk_overlay hfit (fun x hx => ?_) (fun l' hl' hne x hx => ?_) ha
  · rw [hlut, Function.update_self, hm.flash]
    exact blockData_moved hv hsu (h.erased u ht.lt ht.blank) hx
  · rw [hlut, Function.update_of_ne hne, hm.flash]
    refine blockData_congr (fun i hi => moved_other ?_ ?_) hx
    · rw [B.page_div _ hi]
      exact fun heq => hne (h.injective hl' hl heq)
    · rw [B.page_div _ hi]
      exact h.ne_of_blank hl' ht.blank

/-- Programming a blank part of a page overlays the buffer on the logical block and on
nothing else. -/
theorem Programmed.disk {d d' : Dev} {l i col n : ℕ} {pbuffer : Bytes} (h : Sound B d)
    (hl : l < d.validBlocknum) (hi : i < B.blockPagenum) (hfit : col + n ≤ B.pageMainsize)
    (hblank : ∀ j < n, d.flash (d.lut l * B.blockPagenum + i) (col + j) = 0xFF)
    (hp : Programmed B (d.lut l * B.blockPagenum + i) (d.lut l)
      (loadRegister B erasedPage col pbuffer n) d d') {a : ℕ}
    (ha : a < d.validBlocknum * blockSize B) :
    disk B d' a =
      overlay (disk B d) (l * blockSize B + (i * B.pageMainsize + col)) pbuffer n a := by
  have hend : i * B.pageMainsize + B.pageMainsize ≤ blockSize B := page_end_le B hi
  refine disk_overlay (by omega) (fun x hx => ?_) (fun l' hl' hne x hx => ?_) ha
  · have hcol := offset_col_lt B (o := x)
    have heta := offset_eta B (o := x)
    -- the used mark is in the spare area
    rw [hp.lut, blockData, hp.apply (by omega)]
    by_cases hxi : x / B.pageMainsize = i
    · rw [hxi, andPage_apply, loadRegister_low _ _ _ _ _ (by omega)]
      rw [hxi] at heta
      by_cases hin : col ≤ x % B.pageMainsize ∧ x % B.pageMainsize < col + n
      · have hff := hblank (x % B.pageMainsize - col) (by omega)
        rw [Nat.add_sub_cancel' hin.1] at hff
        rw [hff, ff_and, overlay_inside hin.1 hin.2, overlay_inside (by omega) (by omega)]
        congr 1
        omega
      · rw [overlay_outside hin, erasedPage_apply, and_ff, overlay_outside (by omega), blockData,
          hxi]
    · have hne : d.lut l * B.blockPagenum + x / B.pageMainsize ≠ d.lut l * B.blockPagenum + i := by
        omega
      have hout : ¬(i * B.pageMainsize + col ≤ x ∧ x < i * B.pageMainsize + col + n) := by
        rcases Nat.lt_or_gt_of_ne hxi with hlt | hgt
        · have := page_end_le B hlt
          omega
        · have := page_end_le B hgt
          omega
      rw [andPage_of_ne _ _ hne, overlay_outside hout, blockData]
  · rw [hp.lut]
    refine blockData_congr (fun j hj => hp.other hi ?_) hx
    rw [B.page_div _ hj]
    exact fun heq => hne (h.injective hl' hl heq)

/-! ## A write -/

/-- A round that goes on has overlaid the next piece of the buffer on the disk. -/
theorem WriteRound.disk (hB : B.FaultFree) {fuel sectorno sectorsize sectorcount : ℕ}
    (hw : WholeSectors B sectorsize) (hcount : sectorcount < 2 ^ 16) {v w : WriteVars} {d d' : Dev}
    (h : Sound B d) (hr : InRange B sectorno sectorsize sectorcount d)
    (hround : WriteRound B fuel sectorno sectorsize sectorcount v d (.next w) d') :
    ∃ n, w.i = v.i + n ∧ w.i ≤ sectorcount ∧ w.pbuffer = shift v.pbuffer (n * sectorsize) ∧
      d'.validBlocknum = d.validBlocknum ∧
      ∀ a < d.validBlocknum * blockSize B, Ftl.disk B d' a =
        overlay (Ftl.disk B d) ((sectorno + v.i) * sectorsize) v.pbuffer (n * sectorsize) a := by
  have hoff := blockoffset_lt hw.toSectorSize sectorno v.i
  have hpage := offset_page_lt B hoff
  have hcol := offset_col_lt B (o := blockoffset B sectorno sectorsize v.i)
  have heta := offset_eta B (o := blockoffset B sectorno sectorsize v.i)
  have haddr := sector_address hw sectorno v.i
  generalize hout : Flow.next w = out at hround
  cases hround with
  | finished => cases hout
  | outside => cases hout
  | unreadable => cases hout
  | inPlace m hi hl hmap hblank hp =>
      obtain rfl := Flow.next.inj hout
      have hlv := hr.lbnno_lt hw h.valid_lt hi
      have hu := hr.u32_eq hw h.valid_lt hi
      have hle := pageSecs_le B sectorno sectorsize sectorcount v.i
      have hfour : 4 ∣ pageSecs B sectorno sectorsize sectorcount v.i * sectorsize :=
        Nat.dvd_mul_left_of_dvd (Nat.dvd_trans (by decide) hw.ecc) _
      rw [RoundBlank, Nat.mul_div_cancel' hfour] at hblank
      have hadv : advance v.i (pageSecs B sectorno sectorsize sectorcount v.i) =
          v.i + pageSecs B sectorno sectorsize sectorcount v.i := advance_eq (by omega)
      refine ⟨_, hadv, hadv.le.trans ?_, rfl, hp.validBlocknum, fun a ha => ?_⟩
      · omega
      · have hdisk := Programmed.disk h hlv hpage (pageSecs_fits ..) hblank hp ha
        rwa [heta, haddr, hu] at hdisk
  | @rewrite m d₁ hi hl hmap htried =>
      have ha : Agrees d d₁ := (htried.agrees hB).1
      have hlv := hr.lbnno_lt hw h.valid_lt hi
      have hu := hr.u32_eq hw h.valid_lt hi
      have h₁ := h.of_agrees ha
      have hfits := blockSecs_fits B sectorno sectorsize sectorcount v.i
      have hsize := blockSize_lt B
      have hle := blockSecs_le B sectorno sectorsize sectorcount v.i
      have hlv₁ : lbnno B sectorno sectorsize v.i < d₁.validBlocknum := by
        rwa [ha.validBlocknum]
      have hcopy := ftlCopyAndWriteToBlock_faultFree hB fuel
        (blockoffset B sectorno sectorsize v.i % B.pageMainsize) v.pbuffer
        (blockSecs B sectorno sectorsize sectorcount v.i * sectorsize) (h₁.lut_lt _ hlv₁)
        (h₁.not_blank hlv₁) hpage
      rw [ha.lut] at hcopy
      rcases hcopy with ⟨-, hval, -⟩ | ⟨hval, -⟩ | ⟨u, ht, hval, hm⟩
      · rw [roundCopy, roundPage, hval] at hout
        cases hout
      · rw [roundCopy, roundPage, hval] at hout
        cases hout
      · rw [roundCopy, roundPage, hval] at hout
        obtain rfl := Flow.next.inj hout
        have hadv : advance v.i (blockSecs B sectorno sectorsize sectorcount v.i) =
            v.i + blockSecs B sectorno sectorsize sectorcount v.i := advance_eq (by omega)
        refine ⟨_, hadv, hadv.le.trans ?_, rfl, hm.validBlocknum.trans ha.validBlocknum,
          fun a hlt => ?_⟩
        · omega
        · have hnum :
              blockSecs B sectorno sectorsize sectorcount v.i * sectorsize < 2 ^ 32 := by omega
          have hwin : blockoffset B sectorno sectorsize v.i / B.pageMainsize * B.pageMainsize +
              blockoffset B sectorno sectorsize v.i % B.pageMainsize +
              blockSecs B sectorno sectorsize sectorcount v.i * sectorsize ≤ blockSize B := by omega
          have hdisk := Moved.disk h₁ (l := lbnno B sectorno sectorsize v.i)
            (by rwa [ha.validBlocknum]) ⟨hcol, hnum⟩ (by rwa [ha.lut]) (by rw [ha.lut]; exact hm)
            hwin (by rwa [ha.validBlocknum])
          rw [heta, haddr, hu, ha.disk] at hdisk
          exact hdisk

/-- What a write has made of the disk after `k` of its sectors. -/
structure Written (B : Board) (pbuffer : Bytes) (sectorno sectorsize k : ℕ) (d d' : Dev) :
    Prop where
  sound : Sound B d'
  validBlocknum : d'.validBlocknum = d.validBlocknum
  disk : ∀ a < d.validBlocknum * blockSize B, Ftl.disk B d' a =
    overlay (Ftl.disk B d) (sectorno * sectorsize) pbuffer (k * sectorsize) a

/-- The pieces of two rounds are adjacent. -/
theorem Written.append {pbuffer : Bytes} {sectorno sectorsize k n : ℕ} {d d' d'' : Dev}
    (h : Written B pbuffer sectorno sectorsize k d d') (hsound : Sound B d'')
    (hvalid : d''.validBlocknum = d'.validBlocknum)
    (hdisk : ∀ a < d'.validBlocknum * blockSize B, Ftl.disk B d'' a =
      overlay (Ftl.disk B d') ((sectorno + k) * sectorsize) (shift pbuffer (k * sectorsize))
        (n * sectorsize) a) : Written B pbuffer sectorno sectorsize (k + n) d d'' where
  sound := hsound
  validBlocknum := hvalid.trans h.validBlocknum
  disk := by
    intro a ha
    rw [hdisk a (by rwa [h.validBlocknum]), Nat.add_mul sectorno, Nat.add_mul k, ← overlay_append]
    exact overlay_congr_at (fun _ => h.disk a ha) fun _ _ => rfl

/-- A round leaves with 0 only when there is nothing left to write. -/
theorem WriteRound.exit_zero {fuel sectorno sectorsize sectorcount : ℕ} {v : WriteVars}
    {d d' : Dev}
    (hround : WriteRound B fuel sectorno sectorsize sectorcount v d (.exit (some 0)) d') :
    sectorcount ≤ v.i ∧ d' = d := by
  generalize hout : Flow.exit (some 0) = out at hround
  cases hround with
  | finished hi => exact ⟨Nat.not_lt.mp hi, rfl⟩
  | outside => simp at hout
  | unreadable => simp at hout
  | inPlace => cases hout
  | @rewrite m d₁ =>
      revert hout
      cases (roundCopy B fuel sectorno sectorsize sectorcount v d).val d₁ with
      | none => simp [afterCopy]
      | some c =>
          simp only [afterCopy]
          split <;> simp

/-- The locals of a write stand at sector `v.i` of its window. -/
structure Writing (B : Board) (pbuffer : Bytes) (sectorno sectorsize sectorcount : ℕ) (d : Dev)
    (v : WriteVars) (d' : Dev) : Prop where
  le : v.i ≤ sectorcount
  buffer : v.pbuffer = shift pbuffer (v.i * sectorsize)
  written : Written B pbuffer sectorno sectorsize v.i d d'

/-- One round of a write. -/
theorem WriteRound.writing (hB : B.FaultFree) {fuel sectorno sectorsize sectorcount : ℕ}
    (hw : WholeSectors B sectorsize) (hcount : sectorcount < 2 ^ 16) {pbuffer : Bytes}
    {v : WriteVars} {d t t' : Dev} {out : Flow WriteVars (Option ℕ)}
    (hr : InRange B sectorno sectorsize sectorcount d)
    (h : Writing B pbuffer sectorno sectorsize sectorcount d v t)
    (hround : WriteRound B fuel sectorno sectorsize sectorcount v t out t') :
    out.Holds (fun w => Writing B pbuffer sectorno sectorsize sectorcount d w t')
      (fun c => c = some 0 → Written B pbuffer sectorno sectorsize sectorcount d t') := by
  have hsound := hround.sound hB.steady hw.toSectorSize h.written.sound
  have hrt : InRange B sectorno sectorsize sectorcount t := by
    intro i hi
    rw [diskSectors, h.written.validBlocknum]
    exact hr i hi
  cases out with
  | next w =>
      obtain ⟨n, hi, hle, hbuf, hvalid, hdisk⟩ :=
        WriteRound.disk hB hw hcount h.written.sound hrt hround
      rw [h.buffer] at hdisk
      refine ⟨hle, ?_, ?_⟩
      · rw [hbuf, h.buffer, shift_shift, hi, Nat.add_mul]
      · rw [hi]
        exact h.written.append hsound hvalid hdisk
  | exit c =>
      intro hc
      rw [hc] at hround
      obtain ⟨hge, rfl⟩ := hround.exit_zero
      have hwritten := h.written
      rwa [Nat.le_antisymm h.le hge] at hwritten

/-- A write that returned 0 has overlaid its buffer on its window of the disk. -/
theorem ftlWriteSectors_disk (hB : B.FaultFree) {fuel sectorno sectorsize sectorcount : ℕ}
    (hw : WholeSectors B sectorsize) (hcount : sectorcount < 2 ^ 16) (pbuffer : Bytes) {d : Dev}
    (h : Sound B d) (hr : InRange B sectorno sectorsize sectorcount d)
    (hval : (ftlWriteSectors B fuel pbuffer sectorno sectorsize sectorcount).val d = some 0) :
    Written B pbuffer sectorno sectorsize sectorcount d
      ((ftlWriteSectors B fuel pbuffer sectorno sectorsize sectorcount).state d) := by
  have hstart : Writing B pbuffer sectorno sectorsize sectorcount d ⟨0, pbuffer, 0xFFFFFFFF⟩ d :=
    ⟨Nat.zero_le _, by rw [Nat.zero_mul, shift_zero],
      ⟨h, rfl, fun a _ => by rw [Nat.zero_mul, overlay_zero]⟩⟩
  have hloop := Prog.loop_inv
    (I := fun _ => Writing B pbuffer sectorno sectorsize sectorcount d)
    (Q := fun c t => c = some 0 → Written B pbuffer sectorno sectorsize sectorcount d t)
    (fun _ _ v t ht => (writeRound_cases fuel sectorno sectorsize sectorcount v t
      hB.steady).writing hB hw hcount hr ht) (Nat.zero_add fuel) hstart
  revert hval hloop
  simp only [ftlWriteSectors, Prog.val_bind, Prog.state_bind]
  cases (Prog.loop (fun _ => writeRound B fuel sectorno sectorsize sectorcount) fuel 0
      ⟨0, pbuffer, 0xFFFFFFFF⟩).val d with
  | next v =>
      intro hval
      cases hval
  | exit c => exact fun hval hloop => hloop hval

end Apollo.Ftl
