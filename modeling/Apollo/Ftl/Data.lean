import Apollo.Ftl.Rewrite

/-!
# The data of a block

The main bytes of a block in one row, and what a move makes of them: the page loop
cuts the buffer at the page boundaries, and the pieces add up to one overlay.

## Main definitions

* `blockSize`, `blockData` — the main bytes of a block.
* `argsAt_before`, `argsAt_after` — the arguments at every page in closed form.
* `blockData_moved` — a move overlays the buffer.
-/

namespace Apollo.Ftl
open Lib Nand

/-- How many main bytes a block has. -/
abbrev blockSize (B : Board) : ℕ := B.blockPagenum * B.pageMainsize

/-- The main bytes of block `b`, page after page. -/
def blockData (B : Board) (f : Flash) (b : ℕ) : Bytes :=
  fun o => f (b * B.blockPagenum + o / B.pageMainsize) (o % B.pageMainsize)

section Offsets
variable (B : Board) {o : ℕ}

theorem offset_page_lt (ho : o < blockSize B) : o / B.pageMainsize < B.blockPagenum :=
  Nat.div_lt_of_lt_mul (by rwa [Nat.mul_comm])

theorem offset_col_lt : o % B.pageMainsize < B.pageMainsize := Nat.mod_lt _ B.mainsize_pos

theorem offset_eta : o / B.pageMainsize * B.pageMainsize + o % B.pageMainsize = o :=
  Nat.div_add_mod' o B.pageMainsize

theorem offset_div (i : ℕ) {c : ℕ} (hc : c < B.pageMainsize) :
    (i * B.pageMainsize + c) / B.pageMainsize = i := row_div hc

theorem offset_mod (i : ℕ) {c : ℕ} (hc : c < B.pageMainsize) :
    (i * B.pageMainsize + c) % B.pageMainsize = c := Nat.mul_add_mod_of_lt hc

/-- A page below another one ends before it begins. -/
theorem page_end_le {i j : ℕ} (h : i < j) :
    i * B.pageMainsize + B.pageMainsize ≤ j * B.pageMainsize := by
  rw [← Nat.succ_mul]
  exact Nat.mul_le_mul_right _ h

end Offsets

variable {B : Board} {v : CopyArgs} {pageoffset : ℕ}

/-! ## The arguments in closed form -/

theorem argsAt_before {i : ℕ} (hi : i ≤ pageoffset) : argsAt B pageoffset v i = v := by
  induction i with
  | zero => rfl
  | succ i ih =>
      rw [argsAt, ih (by omega), CopyArgs.step, if_neg (by omega)]

/-- How many bytes of the buffer the pages from the first written one up to page `i` take. -/
def taken (B : Board) (pageoffset : ℕ) (v : CopyArgs) (i : ℕ) : ℕ :=
  min v.numbyte ((i - pageoffset) * B.pageMainsize - v.colnum)

/-- Past the first written page the column is 0 and the buffer has moved on by what the
pages before took. -/
theorem argsAt_after (pageoffset : ℕ) (hv : v.InPage B) {i : ℕ} (hi : pageoffset < i) :
    (argsAt B pageoffset v i).numbyte = v.numbyte - taken B pageoffset v i ∧
      (argsAt B pageoffset v i).pbuffer = shift v.pbuffer (taken B pageoffset v i) ∧
      (v.numbyte ≠ 0 → (argsAt B pageoffset v i).colnum = 0) := by
  have hcol := hv.colnum_lt
  induction i with
  | zero => omega
  | succ i ih =>
      have hsucc : (i + 1 - pageoffset) * B.pageMainsize =
          (i - pageoffset) * B.pageMainsize + B.pageMainsize := by
        rw [← Nat.succ_mul]
        congr 1
        omega
      by_cases hip : i = pageoffset
      · subst hip
        rw [Nat.sub_self, Nat.zero_mul, Nat.zero_add] at hsucc
        rw [argsAt, argsAt_before (Nat.le_refl i), taken, hsucc, hv.step_eq]
        by_cases hn : v.numbyte = 0
        · rw [if_neg (by omega), hn, Nat.zero_min, shift_zero]
          exact ⟨rfl, rfl, fun h => absurd rfl h⟩
        · rw [if_pos ⟨Nat.le_refl i, hn⟩]
          exact ⟨rfl, rfl, fun _ => rfl⟩
      · obtain ⟨hnum, hbuf, hzero⟩ := ih (by omega)
        have hle : B.pageMainsize ≤ (i - pageoffset) * B.pageMainsize :=
          Nat.le_mul_of_pos_left _ (by omega)
        rw [taken] at hnum hbuf
        rw [argsAt, taken, hsucc, (hv.argsAt pageoffset i).step_eq]
        by_cases hleft : (argsAt B pageoffset v i).numbyte = 0
        · have htaken :
              min v.numbyte ((i - pageoffset) * B.pageMainsize + B.pageMainsize - v.colnum) =
              min v.numbyte ((i - pageoffset) * B.pageMainsize - v.colnum) := by omega
          rw [if_neg (by omega), htaken]
          exact ⟨hnum, hbuf, hzero⟩
        · rw [if_pos ⟨by omega, hleft⟩]
          have hc0 : (argsAt B pageoffset v i).colnum = 0 := hzero (by omega)
          have htaken : min v.numbyte ((i - pageoffset) * B.pageMainsize - v.colnum) +
              min (argsAt B pageoffset v i).numbyte
                (B.pageMainsize - (argsAt B pageoffset v i).colnum) =
              min v.numbyte ((i - pageoffset) * B.pageMainsize + B.pageMainsize - v.colnum) := by
            rw [hc0, hnum]
            omega
          refine ⟨?_, ?_, fun _ => rfl⟩
          · show (argsAt B pageoffset v i).numbyte - _ = _
            rw [← htaken, hnum]
            omega
          · show shift (argsAt B pageoffset v i).pbuffer _ = _
            rw [hbuf, shift_shift, htaken]

/-! ## What a move makes of the data -/

/-- The edit of a page in the main area: the part of the buffer that falls into it. -/
theorem editAt_main (hv : v.InPage B) (page : Bytes) {i c : ℕ} (hc : c < B.pageMainsize) :
    editAt B pageoffset v i page c =
      overlay (fun o => page (o - i * B.pageMainsize)) (pageoffset * B.pageMainsize + v.colnum)
        v.pbuffer v.numbyte (i * B.pageMainsize + c) := by
  have hcol := hv.colnum_lt
  have hrest : page (i * B.pageMainsize + c - i * B.pageMainsize) = page c := by
    rw [Nat.add_sub_cancel_left]
  rcases Nat.lt_trichotomy i pageoffset with hlt | heq | hgt
  · have hend := page_end_le B hlt
    rw [editAt, CopyArgs.edit, if_neg (by omega), overlay_before (by omega), hrest]
    rfl
  · subst heq
    rw [editAt, argsAt_before (Nat.le_refl i), CopyArgs.edit]
    by_cases hn : v.numbyte = 0
    · rw [if_neg (by omega), overlay_outside (by omega), hrest]
      rfl
    · rw [if_pos ⟨Nat.le_refl i, hn⟩]
      refine (loadRegister_low B page _ _ _ (by omega)).trans ?_
      rw [hv.wrlen]
      by_cases hin : v.colnum ≤ c ∧ c < v.colnum + v.numbyte
      · rw [overlay_inside hin.1 (by omega), overlay_inside (by omega) (by omega)]
        congr 1
        omega
      · rw [overlay_outside (by omega), overlay_outside (by omega), hrest]
  · obtain ⟨hnum, hbuf, hzero⟩ := argsAt_after pageoffset hv hgt
    have hend := page_end_le B hgt
    have hsplit : i * B.pageMainsize =
        (i - pageoffset) * B.pageMainsize + pageoffset * B.pageMainsize := by
      rw [← Nat.add_mul]
      congr 1
      omega
    rw [taken] at hnum hbuf
    rw [editAt, CopyArgs.edit]
    by_cases hleft : (argsAt B pageoffset v i).numbyte = 0
    · rw [if_neg (by omega), overlay_outside (by omega), hrest]
      rfl
    · rw [if_pos ⟨by omega, hleft⟩]
      refine (loadRegister_low B page _ _ _ (by omega)).trans ?_
      have hc0 : (argsAt B pageoffset v i).colnum = 0 := hzero (by omega)
      rw [(hv.argsAt pageoffset i).wrlen, hc0, hbuf]
      by_cases hin : c < (argsAt B pageoffset v i).numbyte
      · rw [overlay_inside (by omega) (by omega), overlay_inside (by omega) (by omega), shift_apply]
        congr 1
        omega
      · rw [overlay_outside (by omega), overlay_outside (by omega), hrest]

/-- Moving a block to an erased one overlays the buffer on its data. -/
theorem blockData_moved {f : Flash} {source unused : ℕ} (hv : v.InPage B) (hne : source ≠ unused)
    (herased : ∀ i < B.blockPagenum, f (unused * B.blockPagenum + i) = erasedPage) {o : ℕ}
    (ho : o < blockSize B) :
    blockData B (moved B f source unused pageoffset v) unused o =
      overlay (blockData B f source) (pageoffset * B.pageMainsize + v.colnum) v.pbuffer v.numbyte
        o := by
  have hi := offset_page_lt B ho
  have hc := offset_col_lt B (o := o)
  rw [blockData, moved_dest hne hi (congrFun (herased _ hi) _) (by omega), editAt_main hv _ hc,
    offset_eta]
  refine overlay_congr_at (fun _ => ?_) fun _ _ => rfl
  rw [blockData]
  congr 1
  have := offset_eta B (o := o)
  omega

end Apollo.Ftl
