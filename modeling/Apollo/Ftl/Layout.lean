import Apollo.Ftl.Format
import Mathlib.Data.Nat.Nth

/-!
# The layout after a format

A format numbers the good blocks in order: logical block `k` lies in the `k`-th good
block, for as many as 93 percent of the good blocks, and the rest stay erased.  It asks
for 100 good blocks, and the table it builds for 100 logical ones; these are not the same
chips.

## Main definitions

* `ftlFormat_layout` — what a format that returned 0 leaves behind.
* `ftlFormat_accepts_iff` — 100 good blocks are enough exactly if there are 108.
-/

namespace Apollo.Ftl
open Lib Nand

variable {B : Board}

/-! ## What a format leaves behind -/

section Layout
variable {f : Flash} {e : ℕ} {d' : Dev}

theorem Numbers.good_iff (h : Numbers B f e d') (b : ℕ) : Good B d'.flash b ↔ Good B f b := by
  have hle := h.le
  rw [h.flash]
  exact good_numbered (fun b hb => h.fresh b (by omega)) b

/-- Logical block `k` is the `k`-th good block. -/
theorem Numbers.lut_nth (h : Numbers B f e d') {k : ℕ} (hk : k < d'.validBlocknum) :
    d'.lut k = Nat.nth (Good B d'.flash) k := by
  have htot := B.total_lt
  have hcount := h.count_lt
  rw [h.validBlocknum] at hk
  obtain ⟨b, hb, hgood, rfl⟩ := exists_count_eq hk
  have hle := h.le
  have htag : tag B d'.flash b = Nat.count (Good B f) b := by
    rw [h.flash]
    exact tag_numbered hb hgood (by omega)
  have hown : Owner B d'.flash b := ⟨(h.good_iff b).mpr hgood, by rw [htag]; omega⟩
  have hlut := (h.tagged.owner b (by omega) hown).2
  rw [htag] at hlut
  rw [hlut, funext fun b => propext (h.good_iff b), Nat.nth_count hgood]

/-- A good block that is in no entry of the table has not been numbered. -/
theorem Numbers.spare (h : Numbers B f e d') {b : ℕ} (hb : b < B.blockTotalnum)
    (hgood : Good B d'.flash b) (hno : ∀ k < d'.validBlocknum, d'.lut k ≠ b) {i : ℕ}
    (hi : i < B.blockPagenum) : d'.flash (b * B.blockPagenum + i) = erasedPage := by
  have hgood' := (h.good_iff b).mp hgood
  have hbe : ¬ b < e := by
    intro hlt
    have hcount := Nat.count_strict_mono hgood' hlt
    refine hno (Nat.count (Good B f) b) (by rw [h.validBlocknum]; exact hcount) ?_
    rw [h.lut_nth (by rw [h.validBlocknum]; exact hcount), funext fun b => propext (h.good_iff b),
      Nat.nth_count hgood']
  rw [h.flash]
  exact numbered_erased h.fresh hb hgood' hbe hi

end Layout

/-- After a format that returned 0 the table has 93 percent of the good blocks in increasing
order, every later entry is invalid and every other good block is erased. -/
theorem ftlFormat_layout (hB : B.Marking) {d : Dev} (hval : (ftlFormat B).val d = 0) :
    let d' := (ftlFormat B).state d
    let G := Nat.count (Good B d'.flash) B.blockTotalnum
    d'.goodBlocknum = G ∧ d'.validBlocknum = 93 * G / 100 ∧
      (∀ k < d'.validBlocknum, d'.lut k = Nat.nth (Good B d'.flash) k) ∧
      (∀ k < B.blockTotalnum, d'.validBlocknum ≤ k → d'.lut k = 0xFFFF) ∧
      ∀ b < B.blockTotalnum, Good B d'.flash b → (∀ k < d'.validBlocknum, d'.lut k ≠ b) →
        ∀ i < B.blockPagenum, d'.flash (b * B.blockPagenum + i) = erasedPage := by
  intro d' G
  obtain ⟨good, f, -, -, -, hcount, hiff, hformat⟩ := ftlFormat_cases hB d
  have hgood := hiff.mp hval
  obtain ⟨e, hnum, hvalid⟩ := hformat (by omega)
  have hG : good = G := hcount.trans (count_good_of_iff fun b _ => hnum.good_iff b).symm
  refine ⟨hnum.goodBlocknum, ?_, fun k hk => hnum.lut_nth hk, fun k hk hle => ?_, ?_⟩
  · rw [← hG, Nat.mul_comm]
    exact hvalid
  · exact hnum.tagged.lut_invalid k hk hle
  · exact fun b hb hb' hno i hi => hnum.spare hb hb' hno hi

theorem ftlFormat_layout_blank :
    let d' := (ftlFormat board512).state Dev.blank
    let G := Nat.count (Good board512 d'.flash) board512.blockTotalnum
    d'.goodBlocknum = G ∧ d'.validBlocknum = 93 * G / 100 ∧
      (∀ k < d'.validBlocknum, d'.lut k = Nat.nth (Good board512 d'.flash) k) ∧
      (∀ k < board512.blockTotalnum, d'.validBlocknum ≤ k → d'.lut k = 0xFFFF) ∧
      ∀ b < board512.blockTotalnum, Good board512 d'.flash b →
        (∀ k < d'.validBlocknum, d'.lut k ≠ b) → ∀ i < board512.blockPagenum,
          d'.flash (b * board512.blockPagenum + i) = erasedPage :=
  ftlFormat_layout board512_faultFree.steady.marking
    (ftlFormat_blank board512_faultFree.steady board512_faultFree.erases board512_total).1

/-! ## Which chips are accepted -/

/-- Where nothing fails, a format returns 0 if 93 percent of the good blocks are at least 100. -/
theorem ftlFormat_eq_zero_iff (hB : B.FaultFree) (d : Dev) : (ftlFormat B).val d = 0 ↔
    100 ≤ Nat.count (Good B d.flash) B.blockTotalnum * 93 / 100 := by
  obtain ⟨good, f, hkept, hbad, -, hcount, hiff, -⟩ := ftlFormat_cases hB.steady.marking d
  have hG : good = Nat.count (Good B d.flash) B.blockTotalnum := hcount.trans
    (count_good_of_iff fun b hb => ⟨hbad b hb, hkept hB.erases b hb⟩)
  rw [hiff, hG]

/-- A format of a chip on which nothing fails, and which has at least 100 good blocks, returns 0
exactly if it has at least 108. -/
theorem ftlFormat_accepts_iff (hB : B.FaultFree) (d : Dev) :
    let G := Nat.count (Good B d.flash) B.blockTotalnum
    (100 ≤ G → (ftlFormat B).val d = 0) ↔ G < 100 ∨ 108 ≤ G := by
  intro G
  rw [ftlFormat_eq_zero_iff hB]
  omega

theorem ftlFormat_accepts_blank :
    let G := Nat.count (Good board512 Dev.blank.flash) board512.blockTotalnum
    (100 ≤ G → (ftlFormat board512).val Dev.blank = 0) ↔ G < 100 ∨ 108 ≤ G :=
  ftlFormat_accepts_iff board512_faultFree Dev.blank

/-- A chip of which only the first 100 blocks are good. -/
def hundredGood : Dev :=
  { Dev.blank with
    flash := fun q => if q / board512.blockPagenum < 100 then erasedPage else fun _ => 0 }

theorem good_hundredGood (b : ℕ) : Good board512 hundredGood.flash b ↔ b < 100 := by
  have hpage : ∀ i < board512.blockPagenum,
      hundredGood.flash (b * board512.blockPagenum + i) =
        if b < 100 then erasedPage else fun _ => 0 := by
    intro i hi
    simp only [hundredGood, board512.page_div _ hi]
  have hzero := hpage 0 board512.pagenum_pos
  rw [Nat.add_zero] at hzero
  rw [Good, hzero, hpage 1 board512.two_le_pagenum]
  by_cases hb : b < 100
  · rw [if_pos hb]
    exact iff_of_true ⟨rfl, rfl⟩ hb
  · rw [if_neg hb]
    exact iff_of_false (fun h => absurd h.1 (by decide)) hb

/-- It is not declared scrap, but it is not accepted. -/
theorem ftlFormat_rejects_hundred :
    Nat.count (Good board512 hundredGood.flash) board512.blockTotalnum = 100 ∧
      (ftlFormat board512).val hundredGood ≠ 0 := by
  have hcount : Nat.count (Good board512 hundredGood.flash) board512.blockTotalnum = 100 := by
    have htotal : board512.blockTotalnum = 4096 := rfl
    have hrange : (Finset.range 4096).filter (fun b => b < 100) = Finset.range 100 := by
      ext b
      simp only [Finset.mem_filter, Finset.mem_range]
      omega
    simp only [Nat.count_eq_card_filter_range, good_hundredGood, htotal, hrange, Finset.card_range]
  refine ⟨hcount, ?_⟩
  rw [ne_eq, ftlFormat_eq_zero_iff board512_faultFree, hcount]
  decide

end Apollo.Ftl
