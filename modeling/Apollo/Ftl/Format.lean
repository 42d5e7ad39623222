import Apollo.Ftl.Data

/-!
# Formatting

`ftl_format` erases the good blocks and numbers the first 93 percent of them in order.
A block's number is how many good blocks stand before it, so the numbers are one to one,
and a format that succeeds leaves a sound state in which every logical block is erased.

## Main definitions

* `FirstPageMarks` — every bad block carries a mark on its first page.
* `Wiped`, `Numbered` — the states inside the two loops.
* `Numbers`, `Formatted`, `ftlFormat_spec` — the state after a format that succeeded.
* `ftlFormat_allGood` — a chip without bad blocks can be formatted.
-/

namespace Apollo.Ftl
open Lib Nand

/-- Every bad block carries a mark on its first page: a block that is marked on its
second page is marked on its first. -/
def FirstPageMarks (B : Board) (f : Flash) : Prop :=
  ∀ b < B.blockTotalnum, f (b * B.blockPagenum) B.pageMainsize = 0xFF →
    f (b * B.blockPagenum + 1) B.pageMainsize = 0xFF

variable {B : Board}

/-! ## Checking a block -/

theorem readOnly_ftlCheckBadblock (b : ℕ) : ReadOnly (ftlCheckBadblock B b) := by
  refine .bind (readOnly_nandReadspare _ _ _ _) fun r => .ite _ ?_ (.pure _)
  exact .bind (readOnly_nandReadspare _ _ _ _) fun r => .ite _ (.pure _) (.pure _)

/-- A one-byte spare read gives the mark. -/
theorem nandReadspare_mark (hB : B.ReadsOk) (pagenum : ℕ) (pbuffer : Bytes) (d : Dev) :
    ((nandReadspare B pagenum 0 pbuffer 1).val d).2 0 = d.flash pagenum B.pageMainsize := by
  rw [nandReadspare_spec hB _ _ (by omega) (by omega), overlay_inside (by omega) (by omega)]
  rfl

/-- `ftl_check_badblock` returns 0 for the good blocks. -/
theorem ftlCheckBadblock_val (hB : B.ReadsOk) (b : ℕ) (d : Dev) :
    (ftlCheckBadblock B b).val d = 0 ↔ Good B d.flash b := by
  simp only [ftlCheckBadblock, Prog.val_bind, Prog.val_ite, Prog.val_pure, nandReadspare_mark hB,
    state_nandReadspare, Dev.flash_reads, Good]
  split
  · split <;> simp_all
  · simp_all

/-! ## The first loop -/

/-- The state in which the first loop of the format has passed the blocks below `j`. -/
structure Wiped (B : Board) (d : Dev) (j : ℕ) (d' : Dev) : Prop where
  later : ∀ b, j ≤ b → ∀ i < B.blockPagenum,
    d'.flash (b * B.blockPagenum + i) = d.flash (b * B.blockPagenum + i)
  fresh : ∀ b < j, Good B d'.flash b → ∀ i < B.blockPagenum,
    d'.flash (b * B.blockPagenum + i) = erasedPage
  marks : FirstPageMarks B d.flash → ∀ b < j,
    d'.flash (b * B.blockPagenum) B.pageMainsize = 0xFF →
    d'.flash (b * B.blockPagenum + 1) B.pageMainsize = 0xFF
  count : d'.goodBlocknum = Nat.count (Good B d'.flash) j
  /-- On a chip whose erases succeed no good block is lost. -/
  kept : B.ErasesOk → ∀ b < j, Good B d.flash b → Good B d'.flash b
  /-- No block becomes good. -/
  bad : ∀ b < j, Good B d'.flash b → Good B d.flash b

theorem good_congr {f f' : Flash} {b : ℕ}
    (h : ∀ i < B.blockPagenum, f' (b * B.blockPagenum + i) = f (b * B.blockPagenum + i)) :
    Good B f' b ↔ Good B f b := by
  have h₀ := h 0 B.pagenum_pos
  rw [Nat.add_zero] at h₀
  rw [Good, Good, h₀, h 1 B.two_le_pagenum]

theorem count_good_of_iff {f f' : Flash} {j : ℕ} (h : ∀ b < j, Good B f' b ↔ Good B f b) :
    Nat.count (Good B f') j = Nat.count (Good B f) j := by
  induction j with
  | zero => rfl
  | succ j ih =>
      rw [Nat.count_succ, Nat.count_succ, ih fun b hb => h b (by omega)]
      simp only [h j (by omega)]

theorem count_good_congr {f f' : Flash} {j : ℕ}
    (h : ∀ b < j, ∀ i < B.blockPagenum,
      f' (b * B.blockPagenum + i) = f (b * B.blockPagenum + i)) :
    Nat.count (Good B f') j = Nat.count (Good B f) j :=
  count_good_of_iff fun b hb => good_congr (h b hb)

/-- One more block: a change to the pages of block `j` alone. -/
theorem Wiped.advance {d d₁ d' : Dev} {j : ℕ} (h : Wiped B d j d₁)
    (hother : ∀ q, q / B.blockPagenum ≠ j → d'.flash q = d₁.flash q)
    (hfresh : Good B d'.flash j → ∀ i < B.blockPagenum,
      d'.flash (j * B.blockPagenum + i) = erasedPage)
    (hmarks : FirstPageMarks B d.flash → d'.flash (j * B.blockPagenum) B.pageMainsize = 0xFF →
      d'.flash (j * B.blockPagenum + 1) B.pageMainsize = 0xFF)
    (hcount : d'.goodBlocknum = d₁.goodBlocknum + if Good B d'.flash j then 1 else 0)
    (hkept : B.ErasesOk → Good B d₁.flash j → Good B d'.flash j)
    (hbad : Good B d'.flash j → Good B d₁.flash j) : Wiped B d (j + 1) d' := by
  have hpage : ∀ b, b ≠ j → ∀ i < B.blockPagenum,
      d'.flash (b * B.blockPagenum + i) = d₁.flash (b * B.blockPagenum + i) :=
    fun b hb i hi => hother _ (by rwa [B.page_div _ hi])
  have hzero : ∀ b, b ≠ j → d'.flash (b * B.blockPagenum) = d₁.flash (b * B.blockPagenum) :=
    fun b hb => hpage b hb 0 B.pagenum_pos
  refine ⟨fun b hb i hi => ?_, fun b hb hgood i hi => ?_, fun hfirst b hb hff => ?_, ?_, ?_, ?_⟩
  · rw [hpage b (by omega) i hi, h.later b (by omega) i hi]
  · by_cases hbj : b = j
    · rw [hbj] at hgood ⊢
      exact hfresh hgood i hi
    · rw [hpage b hbj i hi]
      exact h.fresh b (by omega) ((good_congr (hpage b hbj)).mp hgood) i hi
  · by_cases hbj : b = j
    · rw [hbj] at hff ⊢
      exact hmarks hfirst hff
    · rw [hzero b hbj] at hff
      rw [hpage b hbj 1 B.two_le_pagenum]
      exact h.marks hfirst b (by omega) hff
  · rw [hcount, h.count, Nat.count_succ,
      count_good_congr (f := d₁.flash) fun b hb => hpage b (by omega)]
  · intro hff b hb hgood
    by_cases hbj : b = j
    · rw [hbj] at hgood ⊢
      exact hkept hff ((good_congr (h.later j (Nat.le_refl j))).mpr hgood)
    · exact (good_congr (hpage b hbj)).mpr (h.kept hff b (by omega) hgood)
  · intro b hb hgood
    by_cases hbj : b = j
    · rw [hbj] at hgood ⊢
      exact (good_congr (h.later j (Nat.le_refl j))).mp (hbad hgood)
    · exact h.bad b (by omega) ((good_congr (hpage b hbj)).mp hgood)

theorem Wiped.round (hB : B.Marking) {d d₁ : Dev} {j : ℕ} (hj : j < B.blockTotalnum)
    (h : Wiped B d j d₁) :
    Wiped B d (j + 1) ((formatBlock B j).state d₁) := by
  have htot := B.total_lt
  obtain ⟨k, hk⟩ := readOnly_ftlCheckBadblock (B := B) j d₁
  have hval := ftlCheckBadblock_val hB.reads j d₁
  have hj' : j < 2 ^ 16 := by omega
  simp only [formatBlock, Prog.state_bind, Prog.state_ite, Prog.state_pure, hk, hval,
    val_nandEraseblock, Prog.state_modify, ne_eq, state_ftlBadblockMark hB.programs]
  by_cases hgood : Good B d₁.flash j
  · rw [if_pos hgood]
    split
    · -- the erase reports a failure: the block is marked bad, whatever it holds
      set t := (nandEraseblock B j).state (d₁.reads k) with ht
      refine h.advance (fun q hq => ?_) (fun hg => ?_) (fun _ hff => ?_) ?_ ?_ fun hg => ?_
      · show markBad B t.flash j q = _
        rw [markBad_other hq, ht, nandEraseblock_other hj' _ hq, Dev.flash_reads]
      · exact absurd hg.1 markBad_first
      · exact absurd hff markBad_first
      · rw [if_neg fun hg => markBad_first hg.1]
        rfl
      · rename_i hcode
        exact fun hff => absurd (hff _) hcode
      · exact absurd hg.1 markBad_first
    · rename_i hcode
      rw [state_nandEraseblock_done hj' _ (hB.erases _ (not_not.mp hcode))]
      have hpage : ∀ i < B.blockPagenum,
          eraseBlock B d₁.flash j (j * B.blockPagenum + i) = erasedPage :=
        fun i hi => eraseBlock_same _ _ _ hi
      have hzero : eraseBlock B d₁.flash j (j * B.blockPagenum) = erasedPage :=
        hpage 0 B.pagenum_pos
      have hgood' : Good B (eraseBlock B d₁.flash j) j := by
        rw [Good, hzero, hpage 1 B.two_le_pagenum]
        exact ⟨rfl, rfl⟩
      refine h.advance (fun q hq => ?_) (fun _ => hpage) (fun _ _ => hgood'.2) ?_
        (fun _ _ => hgood') fun _ => hgood
      · exact eraseBlock_of_ne _ _ hq
      · exact congrArg (d₁.goodBlocknum + ·) (if_pos hgood').symm
  · rw [if_neg hgood]
    refine h.advance (fun _ _ => rfl) (fun hg => absurd hg hgood) (fun hmarks hff => ?_) ?_
      (fun _ hg => hg) fun hg => hg
    · have hzero := h.later j (Nat.le_refl j) 0 B.pagenum_pos
      have hone := h.later j (Nat.le_refl j) 1 B.two_le_pagenum
      rw [Nat.add_zero] at hzero
      rw [Dev.flash_reads, hzero] at hff
      rw [Dev.flash_reads, hone]
      exact hmarks j hj hff
    · rw [Dev.flash_reads, if_neg hgood]
      rfl

/-- The first loop of the format. -/
theorem wiped_formatLoop (hB : B.Marking) (d : Dev) :
    Wiped B d B.blockTotalnum ((Prog.forUp (fun i _ => formatBlock B i) B.blockTotalnum 0 ()).state
      { d with goodBlocknum := 0 }) := by
  have hround : ∀ j < B.blockTotalnum, ∀ x t, Wiped B d j t →
      Wiped B d (j + 1) (((fun (i : ℕ) (_ : Unit) => formatBlock B i) j x).state t) :=
    fun j hj _ t ht => ht.round hB hj
  exact Prog.forUp_inv (I := fun j _ t => Wiped B d j t) hround (Nat.zero_add _)
    ⟨fun _ _ _ _ => rfl, fun b hb => absurd hb (by omega), fun _ b hb => absurd hb (by omega), rfl,
      fun _ b hb => absurd hb (by omega), fun b hb => absurd hb (by omega)⟩

/-! ## The second loop -/

/-- The first page of an erased block that has been given the number `n`. -/
def numberedPage (B : Board) (n : ℕ) : Bytes :=
  overlay erasedPage (B.pageMainsize + 2) (wordByte n) 2

/-- The array with the good blocks below `e` numbered in order. -/
def numbered (B : Board) (f : Flash) (e : ℕ) : Flash :=
  fun q => if q % B.blockPagenum = 0 ∧ q / B.blockPagenum < e ∧ Good B f (q / B.blockPagenum) then
    numberedPage B (Nat.count (Good B f) (q / B.blockPagenum)) else f q

/-- Every good block below `n` is erased. -/
def Fresh (B : Board) (f : Flash) (n : ℕ) : Prop :=
  ∀ b < n, Good B f b → ∀ i < B.blockPagenum, f (b * B.blockPagenum + i) = erasedPage

section Numbered
variable {f : Flash} {e b : ℕ}

theorem numbered_zero : numbered B f 0 = f := by
  funext q
  rw [numbered, if_neg fun h => Nat.not_lt_zero _ h.2.1]

theorem numbered_first (hb : b < e) (hgood : Good B f b) :
    numbered B f e (b * B.blockPagenum) = numberedPage B (Nat.count (Good B f) b) := by
  rw [numbered, B.page_div_zero, if_pos ⟨Nat.mul_mod_left _ _, hb, hgood⟩]

theorem numbered_first_of_not (h : ¬(b < e ∧ Good B f b)) :
    numbered B f e (b * B.blockPagenum) = f (b * B.blockPagenum) := by
  rw [numbered, B.page_div_zero, if_neg fun h' => h h'.2]

theorem numbered_later {i : ℕ} (hi : i < B.blockPagenum) (h0 : i ≠ 0) :
    numbered B f e (b * B.blockPagenum + i) = f (b * B.blockPagenum + i) := by
  rw [numbered, B.page_mod _ hi, if_neg fun h => h0 h.1]

/-- Numbering does not touch the marks. -/
theorem numbered_mark (hfresh : Fresh B f e) (b : ℕ) :
    numbered B f e (b * B.blockPagenum) B.pageMainsize =
      f (b * B.blockPagenum) B.pageMainsize := by
  by_cases h : b < e ∧ Good B f b
  · have hzero := hfresh b h.1 h.2 0 B.pagenum_pos
    rw [Nat.add_zero] at hzero
    rw [numbered_first h.1 h.2, hzero, numberedPage, overlay_before (by omega)]
  · rw [numbered_first_of_not h]

theorem good_numbered (hfresh : Fresh B f e) (b : ℕ) : Good B (numbered B f e) b ↔ Good B f b := by
  rw [Good, Good, numbered_mark hfresh, numbered_later B.two_le_pagenum (by omega)]

theorem numberedPage_tag {n : ℕ} (hn : n < 2 ^ 16) :
    (numberedPage B n (B.pageMainsize + 3)).toNat <<< 8 +
      (numberedPage B n (B.pageMainsize + 2)).toNat = n := by
  have hlow : wordByte n 0 = UInt8.ofNat n := by
    rw [wordByte, Nat.mul_zero, Nat.pow_zero, Nat.div_one]
  have hhigh : wordByte n 1 = UInt8.ofNat (n / 2 ^ 8) := rfl
  rw [numberedPage, overlay_inside (by omega) (by omega), overlay_inside (by omega) (by omega),
    show B.pageMainsize + 3 - (B.pageMainsize + 2) = 1 by omega, Nat.sub_self, hlow, hhigh,
    UInt8.toNat_ofNat', UInt8.toNat_ofNat', Nat.shiftLeft_eq]
  omega

theorem tag_numbered (hb : b < e) (hgood : Good B f b) (hn : Nat.count (Good B f) b < 2 ^ 16) :
    tag B (numbered B f e) b = Nat.count (Good B f) b := by
  rw [tag, numbered_first hb hgood, numberedPage_tag hn]

/-- Giving one more good block its number. -/
theorem numbered_succ (hfresh : Fresh B f (e + 1)) (hgood : Good B f e) :
    andPage (numbered B f e) (e * B.blockPagenum)
      (numberedPage B (Nat.count (Good B f) e)) = numbered B f (e + 1) := by
  have hzero := hfresh e (Nat.lt_succ_self e) hgood 0 B.pagenum_pos
  rw [Nat.add_zero] at hzero
  funext q
  by_cases hq : q = e * B.blockPagenum
  · rw [hq, andPage_same, numbered_first (Nat.lt_succ_self e) hgood,
      numbered_first_of_not (by omega), hzero]
    funext c
    exact ff_and _
  · rw [andPage_of_ne _ _ hq]
    have hne : q % B.blockPagenum = 0 → q / B.blockPagenum ≠ e := by
      intro hmod hdiv
      have heta := B.page_eta q
      rw [hmod, hdiv, Nat.add_zero] at heta
      exact hq heta.symm
    simp only [numbered]
    by_cases hmod : q % B.blockPagenum = 0
    · have := hne hmod
      simp only [(by omega : q / B.blockPagenum < e + 1 ↔ q / B.blockPagenum < e)]
    · rw [if_neg fun h => hmod h.1, if_neg fun h => hmod h.1]

/-- Passing over a bad block. -/
theorem numbered_succ_bad (hbad : ¬ Good B f e) : numbered B f (e + 1) = numbered B f e := by
  funext q
  simp only [numbered]
  by_cases hq : q / B.blockPagenum = e
  · rw [hq, if_neg fun h => hbad h.2.2, if_neg fun h => hbad h.2.2]
  · simp only [(by omega : q / B.blockPagenum < e + 1 ↔ q / B.blockPagenum < e)]

end Numbered

/-- What the second loop has done when it has passed the blocks below `i`. -/
structure Numbering (B : Board) (f : Flash) (i n : ℕ) (d' : Dev) : Prop where
  flash : d'.flash = numbered B f i
  count : n = Nat.count (Good B f) i

theorem numberBlock_spec (hB : B.Marking) {f : Flash} (hfresh : Fresh B f B.blockTotalnum)
    (goodblock : ℕ) {i n : ℕ} (hi : i < B.blockTotalnum) {d : Dev} (h : Numbering B f i n d) :
    ((numberBlock B goodblock i n).val d =
        if Good B f i then (if n + 1 = goodblock then .exit (n + 1) else .next (n + 1))
        else .next n) ∧
      Numbering B f (i + 1) (if Good B f i then n + 1 else n)
        ((numberBlock B goodblock i n).state d) := by
  obtain ⟨k, hk⟩ := readOnly_ftlCheckBadblock (B := B) i d
  have hval : (ftlCheckBadblock B i).val d = 0 ↔ Good B f i := by
    rw [ftlCheckBadblock_val hB.reads, h.flash]
    exact good_numbered (fun b hb => hfresh b (by omega)) i
  have hwrite := state_nandWritespare hB.programs (i * B.blockPagenum) (wordByte n)
    (show 0 < 2 by omega) (show 2 + 2 ≤ 4 by omega)
  simp only [numberBlock, Prog.val_bind, Prog.state_bind, Prog.val_ite, Prog.state_ite, hval,
    Prog.val_pure, Prog.state_pure, hk, hwrite]
  by_cases hgood : Good B f i
  · simp only [if_pos hgood]
    refine ⟨trivial, ?_, ?_⟩
    · rw [Dev.flash_programs, Dev.flash_reads, h.flash, h.count]
      exact numbered_succ (fun b hb => hfresh b (by omega)) hgood
    · rw [Nat.count_succ, if_pos hgood, h.count]
  · simp only [if_neg hgood]
    refine ⟨trivial, ?_, ?_⟩
    · rw [Dev.flash_reads, h.flash, numbered_succ_bad hgood]
    · rw [Nat.count_succ, if_neg hgood, h.count, Nat.add_zero]

/-- The second loop numbers `goodblock` good blocks, when there are more. -/
theorem numberLoop_spec (hB : B.Marking) {f : Flash} (hfresh : Fresh B f B.blockTotalnum)
    {goodblock : ℕ} (hpos : 0 < goodblock)
    (hle : goodblock ≤ Nat.count (Good B f) B.blockTotalnum) {d : Dev} (hd : d.flash = f) :
    ∃ e ≤ B.blockTotalnum, Nat.count (Good B f) e = goodblock ∧
      ((Prog.loop (numberBlock B goodblock) B.blockTotalnum 0 0).state d).flash =
        numbered B f e := by
  have hround : ∀ i < B.blockTotalnum, ∀ n t, (Numbering B f i n t ∧ n < goodblock) →
      ((numberBlock B goodblock i n).val t).Holds
        (fun m => Numbering B f (i + 1) m ((numberBlock B goodblock i n).state t) ∧ m < goodblock)
        (fun _ => ∃ e ≤ B.blockTotalnum, Nat.count (Good B f) e = goodblock ∧
          ((numberBlock B goodblock i n).state t).flash = numbered B f e) := by
    intro i hi n t h
    obtain ⟨hval, hnum⟩ := numberBlock_spec hB hfresh goodblock hi h.1
    rw [hval]
    by_cases hgood : Good B f i
    · rw [if_pos hgood] at hnum ⊢
      by_cases hlast : n + 1 = goodblock
      · rw [if_pos hlast]
        exact ⟨i + 1, by omega, by rw [← hnum.count, hlast], hnum.flash⟩
      · rw [if_neg hlast]
        exact ⟨hnum, by have := h.2; omega⟩
    · rw [if_neg hgood] at hnum ⊢
      exact ⟨hnum, h.2⟩
  have hloop := Prog.loop_inv (I := fun i n t => Numbering B f i n t ∧ n < goodblock)
    (Q := fun _ t => ∃ e ≤ B.blockTotalnum, Nat.count (Good B f) e = goodblock ∧
      t.flash = numbered B f e) hround (Nat.zero_add _) (s := d) (a := 0)
    ⟨⟨hd.trans numbered_zero.symm, rfl⟩, hpos⟩
  revert hloop
  cases (Prog.loop (numberBlock B goodblock) B.blockTotalnum 0 0).val d with
  | next n =>
      intro h
      have hcount := h.1.count
      have hlt := h.2
      omega
  | exit n => exact fun h => h

/-! ## The state after a format -/

theorem exists_count_eq {p : ℕ → Prop} [DecidablePred p] {n k : ℕ} (h : k < Nat.count p n) :
    ∃ b < n, p b ∧ Nat.count p b = k := by
  induction n with
  | zero => exact absurd h (Nat.not_lt_zero k)
  | succ n ih =>
      by_cases hk : k < Nat.count p n
      · obtain ⟨b, hb, hp, hcount⟩ := ih hk
        exact ⟨b, by omega, hp, hcount⟩
      · rw [Nat.count_succ] at h
        by_cases hp : p n
        · rw [if_pos hp] at h
          exact ⟨n, Nat.lt_succ_self n, hp, by omega⟩
        · rw [if_neg hp] at h
          omega

/-- The good blocks that were not numbered are erased. -/
theorem numbered_erased {f : Flash} (hfresh : Fresh B f B.blockTotalnum) {e b : ℕ}
    (hb : b < B.blockTotalnum) (hgood : Good B f b) (hbe : ¬ b < e) {i : ℕ}
    (hi : i < B.blockPagenum) : numbered B f e (b * B.blockPagenum + i) = erasedPage := by
  by_cases h0 : i = 0
  · rw [h0, Nat.add_zero, numbered_first_of_not fun h => hbe h.1]
    exact hfresh b hb hgood 0 B.pagenum_pos
  · rw [numbered_later hi h0, hfresh b hb hgood i hi]

/-- A numbered array has as many logical blocks as numbers were given. -/
theorem numbered_tagged {f : Flash} (hfresh : Fresh B f B.blockTotalnum) {e : ℕ}
    (he : e ≤ B.blockTotalnum) (hn : Nat.count (Good B f) e < B.blockTotalnum) (lut : ℕ → ℕ) :
    Tagged B (numbered B f e) (table B (numbered B f e) lut) (Nat.count (Good B f) e) := by
  have htot := B.total_lt
  have hfresh' : Fresh B f e := fun b hb => hfresh b (by omega)
  have hcount : ∀ b < e, Good B f b → Nat.count (Good B f) b < Nat.count (Good B f) e :=
    fun b hb hgood => Nat.count_strict_mono hgood hb
  have htag : ∀ b < e, Good B f b → tag B (numbered B f e) b = Nat.count (Good B f) b :=
    fun b hb hgood => tag_numbered hb hgood (by have := hcount b hb hgood; omega)
  have hblank : ∀ b < B.blockTotalnum, Good B f b → ¬ b < e → Blank B (numbered B f e) b := by
    intro b hb hgood hbe j _
    have h0 := numbered_erased hfresh hb hgood hbe B.pagenum_pos
    rw [Nat.add_zero] at h0
    rw [h0]
    rfl
  have hown : ∀ b < B.blockTotalnum, Owner B (numbered B f e) b ↔ b < e ∧ Good B f b := by
    intro b hb
    rw [Owner, good_numbered hfresh']
    constructor
    · intro h
      by_contra hbe
      exact (hblank b hb h.1 fun hlt => hbe ⟨hlt, h.1⟩).not_lt h.2
    · intro h
      refine ⟨h.2, ?_⟩
      rw [htag b h.1 h.2]
      have := hcount b h.1 h.2
      omega
  have htable : ∀ b < e, Good B f b →
      table B (numbered B f e) lut (Nat.count (Good B f) b) = b := by
    intro b hb hgood
    refine rebuild_of_unique (by omega) ((hown b (by omega)).mpr ⟨hb, hgood⟩) (htag b hb hgood) ?_
    intro b' hb' hok htag'
    obtain ⟨hbe', hgood'⟩ := (hown b' hb').mp hok
    rw [htag b' hbe' hgood'] at htag'
    exact Nat.count_injective hgood' hgood htag'
  have hfind : ∀ l < Nat.count (Good B f) e, ∃ b < e, Good B f b ∧
      Nat.count (Good B f) b = l ∧ table B (numbered B f e) lut l = b := by
    intro l hl
    obtain ⟨b, hb, hgood, hbl⟩ := exists_count_eq hl
    exact ⟨b, hb, hgood, hbl, by rw [← hbl, htable b hb hgood]⟩
  refine ⟨⟨hn, fun l hl => ?_, fun l hl => ?_, fun l hl hle => ?_⟩, fun l hl => ?_, ?_⟩
  · obtain ⟨b, hb, -, -, htab⟩ := hfind l hl
    omega
  · obtain ⟨b, hb, hgood, hbl, htab⟩ := hfind l hl
    rw [htab, htag b hb hgood, hbl]
  · refine (rebuild_of_none fun b hb hok htag' => ?_).trans
      (overlay_inside (Nat.zero_le _) (by omega))
    obtain ⟨hbe, hgood⟩ := (hown b hb).mp hok
    rw [htag b hbe hgood] at htag'
    have := hcount b hbe hgood
    omega
  · obtain ⟨b, hb, hgood, -, htab⟩ := hfind l hl
    rwa [htab, good_numbered hfresh']
  · intro b hb hok
    obtain ⟨hbe, hgood⟩ := (hown b hb).mp hok
    rw [htag b hbe hgood, htable b hbe hgood]
    exact ⟨hcount b hbe hgood, rfl⟩

/-- On a chip with first-page marks the unused blocks are the erased ones. -/
theorem numbered_consistent {f : Flash} (hfresh : Fresh B f B.blockTotalnum)
    (hmarks : FirstPageMarks B f) {e : ℕ} (he : e ≤ B.blockTotalnum)
    (hn : Nat.count (Good B f) e < B.blockTotalnum) (lut : ℕ → ℕ) :
    Consistent B (numbered B f e) (table B (numbered B f e) lut) (Nat.count (Good B f) e) := by
  have htot := B.total_lt
  have hfresh' : Fresh B f e := fun b hb => hfresh b (by omega)
  have hmark : ∀ b < B.blockTotalnum,
      numbered B f e (b * B.blockPagenum) B.pageMainsize = 0xFF →
      numbered B f e (b * B.blockPagenum + 1) B.pageMainsize = 0xFF := by
    intro b hb hff
    rw [numbered_mark hfresh'] at hff
    rw [numbered_later B.two_le_pagenum (by omega)]
    exact hmarks b hb hff
  refine ⟨numbered_tagged hfresh he hn lut, hmark, fun b hb hbl i hi => ?_⟩
  have hgood : Good B f b := (good_numbered hfresh' b).mp
    ⟨hbl 0 (by omega), hmark b hb (hbl 0 (by omega))⟩
  refine numbered_erased hfresh hb hgood (fun hbe => hbl.not_lt ?_) hi
  have hlt := Nat.count_strict_mono hgood hbe
  rw [tag_numbered hbe hgood (by omega)]
  omega

/-- A good block of a numbered array is erased but for its number. -/
theorem numbered_clean {f : Flash} (hfresh : Fresh B f B.blockTotalnum) (e : ℕ) {b i c : ℕ}
    (hb : b < B.blockTotalnum) (hgood : Good B f b) (hi : i < B.blockPagenum)
    (hc : ¬(B.pageMainsize + 2 ≤ c ∧ c < B.pageMainsize + 4)) :
    numbered B f e (b * B.blockPagenum + i) c = 0xFF := by
  by_cases h0 : i = 0
  · rw [h0, Nat.add_zero]
    by_cases hbe : b < e
    · rw [numbered_first hbe hgood, numberedPage, overlay_outside (by omega)]
      rfl
    · have hzero := hfresh b hb hgood 0 B.pagenum_pos
      rw [Nat.add_zero] at hzero
      rw [numbered_first_of_not fun h => hbe h.1, hzero]
      rfl
  · rw [numbered_later hi h0, hfresh b hb hgood i hi]
    rfl

/-- A sound state whose logical blocks hold nothing but `0xFF` outside their tags. -/
structure Formatted (B : Board) (d : Dev) : Prop where
  sound : Sound B d
  clean : ∀ l < d.validBlocknum, ∀ i < B.blockPagenum, ∀ c,
    ¬(B.pageMainsize + 2 ≤ c ∧ c < B.pageMainsize + 4) →
    d.flash (d.lut l * B.blockPagenum + i) c = 0xFF

/-- `d'` is a state after the good blocks of `f` below `e` have been numbered and the table
has been rebuilt. -/
structure Numbers (B : Board) (f : Flash) (e : ℕ) (d' : Dev) : Prop where
  fresh : Fresh B f B.blockTotalnum
  le : e ≤ B.blockTotalnum
  count_lt : Nat.count (Good B f) e < B.blockTotalnum
  flash : d'.flash = numbered B f e
  lut : ∃ lut, d'.lut = table B (numbered B f e) lut
  validBlocknum : d'.validBlocknum = Nat.count (Good B f) e
  goodBlocknum : d'.goodBlocknum = Nat.count (Good B d'.flash) B.blockTotalnum

section Numbers
variable {f : Flash} {e : ℕ} {d' : Dev}

theorem Numbers.tagged (h : Numbers B f e d') : Tagged B d'.flash d'.lut d'.validBlocknum := by
  obtain ⟨lut, hlut⟩ := h.lut
  rw [h.flash, hlut, h.validBlocknum]
  exact numbered_tagged h.fresh h.le h.count_lt lut

theorem Numbers.formatted (h : Numbers B f e d') (hmarks : FirstPageMarks B f) :
    Formatted B d' := by
  have hsound : Sound B d' := by
    obtain ⟨lut, hlut⟩ := h.lut
    rw [Sound, h.flash, hlut, h.validBlocknum]
    exact numbered_consistent h.fresh hmarks h.le h.count_lt lut
  refine ⟨hsound, fun l hl i hi c hc => ?_⟩
  have hle := h.le
  have hgood := hsound.lut_good l hl
  rw [h.flash, good_numbered fun b hb => h.fresh b (by omega)] at hgood
  rw [h.flash]
  exact numbered_clean h.fresh e (hsound.lut_lt l hl) hgood hi hc

/-- Without bad blocks every block is given its own number. -/
theorem Numbers.lut_eq (h : Numbers B f e d') (hgood : ∀ b < B.blockTotalnum, Good B f b) {l : ℕ}
    (hl : l < d'.validBlocknum) : d'.lut l = l := by
  have htot := B.total_lt
  have hle := h.le
  have hcount : ∀ k ≤ B.blockTotalnum, Nat.count (Good B f) k = k :=
    fun k hk => Nat.count_iff_forall.mpr fun b hb => hgood b (by omega)
  have hle' : l < e := by rwa [h.validBlocknum, hcount e h.le] at hl
  have hgl := hgood l (by omega)
  have htag : tag B d'.flash l = l := by
    rw [h.flash, tag_numbered hle' hgl (by rw [hcount l (by omega)]; omega), hcount l (by omega)]
  have hown : Owner B d'.flash l := by
    refine ⟨?_, by rw [htag]; omega⟩
    rw [h.flash, good_numbered fun b hb => h.fresh b (by omega)]
    exact hgl
  have hlut := (h.tagged.owner l (by omega) hown).2
  rwa [htag] at hlut

/-- Without bad blocks the blocks behind the numbered ones are unused. -/
theorem Numbers.blank (h : Numbers B f e d') (hgood : ∀ b < B.blockTotalnum, Good B f b) {b : ℕ}
    (hvalid : d'.validBlocknum ≤ b) (hb : b < B.blockTotalnum) : Blank B d'.flash b := by
  have hcount : Nat.count (Good B f) e = e :=
    Nat.count_iff_forall.mpr fun b hb => hgood b (by have := h.le; omega)
  rw [h.validBlocknum, hcount] at hvalid
  intro j _
  have hpage := numbered_erased h.fresh hb (hgood b hb) (Nat.not_lt.mpr hvalid) B.pagenum_pos
  rw [Nat.add_zero] at hpage
  rw [h.flash, hpage]
  rfl

end Numbers

/-- The end of a format that found at least 100 good blocks: an array with 93 percent of them
numbered, and the table rebuilt from it. -/
theorem ftlFormat_end (hB : B.Marking) {d₁ : Dev} (hcount : d₁.goodBlocknum =
    Nat.count (Good B d₁.flash) B.blockTotalnum) (hlt : 100 ≤ d₁.goodBlocknum)
    (hfresh : Fresh B d₁.flash B.blockTotalnum) :
    let d₃ := (ftlCreateLut B 1).state ((Prog.loop (numberBlock B (d₁.goodBlocknum * 93 / 100))
      B.blockTotalnum 0 0).state d₁)
    ∃ e, Numbers B d₁.flash e d₃ ∧ d₃.validBlocknum = d₁.goodBlocknum * 93 / 100 := by
  intro d₃
  have hle : Nat.count (Good B d₁.flash) B.blockTotalnum ≤ B.blockTotalnum := Nat.count_le _
  obtain ⟨e, he, hnum, hflash⟩ := numberLoop_spec hB hfresh
    (show 0 < d₁.goodBlocknum * 93 / 100 by omega) (by omega) (d := d₁) rfl
  set d₂ := (Prog.loop (numberBlock B (d₁.goodBlocknum * 93 / 100)) B.blockTotalnum 0 0).state d₁
    with hd₂
  have hrebuilt : Rebuilt B d₂ d₃ := ftlCreateLut_state hB.reads d₂
  have htagged := numbered_tagged hfresh he (by omega) d₂.lut
  have hlut : d₃.lut = table B (numbered B d₁.flash e) d₂.lut := by rw [hrebuilt.lut, hflash]
  have hvalid : d₃.validBlocknum = Nat.count (Good B d₁.flash) e := by
    rw [hrebuilt.validBlocknum, htagged.validOf_eq fun l _ => by rw [hlut]]
    rfl
  have hgood : d₃.goodBlocknum = Nat.count (Good B d₃.flash) B.blockTotalnum := by
    rw [hrebuilt.goodBlocknum, hrebuilt.flash]
  refine ⟨e, ⟨hfresh, he, by omega, hrebuilt.flash.trans hflash, ⟨d₂.lut, hlut⟩, hvalid, hgood⟩, ?_⟩
  rw [hvalid, hnum]

/-- What a format does, once it has found `good` blocks: it succeeds if 93 percent of them are
at least 100, and then it has numbered an array that has the marks of the old one. -/
theorem ftlFormat_cases (hB : B.Marking) (d : Dev) :
    ∃ (good : ℕ) (f : Flash),
      (B.ErasesOk → ∀ b < B.blockTotalnum, Good B d.flash b → Good B f b) ∧
      (∀ b < B.blockTotalnum, Good B f b → Good B d.flash b) ∧
      (FirstPageMarks B d.flash → FirstPageMarks B f) ∧
      good = Nat.count (Good B f) B.blockTotalnum ∧
      ((ftlFormat B).val d = 0 ↔ 100 ≤ good * 93 / 100) ∧
      (100 ≤ good → ∃ e, Numbers B f e ((ftlFormat B).state d) ∧
        ((ftlFormat B).state d).validBlocknum = good * 93 / 100) := by
  have hwiped := wiped_formatLoop hB d
  set d₁ := (Prog.forUp (fun i _ => formatBlock B i) B.blockTotalnum 0 ()).state
    { d with goodBlocknum := 0 } with hd₁
  refine ⟨d₁.goodBlocknum, d₁.flash, hwiped.kept, hwiped.bad, hwiped.marks, hwiped.count, ?_⟩
  by_cases hlt : d₁.goodBlocknum < 100
  · refine ⟨⟨fun h => absurd h ?_, fun h => by omega⟩, fun h => absurd hlt (by omega)⟩
    simp only [ftlFormat, Prog.val_bind, Prog.state_modify, ← hd₁, Prog.val_get, Prog.state_get,
      if_pos hlt, Prog.val_pure]
    decide
  · obtain ⟨e, hend⟩ := ftlFormat_end hB hwiped.count (by omega) hwiped.fresh
    set d₃ := (ftlCreateLut B 1).state ((Prog.loop (numberBlock B (d₁.goodBlocknum * 93 / 100))
      B.blockTotalnum 0 0).state d₁) with hd₃
    have hstate : (ftlFormat B).state d = d₃ := by
      simp only [ftlFormat, Prog.state_bind, Prog.state_modify, ← hd₁, Prog.val_get,
        Prog.state_get, if_neg hlt, Prog.state_ite, Prog.state_pure, ite_self, ← hd₃]
    have hval : (ftlFormat B).val d = if d₃.validBlocknum < 100 then 2 else 0 := by
      simp only [ftlFormat, Prog.val_bind, Prog.state_modify, ← hd₁, Prog.val_get,
        Prog.state_get, if_neg hlt, Prog.val_ite, Prog.val_pure, ftlCreateLut_val, ← hd₃]
      split <;> rfl
    refine ⟨?_, fun _ => ⟨e, ?_⟩⟩
    · rw [hval, hend.2]
      split
      · exact ⟨fun h => absurd h (by decide), fun h => by omega⟩
      · exact ⟨fun _ => by omega, fun _ => rfl⟩
    · rw [hstate]
      exact hend

/-- The table after a format that returned 0. -/
theorem ftlFormat_tagged (hB : B.Steady) {d : Dev} (hval : (ftlFormat B).val d = 0) :
    Tagged B ((ftlFormat B).state d).flash ((ftlFormat B).state d).lut
      ((ftlFormat B).state d).validBlocknum := by
  obtain ⟨good, f, -, -, -, -, hiff, hformat⟩ := ftlFormat_cases hB.marking d
  have hgood := hiff.mp hval
  obtain ⟨e, hnum, -⟩ := hformat (by omega)
  exact hnum.tagged

/-- The state after a format that returned 0, on a chip with first-page marks. -/
theorem ftlFormat_spec (hB : B.Steady) {d : Dev} (hmarks : FirstPageMarks B d.flash)
    (hval : (ftlFormat B).val d = 0) : Formatted B ((ftlFormat B).state d) := by
  obtain ⟨good, f, -, -, hkept, -, hiff, hformat⟩ := ftlFormat_cases hB.marking d
  have hgood := hiff.mp hval
  obtain ⟨e, hnum, -⟩ := hformat (by omega)
  exact hnum.formatted (hkept hmarks)

/-- A chip without bad blocks whose erases succeed can be formatted: 93 percent of its
blocks are numbered, each with its own number, and the others are unused. -/
theorem ftlFormat_allGood (hB : B.Steady) (herase : B.ErasesOk) {d : Dev}
    (hgood : ∀ b < B.blockTotalnum, Good B d.flash b) (htotal : 100 ≤ B.blockTotalnum * 93 / 100) :
    let d' := (ftlFormat B).state d
    (ftlFormat B).val d = 0 ∧ d'.validBlocknum = B.blockTotalnum * 93 / 100 ∧
      (∀ l < d'.validBlocknum, d'.lut l = l) ∧
      ∀ b < B.blockTotalnum, d'.validBlocknum ≤ b → Blank B d'.flash b := by
  obtain ⟨good, f, hkept, -, -, hcount, hiff, hformat⟩ := ftlFormat_cases hB.marking d
  have hall : ∀ b < B.blockTotalnum, Good B f b := fun b hb => hkept herase b hb (hgood b hb)
  have hgoodnum : good = B.blockTotalnum := hcount.trans (Nat.count_iff_forall.mpr hall)
  obtain ⟨e, hnum, hvalid⟩ := hformat (by omega)
  rw [hgoodnum] at hvalid hiff
  exact ⟨hiff.mpr htotal, hvalid, fun l hl => hnum.lut_eq hall hl,
    fun b hb hle => hnum.blank hall hle hb⟩

/-- A chip out of the factory whose erases succeed can be formatted, if it has at least 108
blocks. -/
theorem ftlFormat_blank (hB : B.Steady) (herase : B.ErasesOk)
    (htotal : 100 ≤ B.blockTotalnum * 93 / 100) :
    let d := (ftlFormat B).state Dev.blank
    (ftlFormat B).val Dev.blank = 0 ∧ Formatted B d ∧
      d.validBlocknum = B.blockTotalnum * 93 / 100 ∧ (∀ l < d.validBlocknum, d.lut l = l) ∧
      ∀ b < B.blockTotalnum, d.validBlocknum ≤ b → Blank B d.flash b := by
  obtain ⟨hval, hvalid, hlut, hblank⟩ := ftlFormat_allGood hB herase (d := Dev.blank)
    (fun _ _ => ⟨rfl, rfl⟩) htotal
  exact ⟨hval, ftlFormat_spec hB (fun _ _ _ => rfl) hval, hvalid, hlut, hblank⟩

/-! ## No copies -/

theorem avoids_ftlBadblockMark {c : Cmd} (h : c ≠ .program) (b : ℕ) :
    Avoids c (ftlBadblockMark B b) :=
  .bind (avoids_nandWritespare h _ _ _ _) fun _ =>
    .bind (avoids_nandWritespare h _ _ _ _) fun _ => .pure _

theorem avoids_ftlCheckBadblock {c : Cmd} (h : c ≠ .read) (b : ℕ) :
    Avoids c (ftlCheckBadblock B b) :=
  .bind (avoids_nandReadspare h _ _ _ _) fun _ => .ite _
    (.bind (avoids_nandReadspare h _ _ _ _) fun _ => .ite _ (.pure _) (.pure _)) (.pure _)

theorem formatBlock_copiesNothing (i : ℕ) : Avoids .copyback (formatBlock B i) := by
  refine .bind (avoids_ftlCheckBadblock (by decide) i) fun _ => .ite _ ?_ (.pure _)
  refine .bind (avoids_nandEraseblock (by decide) i) fun _ => ?_
  exact .ite _ (avoids_ftlBadblockMark (by decide) i) (.modify fun _ => rfl)

theorem numberBlock_copiesNothing (goodblock i n : ℕ) :
    Avoids .copyback (numberBlock B goodblock i n) := by
  refine .bind (avoids_ftlCheckBadblock (by decide) i) fun _ => .ite _ ?_ (.pure _)
  exact .bind (avoids_nandWritespare (by decide) _ _ _ _) fun _ => .pure _

/-- A format copies nothing. -/
theorem ftlFormat_copiesNothing (hB : B.ReadsOk) : Avoids .copyback (ftlFormat B) := by
  refine .bind (.modify fun _ => rfl) fun _ =>
    .bind (.forUp ?_ () (Nat.zero_add _)) fun _ => .bind (.get _) ?_
  · exact fun i _ _ => formatBlock_copiesNothing i
  · refine fun good => .ite _ (.pure _) (.bind (.loop ?_ _ _ _) fun _ => ?_)
    · exact numberBlock_copiesNothing _
    · refine .bind (fun d => (ftlCreateLut_state hB d).copies) fun _ => .ite _ (.pure _) (.pure _)

/-- The 512 MB part on an ideal board whose ECC unit computes all ones. -/
def board512 : Board := .ideal part512 fun _ => 0xFFFFFFFF

theorem board512_faultFree : board512.FaultFree := Board.ideal_faultFree _ _

theorem board512_total : 100 ≤ board512.blockTotalnum * 93 / 100 := by decide

end Apollo.Ftl
