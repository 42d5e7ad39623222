import Apollo.Ftl.Format

/-!
# What the searches for an unused block return

The search of a plane is complete wherever its cursor stands.  But a block is taken for
unused by the tag of its first page alone, and for bad also by the mark of its second
page: the search hands out a block that is marked on its second page only.

## Main definitions

* `findSamePlane_complete` — the search of the plane.
* `CountedGood` — what `ftl_create_lut(1)` takes for good.
* `SecondPageClear` — the block that the search comes to first carries no second mark.
* `foundGood_iff` — the block that is found is good exactly then.
-/

namespace Apollo.Ftl
open Lib Nand

variable {B : Board}

/-! ## The search of a plane -/

/-- The end of the search: the block that has been found is taken. -/
def takeBlock (unusedblock : ℕ) : NandM ℕ :=
  if unusedblock = noBlock then pure noBlock
  else do
    setCurblock unusedblock
    pure unusedblock

theorem curblock_takeBlock (u : ℕ) (d : Dev) (h : (takeBlock u).val d ≠ noBlock) :
    ((takeBlock u).state d).curblock = (takeBlock u).val d := by
  by_cases hu : u = noBlock
  · rw [takeBlock, if_pos hu] at h
    exact absurd rfl h
  · rw [takeBlock, if_neg hu]
    rfl

/-- The cursor is left on the block that has been found. -/
theorem curblock_ftlFindSamePlaneUnusedBlock (sblock : ℕ) (d : Dev)
    (h : (ftlFindSamePlaneUnusedBlock B sblock).val d ≠ noBlock) :
    ((ftlFindSamePlaneUnusedBlock B sblock).state d).curblock =
      (ftlFindSamePlaneUnusedBlock B sblock).val d :=
  curblock_takeBlock _ _ h

/-- The search of the plane fails exactly when no block of the parity is unused; otherwise it
returns one and leaves the cursor on it. -/
theorem findSamePlane_complete (hB : B.ReadsOk) (sblock : ℕ) (d : Dev) :
    let u := (ftlFindSamePlaneUnusedBlock B sblock).val d
    (u = noBlock ↔ ∀ b < B.blockTotalnum, b % 2 = sblock % 2 → ¬ Blank B d.flash b) ∧
      (u ≠ noBlock → u < B.blockTotalnum ∧ u % 2 = sblock % 2 ∧ Blank B d.flash u ∧
        ((ftlFindSamePlaneUnusedBlock B sblock).state d).curblock = u) := by
  intro u
  have htot := B.total_lt
  rcases ftlFindSamePlaneUnusedBlock_spec hB sblock d with ⟨hnone, hall⟩ | ⟨hlt, hpar, hblank⟩
  · exact ⟨⟨fun _ => hall, fun _ => hnone⟩, fun hne => absurd hnone hne⟩
  · have hne : u ≠ noBlock := by
      simp only [noBlock]
      omega
    exact ⟨⟨fun h => absurd h hne, fun h => absurd hblank (h u hlt hpar)⟩,
      fun _ => ⟨hlt, hpar, hblank, curblock_ftlFindSamePlaneUnusedBlock sblock d hne⟩⟩

theorem findSamePlane_complete_blank :
    let u := (ftlFindSamePlaneUnusedBlock board512 1).val Dev.blank
    (u = noBlock ↔ ∀ b < board512.blockTotalnum, b % 2 = 1 % 2 →
      ¬ Blank board512 Dev.blank.flash b) ∧
      (u ≠ noBlock → u < board512.blockTotalnum ∧ u % 2 = 1 % 2 ∧
        Blank board512 Dev.blank.flash u ∧
        ((ftlFindSamePlaneUnusedBlock board512 1).state Dev.blank).curblock = u) :=
  findSamePlane_complete board512_faultFree.steady.reads 1 Dev.blank

/-! ## Blocks that are found and blocks that are good -/

/-- The scan of `ftl_create_lut(1)` counts block `u` of the array as good. -/
def CountedGood (B : Board) (f : Flash) (u : ℕ) : Prop :=
  ∀ buf d, d.flash = f → ((scanBlock B 1 u buf).state d).goodBlocknum = d.goodBlocknum + 1

theorem countedGood_iff (hB : B.ReadsOk) (f : Flash) (u : ℕ) :
    CountedGood B f u ↔ Good B f u := by
  have hstep : ∀ buf d, d.flash = f → ((scanBlock B 1 u buf).state d).goodBlocknum =
      d.goodBlocknum + if Good B f u then 1 else 0 := by
    intro buf d hd
    obtain ⟨k, hstate⟩ := scanBlock_state hB u buf d
    rw [hstate, hd]
    split <;> rfl
  constructor
  · intro h
    by_contra hbad
    have hone := h (fun _ => 0) { Dev.blank with flash := f } rfl
    rw [hstep _ _ rfl, if_neg hbad] at hone
    omega
  · intro hgood buf d hd
    rw [hstep buf d hd, if_pos hgood]

/-- The block that the search returns, if it returns one, is good to `ftl_check_badblock` and to
`ftl_create_lut(1)`. -/
def FoundGood (B : Board) (sblock flag : ℕ) (d : Dev) : Prop :=
  let u := (ftlFindUnusedBlock B sblock flag).val d
  u ≠ noBlock → (ftlCheckBadblock B u).val d = 0 ∧ CountedGood B d.flash u

/-- The highest block of the parity, at `sblock` or below, whose tag is all `0xFF` carries no
mark on its second page. -/
def SecondPageClear (B : Board) (sblock flag : ℕ) (f : Flash) : Prop :=
  ∀ u, Nearest B f flag (sblock + 1) u → f (u * B.blockPagenum + 1) B.pageMainsize = 0xFF

/-- The block that the search returns is good exactly when the second page of the first one it
comes to is clear. -/
theorem foundGood_iff (hB : B.ReadsOk) {sblock : ℕ} (hs : sblock < B.blockTotalnum) (flag : ℕ)
    (d : Dev) : FoundGood B sblock flag d ↔ SecondPageClear B sblock flag d.flash := by
  have htot := B.total_lt
  simp only [FoundGood, ftlCheckBadblock_val hB, countedGood_iff hB, and_self]
  rcases ftlFindUnusedBlock_spec hB hs flag d with ⟨hnone, hall⟩ | hfound
  · refine iff_of_true (fun h => absurd hnone h) fun u hu => ?_
    have hlt := hu.lt
    exact absurd hu.blank (hall u (by omega) hu.parity)
  · have hlt := hfound.lt
    have hne : (ftlFindUnusedBlock B sblock flag).val d ≠ noBlock := by
      simp only [noBlock]
      omega
    constructor
    · intro h u hu
      rw [hu.unique hfound]
      exact (h hne).2
    · intro h _
      exact ⟨hfound.blank 0 (by omega), h _ hfound⟩

theorem foundGood_iff_blank : FoundGood board512 5 1 Dev.blank ↔
    SecondPageClear board512 5 1 Dev.blank.flash :=
  foundGood_iff board512_faultFree.steady.reads (by decide) 1 Dev.blank

/-- A chip out of the factory with a mark on the second page of block 5. -/
def secondMarked : Dev :=
  { Dev.blank with
    flash := Function.update Dev.blank.flash (5 * board512.blockPagenum + 1) fun _ => 0 }

/-- A block that is marked bad on its second page alone is handed out. -/
theorem found_bad : (ftlFindUnusedBlock board512 5 1).val secondMarked = 5 ∧
    (ftlCheckBadblock board512 5).val secondMarked ≠ 0 ∧
    ¬ FoundGood board512 5 1 secondMarked := by
  have hB := board512_faultFree.steady.reads
  have hflash : secondMarked.flash = Function.update Dev.blank.flash
      (5 * board512.blockPagenum + 1) fun _ => 0 := rfl
  have hnear : Nearest board512 secondMarked.flash 1 6 5 := by
    refine ⟨by decide, by decide, fun j _ => ?_, fun b h₁ h₂ => by omega⟩
    have hne : 5 * board512.blockPagenum ≠ 5 * board512.blockPagenum + 1 := by omega
    rw [hflash, Function.update_of_ne hne]
    rfl
  have hmark : secondMarked.flash (5 * board512.blockPagenum + 1) board512.pageMainsize = 0 := by
    rw [hflash, Function.update_self]
  have hbad : ¬ Good board512 secondMarked.flash 5 := by
    intro hgood
    have hff := hgood.2
    rw [hmark] at hff
    exact absurd hff (by decide)
  have hval : (ftlFindUnusedBlock board512 5 1).val secondMarked = 5 := by
    rcases ftlFindUnusedBlock_spec hB (show 5 < board512.blockTotalnum by decide) 1 secondMarked
      with ⟨-, hall⟩ | hfound
    · exact absurd hnear.blank (hall 5 le_rfl rfl)
    · exact hfound.unique hnear
  have hcheck : (ftlCheckBadblock board512 5).val secondMarked ≠ 0 := by
    rwa [ne_eq, ftlCheckBadblock_val hB]
  refine ⟨hval, hcheck, fun h => hcheck ?_⟩
  rw [FoundGood, hval] at h
  exact (h (by decide)).1

end Apollo.Ftl
