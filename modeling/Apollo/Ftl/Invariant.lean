import Apollo.Ftl.Copy

/-!
# The invariant of the table

What holds of the array, the table and the number of logical blocks between any two
calls: the table and the tags name each other, a bad block is marked on its first page,
and a block the searches take for unused is erased to its last byte.  Rebuilding the
table from such an array gives the table back (`Tagged.table_eq`), and the moves of a
rewrite keep the invariant.

## Main definitions

* `Occupied` — the table's blocks are different and in use.
* `Placed`, `Tagged`, `Consistent` — the invariant of an array and a table, in three steps.
* `Sound` — the invariant of a state.
* `Tagged.table_eq`, `Tagged.rebuilt` — rebuilding the table.
* `Consistent.moved`, `Consistent.markBad` — the two ends of a pass of the retry loop.
-/

namespace Apollo.Ftl
open Lib Nand

/-- The logical blocks of the table `lut` are mapped to different blocks, which are in use. -/
structure Occupied (B : Board) (f : Flash) (lut : ℕ → ℕ) (valid : ℕ) : Prop where
  valid_lt : valid < B.blockTotalnum
  lut_lt : ∀ l < valid, lut l < B.blockTotalnum
  injective : ∀ {l l' : ℕ}, l < valid → l' < valid → lut l = lut l' → l = l'
  not_blank : ∀ {l : ℕ}, l < valid → ¬ Blank B f (lut l)
  /-- The other entries are invalid. -/
  lut_invalid : ∀ l < B.blockTotalnum, valid ≤ l → lut l = 0xFFFF

/-- Every logical block of the table `lut` is mapped to a block that carries its number. -/
structure Placed (B : Board) (f : Flash) (lut : ℕ → ℕ) (valid : ℕ) : Prop where
  valid_lt : valid < B.blockTotalnum
  lut_lt : ∀ l < valid, lut l < B.blockTotalnum
  lut_tag : ∀ l < valid, tag B f (lut l) = l
  /-- The other entries are invalid. -/
  lut_invalid : ∀ l < B.blockTotalnum, valid ≤ l → lut l = 0xFFFF

/-- The table and the tags name each other. -/
structure Tagged (B : Board) (f : Flash) (lut : ℕ → ℕ) (valid : ℕ) : Prop
    extends Placed B f lut valid where
  lut_good : ∀ l < valid, Good B f (lut l)
  /-- A good block that carries a logical number is the block of that number. -/
  owner : ∀ b < B.blockTotalnum, Owner B f b → tag B f b < valid ∧ lut (tag B f b) = b

/-- The array `f`, the table `lut` and the number `valid` of logical blocks agree. -/
structure Consistent (B : Board) (f : Flash) (lut : ℕ → ℕ) (valid : ℕ) : Prop
    extends Tagged B f lut valid where
  /-- A block that is marked on its second page is marked on its first. -/
  marks : ∀ b < B.blockTotalnum, f (b * B.blockPagenum) B.pageMainsize = 0xFF →
    f (b * B.blockPagenum + 1) B.pageMainsize = 0xFF
  /-- An unused block is erased. -/
  erased : ∀ b < B.blockTotalnum, Blank B f b →
    ∀ i < B.blockPagenum, f (b * B.blockPagenum + i) = erasedPage

/-- The invariant of a state. -/
abbrev Sound (B : Board) (d : Dev) : Prop := Consistent B d.flash d.lut d.validBlocknum

/-! ## What the table says -/

section Table
variable {B : Board} {f : Flash} {lut : ℕ → ℕ} {valid : ℕ}

namespace Occupied
variable (h : Occupied B f lut valid)
include h

/-- An entry that is a block belongs to a logical block. -/
theorem lt_of_lut_lt {l : ℕ} (hl : l ≤ valid) (hlut : lut l < B.blockTotalnum) : l < valid := by
  rcases Nat.lt_or_eq_of_le hl with hlt | heq
  · exact hlt
  · have hvalid := h.valid_lt
    have htot := B.total_lt
    rw [h.lut_invalid l (by omega) (by omega)] at hlut
    omega

/-- An unused block is not mapped. -/
theorem ne_of_blank {l u : ℕ} (hl : l < valid) (hblank : Blank B f u) : lut l ≠ u := by
  intro heq
  exact h.not_blank hl (heq ▸ hblank)

/-- The entry of a block that is moved is the one that is replaced. -/
theorem replaced_eq {l : ℕ} (hl : l < valid) (unused : ℕ) :
    replaced B lut (lut l) unused = Function.update lut l unused := by
  have hlt := h.valid_lt
  have hentry : (firstEntry B.blockTotalnum fun i => lut i = lut l) = some l :=
    firstEntry_eq_of (by omega) rfl fun j hj heq => by
      have := h.injective (by omega) hl heq
      omega
  rw [replaced, hentry]

/-- Moving a mapped block to an unused one, whatever is written into it. -/
theorem moved {l u : ℕ} (hl : l < valid) (hu : u < B.blockTotalnum) (hblank : Blank B f u)
    (pageoffset : ℕ) (v : CopyArgs) :
    Occupied B (moved B f (lut l) u pageoffset v) (Function.update lut l u) valid := by
  have hlt := h.valid_lt
  have hsu : lut l ≠ u := h.ne_of_blank hl hblank
  refine ⟨h.valid_lt, fun l' hl' => ?_, fun {l₁ l₂} h₁ h₂ heq => ?_, fun {l'} hl' => ?_,
    fun l' hl' hv' => ?_⟩
  · by_cases hne : l' = l
    · rwa [hne, Function.update_self]
    · rw [Function.update_of_ne hne]
      exact h.lut_lt l' hl'
  · by_cases hl₁ : l₁ = l <;> by_cases hl₂ : l₂ = l
    · rw [hl₁, hl₂]
    · rw [hl₁, Function.update_self, Function.update_of_ne hl₂] at heq
      exact absurd heq.symm (h.ne_of_blank h₂ hblank)
    · rw [hl₂, Function.update_self, Function.update_of_ne hl₁] at heq
      exact absurd heq (h.ne_of_blank h₁ hblank)
    · rw [Function.update_of_ne hl₁, Function.update_of_ne hl₂] at heq
      exact h.injective h₁ h₂ heq
  · by_cases hne : l' = l
    · rw [hne, Function.update_self]
      exact not_blank_moved hsu
    · have hs : lut l' ≠ lut l := fun heq => hne (h.injective hl' hl heq)
      have hu' : lut l' ≠ u := h.ne_of_blank hl' hblank
      rw [Function.update_of_ne hne, Blank, moved_first hs hu']
      exact h.not_blank hl'
  · rw [Function.update_of_ne (by omega), h.lut_invalid l' hl' hv']

end Occupied

namespace Placed
variable (h : Placed B f lut valid)
include h

/-- Blocks that carry different numbers are different and in use. -/
theorem occupied : Occupied B f lut valid where
  valid_lt := h.valid_lt
  lut_lt := h.lut_lt
  injective hl hl' heq := by rw [← h.lut_tag _ hl, ← h.lut_tag _ hl', heq]
  not_blank {l} hl hb := by
    have hlt := h.valid_lt
    exact hb.not_lt (by rw [h.lut_tag l hl]; omega)
  lut_invalid := h.lut_invalid

theorem injective {l l' : ℕ} (hl : l < valid) (hl' : l' < valid) (heq : lut l = lut l') :
    l = l' := h.occupied.injective hl hl' heq

theorem lt_of_lut_lt {l : ℕ} (hl : l ≤ valid) (hlut : lut l < B.blockTotalnum) : l < valid :=
  h.occupied.lt_of_lut_lt hl hlut

theorem not_blank {l : ℕ} (hl : l < valid) : ¬ Blank B f (lut l) := h.occupied.not_blank hl

theorem ne_of_blank {l u : ℕ} (hl : l < valid) (hblank : Blank B f u) : lut l ≠ u :=
  h.occupied.ne_of_blank hl hblank

theorem replaced_eq {l : ℕ} (hl : l < valid) (unused : ℕ) :
    replaced B lut (lut l) unused = Function.update lut l unused := h.occupied.replaced_eq hl unused

/-- Any table with these entries has `valid` logical blocks. -/
theorem validOf_eq {lut₀ : ℕ → ℕ} (heq : ∀ l < B.blockTotalnum, lut₀ l = lut l) :
    validOf B lut₀ = some valid := by
  have htot := B.total_lt
  have hlt := h.valid_lt
  refine firstEntry_eq_of hlt ?_ fun l hl => ?_
  · rw [heq _ hlt, h.lut_invalid _ hlt (Nat.le_refl _)]
    omega
  · rw [heq l (by omega)]
    have := h.lut_lt l hl
    omega

/-- Moving a mapped block to an unused one. -/
theorem moved {l u : ℕ} (hl : l < valid) (hu : u < B.blockTotalnum) (hblank : Blank B f u)
    (pageoffset : ℕ) {v : CopyArgs} (hv : v.InPage B) :
    Placed B (moved B f (lut l) u pageoffset v) (Function.update lut l u) valid := by
  have hlt := h.valid_lt
  have hsu : lut l ≠ u := h.ne_of_blank hl hblank
  refine ⟨h.valid_lt, fun l' hl' => ?_, fun l' hl' => ?_, fun l' hl' hv' => ?_⟩
  · by_cases hne : l' = l
    · rwa [hne, Function.update_self]
    · rw [Function.update_of_ne hne]
      exact h.lut_lt l' hl'
  · by_cases hne : l' = l
    · rw [hne, Function.update_self, moved_tag hsu hblank hv, h.lut_tag l hl]
    · have hs : lut l' ≠ lut l := fun heq => hne (h.injective hl' hl heq)
      have hu' : lut l' ≠ u := h.ne_of_blank hl' hblank
      rw [Function.update_of_ne hne, tag, moved_first hs hu', ← tag, h.lut_tag l' hl']
  · rw [Function.update_of_ne (by omega), h.lut_invalid l' hl' hv']

end Placed

namespace Tagged
variable (h : Tagged B f lut valid)
include h

/-- Rebuilding the table from the tags gives the table, whatever was there before. -/
theorem table_eq (lut₀ : ℕ → ℕ) {l : ℕ} (hl : l < B.blockTotalnum) :
    table B f lut₀ l = lut l := by
  by_cases hv : l < valid
  · refine rebuild_of_unique (h.lut_lt l hv) ⟨h.lut_good l hv, ?_⟩ (h.lut_tag l hv) ?_
    · rwa [h.lut_tag l hv]
    · intro b hb hown htag
      rw [← (h.owner b hb hown).2, htag]
  · rw [h.lut_invalid l hl (by omega)]
    refine (rebuild_of_none fun b hb hown htag => ?_).trans
      (overlay_inside (Nat.zero_le _) (by omega))
    have := (h.owner b hb hown).1
    omega

/-- Rebuilding the table in place changes nothing. -/
theorem table_self : table B f lut = lut := by
  funext l
  by_cases hl : l < B.blockTotalnum
  · exact h.table_eq lut hl
  · refine (rebuild_of_none fun b hb hown htag => ?_).trans (overlay_after (by omega))
    have := hown.2
    omega

/-- The table is rebuilt as it was, with whatever the RAM held. -/
theorem rebuilt {d d' : Dev} (hd : d.flash = f) (hr : Rebuilt B d d') :
    (∀ l < B.blockTotalnum, d'.lut l = lut l) ∧ d'.validBlocknum = valid := by
  have htable : ∀ l < B.blockTotalnum, d'.lut l = lut l := by
    intro l hl
    rw [hr.lut, hd, h.table_eq _ hl]
  refine ⟨htable, ?_⟩
  rw [hr.validBlocknum, h.validOf_eq htable]
  rfl

end Tagged
end Table

namespace Consistent
variable {B : Board} {f f' : Flash} {lut : ℕ → ℕ} {valid : ℕ}

/-! ## Changes that keep the invariant -/

/-- The invariant looks at the marks, the numbers and the unused blocks alone. -/
theorem of_flash (h : Consistent B f lut valid)
    (hfirst : ∀ b < B.blockTotalnum, f' (b * B.blockPagenum) B.pageMainsize =
      f (b * B.blockPagenum) B.pageMainsize)
    (hsecond : ∀ b < B.blockTotalnum, f' (b * B.blockPagenum + 1) B.pageMainsize =
      f (b * B.blockPagenum + 1) B.pageMainsize)
    (htag : ∀ b < B.blockTotalnum, tag B f' b = tag B f b)
    (herased : ∀ b < B.blockTotalnum, Blank B f' b →
      ∀ i < B.blockPagenum, f' (b * B.blockPagenum + i) = erasedPage) :
    Consistent B f' lut valid where
  valid_lt := h.valid_lt
  lut_lt := h.lut_lt
  lut_tag := fun l hl => by rw [htag _ (h.lut_lt l hl), h.lut_tag l hl]
  lut_invalid := h.lut_invalid
  lut_good := fun l hl => by
    have hb := h.lut_lt l hl
    rw [Good, hfirst _ hb, hsecond _ hb]
    exact h.lut_good l hl
  owner := fun b hb hown => by
    rw [Owner, Good, hfirst b hb, hsecond b hb, htag b hb] at hown
    rw [htag b hb]
    exact h.owner b hb hown
  marks := fun b hb => by
    rw [hfirst b hb, hsecond b hb]
    exact h.marks b hb
  erased := herased

/-- Only the entries of the logical numbers matter. -/
theorem of_lut {lut' : ℕ → ℕ} (h : Consistent B f lut valid)
    (heq : ∀ l < B.blockTotalnum, lut' l = lut l) : Consistent B f lut' valid where
  valid_lt := h.valid_lt
  lut_lt := fun l hl => by
    have := h.valid_lt
    rw [heq l (by omega)]
    exact h.lut_lt l hl
  lut_tag := fun l hl => by
    have := h.valid_lt
    rw [heq l (by omega), h.lut_tag l hl]
  lut_invalid := fun l hl hv => by rw [heq l hl, h.lut_invalid l hl hv]
  lut_good := fun l hl => by
    have := h.valid_lt
    rw [heq l (by omega)]
    exact h.lut_good l hl
  owner := fun b hb hown => by
    rw [heq _ hown.2]
    exact h.owner b hb hown
  marks := h.marks
  erased := h.erased

/-- Throwing away an unused block keeps the invariant, whatever the block holds. -/
theorem markBad (h : Consistent B f lut valid) {u : ℕ} (hblank : Blank B f u)
    (hother : ∀ q, q / B.blockPagenum ≠ u → f' q = f q) :
    Consistent B (markBad B f' u) lut valid := by
  set f'' := Ftl.markBad B f' u with hf''
  have hpage : ∀ b, b ≠ u → ∀ i < B.blockPagenum,
      f'' (b * B.blockPagenum + i) = f (b * B.blockPagenum + i) := by
    intro b hb i hi
    rw [hf'', markBad_other (by rwa [B.page_div _ hi]), hother _ (by rwa [B.page_div _ hi])]
  have hzero : ∀ b, b ≠ u → f'' (b * B.blockPagenum) = f (b * B.blockPagenum) :=
    fun b hb => hpage b hb 0 B.pagenum_pos
  have hone : ∀ b, b ≠ u → f'' (b * B.blockPagenum + 1) = f (b * B.blockPagenum + 1) :=
    fun b hb => hpage b hb 1 B.two_le_pagenum
  have hbad : f'' (u * B.blockPagenum) B.pageMainsize ≠ 0xFF := markBad_first
  have htag : ∀ b, b ≠ u → tag B f'' b = tag B f b := fun b hb => by rw [tag, tag, hzero b hb]
  have hne : ∀ l < valid, lut l ≠ u := fun _ hl => h.ne_of_blank hl hblank
  refine ⟨⟨⟨h.valid_lt, h.lut_lt, fun l hl => ?_, h.lut_invalid⟩, fun l hl => ?_, ?_⟩, ?_, ?_⟩
  · rw [htag _ (hne l hl), h.lut_tag l hl]
  · rw [Good, hzero _ (hne l hl), hone _ (hne l hl)]
    exact h.lut_good l hl
  · intro b hb hown
    by_cases hbu : b = u
    · exact absurd hown.1.1 (hbu ▸ hbad)
    · rw [Owner, Good, hzero b hbu, hone b hbu, htag b hbu] at hown
      rw [htag b hbu]
      exact h.owner b hb hown
  · intro b hb hff
    by_cases hbu : b = u
    · exact absurd hff (hbu ▸ hbad)
    · rw [hone b hbu]
      rw [hzero b hbu] at hff
      exact h.marks b hb hff
  · intro b hb hbl i hi
    by_cases hbu : b = u
    · exact absurd (hbl 0 (by omega)) (hbu ▸ hbad)
    · rw [hpage b hbu i hi]
      rw [Blank, hzero b hbu] at hbl
      exact h.erased b hb hbl i hi

/-- Moving a mapped block to an unused one keeps the invariant, with the new entry. -/
theorem moved (h : Consistent B f lut valid) {l u : ℕ} (hl : l < valid)
    (hu : u < B.blockTotalnum) (hblank : Blank B f u) (pageoffset : ℕ) {v : CopyArgs}
    (hv : v.InPage B) :
    Consistent B (moved B f (lut l) u pageoffset v) (Function.update lut l u) valid := by
  have hlt := h.valid_lt
  have hplaced := h.toPlaced.moved hl hu hblank pageoffset hv
  have hsu : lut l ≠ u := h.ne_of_blank hl hblank
  set f'' := Ftl.moved B f (lut l) u pageoffset v with hf''
  have htagu : tag B f'' u = l := by rw [moved_tag hsu hblank hv, h.lut_tag l hl]
  -- the marks of the destination are those of the source
  have hmark : ∀ i < B.blockPagenum, f'' (u * B.blockPagenum + i) B.pageMainsize =
      f (lut l * B.blockPagenum + i) B.pageMainsize := by
    intro i hi
    have hff := congrFun (h.erased u hu hblank i hi) B.pageMainsize
    rw [hf'', moved_dest hsu hi hff (by omega), editAt_tag hv _ _ (by omega) (by omega)]
  have hgoodu : Good B f'' u := by
    have hgood := h.lut_good l hl
    have hzero := hmark 0 B.pagenum_pos
    rw [Nat.add_zero, Nat.add_zero] at hzero
    exact ⟨hzero.trans hgood.1, (hmark 1 B.two_le_pagenum).trans hgood.2⟩
  have hpage : ∀ b, b ≠ lut l → b ≠ u → ∀ i < B.blockPagenum,
      f'' (b * B.blockPagenum + i) = f (b * B.blockPagenum + i) := by
    intro b hbs hbu i hi
    rw [hf'', moved_other (by rwa [B.page_div _ hi]) (by rwa [B.page_div _ hi])]
  have hzero : ∀ b, b ≠ lut l → b ≠ u → f'' (b * B.blockPagenum) = f (b * B.blockPagenum) :=
    fun b hbs hbu => hpage b hbs hbu 0 B.pagenum_pos
  have hone : ∀ b, b ≠ lut l → b ≠ u →
      f'' (b * B.blockPagenum + 1) = f (b * B.blockPagenum + 1) :=
    fun b hbs hbu => hpage b hbs hbu 1 B.two_le_pagenum
  have htag : ∀ b, b ≠ lut l → b ≠ u → tag B f'' b = tag B f b :=
    fun b hbs hbu => by rw [tag, tag, hzero b hbs hbu]
  refine ⟨⟨hplaced, fun l' hl' => ?_, fun b hb hown => ?_⟩, fun b hb hff => ?_, fun b hb hbl => ?_⟩
  · by_cases hne : l' = l
    · rwa [hne, Function.update_self]
    · have hs : lut l' ≠ lut l := fun heq => hne (h.injective hl' hl heq)
      have hu' : lut l' ≠ u := h.ne_of_blank hl' hblank
      rw [Function.update_of_ne hne, Good, hzero _ hs hu', hone _ hs hu']
      exact h.lut_good l' hl'
  · by_cases hbs : b = lut l
    · have hblanks : Blank B f'' b := by
        rw [hbs]
        exact moved_blank
      exact absurd hown.2 hblanks.not_lt
    · by_cases hbu : b = u
      · rw [hbu, htagu, Function.update_self]
        exact ⟨hl, rfl⟩
      · have hown' := hown
        rw [Owner, Good, hzero b hbs hbu, hone b hbs hbu, htag b hbs hbu] at hown'
        obtain ⟨hv', heq⟩ := h.owner b hb hown'
        rw [htag b hbs hbu]
        refine ⟨hv', ?_⟩
        rw [Function.update_of_ne, heq]
        intro hne
        exact hbs (by rw [← heq, hne])
  · by_cases hbs : b = lut l
    · rw [hbs, hf'', moved_source B.two_le_pagenum]
      rfl
    · by_cases hbu : b = u
      · rw [hbu]
        exact hgoodu.2
      · rw [hone b hbs hbu]
        rw [hzero b hbs hbu] at hff
        exact h.marks b hb hff
  · intro i hi
    by_cases hbs : b = lut l
    · rw [hbs, hf'', moved_source hi]
    · by_cases hbu : b = u
      · rw [hbu] at hbl
        exact absurd (by rw [htagu]; omega) hbl.not_lt
      · rw [hpage b hbs hbu i hi]
        rw [Blank, hzero b hbs hbu] at hbl
        exact h.erased b hb hbl i hi

end Consistent
end Apollo.Ftl
