import Apollo.Ftl.Sectors
import Mathlib.Logic.Relation
import Mathlib.Data.Set.Function
import Mathlib.Order.Interval.Set.Defs

/-!
# The table can always be recovered

From a successful format on, whatever is written and however page copies fail, the
tags in the array determine the table in RAM: a rebuild at any time gives it back.
Every call keeps the invariant `Sound`, and the invariant says what a rebuild finds.

## Main definitions

* `CallOn`, `Call` — one call of the write functions.
* `Call.sound`, `Reachable.sound` — calls keep the invariant.
* `table_recoverable` — what the invariant means for a rebuild.
* `zeroTag_lost` — a column in the spare area reaches the number of the block.
-/

namespace Apollo.Ftl
open Lib Nand

variable {B : Board}

/-! ## What keeps the invariant -/

theorem Sound.of_agrees {d d' : Dev} (h : Sound B d) (ha : Agrees d d') : Sound B d' :=
  (Survives.of_agrees h ha).sound

/-- Programming a page of a mapped block. -/
theorem Programmed.sound {d d' : Dev} {l i : ℕ} {reg : Bytes} (h : Sound B d)
    (hl : l < d.validBlocknum) (hi : i < B.blockPagenum)
    (hreg : ∀ c, B.pageMainsize ≤ c → c < B.pageMainsize + 4 → reg c = 0xFF)
    (hp : Programmed B (d.lut l * B.blockPagenum + i) (d.lut l) reg d d') : Sound B d' := by
  have hlt := h.valid_lt
  have hmark := fun q => hp.column (hreg B.pageMainsize (by omega) (by omega)) (by omega) q
  rw [Sound, hp.lut, hp.validBlocknum]
  refine h.of_flash (fun b _ => hmark _) (fun b _ => hmark _) (fun b _ => hp.tag hreg b)
    fun b hb hblank j hj => ?_
  by_cases hbl : b = d.lut l
  · refine absurd ?_ hblank.not_lt
    rw [hbl, hp.tag hreg, h.lut_tag l hl]
    omega
  · have hzero := hp.other hi (q := b * B.blockPagenum) (by rwa [B.page_div_zero])
    rw [hp.other hi (by rwa [B.page_div _ hj])]
    rw [Blank, hzero] at hblank
    exact h.erased b hb hblank j hj

/-- Rewriting a mapped block, whatever becomes of it. -/
theorem Outcome.sound {d d' : Dev} {l pageoffset c : ℕ} {v : CopyArgs} (hl : l < d.validBlocknum)
    (hv : v.InPage B) (ho : Outcome B (d.lut l) pageoffset v d c d') :
    Sound B d' ∧ d'.validBlocknum = d.validBlocknum := by
  cases ho with
  | full hs _ => exact ⟨hs.sound, hs.validBlocknum⟩
  | @done d₁ d' u failed hs _ ht hm =>
      have hl₁ : l < d₁.validBlocknum := by rwa [hs.validBlocknum]
      have hlut : d.lut l = d₁.lut l := by rw [hs.lut]
      have hentry := hs.sound.replaced_eq hl₁ u
      refine ⟨?_, hm.validBlocknum.trans hs.validBlocknum⟩
      rw [Sound, hm.flash, hm.lut, hm.validBlocknum, hlut, hentry]
      exact hs.sound.moved hl₁ ht.lt ht.blank pageoffset (hv.argsAfter pageoffset failed)

/-- A call of `ftl_copy_and_write_to_block` on a page of a mapped block. -/
theorem sound_ftlCopyAndWriteToBlock (hB : B.Steady) {l pageoffset colnum n : ℕ} (fuel : ℕ)
    (pbuffer : Bytes) {d : Dev} (h : Sound B d) (hl : l < d.validBlocknum)
    (hp : pageoffset < B.blockPagenum) (hcol : colnum < B.pageMainsize) (hn : n < 2 ^ 32) :
    Sound B ((ftlCopyAndWriteToBlock B fuel (d.lut l * B.blockPagenum + pageoffset) colnum pbuffer
      n).state d) := by
  rcases ftlCopyAndWriteToBlock_spec hB fuel colnum pbuffer n h hl hp with ⟨-, hs, -⟩ | ⟨c, -, ho⟩
  · exact hs.sound
  · exact (ho.sound hl ⟨hcol, hn⟩).1

section Round
variable {sectorno sectorsize sectorcount : ℕ} {v : WriteVars} {d d' : Dev}

/-- The path of a round into its page. -/
theorem Programmed.sound_round (hs : SectorSize B sectorsize) (h : Sound B d)
    (hl : lbnno B sectorno sectorsize v.i ≤ d.validBlocknum)
    (hmap : d.lut (lbnno B sectorno sectorsize v.i) < B.blockTotalnum)
    (hp : Programmed B (roundPage B sectorno sectorsize v d)
      (d.lut (lbnno B sectorno sectorsize v.i)) (roundReg B sectorno sectorsize sectorcount v) d
      d') : Sound B d' := by
  have hpage := offset_page_lt B (blockoffset_lt hs sectorno v.i)
  refine hp.sound h (h.lt_of_lut_lt hl hmap) hpage fun c h₁ h₂ => ?_
  exact loadRegister_tag _ (pageSecs_fits ..) h₁ (by omega)

/-- One round of `ftl_write_sectors`. -/
theorem WriteRound.sound (hB : B.Steady) {fuel : ℕ} (hs : SectorSize B sectorsize)
    {out : Flow WriteVars (Option ℕ)} (h : Sound B d)
    (hw : WriteRound B fuel sectorno sectorsize sectorcount v d out d') : Sound B d' := by
  set l := lbnno B sectorno sectorsize v.i with hldef
  have hpage := offset_page_lt B (blockoffset_lt hs sectorno v.i)
  cases hw with
  | finished => exact h
  | outside _ _ ha => exact h.of_agrees ha
  | unreadable _ _ ha => exact h.of_agrees ha
  | inPlace m _ hl hmap _ hp => exact hp.sound_round hs h hl hmap
  | @rewrite m d₁ _ hl hmap htried =>
      have hsame : Sound B d₁ ∧ d₁.lut = d.lut ∧ d₁.validBlocknum = d.validBlocknum := by
        rcases htried with ⟨ha, -⟩ | ⟨-, hp⟩
        · exact ⟨h.of_agrees ha, ha.lut, ha.validBlocknum⟩
        · exact ⟨hp.sound_round hs h hl hmap, hp.lut, hp.validBlocknum⟩
      obtain ⟨h₁, hlut, hvalid⟩ := hsame
      have hl₁ : l < d₁.validBlocknum := by
        rw [hvalid]
        exact h.lt_of_lut_lt hl hmap
      have hn : blockSecs B sectorno sectorsize sectorcount v.i * sectorsize < 2 ^ 32 := by
        have hfits := blockSecs_fits B sectorno sectorsize sectorcount v.i
        have hsize := blockSize_lt B
        omega
      have hcol := offset_col_lt B (o := blockoffset B sectorno sectorsize v.i)
      have hcopy := sound_ftlCopyAndWriteToBlock hB fuel v.pbuffer h₁ hl₁ hpage hcol hn
      rw [hlut] at hcopy
      exact hcopy

end Round

theorem sound_ftlWriteSectors (hB : B.Steady) {sectorsize : ℕ} (hs : SectorSize B sectorsize)
    (fuel : ℕ) (pbuffer : Bytes) (sectorno sectorcount : ℕ) {d : Dev} (h : Sound B d) :
    Sound B ((ftlWriteSectors B fuel pbuffer sectorno sectorsize sectorcount).state d) := by
  have hloop :=
    Prog.state_loop_of_round (fun _ => writeRound B fuel sectorno sectorsize sectorcount)
      (fun _ v t ht =>
        (writeRound_cases fuel sectorno sectorsize sectorcount v t hB).sound hB hs ht)
      fuel 0 ⟨0, pbuffer, 0xFFFFFFFF⟩ h
  simp only [ftlWriteSectors, Prog.state_bind]
  split <;> exact hloop

/-! ## Runs -/

/-- One call that returned: `ftl_write_sectors` on any window, or
`ftl_copy_and_write_to_block` with a page and a column of which `On` holds. -/
inductive CallOn (B : Board) (On : Dev → ℕ → ℕ → Prop) (d : Dev) : Dev → Prop where
  | write (fuel : ℕ) (pbuffer : Bytes) (sectorno sectorsize sectorcount c : ℕ)
      (hs : SectorSize B sectorsize)
      (returned : (ftlWriteSectors B fuel pbuffer sectorno sectorsize sectorcount).val d = some c) :
      CallOn B On d ((ftlWriteSectors B fuel pbuffer sectorno sectorsize sectorcount).state d)
  | copy (fuel page colnum : ℕ) (pbuffer : Bytes) (n c : ℕ) (on : On d page colnum)
      (hn : n < 2 ^ 32)
      (returned : (ftlCopyAndWriteToBlock B fuel page colnum pbuffer n).val d = some c) :
      CallOn B On d ((ftlCopyAndWriteToBlock B fuel page colnum pbuffer n).state d)

/-- A page and a column of the chip, as the code documents its arguments. -/
def OnChip (B : Board) (_ : Dev) (page colnum : ℕ) : Prop :=
  page < B.blockPagenum * B.blockTotalnum ∧ colnum < B.pageMainsize + B.pageSparesize

/-- A page of a mapped block. -/
def OnMapped (B : Board) (d : Dev) (page _colnum : ℕ) : Prop :=
  ∃ l < d.validBlocknum, ∃ i < B.blockPagenum, page = d.lut l * B.blockPagenum + i

/-- A page of a mapped block and a column of its main area, as both callers pass them. -/
def InMain (B : Board) (d : Dev) (page colnum : ℕ) : Prop :=
  OnMapped B d page colnum ∧ colnum < B.pageMainsize

/-- One call that returned, a copy being one from the main area of a mapped block on. -/
abbrev Call (B : Board) : Dev → Dev → Prop := CallOn B (InMain B)

theorem Call.sound (hB : B.Steady) {d d' : Dev} (h : Sound B d) (hc : Call B d d') :
    Sound B d' := by
  cases hc with
  | write fuel pbuffer sectorno sectorsize sectorcount c hs =>
      exact sound_ftlWriteSectors hB hs fuel pbuffer sectorno sectorcount h
  | copy fuel page colnum pbuffer n c on hn =>
      obtain ⟨⟨l, hl, i, hi, rfl⟩, hcol⟩ := on
      exact sound_ftlCopyAndWriteToBlock hB fuel pbuffer h hl hi hcol hn

/-- A state that calls reach from a successful format of a chip whose bad blocks are marked
on their first page. -/
def Reachable (B : Board) (d : Dev) : Prop :=
  ∃ d₀, FirstPageMarks B d₀.flash ∧ (ftlFormat B).val d₀ = 0 ∧
    Relation.ReflTransGen (Call B) ((ftlFormat B).state d₀) d

theorem Reachable.sound (hB : B.Steady) {d : Dev} (h : Reachable B d) : Sound B d := by
  obtain ⟨d₀, hmarks, hval, hrun⟩ := h
  induction hrun with
  | refl => exact (ftlFormat_spec hB hmarks hval).sound
  | tail _ hc ih => exact hc.sound hB ih

/-- Two zero bytes for the number of the block, in its spare area. -/
def zeroTag (B : Board) : CopyArgs := ⟨B.pageMainsize + 2, fun _ => 0, 2⟩

/-- The bytes go where the copy is told, and no length is cut off. -/
theorem zeroTag_moved {f : Flash} {source unused : ℕ} (hne : source ≠ unused)
    (hblank : Blank B f unused) : tag B (moved B f source unused 0 (zeroTag B)) unused = 0 := by
  have hsize := B.mainsize_le
  have hwrlen : (zeroTag B).wrlen B = 2 := by
    rw [CopyArgs.wrlen, if_neg (by simp only [zeroTag, u32]; omega)]
    rfl
  have hbyte : ∀ j, j = 2 ∨ j = 3 → moved B f source unused 0 (zeroTag B)
      (unused * B.blockPagenum) (B.pageMainsize + j) = 0 := by
    intro j hj
    have hpage : moved B f source unused 0 (zeroTag B) (unused * B.blockPagenum + 0)
        (B.pageMainsize + j) = editAt B 0 (zeroTag B) 0 (f (source * B.blockPagenum + 0))
          (B.pageMainsize + j) :=
      moved_dest hne B.pagenum_pos (hblank j (by omega)) (by omega)
    rw [Nat.add_zero, Nat.add_zero] at hpage
    rw [hpage, editAt, argsAt, CopyArgs.edit, if_pos ⟨le_rfl, by simp [zeroTag]⟩, hwrlen,
      loadRegister_low B _ _ _ _ (by omega), zeroTag,
      overlay_inside (by simp only; omega) (by simp only; omega)]
  rw [tag, hbyte 3 (Or.inr rfl), hbyte 2 (Or.inl rfl)]
  rfl

/-- The block has lost its number, and with it its place in the rebuilt table. -/
theorem zeroTag_lost (hB : B.FaultFree) {fuel l : ℕ} {d : Dev} (hfuel : fuel ≠ 0) (h : Sound B d)
    (hl : l < d.validBlocknum) (hzero : l ≠ 0) (ht : ∃ u, Target B d.flash (d.lut l) u) :
    let r := ftlCopyAndWriteToBlock B fuel (d.lut l * B.blockPagenum + 0)
      (B.pageMainsize + 2) (fun _ => 0) 2
    r.val d = some 0 ∧ (r.state d).validBlocknum = d.validBlocknum ∧
      (r.state d).lut l < B.blockTotalnum ∧ tag B (r.state d).flash ((r.state d).lut l) = 0 ∧
      ((ftlCreateLut B 1).state (r.state d)).lut l = 0xFFFF := by
  intro r
  obtain ⟨u₀, hu₀⟩ := ht
  rcases ftlCopyAndWriteToBlock_faultFree hB fuel (B.pageMainsize + 2) (fun _ => 0) 2
      (h.lut_lt l hl) (h.not_blank hl) B.pagenum_pos with
    ⟨hfuel', -⟩ | ⟨-, hnone, -⟩ | ⟨u, ht, hval, hm⟩
  · exact absurd hfuel' hfuel
  · exact absurd hu₀ (hnone u₀)
  have hne : d.lut l ≠ u := h.ne_of_blank hl ht.blank
  have hlut : (r.state d).lut = Function.update d.lut l u := by rw [hm.lut, h.replaced_eq hl]
  have htag : tag B (r.state d).flash u = 0 := by
    rw [hm.flash]
    exact zeroTag_moved hne ht.blank
  have hvalid := h.valid_lt
  refine ⟨hval, hm.validBlocknum, ?_, ?_, ?_⟩
  · rw [hlut, Function.update_self]
    exact ht.lt
  · rw [hlut, Function.update_self, htag]
  · rw [(ftlCreateLut_state hB.steady.reads (r.state d)).lut]
    refine (rebuild_of_none fun b hb hown htag' => ?_).trans
      (overlay_inside (Nat.zero_le _) (by omega))
    by_cases hbu : b = u
    · rw [hbu, htag] at htag'
      exact hzero htag'.symm
    · by_cases hbs : b = d.lut l
      · have hblank : Blank B (r.state d).flash (d.lut l) := by
          rw [hm.flash]
          exact moved_blank
        exact hblank.not_lt (hbs ▸ hown.2)
      · have hpage : ∀ i < B.blockPagenum, (r.state d).flash (b * B.blockPagenum + i) =
            d.flash (b * B.blockPagenum + i) := fun i hi => by
          rw [hm.flash, moved_other (by rwa [B.page_div _ hi]) (by rwa [B.page_div _ hi])]
        have hzero' := hpage 0 B.pagenum_pos
        rw [Nat.add_zero] at hzero'
        rw [Owner, Good, tag, hzero', hpage 1 B.two_le_pagenum, ← tag] at hown
        rw [tag, hzero', ← tag] at htag'
        have howner := (h.owner b hb hown).2
        rw [htag'] at howner
        exact hbs howner.symm

end Apollo.Ftl
