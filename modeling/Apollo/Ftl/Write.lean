import Apollo.Ftl.Format

/-!
# The rounds of a sector write

One round of `ftl_write_sectors` handles the sectors of a page or of the rest of a
block.  `WriteRound` lists what a round can do; every invariant of the disk is derived
from it.  The copy into another block appears there as the program it is, so that a
client may bring its own specification of it.

## Main definitions

* `SectorSize` — the sizes of a sector the FTL can place.
* `pageSecs`, `blockSecs` — how many sectors the two paths handle.
* `Programmed` — a part of a page has been programmed.
* `WriteRound`, `writeRound_cases` — what a round can do.
-/

namespace Apollo.Ftl
open Lib Nand

/-- A sector is not empty and fits into a page. -/
structure SectorSize (B : Board) (sectorsize : ℕ) : Prop where
  pos : 0 < sectorsize
  le : sectorsize ≤ B.pageMainsize

section Positions
variable (B : Board) (sectorno sectorsize sectorcount i : ℕ)

/-- How many sectors the path into the page handles. -/
def pageSecs : ℕ :=
  wsecs sectorcount i ((B.pageMainsize - blockoffset B sectorno sectorsize i % B.pageMainsize) /
    sectorsize)

/-- How many sectors the path into another block handles. -/
def blockSecs : ℕ :=
  wsecs sectorcount i (u16 ((blockSize B - blockoffset B sectorno sectorsize i) / sectorsize))

variable {B sectorno sectorsize sectorcount i}

theorem wsecs_le (sectorcount i temp : ℕ) : wsecs sectorcount i temp ≤ temp := by
  rw [wsecs]
  split <;> omega

/-- A sector begins inside its block. -/
theorem blockoffset_lt (h : SectorSize B sectorsize) (sectorno i : ℕ) :
    blockoffset B sectorno sectorsize i < blockSize B := by
  have hdiv : 0 < B.pageMainsize / sectorsize := Nat.div_pos h.le h.pos
  have hspb : 0 < sectorsPerBlock B sectorsize := Nat.mul_pos B.pagenum_pos hdiv
  have hlt := Nat.mod_lt (u32 (sectorno + i)) hspb
  calc blockoffset B sectorno sectorsize i
      < sectorsPerBlock B sectorsize * sectorsize := Nat.mul_lt_mul_of_pos_right hlt h.pos
    _ = B.blockPagenum * (B.pageMainsize / sectorsize * sectorsize) := Nat.mul_assoc _ _ _
    _ ≤ blockSize B := Nat.mul_le_mul_left _ (Nat.div_mul_le_self _ _)

/-- What goes into the page fits there. -/
theorem pageSecs_fits (B : Board) (sectorno sectorsize sectorcount i : ℕ) :
    blockoffset B sectorno sectorsize i % B.pageMainsize +
      pageSecs B sectorno sectorsize sectorcount i * sectorsize ≤ B.pageMainsize := by
  have hlt := Nat.mod_lt (blockoffset B sectorno sectorsize i) B.mainsize_pos
  have hle := Nat.mul_le_mul_right sectorsize (wsecs_le sectorcount i
    ((B.pageMainsize - blockoffset B sectorno sectorsize i % B.pageMainsize) / sectorsize))
  have hdiv := Nat.div_mul_le_self
    (B.pageMainsize - blockoffset B sectorno sectorsize i % B.pageMainsize) sectorsize
  rw [pageSecs]
  omega

/-- What goes into the block fits there. -/
theorem blockSecs_fits (B : Board) (sectorno sectorsize sectorcount i : ℕ) :
    blockSecs B sectorno sectorsize sectorcount i * sectorsize ≤
      blockSize B - blockoffset B sectorno sectorsize i := by
  have hle := Nat.mul_le_mul_right sectorsize (wsecs_le sectorcount i
    (u16 ((blockSize B - blockoffset B sectorno sectorsize i) / sectorsize)))
  have hmod : u16 ((blockSize B - blockoffset B sectorno sectorsize i) / sectorsize) ≤
      (blockSize B - blockoffset B sectorno sectorsize i) / sectorsize := Nat.mod_le _ _
  have hmul := Nat.mul_le_mul_right sectorsize hmod
  have hdiv := Nat.div_mul_le_self (blockSize B - blockoffset B sectorno sectorsize i) sectorsize
  rw [blockSecs]
  omega

theorem blockSize_lt (B : Board) : blockSize B < 2 ^ 32 := by
  have hP := B.pagenum_lt
  have hms := B.mainsize_le
  calc blockSize B ≤ 2 ^ 8 * 4096 := Nat.mul_le_mul (by omega) hms
    _ < 2 ^ 32 := by decide

end Positions

/-! ## Writing into the page -/

/-- `d'` is `d` after `reg` has been programmed into a page and, perhaps, block `pbnno` has
been marked used. -/
structure Programmed (B : Board) (page pbnno : ℕ) (reg : Bytes) (d d' : Dev) : Prop where
  flash : d'.flash = andPage d.flash page reg ∨
    d'.flash = markUsed B (andPage d.flash page reg) pbnno
  lut : d'.lut = d.lut
  validBlocknum : d'.validBlocknum = d.validBlocknum
  copies : d'.ticks .copyback = d.ticks .copyback

variable {B : Board}

/-- The first `n` bytes from a column of a page on are `0xFF`. -/
def PartBlank (f : Flash) (page pageoffset n : ℕ) : Prop :=
  ∀ j < n, f page (pageoffset + j) = 0xFF

/-- The path into the page: an error of the comparison, or a part that is not blank, or a
part that is blank and has been programmed. -/
theorem writeInPlace_cases (hB : B.Steady) (page pageoffset : ℕ) (pbuffer : Bytes)
    (wlen temp pbnno markdpbn : ℕ) (d : Dev) :
    let r := writeInPlace B page pageoffset pbuffer wlen temp pbnno markdpbn
    (r.val d = .exit 2 ∧ ¬ B.FaultFree ∧ Agrees d (r.state d)) ∨
    (r.val d = .next (1, markdpbn) ∧ Agrees d (r.state d) ∧
      ¬ PartBlank d.flash page pageoffset (4 * (wlen / 4))) ∨
    (PartBlank d.flash page pageoffset (4 * (wlen / 4)) ∧
      Programmed B page pbnno (loadRegister B erasedPage pageoffset pbuffer wlen) d (r.state d) ∧
      ∃ flag m, r.val d = .next (flag, m) ∧ (B.FaultFree → flag = 0)) := by
  intro r
  have hcmp := nandReadpagecomp_val hB.reads page pageoffset 0xFFFFFFFF (wlen / 4) temp d
  have hquiet : Agrees d (d.reads 1) := agrees_reads d 1
  set cmp := (nandReadpagecomp B page pageoffset 0xFFFFFFFF (wlen / 4) temp).val d with hcmpdef
  set code := (B.reply .program (d.ticks .program)).waitCode with hcode
  set d₁ := (d.reads 1).programs page (loadRegister B erasedPage pageoffset pbuffer wlen) with hd₁
  have hwrite : (nandWritepage B page pageoffset pbuffer wlen).state (d.reads 1) = d₁ :=
    state_nandWritepage hB.writes.programs ..
  have hticks : (d.reads 1).ticks .program = d.ticks .program :=
    Dev.ticks_reads_of_ne _ _ (by decide)
  by_cases herr : cmp.1 = 0
  · by_cases heq : cmp.2 = wlen / 4
    · refine Or.inr (Or.inr ⟨?_, ?_, ?_⟩)
      · rw [hcmp.1, equalWords_ff] at heq
        exact heq
      · have hcopies : d₁.ticks .copyback = d.ticks .copyback := by
          rw [hd₁, Dev.ticks_programs_of_ne _ _ _ (by decide), hquiet.copies]
        simp only [r, writeInPlace, Prog.state_bind, ← hcmpdef, herr, ne_eq, not_true_eq_false,
          if_false, heq, if_true, val_nandWritepage, state_nandReadpagecomp, hwrite,
          Prog.state_ite, Prog.state_pure, hticks, ← hcode]
        split
        · rw [state_ftlUsedBlockmark hB.writes.programs]
          refine ⟨Or.inr rfl, rfl, rfl, ?_⟩
          rw [Dev.ticks_programs_of_ne _ _ _ (by decide), hcopies]
        · exact ⟨Or.inl rfl, rfl, rfl, hcopies⟩
      · simp only [r, writeInPlace, Prog.val_bind, ← hcmpdef, herr, ne_eq, not_true_eq_false,
          if_false, heq, if_true, val_nandWritepage, state_nandReadpagecomp, hwrite,
          Prog.val_ite, Prog.val_pure, hticks, ← hcode]
        split
        · exact ⟨_, _, rfl, fun hff => hff.code .program _⟩
        · exact ⟨_, _, rfl, fun hff => hff.code .program _⟩
    · refine Or.inr (Or.inl ⟨?_, ?_, fun hblank => heq ?_⟩)
      · simp only [r, writeInPlace, Prog.val_bind, ← hcmpdef, herr, ne_eq, not_true_eq_false,
          if_false, heq, Prog.val_pure, one_ne_zero, false_and]
      · simp only [r, writeInPlace, Prog.state_bind, ← hcmpdef, herr, ne_eq, not_true_eq_false,
          if_false, heq, Prog.state_pure, Prog.val_pure, one_ne_zero, false_and,
          state_nandReadpagecomp]
        exact hquiet
      · rw [hcmp.1, equalWords_ff]
        exact hblank
  · refine Or.inl ⟨?_, fun hff => herr (hcmp.2 hff), ?_⟩
    · simp only [r, writeInPlace, Prog.val_bind, ← hcmpdef, ne_eq, herr, not_false_eq_true,
        if_true, Prog.val_pure]
    · simp only [r, writeInPlace, Prog.state_bind, ← hcmpdef, ne_eq, herr, not_false_eq_true,
        if_true, Prog.state_pure, state_nandReadpagecomp]
      exact hquiet

section Programmed
variable {b i : ℕ} {reg : Bytes} {d d' : Dev}

/-- Programming a page leaves the other blocks alone. -/
theorem Programmed.other (hi : i < B.blockPagenum)
    (hp : Programmed B (b * B.blockPagenum + i) b reg d d') {q : ℕ} (hq : q / B.blockPagenum ≠ b) :
    d'.flash q = d.flash q := by
  have hpage : q ≠ b * B.blockPagenum + i := by
    intro heq
    exact hq (by rw [heq, B.page_div _ hi])
  have hzero : q ≠ b * B.blockPagenum := by
    intro heq
    exact hq (by rw [heq, B.page_div_zero])
  rcases hp.flash with hf | hf
  · rw [hf, andPage_of_ne _ _ hpage]
  · rw [hf, markUsed_other hzero, andPage_of_ne _ _ hpage]

/-- But for the column of the used mark, the register has been programmed into its page. -/
theorem Programmed.apply {page c : ℕ} (hp : Programmed B page b reg d d')
    (hc : c ≠ B.pageMainsize + 1) (q : ℕ) : d'.flash q c = andPage d.flash page reg q c := by
  rcases hp.flash with hf | hf
  · rw [hf]
  · rw [hf, markUsed_column hc]

/-- A register that is `0xFF` there leaves a column alone, unless it is the used mark's. -/
theorem Programmed.column {page c : ℕ} (hp : Programmed B page b reg d d') (hreg : reg c = 0xFF)
    (hc : c ≠ B.pageMainsize + 1) (q : ℕ) : d'.flash q c = d.flash q c := by
  rw [hp.apply hc]
  by_cases hq : q = page
  · rw [hq, andPage_apply, hreg, and_ff]
  · rw [andPage_of_ne _ _ hq]

/-- A register loaded into the main area of a page leaves the tag bytes at `0xFF`. -/
theorem loadRegister_tag {pageoffset n c : ℕ} (pbuffer : Bytes)
    (hfit : pageoffset + n ≤ B.pageMainsize) (h₁ : B.pageMainsize ≤ c)
    (h₂ : c < B.pageMainsize + 0x10) : loadRegister B erasedPage pageoffset pbuffer n c = 0xFF := by
  rw [loadRegister_low _ _ _ _ _ h₂, overlay_after (by omega)]
  rfl

/-- The number of no block changes. -/
theorem Programmed.tag {page : ℕ} (hp : Programmed B page b reg d d')
    (hreg : ∀ c, B.pageMainsize ≤ c → c < B.pageMainsize + 4 → reg c = 0xFF) (b' : ℕ) :
    tag B d'.flash b' = tag B d.flash b' := by
  rw [Ftl.tag, Ftl.tag, hp.column (hreg _ (by omega) (by omega)) (by omega),
    hp.column (hreg _ (by omega) (by omega)) (by omega)]

end Programmed

/-! ## A round -/

/-- What is left behind before the path into another block is taken: the part of the page
was not blank and nothing has been programmed, or the chip reported an error. -/
def Tried (B : Board) (page pbnno : ℕ) (blank : Prop) (reg : Bytes) (d d₁ : Dev) : Prop :=
  (Agrees d d₁ ∧ ¬ blank) ∨ (¬ B.FaultFree ∧ Programmed B page pbnno reg d d₁)

theorem Tried.agrees {page pbnno : ℕ} {blank : Prop} {reg : Bytes} {d d₁ : Dev}
    (h : Tried B page pbnno blank reg d d₁) (hB : B.FaultFree) : Agrees d d₁ ∧ ¬ blank :=
  h.resolve_right fun hbad => hbad.1 hB

section Round
variable (B : Board) (fuel sectorno sectorsize sectorcount : ℕ) (v : WriteVars) (d : Dev)

/-- The physical page of the sector a round begins with. -/
def roundPage : ℕ :=
  d.lut (lbnno B sectorno sectorsize v.i) * B.blockPagenum +
    blockoffset B sectorno sectorsize v.i / B.pageMainsize

/-- The register a round programs. -/
def roundReg : Bytes :=
  loadRegister B erasedPage (blockoffset B sectorno sectorsize v.i % B.pageMainsize) v.pbuffer
    (pageSecs B sectorno sectorsize sectorcount v.i * sectorsize)

/-- The part of the page a round would program is blank. -/
def RoundBlank : Prop :=
  PartBlank d.flash (roundPage B sectorno sectorsize v d)
    (blockoffset B sectorno sectorsize v.i % B.pageMainsize)
    (4 * (pageSecs B sectorno sectorsize sectorcount v.i * sectorsize / 4))

/-- The call of `ftl_copy_and_write_to_block` a round makes. -/
def roundCopy : NandM (Option ℕ) :=
  ftlCopyAndWriteToBlock B fuel (roundPage B sectorno sectorsize v d)
    (blockoffset B sectorno sectorsize v.i % B.pageMainsize) v.pbuffer
    (blockSecs B sectorno sectorsize sectorcount v.i * sectorsize)

/-- The locals after `n` sectors. -/
def WriteVars.after (n markdpbn : ℕ) : WriteVars :=
  ⟨advance v.i n, shift v.pbuffer (n * sectorsize), markdpbn⟩

/-- How a round goes on after its call of `ftl_copy_and_write_to_block`. -/
def afterCopy (m : ℕ) : Option ℕ → Flow WriteVars (Option ℕ)
  | none => .exit none
  | some c =>
      if c ≠ 0 then .exit (some 3)
      else .next (v.after sectorsize (blockSecs B sectorno sectorsize sectorcount v.i) m)

/-- What a round of `ftl_write_sectors` can do. -/
inductive WriteRound : Flow WriteVars (Option ℕ) → Dev → Prop where
  | finished (hi : ¬ v.i < sectorcount) : WriteRound (.exit (some 0)) d
  | outside {d' : Dev} (hi : v.i < sectorcount)
      (unmapped : d.validBlocknum < lbnno B sectorno sectorsize v.i ∨
        B.blockTotalnum ≤ d.lut (lbnno B sectorno sectorsize v.i))
      (agrees : Agrees d d') : WriteRound (.exit (some 1)) d'
  | unreadable {d' : Dev} (hi : v.i < sectorcount) (fault : ¬ B.FaultFree)
      (agrees : Agrees d d') : WriteRound (.exit (some 2)) d'
  | inPlace {d' : Dev} (m : ℕ) (hi : v.i < sectorcount)
      (hl : lbnno B sectorno sectorsize v.i ≤ d.validBlocknum)
      (mapped : d.lut (lbnno B sectorno sectorsize v.i) < B.blockTotalnum)
      (blank : RoundBlank B sectorno sectorsize sectorcount v d)
      (programmed : Programmed B (roundPage B sectorno sectorsize v d)
        (d.lut (lbnno B sectorno sectorsize v.i))
        (roundReg B sectorno sectorsize sectorcount v) d d') :
      WriteRound
        (.next (v.after sectorsize (pageSecs B sectorno sectorsize sectorcount v.i) m)) d'
  | rewrite (m : ℕ) {d₁ : Dev} (hi : v.i < sectorcount)
      (hl : lbnno B sectorno sectorsize v.i ≤ d.validBlocknum)
      (mapped : d.lut (lbnno B sectorno sectorsize v.i) < B.blockTotalnum)
      (tried : Tried B (roundPage B sectorno sectorsize v d)
        (d.lut (lbnno B sectorno sectorsize v.i)) (RoundBlank B sectorno sectorsize sectorcount v d)
        (roundReg B sectorno sectorsize sectorcount v) d d₁) :
      WriteRound
        (afterCopy B sectorno sectorsize sectorcount v m
          ((roundCopy B fuel sectorno sectorsize sectorcount v d).val d₁))
        ((roundCopy B fuel sectorno sectorsize sectorcount v d).state d₁)

variable {B d}

theorem ftlLbnToPbn_apply (l : ℕ) :
    ftlLbnToPbn l d = (if l > d.validBlocknum then 0xFFFF else d.lut l, d) := rfl

variable {fuel sectorno sectorsize sectorcount v}

/-- A round that has a mapped block is its two paths. -/
theorem writeRound_mapped (hi : v.i < sectorcount)
    (hl : lbnno B sectorno sectorsize v.i ≤ d.validBlocknum)
    (mapped : d.lut (lbnno B sectorno sectorsize v.i) < B.blockTotalnum) :
    writeRound B fuel sectorno sectorsize sectorcount v d = (do
      match ← writeInPlace B (roundPage B sectorno sectorsize v d)
        (blockoffset B sectorno sectorsize v.i % B.pageMainsize) v.pbuffer
        (pageSecs B sectorno sectorsize sectorcount v.i * sectorsize)
        ((B.pageMainsize - blockoffset B sectorno sectorsize v.i % B.pageMainsize) / sectorsize)
        (d.lut (lbnno B sectorno sectorsize v.i)) v.markdpbn with
      | .exit r => pure (.exit (some r))
      | .next (flag, m) =>
          if flag ≠ 0 then do
            let r ← roundCopy B fuel sectorno sectorsize sectorcount v d
            pure (afterCopy B sectorno sectorsize sectorcount v m r)
          else pure (.next
            (v.after sectorsize (pageSecs B sectorno sectorsize sectorcount v.i) m)) :
        NandM (Flow WriteVars (Option ℕ))) d := by
  have hpbn : (ftlLbnToPbn (lbnno B sectorno sectorsize v.i)) d =
      (d.lut (lbnno B sectorno sectorsize v.i), d) := by
    rw [ftlLbnToPbn_apply, if_neg (by omega)]
  rw [writeRound, if_pos hi, Prog.bind_apply, Prog.val, Prog.state, hpbn]
  simp only [if_neg (Nat.not_le.mpr mapped)]
  refine congrFun (congrArg (writeInPlace B _ _ _ _ _ _ _ >>= ·) (funext fun out => ?_)) d
  cases out with
  | exit r => rfl
  | next x =>
      refine if_congr Iff.rfl (congrArg (roundCopy B fuel sectorno sectorsize sectorcount v d >>= ·)
        (funext fun r => ?_)) rfl
      cases r with
      | none => rfl
      | some c =>
          simp only [afterCopy]
          split <;> rfl

variable (fuel sectorno sectorsize sectorcount v d)

/-- Every round is one of these. -/
theorem writeRound_cases (hB : B.Steady) :
    WriteRound B fuel sectorno sectorsize sectorcount v d
      ((writeRound B fuel sectorno sectorsize sectorcount v).val d)
      ((writeRound B fuel sectorno sectorsize sectorcount v).state d) := by
  have htot := B.total_lt
  by_cases hi : v.i < sectorcount
  · by_cases hmap : lbnno B sectorno sectorsize v.i ≤ d.validBlocknum ∧
        d.lut (lbnno B sectorno sectorsize v.i) < B.blockTotalnum
    · obtain ⟨hl, mapped⟩ := hmap
      rw [Prog.val, Prog.state, writeRound_mapped hi hl mapped, Prog.bind_apply]
      rcases writeInPlace_cases hB (roundPage B sectorno sectorsize v d)
        (blockoffset B sectorno sectorsize v.i % B.pageMainsize) v.pbuffer
        (pageSecs B sectorno sectorsize sectorcount v.i * sectorsize)
        ((B.pageMainsize - blockoffset B sectorno sectorsize v.i % B.pageMainsize) / sectorsize)
        (d.lut (lbnno B sectorno sectorsize v.i)) v.markdpbn d with
        ⟨hval, hfault, ha⟩ | ⟨hval, ha, hnot⟩ | ⟨hblank, hprog, flag, m, hval, hflag⟩
      · rw [hval]
        exact .unreadable hi hfault ha
      · rw [hval]
        exact .rewrite v.markdpbn hi hl mapped (Or.inl ⟨ha, hnot⟩)
      · rw [hval]
        by_cases h0 : flag = 0
        · simp only [h0, ne_eq, not_true_eq_false, if_false]
          exact .inPlace m hi hl mapped hblank hprog
        · simp only [ne_eq, h0, not_false_eq_true, if_true]
          exact .rewrite m hi hl mapped (Or.inr ⟨fun hff => h0 (hflag hff), hprog⟩)
    · have hpbn : B.blockTotalnum ≤ (ftlLbnToPbn (lbnno B sectorno sectorsize v.i)).val d := by
        rw [Prog.val, ftlLbnToPbn_apply]
        split <;> omega
      rw [writeRound, if_pos hi, Prog.val_bind, Prog.state_bind, if_pos hpbn]
      exact .outside hi (by omega) (.refl d)
  · rw [writeRound, if_neg hi]
    exact .finished hi

end Round
end Apollo.Ftl
