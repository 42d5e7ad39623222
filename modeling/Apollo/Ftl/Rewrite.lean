import Apollo.Ftl.Invariant
import Mathlib.Data.Finset.Card

/-!
# Rewriting a block

The retry loop of `ftl_copy_and_write_to_block` on a chip whose page copies may fail.
Every pass that fails costs one unused block and loses nothing that is mapped, so the
loop ends; which passes fail, and at which pages, is decided by the chip's answers to
the copy-backs alone (`failedPages`).

## Main definitions

* `unusedBlocks` — what the search may hand out.
* `failedPages` — the pages at which passes fail before one succeeds.
* `argsAfter` — the arguments the pass that succeeds works with.
* `Survives` — what failed passes leave alone.
* `ftlCopyAndWriteToBlock_spec` — the whole function.
-/

namespace Apollo.Ftl
open Lib Nand

/-- The unused blocks of one parity. -/
def unusedBlocks (B : Board) (f : Flash) (par : ℕ) : Finset ℕ :=
  (Finset.range B.blockTotalnum).filter fun b => b % 2 = par ∧ Blank B f b

/-- The pages at which the passes fail before one succeeds, when the next copy-back is
the `t`-th and there are `m` unused blocks; nothing if none succeeds. -/
def failedPages (B : Board) : ℕ → ℕ → Option (List ℕ)
  | _, 0 => none
  | t, m + 1 =>
      match firstEntry B.blockPagenum fun i => ¬ CopyOk B (t + i) with
      | none => some []
      | some i => (failedPages B (t + (i + 1)) m).map (i :: ·)

/-- The arguments after passes that failed at the pages of a list. -/
def argsAfter (B : Board) (pageoffset : ℕ) (failed : List ℕ) (v : CopyArgs) : CopyArgs :=
  failed.foldl (fun w i => argsAt B pageoffset w (i + 1)) v

variable {B : Board}

theorem mem_unusedBlocks {f : Flash} {par b : ℕ} :
    b ∈ unusedBlocks B f par ↔ b < B.blockTotalnum ∧ b % 2 = par ∧ Blank B f b := by
  rw [unusedBlocks, Finset.mem_filter, Finset.mem_range]

theorem card_unusedBlocks_le (B : Board) (f : Flash) (par : ℕ) :
    (unusedBlocks B f par).card ≤ B.blockTotalnum :=
  (Finset.card_filter_le _ _).trans (Nat.le_of_eq (Finset.card_range _))

theorem mem_unusedBlocks_iff_target {f : Flash} {source u : ℕ} :
    u ∈ unusedBlocks B f (source % 2) ↔ Target B f source u := by
  rw [mem_unusedBlocks]
  exact ⟨fun h => ⟨h.1, h.2.1, h.2.2⟩, fun h => ⟨h.lt, h.parity, h.blank⟩⟩

theorem failedPages_of_ok {t m : ℕ} (h : ∀ j < B.blockPagenum, CopyOk B (t + j)) :
    failedPages B t (m + 1) = some [] := by
  have hnone : (firstEntry B.blockPagenum fun i => ¬ CopyOk B (t + i)) = none :=
    firstEntry_eq_none.mpr fun i hi => not_not.mpr (h i hi)
  rw [failedPages, hnone]

theorem failedPages_of_failed {t m i : ℕ} (hi : i < B.blockPagenum)
    (hok : ∀ j < i, CopyOk B (t + j)) (hfailed : ¬ CopyOk B (t + i)) :
    failedPages B t (m + 1) = (failedPages B (t + (i + 1)) m).map (i :: ·) := by
  have hsome : (firstEntry B.blockPagenum fun i => ¬ CopyOk B (t + i)) = some i :=
    firstEntry_eq_of hi hfailed fun j hj => not_not.mpr (hok j hj)
  rw [failedPages, hsome]

theorem CopyArgs.InPage.argsAfter {v : CopyArgs} (hv : v.InPage B) (pageoffset : ℕ)
    (failed : List ℕ) : (argsAfter B pageoffset failed v).InPage B := by
  induction failed generalizing v with
  | nil => exact hv
  | cons i failed ih => exact ih (hv.argsAt pageoffset (i + 1))

/-! ## What failed passes leave alone -/

/-- `d'` is a sound state with the table of `d` in which every block that was in use, or
bad, is as it was. -/
structure Survives (B : Board) (d d' : Dev) : Prop where
  sound : Sound B d'
  lut : d'.lut = d.lut
  validBlocknum : d'.validBlocknum = d.validBlocknum
  flash : ∀ b, ¬ Blank B d.flash b → ∀ i < B.blockPagenum,
    d'.flash (b * B.blockPagenum + i) = d.flash (b * B.blockPagenum + i)

theorem Survives.of_agrees {d d' : Dev} (h : Sound B d) (ha : Agrees d d') : Survives B d d' where
  sound := by
    rw [Sound, ha.flash, ha.lut, ha.validBlocknum]
    exact h
  lut := ha.lut
  validBlocknum := ha.validBlocknum
  flash := fun _ _ _ _ => by rw [ha.flash]

/-- No block becomes unused. -/
theorem Survives.blank {d d' : Dev} (h : Survives B d d') {b : ℕ} (hb : Blank B d'.flash b) :
    Blank B d.flash b := by
  by_contra hnot
  have hpage := h.flash b hnot 0 B.pagenum_pos
  rw [Nat.add_zero] at hpage
  exact hnot fun j hj => by rw [← hpage]; exact hb j hj

theorem Survives.trans {d d' d'' : Dev} (h : Survives B d d') (h' : Survives B d' d'') :
    Survives B d d'' where
  sound := h'.sound
  lut := h'.lut.trans h.lut
  validBlocknum := h'.validBlocknum.trans h.validBlocknum
  flash := fun b hb i hi => by
    rw [h'.flash b (fun hb' => hb (h.blank hb')) i hi, h.flash b hb i hi]

/-- Marking an unused block bad, whatever it holds, and rebuilding the table. -/
theorem Survives.of_markBad {d d' : Dev} (h : Sound B d) {u : ℕ} {f : Flash}
    (hblank : Blank B d.flash u) (hother : ∀ q, q / B.blockPagenum ≠ u → f q = d.flash q)
    (hflash : d'.flash = markBad B f u) (htable : d'.lut = table B d'.flash d.lut)
    (hvalidOf : d'.validBlocknum = (validOf B d'.lut).getD d.validBlocknum) : Survives B d d' := by
  have hsound : Consistent B d'.flash d.lut d.validBlocknum := by
    rw [hflash]
    exact h.markBad hblank hother
  have hlut : d'.lut = d.lut := by rw [htable, hsound.table_self]
  have hvalid : d'.validBlocknum = d.validBlocknum := by
    rw [hvalidOf, hlut, hsound.validOf_eq fun _ _ => rfl]
    rfl
  refine ⟨by rwa [Sound, hlut, hvalid], hlut, hvalid, fun b hb j hj => ?_⟩
  have hbu : b ≠ u := by
    intro heq
    exact hb (heq ▸ hblank)
  rw [hflash, markBad_other (by rwa [B.page_div _ hj]), hother _ (by rwa [B.page_div _ hj])]

/-- A pass that fails leaves everything but its destination alone. -/
theorem Retried.survives {d d' : Dev} (h : Sound B d) {source u i : ℕ}
    (ht : Target B d.flash source u) (hr : Retried B u i d d') : Survives B d d' := by
  obtain ⟨f, hother, hflash⟩ := hr.flash
  exact .of_markBad h ht.blank hother hflash hr.lut hr.validBlocknum

/-- A pass that fails costs one unused block. -/
theorem Retried.unusedBlocks {d d' : Dev} {u i : ℕ} (hr : Retried B u i d d') (par : ℕ) :
    unusedBlocks B d'.flash par = (unusedBlocks B d.flash par).erase u := by
  obtain ⟨f, hother, hflash⟩ := hr.flash
  ext b
  rw [Finset.mem_erase, mem_unusedBlocks, mem_unusedBlocks]
  by_cases hbu : b = u
  · refine ⟨fun hb => absurd (hb.2.2 0 (by omega)) ?_, fun hb => absurd hbu hb.1⟩
    rw [hflash, hbu]
    exact markBad_first
  · have hpage : d'.flash (b * B.blockPagenum) = d.flash (b * B.blockPagenum) := by
      rw [hflash, markBad_other (by rwa [B.page_div_zero]), hother _ (by rwa [B.page_div_zero])]
    have hblank : Blank B d'.flash b ↔ Blank B d.flash b := by rw [Blank, hpage, Blank]
    rw [hblank]
    exact ⟨fun hb => ⟨hbu, hb⟩, fun hb => hb.2⟩

/-! ## The retry loop -/

/-- How a rewrite of block `source` ends: with 1 when the unused blocks have run out, with
0 after a pass that succeeded with what the failed ones had left of the arguments. -/
inductive Outcome (B : Board) (source pageoffset : ℕ) (v : CopyArgs) (d : Dev) :
    ℕ → Dev → Prop where
  | full {d' : Dev} (survives : Survives B d d')
      (none : failedPages B (d.ticks .copyback) (unusedBlocks B d.flash (source % 2)).card = none) :
      Outcome B source pageoffset v d 1 d'
  | done {d₁ d' : Dev} {u : ℕ} {failed : List ℕ} (survives : Survives B d d₁)
      (some : failedPages B (d.ticks .copyback) (unusedBlocks B d.flash (source % 2)).card =
        some failed)
      (target : Target B d₁.flash source u)
      (moved : Moved B source u pageoffset (argsAfter B pageoffset failed v) d₁ d') :
      Outcome B source pageoffset v d 0 d'

/-- A pass that failed comes before the others. -/
theorem Outcome.cons {source pageoffset u i c : ℕ} {v : CopyArgs} {d d' d'' : Dev}
    (h : Sound B d) (ht : Target B d.flash source u) (hi : i < B.blockPagenum)
    (hr : Retried B u i d d')
    (ho : Outcome B source pageoffset (argsAt B pageoffset v (i + 1)) d' c d'') :
    Outcome B source pageoffset v d c d'' := by
  have hmem := mem_unusedBlocks_iff_target.mpr ht
  have hsurv := hr.survives h ht
  have hpages : failedPages B (d.ticks .copyback) (unusedBlocks B d.flash (source % 2)).card =
      (failedPages B (d'.ticks .copyback) (unusedBlocks B d'.flash (source % 2)).card).map
        (i :: ·) := by
    rw [hr.unusedBlocks, ← Finset.card_erase_add_one hmem,
      failedPages_of_failed hi hr.ok hr.failed, hr.copies]
  cases ho with
  | full hs hn =>
      refine .full (hsurv.trans hs) ?_
      rw [hpages, hn]
      rfl
  | done hs hf ht' hm =>
      refine @Outcome.done _ _ _ _ _ _ _ _ (i :: _) (hsurv.trans hs) ?_ ht' hm
      rw [hpages, hf]
      rfl

/-- The retry loop, from a sound state and a mapped block: it ends once there are more
passes than unused blocks, and every end is an `Outcome`. -/
theorem retry_spec (hB : B.Steady) (pageoffset fuel i : ℕ) {l : ℕ} {v : CopyArgs} {d : Dev}
    (h : Sound B d) (hl : l < d.validBlocknum) :
    ((Prog.loop (fun _ => ftlCopyAttempt B (d.lut l) pageoffset) fuel i v).val d).Holds
      (fun _ => Survives B d
          ((Prog.loop (fun _ => ftlCopyAttempt B (d.lut l) pageoffset) fuel i v).state d) ∧
        fuel ≤ (unusedBlocks B d.flash (d.lut l % 2)).card)
      (fun c => Outcome B (d.lut l) pageoffset v d c
        ((Prog.loop (fun _ => ftlCopyAttempt B (d.lut l) pageoffset) fuel i v).state d)) := by
  induction fuel generalizing i v d with
  | zero => exact ⟨.of_agrees h (.refl d), Nat.zero_le _⟩
  | succ fuel ih =>
      set body : ℕ → CopyArgs → NandM (Flow CopyArgs ℕ) :=
        fun _ => ftlCopyAttempt B (d.lut l) pageoffset with hbody
      have hstep : _ ∨ _ ∨ _ :=
        ftlCopyAttempt_spec hB pageoffset v (h.lut_lt l hl) (h.not_blank hl)
      rcases hstep with ⟨hval, hnone, ha⟩ | ⟨u, ht, hval, hm⟩ | ⟨u, k, hk, ht, hval, hr⟩
      · rw [Prog.val_loop_exit body hval, Prog.state_loop_exit body hval]
        refine .full (.of_agrees h ha) ?_
        have hempty : unusedBlocks B d.flash (d.lut l % 2) = ∅ := by
          rw [Finset.eq_empty_iff_forall_notMem]
          exact fun u hu => hnone u (mem_unusedBlocks_iff_target.mp hu)
        rw [hempty, Finset.card_empty]
        rfl
      · rw [Prog.val_loop_exit body hval, Prog.state_loop_exit body hval]
        refine @Outcome.done _ _ _ _ _ _ _ _ [] (.of_agrees h (.refl d)) ?_ ht hm
        rw [← Finset.card_erase_add_one (mem_unusedBlocks_iff_target.mpr ht)]
        exact failedPages_of_ok hm.ok
      · have hsurv := hr.survives h ht
        have hcard := Finset.card_erase_add_one (mem_unusedBlocks_iff_target.mpr ht)
        have hrest := ih (i + 1) (v := argsAt B pageoffset v (k + 1)) hsurv.sound
          (by rw [hsurv.validBlocknum]; exact hl)
        rw [hsurv.lut, hr.unusedBlocks] at hrest
        rw [Prog.val_loop_next body hval, Prog.state_loop_next body hval]
        refine hrest.imp (fun w hnext => ⟨hsurv.trans hnext.1, ?_⟩)
          fun c hexit => Outcome.cons h ht hk hr hexit
        have hfew := hnext.2
        omega

/-- `ftl_copy_and_write_to_block` on a page of a mapped block: it returns as soon as there
is fuel for every unused block of the plane and one pass more, and what it returns and
leaves behind is an `Outcome`. -/
theorem ftlCopyAndWriteToBlock_spec (hB : B.Steady) (fuel colnum : ℕ) {l pageoffset : ℕ}
    (pbuffer : Bytes) (n : ℕ) {d : Dev} (h : Sound B d) (hl : l < d.validBlocknum)
    (hp : pageoffset < B.blockPagenum) :
    let r := ftlCopyAndWriteToBlock B fuel (d.lut l * B.blockPagenum + pageoffset) colnum pbuffer n
    (r.val d = none ∧ Survives B d (r.state d) ∧
        fuel ≤ (unusedBlocks B d.flash (d.lut l % 2)).card) ∨
      ∃ c, r.val d = some c ∧
        Outcome B (d.lut l) pageoffset ⟨colnum, pbuffer, n⟩ d c (r.state d) := by
  have hloop := retry_spec hB pageoffset fuel 0 (v := ⟨colnum, pbuffer, n⟩) h hl
  simp only [ftlCopyAndWriteToBlock, B.page_div _ hp, B.page_mod _ hp, Prog.val_bind,
    Prog.state_bind]
  cases hval : (Prog.loop (fun _ => ftlCopyAttempt B (d.lut l) pageoffset) fuel 0
      ⟨colnum, pbuffer, n⟩).val d with
  | next w =>
      rw [hval] at hloop
      exact Or.inl ⟨rfl, hloop⟩
  | exit c =>
      rw [hval] at hloop
      exact Or.inr ⟨c, rfl, hloop⟩

/-! ## Without failures -/

theorem copyOk_faulty {G : Geometry} {hwEcc : (Fin nandEccSectorSize → UInt8) → UInt32}
    {flip : UInt32} {fails : ℕ → Bool} {t : ℕ} :
    CopyOk (.faulty G hwEcc flip fails) t ↔ fails t = false := by
  simp only [CopyOk, Board.faulty]
  cases fails t with
  | true => exact ⟨fun h => absurd h.2 Reply.stuck_waitCode, fun h => Bool.noConfusion h⟩
  | false => exact ⟨fun _ => rfl, fun _ => ⟨Reply.sound_answers, Reply.sound_waitCode⟩⟩

theorem copyOk_of_faultFree (hB : B.FaultFree) (t : ℕ) : CopyOk B t := ⟨hB.answers _ _, hB.code _ _⟩

/-- Where the chip carries out the next copies of a whole block, the first pass of a rewrite
decides. -/
theorem ftlCopyAndWriteToBlock_first (hB : B.Steady) (fuel colnum : ℕ) {l pageoffset : ℕ}
    (pbuffer : Bytes) (n : ℕ) {d : Dev} (hl : d.lut l < B.blockTotalnum)
    (hused : ¬ Blank B d.flash (d.lut l)) (hp : pageoffset < B.blockPagenum)
    (hok : ∀ j < B.blockPagenum, CopyOk B (d.ticks .copyback + j)) :
    let r := ftlCopyAndWriteToBlock B fuel (d.lut l * B.blockPagenum + pageoffset) colnum pbuffer n
    (fuel = 0 ∧ r.val d = none ∧ r.state d = d) ∨
    (r.val d = some 1 ∧ (∀ u, ¬ Target B d.flash (d.lut l) u) ∧ Agrees d (r.state d)) ∨
    (∃ u, Target B d.flash (d.lut l) u ∧ r.val d = some 0 ∧
      Moved B (d.lut l) u pageoffset ⟨colnum, pbuffer, n⟩ d (r.state d)) := by
  simp only [ftlCopyAndWriteToBlock, B.page_div _ hp, B.page_mod _ hp, Prog.val_bind,
    Prog.state_bind]
  cases fuel with
  | zero => exact Or.inl ⟨rfl, rfl, rfl⟩
  | succ fuel =>
      set body : ℕ → CopyArgs → NandM (Flow CopyArgs ℕ) :=
        fun _ => ftlCopyAttempt B (d.lut l) pageoffset with hbody
      have hstep : _ ∨ _ ∨ _ := ftlCopyAttempt_spec hB pageoffset ⟨colnum, pbuffer, n⟩ hl hused
      refine Or.inr ?_
      rcases hstep with ⟨hval, hnone, ha⟩ | ⟨u, ht, hval, hm⟩ | ⟨u, k, hk, ht, hval, hr⟩
      · rw [Prog.val_loop_exit body hval, Prog.state_loop_exit body hval]
        exact Or.inl ⟨rfl, hnone, ha⟩
      · rw [Prog.val_loop_exit body hval, Prog.state_loop_exit body hval]
        exact Or.inr ⟨u, ht, rfl, hm⟩
      · exact absurd (hok k hk) hr.failed

/-- On a chip on which nothing fails the first pass of a rewrite decides. -/
theorem ftlCopyAndWriteToBlock_faultFree (hB : B.FaultFree) (fuel colnum : ℕ)
    {l pageoffset : ℕ} (pbuffer : Bytes) (n : ℕ) {d : Dev} (hl : d.lut l < B.blockTotalnum)
    (hused : ¬ Blank B d.flash (d.lut l)) (hp : pageoffset < B.blockPagenum) :
    let r := ftlCopyAndWriteToBlock B fuel (d.lut l * B.blockPagenum + pageoffset) colnum pbuffer n
    (fuel = 0 ∧ r.val d = none ∧ r.state d = d) ∨
    (r.val d = some 1 ∧ (∀ u, ¬ Target B d.flash (d.lut l) u) ∧ Agrees d (r.state d)) ∨
    (∃ u, Target B d.flash (d.lut l) u ∧ r.val d = some 0 ∧
      Moved B (d.lut l) u pageoffset ⟨colnum, pbuffer, n⟩ d (r.state d)) :=
  ftlCopyAndWriteToBlock_first hB.steady fuel colnum pbuffer n hl hused hp fun _ _ =>
    copyOk_of_faultFree hB _

end Apollo.Ftl
