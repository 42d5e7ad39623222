import Apollo.Ftl.Repair

/-!
# A power cut during a rewrite

From the first page copy to the erase of the source there are two blocks with the number
of the logical block, and `ftl_create_lut` takes the one with the higher index.  Where
that is the source, a cut at any time leaves the old data.  Where it is the destination,
a cut before the last page has been copied leaves a block that is neither.

## Main definitions

* `Restarts` — what a logical block holds once the table has been rebuilt.
* `Unfinished` — a page copy after which the wrong block is taken.
* `MovedOp.restarts`, `FailedOp.restarts` — the operations of one pass.
* `copy_survives_power_cut` — every operation of a call but those.
-/

namespace Apollo.Ftl
open Lib Nand

variable {B : Board}

/-! ## Rebuilding the table -/

/-- Once the table has been rebuilt from the array `f`, whatever the RAM held before, logical
block `l` is mapped to a block that holds `data`. -/
def Restarts (B : Board) (f : Flash) (l : ℕ) (data : Bytes) : Prop :=
  ∀ d : Dev, d.flash = f →
    let d' := (ftlCreateLut B 1).state d
    d'.lut l < B.blockTotalnum ∧ ∀ o < blockSize B, logicalData B d' l o = data o

/-- The last good block that carries a number is the one that is taken. -/
theorem restarts_of_last (hB : B.ReadsOk) {f : Flash} {l b : ℕ} {data : Bytes}
    (hb : b < B.blockTotalnum) (hown : Owner B f b) (htag : tag B f b = l)
    (hlast : ∀ b' < B.blockTotalnum, b < b' → Owner B f b' → tag B f b' ≠ l)
    (hdata : ∀ o < blockSize B, blockData B f b o = data o) : Restarts B f l data := by
  intro d hd d'
  have hr := ftlCreateLut_state hB d
  have hlut : d'.lut l = b := by
    rw [hr.lut, hd]
    exact rebuild_of_last hb hown htag hlast
  refine ⟨by rwa [hlut], fun o ho => ?_⟩
  rw [logicalData, hlut, hr.flash, hd]
  exact hdata o ho

theorem Restarts.congr {f : Flash} {l : ℕ} {data data' : Bytes} (h : Restarts B f l data)
    (heq : ∀ o < blockSize B, data o = data' o) : Restarts B f l data' := by
  intro d hd
  obtain ⟨hlt, hdata⟩ := h d hd
  exact ⟨hlt, fun o ho => (hdata o ho).trans (heq o ho)⟩

/-- The array alone decides. -/
theorem Restarts.unique {f : Flash} {l : ℕ} {data data' : Bytes} (h : Restarts B f l data)
    (h' : Restarts B f l data') {o : ℕ} (ho : o < blockSize B) : data o = data' o := by
  set d : Dev := { Dev.blank with flash := f }
  exact ((h d rfl).2 o ho).symm.trans ((h' d rfl).2 o ho)

section Array
variable {f g : Flash} {lut : ℕ → ℕ} {valid l u pageoffset : ℕ} {v : CopyArgs}

/-- The blocks of a consistent array keep their data. -/
theorem Tagged.restarts (hB : B.ReadsOk) (h : Tagged B f lut valid) (hl : l < valid) :
    Restarts B f l (blockData B f (lut l)) := by
  have hlt := h.valid_lt
  have htag := h.lut_tag l hl
  refine restarts_of_last hB (h.lut_lt l hl) ⟨h.lut_good l hl, by omega⟩ htag ?_ fun _ _ => rfl
  intro b hb hgt hown hbtag
  have howner := (h.owner b hb hown).2
  rw [hbtag] at howner
  omega

/-- As long as nothing but an unused block has changed, and that one is not above the source as
a good block with the same number, the old data is taken. -/
theorem Consistent.restarts_old (hB : B.ReadsOk) (h : Consistent B f lut valid) (hl : l < valid)
    (hblank : Blank B f u) (hother : ∀ q, q / B.blockPagenum ≠ u → g q = f q)
    (hu : ¬(lut l < u ∧ Good B g u ∧ tag B g u = l)) : Restarts B g l (blockData B f (lut l)) := by
  have hlt := h.valid_lt
  have hpage : ∀ b, b ≠ u → ∀ i < B.blockPagenum,
      g (b * B.blockPagenum + i) = f (b * B.blockPagenum + i) :=
    fun b hb i hi => hother _ (by rwa [B.page_div _ hi])
  have hzero : ∀ b, b ≠ u → g (b * B.blockPagenum) = f (b * B.blockPagenum) :=
    fun b hb => hpage b hb 0 B.pagenum_pos
  have hown : ∀ b, b ≠ u → (Owner B g b ↔ Owner B f b) ∧ tag B g b = tag B f b := by
    intro b hb
    rw [Owner, Owner, Good, Good, tag, tag, hzero b hb, hpage b hb 1 B.two_le_pagenum]
    exact ⟨Iff.rfl, rfl⟩
  have hne := h.ne_of_blank hl hblank
  have htag := h.lut_tag l hl
  refine restarts_of_last hB (h.lut_lt l hl) ((hown _ hne).1.mpr ⟨h.lut_good l hl, by omega⟩)
    ((hown _ hne).2.trans htag) (fun b hb hgt howner hbtag => ?_)
    fun o ho => blockData_congr (hpage _ hne) ho
  by_cases hbu : b = u
  · rw [hbu] at hgt howner hbtag
    exact hu ⟨hgt, howner.1, hbtag⟩
  · rw [(hown b hbu).2] at hbtag
    have hentry := (h.owner b hb ((hown b hbu).1.mp howner)).2
    rw [hbtag] at hentry
    omega

/-- A good block above the source that has come to carry the same number is taken. -/
theorem Consistent.restarts_above (hB : B.ReadsOk) (h : Consistent B f lut valid) (hl : l < valid)
    (hu : u < B.blockTotalnum) (hother : ∀ q, q / B.blockPagenum ≠ u → g q = f q)
    (habove : lut l < u) (hgood : Good B g u) (htag : tag B g u = l) :
    Restarts B g l (blockData B g u) := by
  have hlt := h.valid_lt
  refine restarts_of_last hB hu ⟨hgood, by omega⟩ htag (fun b hb hgt hown hbtag => ?_)
    fun _ _ => rfl
  have hbu : b ≠ u := by omega
  have hpage : ∀ i < B.blockPagenum, g (b * B.blockPagenum + i) = f (b * B.blockPagenum + i) :=
    fun i hi => hother _ (by rwa [B.page_div _ hi])
  have hfirst : g (b * B.blockPagenum) = f (b * B.blockPagenum) := hpage 0 B.pagenum_pos
  rw [tag, hfirst, ← tag] at hbtag
  rw [Owner, Good, tag, hfirst, hpage 1 B.two_le_pagenum] at hown
  have hentry := (h.owner b hb hown).2
  rw [hbtag] at hentry
  omega

/-- Once every page has been copied to a block above the source, the new data is taken, with or
without the used mark. -/
theorem Consistent.restarts_new (hB : B.ReadsOk) (h : Consistent B f lut valid) (hl : l < valid)
    (ht : Target B f (lut l) u) (hv : v.InPage B) (habove : lut l < u)
    (hother : ∀ q, q / B.blockPagenum ≠ u → g q = f q)
    (hcopied : ∀ i < B.blockPagenum, ∀ c, c ≠ B.pageMainsize + 1 →
      g (u * B.blockPagenum + i) c =
        Ftl.moved B f (lut l) u pageoffset v (u * B.blockPagenum + i) c) :
    Restarts B g l (blockData B (Ftl.moved B f (lut l) u pageoffset v) u) := by
  have hmoved := h.moved hl ht.lt ht.blank pageoffset hv
  have hgood := hmoved.lut_good l hl
  have htag := hmoved.lut_tag l hl
  rw [Function.update_self] at hgood htag
  have hzero : ∀ c, c ≠ B.pageMainsize + 1 → g (u * B.blockPagenum) c =
      Ftl.moved B f (lut l) u pageoffset v (u * B.blockPagenum) c := hcopied 0 B.pagenum_pos
  have hgood' : Good B g u := by
    rw [Good, hzero _ (by omega), hcopied 1 B.two_le_pagenum _ (by omega)]
    exact hgood
  have htag' : tag B g u = l := by
    rw [tag, hzero _ (by omega), hzero _ (by omega), ← tag, htag]
  refine (h.restarts_above hB hl ht.lt hother habove hgood' htag').congr fun o ho => ?_
  have hcol := offset_col_lt B (o := o)
  exact hcopied _ (offset_page_lt B ho) _ (by omega)

/-- The block is taken as soon as its first page has been copied. -/
theorem Consistent.restarts_copied (pageoffset : ℕ) (hB : B.ReadsOk) (h : Consistent B f lut valid)
    (hl : l < valid)
    (ht : Target B f (lut l) u) (hv : v.InPage B) (habove : lut l < u) :
    Restarts B (copied B f (lut l) u pageoffset v 1) l
      (blockData B (copied B f (lut l) u pageoffset v 1) u) := by
  have hgood := h.lut_good l hl
  have htag := h.lut_tag l hl
  have hfirst : ∀ j < 4, copied B f (lut l) u pageoffset v 1 (u * B.blockPagenum)
      (B.pageMainsize + j) = f (lut l * B.blockPagenum) (B.pageMainsize + j) := by
    intro j hj
    have hpage : copied B f (lut l) u pageoffset v 1 (u * B.blockPagenum + 0)
        (B.pageMainsize + j) = _ := congrFun (copied_page Nat.one_pos B.pagenum_pos) _
    rw [Nat.add_zero, Nat.add_zero, ht.blank j hj, ff_and, editAt_tag hv _ _ (by omega) (by omega)]
      at hpage
    exact hpage
  have hsecond : copied B f (lut l) u pageoffset v 1 (u * B.blockPagenum + 1) B.pageMainsize =
      0xFF := by
    rw [copied_later (Nat.le_refl 1) B.two_le_pagenum, h.erased u ht.lt ht.blank 1 B.two_le_pagenum]
    rfl
  refine h.restarts_above hB hl ht.lt (fun q hq => copied_other hq) habove
    ⟨(hfirst 0 (by omega)).trans hgood.1, hsecond⟩ ?_
  rw [tag, hfirst 3 (by omega), hfirst 2 (by omega), ← tag, htag]

end Array

/-! ## The operations of a pass -/

/-- A page copy into a block above block `source` that is not the last one of its block, or that
the chip did not carry out, and after which the block is good and carries the number `l`: the
scan takes a block that is still incomplete. -/
structure Unfinished (B : Board) (source l : ℕ) (op : Op) : Prop where
  cmd : op.cmd = .copyback
  above : source < op.page / B.blockPagenum
  good : Good B op.flash (op.page / B.blockPagenum)
  tag_eq : tag B op.flash (op.page / B.blockPagenum) = l
  unfinished : ¬(op.page % B.blockPagenum + 1 = B.blockPagenum ∧ CopyOk B op.index)

section Pass
variable {d : Dev} {l u pageoffset : ℕ} {v : CopyArgs} {op : Op}

/-- A page copy, cut before the block is complete. -/
theorem Copying.restarts (hB : B.ReadsOk) (h : Sound B d) (hl : l < d.validBlocknum)
    (hblank : Blank B d.flash u) (hop : Copying B d.flash u op)
    (hfinished : ¬ Unfinished B (d.lut l) l op) : Restarts B op.flash l (logicalData B d l) := by
  refine h.restarts_old hB hl hblank hop.other ?_
  rintro ⟨habove, hgood, htag⟩
  rw [← hop.block] at habove hgood htag
  exact hfinished ⟨hop.cmd, habove, hgood, htag, hop.unfinished⟩

/-- Whenever a pass that fails is cut, the old data is taken, but for those copies. -/
theorem FailedOp.restarts (hB : B.ReadsOk) (h : Sound B d) (hl : l < d.validBlocknum)
    (hblank : Blank B d.flash u) (hop : FailedOp B d.flash u op)
    (hfinished : ¬ Unfinished B (d.lut l) l op) : Restarts B op.flash l (logicalData B d l) := by
  cases hop with
  | copying hcopying => exact hcopying.restarts hB h hl hblank hfinished
  | marked hother hbad =>
      exact h.restarts_old hB hl hblank hother fun hu => hbad hu.2.1.1

/-- Whenever a pass that succeeds is cut, the old data or the new is taken, but for those
copies. -/
theorem MovedOp.restarts (hB : B.ReadsOk) (h : Sound B d) (hl : l < d.validBlocknum)
    (hv : v.InPage B) (ht : Target B d.flash (d.lut l) u)
    (hop : MovedOp B d.flash (d.lut l) u pageoffset v op)
    (hfinished : ¬ Unfinished B (d.lut l) l op) :
    Restarts B op.flash l (logicalData B d l) ∨
      Restarts B op.flash l (blockData B (moved B d.flash (d.lut l) u pageoffset v) u) := by
  have hne := h.ne_of_blank hl ht.blank
  -- all pages are copied: the higher of the two blocks is taken
  have hboth : ∀ g : Flash, (∀ q, q / B.blockPagenum ≠ u → g q = d.flash q) →
      (∀ i < B.blockPagenum, ∀ c, c ≠ B.pageMainsize + 1 → g (u * B.blockPagenum + i) c =
        moved B d.flash (d.lut l) u pageoffset v (u * B.blockPagenum + i) c) →
      Restarts B g l (logicalData B d l) ∨
        Restarts B g l (blockData B (moved B d.flash (d.lut l) u pageoffset v) u) := by
    intro g hother hcopied
    rcases Nat.lt_or_gt_of_ne hne with habove | hbelow
    · exact Or.inr (h.restarts_new hB hl ht hv habove hother hcopied)
    · exact Or.inl (h.restarts_old hB hl ht.blank hother fun hu => Nat.lt_asymm hbelow hu.1)
  have hsame : ∀ i < B.blockPagenum, ∀ c, c ≠ B.pageMainsize + 1 →
      moved B d.flash (d.lut l) u pageoffset v (u * B.blockPagenum + i) c =
        Ftl.copied B d.flash (d.lut l) u pageoffset v B.blockPagenum
          (u * B.blockPagenum + i) c := by
    intro i hi c hc
    rw [moved, eraseBlock_of_ne _ _ (by rw [B.page_div _ hi]; exact Ne.symm hne),
      markUsed_column hc]
  cases hop with
  | copying hcopying => exact Or.inl (hcopying.restarts hB h hl ht.blank hfinished)
  | copied hflash =>
      rw [hflash]
      exact hboth _ (fun q hq => copied_other hq) fun i hi c hc => (hsame i hi c hc).symm
  | used hflash =>
      rw [hflash]
      refine hboth _ (fun q hq => ?_) fun i hi c hc => ?_
      · rw [markUsed_other, copied_other hq]
        intro heq
        exact hq (by rw [heq, B.page_div_zero])
      · rw [markUsed_column hc, hsame i hi c hc]
  | erased hflash =>
      have hrestarts := (h.moved hl ht.lt ht.blank pageoffset hv).toTagged.restarts hB hl
      rw [Function.update_self] at hrestarts
      rw [hflash]
      exact Or.inr hrestarts

end Pass

/-! ## A call -/

/-- A power cut right after the operation leaves logical block `l` with its data in `d` or its
data in `d'`. -/
def OldOrNew (B : Board) (l : ℕ) (d d' : Dev) (op : Op) : Prop :=
  Restarts B op.flash l (logicalData B d l) ∨ Restarts B op.flash l (logicalData B d' l)

/-- What survives is still the same data. -/
theorem Survives.logicalData {d d' : Dev} (hs : Survives B d d') (h : Sound B d) {l : ℕ}
    (hl : l < d.validBlocknum) {o : ℕ} (ho : o < blockSize B) :
    logicalData B d' l o = logicalData B d l o := by
  rw [Ftl.logicalData, Ftl.logicalData, hs.lut]
  exact blockData_congr (hs.flash _ (h.not_blank hl)) ho

/-- The retry loop. -/
theorem retry_restarts (hB : B.Steady) (pageoffset fuel i : ℕ) {l : ℕ} {v : CopyArgs} {d : Dev}
    (hv : v.InPage B) (h : Sound B d) (hl : l < d.validBlocknum) :
    let r := Prog.loop (fun _ => ftlCopyAttempt B (d.lut l) pageoffset) fuel i v
    Issued (fun op => ¬ Unfinished B (d.lut l) l op → OldOrNew B l d (r.state d) op) d
      (r.state d) := by
  induction fuel generalizing i v d with
  | zero => exact .of_log_eq rfl
  | succ fuel ih =>
      set body : ℕ → CopyArgs → NandM (Flow CopyArgs ℕ) :=
        fun _ => ftlCopyAttempt B (d.lut l) pageoffset with hbody
      intro r
      have hstep : _ ∨ _ ∨ _ :=
        ftlCopyAttempt_spec hB pageoffset v (h.lut_lt l hl) (h.not_blank hl)
      rcases hstep with ⟨hval, -, ha⟩ | ⟨u, ht, hval, hm⟩ | ⟨u, k, hk, ht, hval, hr⟩
      · simp only [r]
        rw [Prog.state_loop_exit body hval]
        exact .of_log_eq ha.log
      · simp only [r]
        rw [Prog.state_loop_exit body hval]
        have hentry : (((body i v).state d).lut l) = u := by
          rw [hm.lut, h.replaced_eq hl, Function.update_self]
        have hnew : logicalData B ((body i v).state d) l =
            blockData B (moved B d.flash (d.lut l) u pageoffset v) u := by
          rw [logicalData, hentry, hm.flash]
        refine hm.log.mono fun op hop hfinished => ?_
        rw [OldOrNew, hnew]
        exact hop.restarts hB.reads h hl hv ht hfinished
      · simp only [r]
        rw [Prog.state_loop_next body hval]
        have hsurv := hr.survives h ht
        have hrest := ih (i + 1) (hv.argsAt pageoffset (k + 1)) hsurv.sound
          (by rw [hsurv.validBlocknum]; exact hl)
        rw [hsurv.lut] at hrest
        refine (hr.log.mono fun op hop hfinished =>
          Or.inl (hop.restarts hB.reads h hl ht.blank hfinished)).trans
          (hrest.mono fun op hop hfinished => ?_)
        exact (hop hfinished).imp_left fun hold =>
          hold.congr fun o ho => hsurv.logicalData h hl ho

/-- The first operation of a pass is the copy of the first page. -/
abbrev firstCopy (B : Board) (source unused pageoffset : ℕ) (v : CopyArgs) (d : Dev) : Op :=
  ⟨.copyback, d.ticks .copyback, unused * B.blockPagenum + 0,
    copied B d.flash source unused pageoffset v 1⟩

section FirstCopy
variable {source unused pageoffset : ℕ} {v : CopyArgs} {d : Dev}

/-- A page copy that the chip carries out is logged. -/
theorem log_ftlCopyPage (pageoffset : ℕ) (hB : B.CopiesHonest) (hs : source < 2 ^ 16)
    (hu : unused < 2 ^ 16) (hpar : unused % 2 = source % 2) (w : CopyArgs) {i : ℕ}
    (hi : i < B.blockPagenum) {t : Dev} (hok : CopyOk B (t.ticks .copyback)) :
    let t' := (ftlCopyPage B source unused pageoffset i w).state t
    t'.log = t.log ++ [⟨.copyback, t.ticks .copyback, unused * B.blockPagenum + i, t'.flash⟩] := by
  have hplane := same_plane (B := B) hs hu hpar hi
  have hiff := copyback_val_iff (w.edit B pageoffset i) hplane t
  simp only [ftlCopyPage_eq, Prog.state_bind, Prog.state_pure]
  rcases copyback_cases hB (w.edit B pageoffset i) hplane t with ⟨-, hstate⟩ | ⟨hval, -⟩
  · rw [hstate, Dev.log_copies, Dev.flash_copies]
  · exact absurd (hiff.mpr hok) hval

/-- Where the chip carries out every copy of the block, the page loop goes through and begins
with the copy of the first page. -/
theorem log_ftlCopyPages (pageoffset : ℕ) (hB : B.CopiesHonest) (hs : source < 2 ^ 16)
    (hu : unused < 2 ^ 16) (hpar : unused % 2 = source % 2) (hne : source ≠ unused)
    (hok : ∀ j < B.blockPagenum, CopyOk B (d.ticks .copyback + j)) :
    let r := ftlCopyPages B source unused pageoffset v
    (∃ w, r.val d = .next w) ∧
      ∃ ops, (r.state d).log = d.log ++ firstCopy B source unused pageoffset v d :: ops := by
  intro r
  have hpos := B.pagenum_pos
  have hstart : PagesCopied B source unused pageoffset v 0 d d :=
    ⟨copied_zero.symm, rfl, rfl, rfl, Issued.of_log_eq rfl,
      fun j hj => absurd hj (Nat.not_lt_zero j)⟩
  have hloop : (r.val d).Holds (fun w => w = argsAt B pageoffset v B.blockPagenum ∧
      PagesCopied B source unused pageoffset v B.blockPagenum d (r.state d) ∧
      (B.blockPagenum = 0 ∧ r.state d = d ∨
        ∃ ops, (r.state d).log = d.log ++ firstCopy B source unused pageoffset v d :: ops))
      fun _ => False := by
    refine Prog.loop_inv (n := B.blockPagenum)
      (I := fun j w t => w = argsAt B pageoffset v j ∧
        PagesCopied B source unused pageoffset v j d t ∧ (j = 0 ∧ t = d ∨
          ∃ ops, t.log = d.log ++ firstCopy B source unused pageoffset v d :: ops))
      (Q := fun _ _ => False) ?_ (Nat.zero_add _) ⟨rfl, hstart, Or.inl ⟨rfl, rfl⟩⟩
    rintro i hi w t ⟨rfl, ht, hfirst⟩
    have hlog := log_ftlCopyPage pageoffset hB hs hu hpar
      (argsAt B pageoffset v i) hi (t := t) (by rw [ht.copies]; exact hok i hi)
    obtain ⟨hargs, hround⟩ := ht.round hB hs hu hpar hne hi
    simp only [Prog.val_bind, Prog.state_bind, Prog.val_pure, Prog.state_pure]
    rcases hround with ⟨hval, hcopied⟩ | ⟨-, hfailed⟩
    · rw [if_neg (not_not.mpr hval)]
      refine ⟨hargs, hcopied, Or.inr ?_⟩
      rcases hfirst with ⟨rfl, rfl⟩ | ⟨ops, hops⟩
      · dsimp only at hlog
        rw [hcopied.flash] at hlog
        exact ⟨[], hlog⟩
      · exact ⟨_, by rw [hlog, hops, List.append_assoc]; rfl⟩
    · exact absurd (hok i hi) hfailed.failed
  cases hval : r.val d with
  | next w =>
      rw [hval] at hloop
      exact ⟨⟨w, rfl⟩, hloop.2.2.resolve_left fun h => Nat.ne_of_gt hpos h.1⟩
  | exit w =>
      rw [hval] at hloop
      exact hloop.elim

/-- Where the chip carries out every copy of the block and there is an unused one, the first pass
of a call begins with the copy of the first page. -/
theorem log_ftlCopyAttempt (pageoffset : ℕ) (v : CopyArgs) (hB : B.Steady)
    (hs : source < B.blockTotalnum) (hblank : ¬ Blank B d.flash source)
    (hok : ∀ j < B.blockPagenum, CopyOk B (d.ticks .copyback + j))
    (hunused : (unusedBlocks B d.flash (source % 2)).Nonempty) :
    let r := ftlCopyAttempt B source pageoffset v
    r.val d = .exit 0 ∧ ∃ u, Target B d.flash source u ∧
      Moved B source u pageoffset v d (r.state d) ∧
      ∃ ops, (r.state d).log = d.log ++ firstCopy B source u pageoffset v d :: ops := by
  intro r
  have htot := B.total_lt
  set u := (ftlFindSamePlaneUnusedBlock B source).val d with hu
  set d₁ := (ftlFindSamePlaneUnusedBlock B source).state d with hd₁
  have hsame : Agrees d d₁ := quiet_ftlFindSamePlaneUnusedBlock source d
  have hfind := ftlFindSamePlaneUnusedBlock_spec hB.reads source d
  rw [← hu] at hfind
  rcases hfind with ⟨-, hnone⟩ | ⟨hult, hpar, hub⟩
  · obtain ⟨b, hb⟩ := hunused
    obtain ⟨hlt, hbpar, hbblank⟩ := mem_unusedBlocks.mp hb
    exact absurd hbblank (hnone b hlt hbpar)
  · have hgt : ¬ u > B.blockTotalnum := by omega
    have hne : source ≠ u := by
      intro heq
      exact hblank (heq ▸ hub)
    have hpages := ftlCopyPages_spec (v := v) pageoffset hB.copies (by omega) (by omega) hpar hne
      d₁
    obtain ⟨⟨w, hloop⟩, ops, hlog⟩ := log_ftlCopyPages pageoffset hB.copies
      (show source < 2 ^ 16 by omega) (show u < 2 ^ 16 by omega) hpar hne (v := v)
      (d := d₁) (by rw [hsame.copies]; exact hok)
    rw [firstCopy, hsame.log, hsame.flash, hsame.copies] at hlog
    simp only [hloop, Flow.holds_next] at hpages
    have hstate : r.state d = (replaceEntry B source u).state ((nandEraseblock B source).state
        ((ftlUsedBlockmark B u).state ((ftlCopyPages B source u pageoffset v).state d₁))) := by
      simp only [r, ftlCopyAttempt, Prog.state_bind, ← hu, if_neg hgt, ← hd₁, hloop,
        Prog.state_pure]
    refine ⟨?_, u, ⟨hult, hpar, hub⟩, ?_, ?_⟩
    · simp only [r, ftlCopyAttempt, Prog.val_bind, ← hu, if_neg hgt, ← hd₁, hloop, Prog.val_pure]
    · rw [hstate]
      exact Moved.finish hB.writes (by omega) hsame hpages.2
    · rw [hstate, state_nandEraseblock hB.writes (by omega),
        state_ftlUsedBlockmark hB.writes.programs]
      have hrest : ∀ (t : Dev) (page : ℕ) (reg : Bytes),
          ∃ rest, ((t.programs page reg).erases B source).log = t.log ++ rest := fun t page reg =>
        ⟨_, by rw [Dev.log_erases, Dev.log_programs, List.append_assoc]⟩
      obtain ⟨rest, hrest⟩ := hrest ((ftlCopyPages B source u pageoffset v).state d₁) _ _
      exact ⟨ops ++ rest, hrest.trans (by rw [hlog, List.append_assoc]; rfl)⟩

/-- So does the call. -/
theorem log_ftlCopyAndWriteToBlock (hB : B.Steady) {fuel l : ℕ} (hfuel : fuel ≠ 0)
    (colnum : ℕ) (pbuffer : Bytes) (n : ℕ) (h : Placed B d.flash d.lut d.validBlocknum)
    (hl : l < d.validBlocknum) (hp : pageoffset < B.blockPagenum)
    (hok : ∀ j < B.blockPagenum, CopyOk B (d.ticks .copyback + j))
    (hunused : (unusedBlocks B d.flash (d.lut l % 2)).Nonempty) :
    let r := ftlCopyAndWriteToBlock B fuel (d.lut l * B.blockPagenum + pageoffset) colnum pbuffer n
    r.val d = some 0 ∧ ∃ u, Target B d.flash (d.lut l) u ∧
      Moved B (d.lut l) u pageoffset ⟨colnum, pbuffer, n⟩ d (r.state d) ∧
      ∃ ops, (r.state d).log =
        d.log ++ firstCopy B (d.lut l) u pageoffset ⟨colnum, pbuffer, n⟩ d :: ops := by
  intro r
  obtain ⟨fuel, rfl⟩ := Nat.exists_eq_succ_of_ne_zero hfuel
  obtain ⟨hval, u, ht, hm, hlog⟩ := log_ftlCopyAttempt pageoffset ⟨colnum, pbuffer, n⟩ hB
    (h.lut_lt l hl) (h.not_blank hl) hok hunused
  set body : ℕ → CopyArgs → NandM (Flow CopyArgs ℕ) :=
    fun _ => ftlCopyAttempt B (d.lut l) pageoffset with hbody
  have hrun : r.val d = some 0 ∧ r.state d = (body 0 ⟨colnum, pbuffer, n⟩).state d := by
    simp only [r, ftlCopyAndWriteToBlock, B.page_div _ hp, B.page_mod _ hp, Prog.val_bind,
      Prog.state_bind]
    rw [Prog.val_loop_exit body hval, Prog.state_loop_exit body hval]
    exact ⟨rfl, rfl⟩
  rw [hrun.2]
  exact ⟨hrun.1, u, ht, hm, hlog⟩

end FirstCopy

/-- A blank first logical block with two pages of zeros written over it, and power cut after the
first: the block holds neither all of the old data nor all of the new. -/
theorem Formatted.not_oldOrNew (hB : B.Steady) {d : Dev} (h : Formatted B d)
    (hpos : 0 < d.validBlocknum) (hfirst : d.lut 0 = 0)
    (hok : ∀ j < B.blockPagenum, CopyOk B (d.ticks .copyback + j))
    (hunused : (unusedBlocks B d.flash (d.lut 0 % 2)).Nonempty) :
    let r := ftlCopyAndWriteToBlock B 1 (d.lut 0 * B.blockPagenum + 0) 0 (fun _ => 0)
      (2 * B.pageMainsize)
    r.val d = some 0 ∧ ¬ Issued (OldOrNew B 0 d (r.state d)) d (r.state d) := by
  intro r
  have hms := B.mainsize_le
  have hmpos := B.mainsize_pos
  have hn : 2 * B.pageMainsize < 2 ^ 32 := by omega
  have hv : CopyArgs.InPage B ⟨0, fun _ => 0, 2 * B.pageMainsize⟩ := ⟨hmpos, hn⟩
  obtain ⟨hval, u, ht, hm, ops, hlog⟩ := log_ftlCopyAndWriteToBlock hB one_ne_zero 0
    (fun _ => 0) (2 * B.pageMainsize) h.sound.toPlaced hpos B.pagenum_pos hok hunused
  refine ⟨hval, ?_⟩
  rintro ⟨ops', hlog', hall⟩
  have hops := List.append_cancel_left (hlog.symm.trans hlog')
  have hcut := hall (firstCopy B (d.lut 0) u 0 ⟨0, fun _ => 0, 2 * B.pageMainsize⟩ d)
    (by rw [← hops]; exact List.mem_cons_self)
  have hne := h.sound.ne_of_blank hpos ht.blank
  have herased := h.sound.erased u ht.lt ht.blank
  have hsize : 2 * B.pageMainsize ≤ blockSize B := Nat.mul_le_mul_right _ B.two_le_pagenum
  set v : CopyArgs := ⟨0, fun _ => 0, 2 * B.pageMainsize⟩ with hvars
  have hmixed := h.sound.restarts_copied 0 hB.reads hpos ht hv (by omega)
  -- after the first copy the first page has been written, and the second one has not
  have hpage₀ : blockData B (copied B d.flash (d.lut 0) u 0 v 1) u 0 = 0 := by
    rw [blockData, Nat.zero_div, Nat.zero_mod, copied_page Nat.one_pos B.pagenum_pos]
    simp only [herased 0 B.pagenum_pos, erasedPage_apply, ff_and]
    rw [editAt_main hv _ hmpos,
      overlay_inside (by simp only [hvars]; omega) (by simp only [hvars]; omega)]
  have hpage₁ : blockData B (copied B d.flash (d.lut 0) u 0 v 1) u B.pageMainsize = 0xFF := by
    rw [blockData, Nat.div_self hmpos, Nat.mod_self, copied_later (Nat.le_refl 1) B.two_le_pagenum,
      herased 1 B.two_le_pagenum, erasedPage_apply]
  rcases hcut with hold | hnew
  · have hbyte : logicalData B d 0 0 = 0xFF := by
      rw [logicalData, blockData, Nat.zero_div, Nat.zero_mod]
      exact h.clean 0 hpos 0 B.pagenum_pos 0 (by omega)
    have heq := hmixed.unique hold (blockSize_pos B)
    rw [hpage₀, hbyte] at heq
    exact absurd heq (by decide)
  · have hlut : (r.state d).lut 0 = u := by
      rw [hm.lut, h.sound.replaced_eq hpos, Function.update_self]
    have hbyte : logicalData B (r.state d) 0 B.pageMainsize = 0 := by
      rw [logicalData, hlut, hm.flash, blockData_moved hv hne herased (by omega),
        overlay_inside (by simp only [hvars]; omega) (by simp only [hvars]; omega)]
    have heq := hmixed.unique hnew (o := B.pageMainsize) (by omega)
    rw [hpage₁, hbyte] at heq
    exact absurd heq (by decide)

/-- The first rewrite after the format of a new chip, cut after the first page. -/
theorem not_oldOrNew_format (hB : B.Steady) (herase : B.ErasesOk)
    (htotal : 100 ≤ B.blockTotalnum * 93 / 100)
    (hroom : B.blockTotalnum * 93 / 100 + 3 < B.blockTotalnum) (hok : ∀ t, CopyOk B t) :
    let d := (ftlFormat B).state Dev.blank
    let r := ftlCopyAndWriteToBlock B 1 (d.lut 0 * B.blockPagenum + 0) 0 (fun _ => 0)
      (2 * B.pageMainsize)
    (ftlFormat B).val Dev.blank = 0 ∧ 0 < d.validBlocknum ∧ r.val d = some 0 ∧
      ¬ Issued (OldOrNew B 0 d (r.state d)) d (r.state d) := by
  intro d r
  obtain ⟨hval, hformatted, hpos, -, hunused⟩ := formatted_unused hB herase htotal hroom
  obtain ⟨-, -, -, hlut, -⟩ := ftlFormat_blank hB herase htotal
  exact ⟨hval, hpos, hformatted.not_oldOrNew hB hpos (hlut 0 hpos) (fun _ _ => hok _) hunused⟩

theorem board512_room : board512.blockTotalnum * 93 / 100 + 3 < board512.blockTotalnum := by decide

end Apollo.Ftl
