import Apollo.Ftl.Tags

/-!
# Copying a block

`ftl_copy_and_write_to_block` passes the pages of the source block, one after the
other, through the page register into the destination.  From the first page to be
written on, an edit is applied on the way.  `copied` is the array after some of the
pages, and `ftlCopyPages_spec` says what the page loop leaves: all pages copied, or a
destination that may hold anything.

## Main definitions

* `CopyArgs.wrlen`, `CopyArgs.edit`, `CopyArgs.step` — one page of the loop.
* `argsAt`, `editAt` — the arguments before page `i`, the edit of page `i`.
* `copied` — the array after the first pages have been copied.
* `CopyOk` — the chip carries out its `t`-th copy-back.
* `ftlCopyPages_spec` — the page loop.
-/

namespace Apollo.Ftl
open Lib Nand

variable (B : Board)

/-! ## One page -/

/-- The arguments name a place in the main area, and the length is a `uint32_t`. -/
structure CopyArgs.InPage (v : CopyArgs) : Prop where
  colnum_lt : v.colnum < B.pageMainsize
  numbyte_lt : v.numbyte < 2 ^ 32

/-- How many bytes of the buffer go into the page at hand, with the conversions of the code. -/
def CopyArgs.wrlen (v : CopyArgs) : ℕ :=
  if v.numbyte > u32 (B.pageMainsize + 2 ^ 32 - v.colnum)
  then u16 (B.pageMainsize + 2 ^ 16 - v.colnum) else u16 v.numbyte

/-- The edit of page `i` on its way through the page register. -/
def CopyArgs.edit (pageoffset i : ℕ) (v : CopyArgs) : Bytes → Bytes :=
  if pageoffset ≤ i ∧ v.numbyte ≠ 0 then
    fun page => loadRegister B page v.colnum v.pbuffer (v.wrlen B)
  else id

/-- The arguments after page `i`, whether or not its copy succeeded. -/
def CopyArgs.step (pageoffset i : ℕ) (v : CopyArgs) : CopyArgs :=
  if pageoffset ≤ i ∧ v.numbyte ≠ 0 then
    ⟨0, shift v.pbuffer (v.wrlen B), u32 (v.numbyte + 2 ^ 32 - v.wrlen B)⟩
  else v

/-- The arguments before page `i`. -/
def argsAt (pageoffset : ℕ) (v : CopyArgs) : ℕ → CopyArgs
  | 0 => v
  | i + 1 => (argsAt pageoffset v i).step B pageoffset i

/-- The edit of page `i`. -/
def editAt (pageoffset : ℕ) (v : CopyArgs) (i : ℕ) : Bytes → Bytes :=
  (argsAt B pageoffset v i).edit B pageoffset i

/-- The chip carries out its `t`-th copy-back. -/
def CopyOk (t : ℕ) : Prop :=
  ¬ (B.reply .copyback t).RbTimeout ∧ (B.reply .copyback t).waitCode = 0

instance : DecidablePred (CopyOk B) := fun _ => inferInstanceAs (Decidable (_ ∧ _))

variable {B}

/-- In the main area none of the conversions loses anything. -/
theorem CopyArgs.InPage.wrlen {v : CopyArgs} (h : v.InPage B) :
    v.wrlen B = min v.numbyte (B.pageMainsize - v.colnum) := by
  have hcol := h.colnum_lt
  have hms := B.mainsize_le
  have hroom : u32 (B.pageMainsize + 2 ^ 32 - v.colnum) = B.pageMainsize - v.colnum := by
    simp only [u32]; omega
  rw [CopyArgs.wrlen, hroom]
  simp only [u16]
  split <;> omega

theorem CopyArgs.InPage.step_eq {v : CopyArgs} (h : v.InPage B) (pageoffset i : ℕ) :
    v.step B pageoffset i =
      if pageoffset ≤ i ∧ v.numbyte ≠ 0 then
        ⟨0, shift v.pbuffer (min v.numbyte (B.pageMainsize - v.colnum)),
          v.numbyte - min v.numbyte (B.pageMainsize - v.colnum)⟩
      else v := by
  have hnum := h.numbyte_lt
  have hleft (n : ℕ) :
      u32 (v.numbyte + 2 ^ 32 - min v.numbyte n) = v.numbyte - min v.numbyte n := by
    simp only [u32]; omega
  rw [CopyArgs.step, h.wrlen, hleft]

theorem CopyArgs.InPage.step {v : CopyArgs} (h : v.InPage B) (pageoffset i : ℕ) :
    (v.step B pageoffset i).InPage B := by
  rw [h.step_eq]
  split
  · exact ⟨B.mainsize_pos, lt_of_le_of_lt (Nat.sub_le _ _) h.numbyte_lt⟩
  · exact h

theorem CopyArgs.InPage.argsAt {v : CopyArgs} (h : v.InPage B) (pageoffset i : ℕ) :
    (argsAt B pageoffset v i).InPage B := by
  induction i with
  | zero => exact h
  | succ i ih => exact ih.step pageoffset i

/-- One round of the page loop is one copy-back. -/
theorem ftlCopyPage_eq (v : CopyArgs) (source unused pageoffset i : ℕ) :
    ftlCopyPage B source unused pageoffset i v = (do
      let temp ← copyback B (source * B.blockPagenum + i) (unused * B.blockPagenum + i)
        (v.edit B pageoffset i)
      pure (temp, v.step B pageoffset i)) := by
  rw [ftlCopyPage, CopyArgs.edit, CopyArgs.step]
  split <;> rfl

/-! ## The array after some pages -/

/-- The array after the first `k` pages of block `source` have been copied to block
`unused`. -/
def copied (B : Board) (f : Flash) (source unused pageoffset : ℕ) (v : CopyArgs) (k : ℕ) : Flash :=
  fun q => if q / B.blockPagenum = unused ∧ q % B.blockPagenum < k then
    fun c => f q c &&& editAt B pageoffset v (q % B.blockPagenum)
      (f (source * B.blockPagenum + q % B.blockPagenum)) c
  else f q

section Copied
variable {f : Flash} {source unused pageoffset : ℕ} {v : CopyArgs} {k : ℕ}

theorem copied_zero : copied B f source unused pageoffset v 0 = f := by
  funext q
  rw [copied, if_neg (by omega)]

/-- A copied page is the edited source page, ANDed into what was there. -/
theorem copied_page {i : ℕ} (hi : i < k) (hiP : i < B.blockPagenum) :
    copied B f source unused pageoffset v k (unused * B.blockPagenum + i) =
      fun c => f (unused * B.blockPagenum + i) c &&&
        editAt B pageoffset v i (f (source * B.blockPagenum + i)) c := by
  rw [copied, B.page_div _ hiP, B.page_mod _ hiP, if_pos ⟨rfl, hi⟩]

/-- A page that is still to come is as it was. -/
theorem copied_later {i : ℕ} (hi : k ≤ i) (hiP : i < B.blockPagenum) :
    copied B f source unused pageoffset v k (unused * B.blockPagenum + i) =
      f (unused * B.blockPagenum + i) := by
  rw [copied, B.page_div _ hiP, B.page_mod _ hiP, if_neg (by omega)]

/-- The other blocks are as they were. -/
theorem copied_other {q : ℕ} (hq : q / B.blockPagenum ≠ unused) :
    copied B f source unused pageoffset v k q = f q := if_neg fun h => hq h.1

/-- Copying one more page. -/
theorem copied_succ (hne : source ≠ unused) (hk : k < B.blockPagenum) :
    Function.update (copied B f source unused pageoffset v k) (unused * B.blockPagenum + k)
      (fun c => copied B f source unused pageoffset v k (unused * B.blockPagenum + k) c &&&
        editAt B pageoffset v k
          (copied B f source unused pageoffset v k (source * B.blockPagenum + k)) c) =
      copied B f source unused pageoffset v (k + 1) := by
  have hsrc : copied B f source unused pageoffset v k (source * B.blockPagenum + k) =
      f (source * B.blockPagenum + k) := copied_other (by rwa [B.page_div _ hk])
  funext q
  by_cases hq : q = unused * B.blockPagenum + k
  · rw [hq, Function.update_self, copied_page (Nat.lt_succ_self k) hk, hsrc,
      copied_later (Nat.le_refl k) hk]
  · rw [Function.update_of_ne hq]
    have heta := B.page_eta q
    by_cases hblock : q / B.blockPagenum = unused
    · have hmod : q % B.blockPagenum ≠ k := by
        intro hmod
        rw [hblock, hmod] at heta
        exact hq heta.symm
      simp only [copied, hblock, true_and,
        (by omega : q % B.blockPagenum < k + 1 ↔ q % B.blockPagenum < k)]
    · rw [copied_other hblock, copied_other hblock]

end Copied

/-! ## The page loop -/

/-- A page copy into block `unused` that failed, or after which pages are still to come; the
other blocks are as in the array `f`. -/
structure Copying (B : Board) (f : Flash) (unused : ℕ) (op : Op) : Prop where
  cmd : op.cmd = .copyback
  block : op.page / B.blockPagenum = unused
  unfinished : ¬(op.page % B.blockPagenum + 1 = B.blockPagenum ∧ CopyOk B op.index)
  other : ∀ q, q / B.blockPagenum ≠ unused → op.flash q = f q

/-- `d'` is `d` after the first `k` pages have been copied, each by a copy-back that the
chip carried out. -/
structure PagesCopied (B : Board) (source unused pageoffset : ℕ) (v : CopyArgs) (k : ℕ)
    (d d' : Dev) : Prop where
  flash : d'.flash = copied B d.flash source unused pageoffset v k
  lut : d'.lut = d.lut
  validBlocknum : d'.validBlocknum = d.validBlocknum
  copies : d'.ticks .copyback = d.ticks .copyback + k
  log : Issued (fun op => Copying B d.flash unused op ∨
    k = B.blockPagenum ∧ op.flash = copied B d.flash source unused pageoffset v k) d d'
  ok : ∀ j < k, CopyOk B (d.ticks .copyback + j)

/-- `d'` is `d` after the copy of page `i` has failed: block `unused` may hold anything. -/
structure PageFailed (B : Board) (unused i : ℕ) (d d' : Dev) : Prop where
  flash : ∀ q, q / B.blockPagenum ≠ unused → d'.flash q = d.flash q
  lut : d'.lut = d.lut
  validBlocknum : d'.validBlocknum = d.validBlocknum
  copies : d'.ticks .copyback = d.ticks .copyback + (i + 1)
  log : Issued (Copying B d.flash unused) d d'
  ok : ∀ j < i, CopyOk B (d.ticks .copyback + j)
  failed : ¬ CopyOk B (d.ticks .copyback + i)

section PageLoop
variable {source unused pageoffset : ℕ} {v : CopyArgs}

/-- As long as pages are still to come every copy so far is one of those. -/
theorem PagesCopied.copying {k : ℕ} {d d' : Dev}
    (h : PagesCopied B source unused pageoffset v k d d')
    (hk : k < B.blockPagenum) :
    Issued (Copying B d.flash unused) d d' :=
  h.log.mono fun _ hop => hop.resolve_right fun hlast => by omega

/-- The parity test of the copy-backs passes for two blocks of one plane. -/
theorem same_plane (hs : source < 2 ^ 16) (hu : unused < 2 ^ 16) (hpar : unused % 2 = source % 2)
    {i : ℕ} (hi : i < B.blockPagenum) :
    u16 ((source * B.blockPagenum + i) / B.blockPagenum) % 2 =
      u16 ((unused * B.blockPagenum + i) / B.blockPagenum) % 2 := by
  rw [B.page_div _ hi, B.page_div _ hi, u16, u16, Nat.mod_eq_of_lt hs, Nat.mod_eq_of_lt hu, hpar]

/-- One round of the loop: one more page, or a failure that the chip reported. -/
theorem PagesCopied.round (hB : B.CopiesHonest) (hs : source < 2 ^ 16) (hu : unused < 2 ^ 16)
    (hpar : unused % 2 = source % 2) (hne : source ≠ unused) {i : ℕ}
    (hi : i < B.blockPagenum) {d t : Dev} (h : PagesCopied B source unused pageoffset v i d t) :
    let r := ftlCopyPage B source unused pageoffset i (argsAt B pageoffset v i)
    (r.val t).2 = argsAt B pageoffset v (i + 1) ∧
      (((r.val t).1 = 0 ∧ PagesCopied B source unused pageoffset v (i + 1) d (r.state t)) ∨
        ((r.val t).1 ≠ 0 ∧ PageFailed B unused i d (r.state t))) := by
  have hplane := same_plane (B := B) hs hu hpar hi
  simp only [ftlCopyPage_eq, Prog.val_bind, Prog.state_bind, Prog.val_pure, Prog.state_pure]
  refine ⟨rfl, ?_⟩
  set edit := (argsAt B pageoffset v i).edit B pageoffset i with hedit
  have hiff := copyback_val_iff edit hplane t
  rw [h.copies] at hiff
  have hother : ∀ x q, q / B.blockPagenum ≠ unused →
      (t.copies (unused * B.blockPagenum + i) x).flash q = d.flash q := by
    intro x q hq
    have hq' : q ≠ unused * B.blockPagenum + i := by
      intro h
      exact hq (by rw [h, B.page_div _ hi])
    rw [Dev.flash_copies, Function.update_of_ne hq', h.flash, copied_other hq]
  rcases copyback_cases hB edit hplane t with ⟨hval, hstate⟩ | ⟨hval, hstate⟩
  · refine Or.inl ⟨hval, ?_⟩
    have hflash : (t.copies (unused * B.blockPagenum + i) fun c =>
        t.flash (unused * B.blockPagenum + i) c &&&
          edit (t.flash (source * B.blockPagenum + i)) c).flash =
        copied B d.flash source unused pageoffset v (i + 1) := by
      rw [Dev.flash_copies, h.flash]
      exact copied_succ hne hi
    rw [hstate]
    refine ⟨hflash, h.lut, h.validBlocknum, ?_, ?_, ?_⟩
    · rw [Dev.ticks_copies, h.copies, Nat.add_assoc]
    · refine ((h.copying hi).mono fun _ hop => Or.inl hop).snoc (Dev.log_copies ..) ?_
      by_cases hlast : i + 1 = B.blockPagenum
      · exact Or.inr ⟨hlast, hflash⟩
      · refine Or.inl ⟨rfl, B.page_div _ hi, fun hend => hlast ?_, hother _⟩
        rw [← B.page_mod unused hi]
        exact hend.1
    · intro j hj
      by_cases hji : j = i
      · rw [hji]
        exact hiff.mp hval
      · exact h.ok j (by omega)
  · refine Or.inr ⟨hval, ?_⟩
    have hfail : ¬ CopyOk B (d.ticks .copyback + i) := fun hok => hval (hiff.mpr hok)
    have hcopying := h.copying hi
    rcases hstate with hstate | ⟨x, hstate⟩
    · rw [hstate]
      refine ⟨fun q hq => ?_, h.lut, h.validBlocknum, ?_, hcopying, h.ok, hfail⟩
      · rw [Dev.flash_tick, h.flash, copied_other hq]
      · rw [Dev.ticks_tick_self, h.copies, Nat.add_assoc]
    · rw [hstate]
      refine ⟨hother x, h.lut, h.validBlocknum, ?_, ?_, h.ok, hfail⟩
      · rw [Dev.ticks_copies, h.copies, Nat.add_assoc]
      · refine hcopying.snoc (Dev.log_copies ..)
          ⟨rfl, B.page_div _ hi, fun hlast => hfail ?_, hother x⟩
        rw [← h.copies]
        exact hlast.2

/-- The page loop copies every page, or leaves at the first failure, with the arguments
already moved past the page that failed. -/
theorem ftlCopyPages_spec (pageoffset : ℕ) (hB : B.CopiesHonest) (hs : source < 2 ^ 16)
    (hu : unused < 2 ^ 16)
    (hpar : unused % 2 = source % 2) (hne : source ≠ unused) (d : Dev) :
    let r := ftlCopyPages B source unused pageoffset v
    (r.val d).Holds
      (fun w => w = argsAt B pageoffset v B.blockPagenum ∧
        PagesCopied B source unused pageoffset v B.blockPagenum d (r.state d))
      (fun w => ∃ i < B.blockPagenum, w = argsAt B pageoffset v (i + 1) ∧
        PageFailed B unused i d (r.state d)) := by
  have hstart : PagesCopied B source unused pageoffset v 0 d d :=
    ⟨copied_zero.symm, rfl, rfl, rfl, Issued.of_log_eq rfl,
      fun j hj => absurd hj (Nat.not_lt_zero j)⟩
  refine Prog.loop_inv (n := B.blockPagenum)
    (I := fun j w t => w = argsAt B pageoffset v j ∧
      PagesCopied B source unused pageoffset v j d t)
    (Q := fun w t => ∃ i < B.blockPagenum, w = argsAt B pageoffset v (i + 1) ∧
      PageFailed B unused i d t) ?_ (Nat.zero_add _) ⟨rfl, hstart⟩
  intro i hi w t ht
  obtain ⟨rfl, ht⟩ := ht
  obtain ⟨hargs, hround⟩ := ht.round hB hs hu hpar hne hi
  simp only [Prog.val_bind, Prog.state_bind, Prog.val_pure, Prog.state_pure]
  rcases hround with ⟨hval, hcopied⟩ | ⟨hval, hfailed⟩
  · rw [if_neg (not_not.mpr hval)]
    exact ⟨hargs, hcopied⟩
  · rw [if_pos hval]
    exact ⟨i, hi, hargs, hfailed⟩

end PageLoop

/-! ## Marks -/

/-- The array with the bad-block mark on the first two pages of block `b`. -/
def markBad (B : Board) (f : Flash) (b : ℕ) : Flash :=
  andPage (andPage f (b * B.blockPagenum) (overlay erasedPage B.pageMainsize (fun _ => 0xAA) 4))
    (b * B.blockPagenum + 1) (overlay erasedPage B.pageMainsize (fun _ => 0xAA) 4)

/-- The array with the used mark on block `b`. -/
def markUsed (B : Board) (f : Flash) (b : ℕ) : Flash :=
  andPage f (b * B.blockPagenum) (overlay erasedPage (B.pageMainsize + 1) (fun _ => 0xCC) 1)

section Marks
variable {f : Flash} {b : ℕ}

/-- Programming a window of a page changes that window alone. -/
theorem andPage_outside (f : Flash) (page : ℕ) {q a n c : ℕ} (g : Bytes)
    (h : ¬(q = page ∧ a ≤ c ∧ c < a + n)) :
    andPage f page (overlay erasedPage a g n) q c = f q c := by
  by_cases hq : q = page
  · rw [hq, andPage_apply, overlay_outside (by tauto), erasedPage_apply, and_ff]
  · rw [andPage_of_ne _ _ hq]

theorem markBad_other {q : ℕ} (hq : q / B.blockPagenum ≠ b) : markBad B f b q = f q := by
  have h₀ : q ≠ b * B.blockPagenum := by
    intro h
    exact hq (by rw [h, B.page_div_zero])
  have h₁ : q ≠ b * B.blockPagenum + 1 := by
    intro h
    exact hq (by rw [h, B.page_div _ B.two_le_pagenum])
  rw [markBad, andPage_of_ne _ _ h₁, andPage_of_ne _ _ h₀]

theorem markBad_first : markBad B f b (b * B.blockPagenum) B.pageMainsize ≠ 0xFF := by
  rw [markBad, andPage_of_ne _ _ (by omega), andPage_apply, overlay_inside (by omega) (by omega)]
  exact and_mark_ne _

theorem markUsed_other {q : ℕ} (hq : q ≠ b * B.blockPagenum) : markUsed B f b q = f q :=
  andPage_of_ne _ _ hq

/-- The used mark is byte 1 of the tag. -/
theorem markUsed_column {c : ℕ} (hc : c ≠ B.pageMainsize + 1) (q : ℕ) :
    markUsed B f b q c = f q c := andPage_outside _ _ _ (by omega)

theorem state_ftlBadblockMark (hB : B.ProgramsOk) (b : ℕ) (d : Dev) :
    (ftlBadblockMark B b).state d =
      (d.programs (b * B.blockPagenum)
        (overlay erasedPage B.pageMainsize (fun _ => 0xAA) 4)).programs
        (b * B.blockPagenum + 1) (overlay erasedPage B.pageMainsize (fun _ => 0xAA) 4) := by
  simp only [ftlBadblockMark, Prog.state_bind, Prog.state_pure]
  rw [state_nandWritespare hB _ _ (by omega) (by omega),
    state_nandWritespare hB _ _ (by omega) (by omega), Nat.add_zero]

theorem state_ftlUsedBlockmark (hB : B.ProgramsOk) (b : ℕ) (d : Dev) :
    (ftlUsedBlockmark B b).state d =
      d.programs (b * B.blockPagenum)
        (overlay erasedPage (B.pageMainsize + 1) (fun _ => 0xCC) 1) :=
  state_nandWritespare hB _ _ (by omega) (by omega) d

end Marks

/-! ## One pass of the retry loop -/

/-- A block that the search may hand out as the destination for `source`. -/
structure Target (B : Board) (f : Flash) (source unused : ℕ) : Prop where
  lt : unused < B.blockTotalnum
  parity : unused % 2 = source % 2
  blank : Blank B f unused

/-- The array after block `source` has been moved to block `unused`. -/
def moved (B : Board) (f : Flash) (source unused pageoffset : ℕ) (v : CopyArgs) : Flash :=
  eraseBlock B
    (markUsed B (copied B f source unused pageoffset v B.blockPagenum) unused) source

/-- The table in which the first entry `source` has become `unused`. -/
def replaced (B : Board) (lut : ℕ → ℕ) (source unused : ℕ) : ℕ → ℕ :=
  match firstEntry B.blockTotalnum fun i => lut i = source with
  | some i => Function.update lut i unused
  | none => lut

section MovedArray
variable {f : Flash} {source unused pageoffset : ℕ} {v : CopyArgs}

theorem moved_source {i : ℕ} (hi : i < B.blockPagenum) :
    moved B f source unused pageoffset v (source * B.blockPagenum + i) = erasedPage :=
  eraseBlock_same _ _ _ hi

theorem moved_other {q : ℕ} (hs : q / B.blockPagenum ≠ source) (hu : q / B.blockPagenum ≠ unused) :
    moved B f source unused pageoffset v q = f q := by
  have hq : q ≠ unused * B.blockPagenum := by
    intro h
    exact hu (by rw [h, B.page_div_zero])
  rw [moved, eraseBlock_of_ne _ _ hs, markUsed_other hq, copied_other hu]

/-- Where the destination is erased the edited pages arrive as they are. -/
theorem moved_dest (hne : source ≠ unused) {i c : ℕ} (hi : i < B.blockPagenum)
    (herased : f (unused * B.blockPagenum + i) c = 0xFF) (hc : c ≠ B.pageMainsize + 1) :
    moved B f source unused pageoffset v (unused * B.blockPagenum + i) c =
      editAt B pageoffset v i (f (source * B.blockPagenum + i)) c := by
  rw [moved, eraseBlock_of_ne _ _ (by rw [B.page_div _ hi]; exact Ne.symm hne), markUsed_column hc,
    copied_page hi hi]
  simp only [herased, ff_and]

/-- The tag bytes pass through the edit, which ends before the spare area. -/
theorem editAt_tag (hv : v.InPage B) (i : ℕ) (page : Bytes) {c : ℕ} (h₁ : B.pageMainsize ≤ c)
    (h₂ : c < B.pageMainsize + 0x10) : editAt B pageoffset v i page c = page c := by
  have hw := (hv.argsAt pageoffset i).colnum_lt
  rw [editAt, CopyArgs.edit]
  split
  · refine (loadRegister_low B page _ _ _ h₂).trans (overlay_after ?_)
    rw [(hv.argsAt pageoffset i).wrlen]
    omega
  · rfl

/-- The source of a move is left unused. -/
theorem moved_blank : Blank B (moved B f source unused pageoffset v) source := by
  intro j _
  have hpage : moved B f source unused pageoffset v (source * B.blockPagenum + 0) = erasedPage :=
    moved_source B.pagenum_pos
  rw [Nat.add_zero] at hpage
  rw [hpage]
  rfl

/-- The destination is marked used, whatever has been written into it. -/
theorem not_blank_moved (hne : source ≠ unused) :
    ¬ Blank B (moved B f source unused pageoffset v) unused := by
  intro hblank
  have hbyte := hblank 1 (by omega)
  rw [moved, eraseBlock_of_ne _ _ (by rw [B.page_div_zero]; exact Ne.symm hne), markUsed,
    andPage_apply, overlay_inside (Nat.le_refl _) (Nat.lt_succ_self _), UInt8.and_comm] at hbyte
  exact and_ne_ff (by decide) _ hbyte

/-- The number of the block moves with it. -/
theorem moved_tag (hne : source ≠ unused) (hblank : Blank B f unused) (hv : v.InPage B) :
    tag B (moved B f source unused pageoffset v) unused = tag B f source := by
  have hbyte : ∀ j < 4, j ≠ 1 →
      moved B f source unused pageoffset v (unused * B.blockPagenum) (B.pageMainsize + j) =
        f (source * B.blockPagenum) (B.pageMainsize + j) := by
    intro j hj hj1
    have hpage : moved B f source unused pageoffset v (unused * B.blockPagenum + 0)
        (B.pageMainsize + j) = editAt B pageoffset v 0 (f (source * B.blockPagenum + 0))
          (B.pageMainsize + j) := moved_dest hne B.pagenum_pos (hblank j hj) (by omega)
    rw [Nat.add_zero, Nat.add_zero] at hpage
    rw [hpage, editAt_tag hv _ _ (by omega) (by omega)]
  rw [tag, tag, hbyte 3 (by omega) (by omega), hbyte 2 (by omega) (by omega)]

/-- The first page of any other block is as it was. -/
theorem moved_first {b : ℕ} (hs : b ≠ source) (hu : b ≠ unused) :
    moved B f source unused pageoffset v (b * B.blockPagenum) = f (b * B.blockPagenum) :=
  moved_other (by rwa [B.page_div_zero]) (by rwa [B.page_div_zero])

end MovedArray

/-- An operation of a pass from the array `f` that fails, by what the array is after it. -/
inductive FailedOp (B : Board) (f : Flash) (unused : ℕ) (op : Op) : Prop where
  /-- A page copy. -/
  | copying (copying : Copying B f unused op)
  /-- A bad-block mark on the destination. -/
  | marked (other : ∀ q, q / B.blockPagenum ≠ unused → op.flash q = f q)
      (bad : op.flash (unused * B.blockPagenum) B.pageMainsize ≠ 0xFF)

/-- An operation of a pass from the array `f` that succeeds, by what the array is after it. -/
inductive MovedOp (B : Board) (f : Flash) (source unused pageoffset : ℕ) (v : CopyArgs) (op : Op) :
    Prop where
  /-- A page copy other than the last one. -/
  | copying (copying : Copying B f unused op)
  /-- The last page copy. -/
  | copied (flash : op.flash = copied B f source unused pageoffset v B.blockPagenum)
  /-- The used mark. -/
  | used
      (flash : op.flash = markUsed B (copied B f source unused pageoffset v B.blockPagenum) unused)
  /-- The erase of the source. -/
  | erased (flash : op.flash = moved B f source unused pageoffset v)

/-- `d'` is `d` after a pass that succeeded. -/
structure Moved (B : Board) (source unused pageoffset : ℕ) (v : CopyArgs) (d d' : Dev) :
    Prop where
  flash : d'.flash = moved B d.flash source unused pageoffset v
  lut : d'.lut = replaced B d.lut source unused
  validBlocknum : d'.validBlocknum = d.validBlocknum
  copies : d'.ticks .copyback = d.ticks .copyback + B.blockPagenum
  log : Issued (MovedOp B d.flash source unused pageoffset v) d d'
  ok : ∀ j < B.blockPagenum, CopyOk B (d.ticks .copyback + j)

/-- `d'` is `d` after a pass in which the copy of page `i` failed: the destination is
marked bad, whatever it holds, and the table is rebuilt. -/
structure Retried (B : Board) (unused i : ℕ) (d d' : Dev) : Prop where
  log : Issued (FailedOp B d.flash unused) d d'
  flash : ∃ f : Flash, (∀ q, q / B.blockPagenum ≠ unused → f q = d.flash q) ∧
    d'.flash = markBad B f unused
  lut : d'.lut = table B d'.flash d.lut
  validBlocknum : d'.validBlocknum = (validOf B d'.lut).getD d.validBlocknum
  copies : d'.ticks .copyback = d.ticks .copyback + (i + 1)
  ok : ∀ j < i, CopyOk B (d.ticks .copyback + j)
  failed : ¬ CopyOk B (d.ticks .copyback + i)

@[simp] theorem ticks_replaceEntry (source unused : ℕ) (d : Dev) :
    ((replaceEntry B source unused).state d).ticks = d.ticks := rfl

/-- The operations of a pass that succeeds. -/
theorem issued_moved {source unused pageoffset : ℕ} {v : CopyArgs} {d d₁ d₂ : Dev}
    (h₁ : Agrees d d₁) (h₂ : PagesCopied B source unused pageoffset v B.blockPagenum d₁ d₂) :
    Issued (MovedOp B d.flash source unused pageoffset v) d ((d₂.programs (unused * B.blockPagenum)
      (overlay erasedPage (B.pageMainsize + 1) (fun _ => 0xCC) 1)).erases B source) := by
  have hflash : d₂.flash = copied B d.flash source unused pageoffset v B.blockPagenum := by
    rw [h₂.flash, h₁.flash]
  have hcopies : Issued (MovedOp B d.flash source unused pageoffset v) d d₂ := by
    refine (Issued.of_log_eq h₁.log).trans (h₂.log.mono fun op hop => ?_)
    rw [h₁.flash] at hop
    rcases hop with hcopying | ⟨-, hall⟩
    · exact .copying hcopying
    · exact .copied hall
  refine (hcopies.snoc (Dev.log_programs ..) (.used ?_)).snoc (Dev.log_erases ..) (.erased ?_)
  · rw [← hflash]
    rfl
  · rw [Ftl.moved, ← hflash]
    rfl

/-- The operations of a pass that fails. -/
theorem issued_failed {unused i : ℕ} {d d₁ d₂ : Dev} (h₁ : Agrees d d₁)
    (h₂ : PageFailed B unused i d₁ d₂) :
    Issued (FailedOp B d.flash unused) d ((d₂.programs (unused * B.blockPagenum)
      (overlay erasedPage B.pageMainsize (fun _ => 0xAA) 4)).programs
      (unused * B.blockPagenum + 1) (overlay erasedPage B.pageMainsize (fun _ => 0xAA) 4)) := by
  set mark := overlay erasedPage B.pageMainsize (fun _ => 0xAA) 4 with hmark
  have hother : ∀ i < B.blockPagenum, ∀ f : Flash,
      (∀ q, q / B.blockPagenum ≠ unused → f q = d.flash q) →
      ∀ q, q / B.blockPagenum ≠ unused →
        andPage f (unused * B.blockPagenum + i) mark q = d.flash q := by
    intro i hi f hf q hq
    rw [andPage_of_ne, hf q hq]
    intro heq
    exact hq (by rw [heq, B.page_div _ hi])
  have hfirst : ∀ q, q / B.blockPagenum ≠ unused →
      andPage d₂.flash (unused * B.blockPagenum) mark q = d.flash q :=
    hother 0 B.pagenum_pos d₂.flash fun q hq => by rw [h₂.flash q hq, h₁.flash]
  have hbad : andPage d₂.flash (unused * B.blockPagenum) mark (unused * B.blockPagenum)
      B.pageMainsize ≠ 0xFF := by
    rw [andPage_apply, hmark, overlay_inside (by omega) (by omega)]
    exact and_mark_ne _
  have hcopies : Issued (FailedOp B d.flash unused) d d₂ := by
    refine (Issued.of_log_eq h₁.log).trans (h₂.log.mono fun op hop => .copying ?_)
    rwa [h₁.flash] at hop
  refine (hcopies.snoc (Dev.log_programs ..) (.marked hfirst hbad)).snoc (Dev.log_programs ..)
    (.marked (hother 1 B.two_le_pagenum _ hfirst) ?_)
  simp only [Dev.flash_programs]
  rwa [andPage_of_ne _ _ (by omega)]

/-- Marking the copy used, erasing the source and replacing its entry end a pass. -/
theorem Moved.finish (hB : B.WritesOk) {source unused pageoffset : ℕ} {v : CopyArgs}
    {d d₁ d₂ : Dev} (hs : source < 2 ^ 16) (h₁ : Agrees d d₁)
    (h₂ : PagesCopied B source unused pageoffset v B.blockPagenum d₁ d₂) :
    Moved B source unused pageoffset v d ((replaceEntry B source unused).state
      ((nandEraseblock B source).state ((ftlUsedBlockmark B unused).state d₂))) := by
  have hflash : d₂.flash = copied B d.flash source unused pageoffset v B.blockPagenum := by
    rw [h₂.flash, h₁.flash]
  rw [state_nandEraseblock hB hs, state_ftlUsedBlockmark hB.programs]
  refine ⟨?_, ?_, h₂.validBlocknum.trans h₁.validBlocknum, ?_, issued_moved h₁ h₂, ?_⟩
  · show eraseBlock B (markUsed B d₂.flash unused) source = _
    rw [hflash, moved]
  · show replaced B d₂.lut source unused = _
    rw [h₂.lut, h₁.lut]
  · rw [ticks_replaceEntry, Dev.ticks_erases_of_ne _ _ _ (by decide),
      Dev.ticks_programs_of_ne _ _ _ (by decide), h₂.copies, h₁.copies]
  · rw [← h₁.copies]
    exact h₂.ok

/-- Marking the destination bad and rebuilding the table end a pass that failed. -/
theorem Retried.finish (hB : B.Steady) {unused i : ℕ} {d d₁ d₂ : Dev} (h₁ : Agrees d d₁)
    (h₂ : PageFailed B unused i d₁ d₂) :
    Retried B unused i d ((ftlCreateLut B 1).state ((ftlBadblockMark B unused).state d₂)) := by
  rw [state_ftlBadblockMark hB.writes.programs]
  set d₃ := (d₂.programs _ _).programs _ _ with hd₃
  have hmark : d₃.flash = markBad B d₂.flash unused := rfl
  have hticks : d₃.ticks .copyback = d.ticks .copyback + (i + 1) := by
    rw [hd₃, Dev.ticks_programs_of_ne _ _ _ (by decide), Dev.ticks_programs_of_ne _ _ _ (by decide),
      h₂.copies, h₁.copies]
  have hlut := ftlCreateLut_state hB.reads d₃
  refine ⟨(issued_failed h₁ h₂).trans (.of_log_eq hlut.log),
    ⟨d₂.flash, fun q hq => ?_, hlut.flash.trans hmark⟩, ?_, ?_,
    ?_, ?_, ?_⟩
  · rw [h₂.flash q hq, h₁.flash]
  · rw [hlut.lut, hlut.flash]
    exact congrArg (table B d₃.flash) (h₂.lut.trans h₁.lut)
  · rw [hlut.validBlocknum]
    exact congrArg _ (h₂.validBlocknum.trans h₁.validBlocknum)
  · rw [hlut.copies, hticks]
  · rw [← h₁.copies]
    exact h₂.ok
  · rw [← h₁.copies]
    exact h₂.failed

/-- A pass for which the search has found a block other than the source: the block is moved, or
the destination is thrown away. -/
theorem ftlCopyAttempt_found (hB : B.Steady) {source u : ℕ} (pageoffset : ℕ) (v : CopyArgs)
    {d : Dev} (hs : source < B.blockTotalnum)
    (hfind : (ftlFindSamePlaneUnusedBlock B source).val d = u) (hlt : u < B.blockTotalnum)
    (hpar : u % 2 = source % 2) (hne : source ≠ u) :
    let r := ftlCopyAttempt B source pageoffset v
    (r.val d = .exit 0 ∧ Moved B source u pageoffset v d (r.state d)) ∨
    (∃ i < B.blockPagenum, r.val d = .next (argsAt B pageoffset v (i + 1)) ∧
      Retried B u i d (r.state d)) := by
  intro r
  have htot := B.total_lt
  have hgt : ¬ u > B.blockTotalnum := by omega
  set d₁ := (ftlFindSamePlaneUnusedBlock B source).state d with hd₁
  have hsame : Agrees d d₁ := quiet_ftlFindSamePlaneUnusedBlock source d
  have hpages := ftlCopyPages_spec (v := v) pageoffset hB.copies (by omega) (by omega) hpar hne d₁
  cases hloop : (ftlCopyPages B source u pageoffset v).val d₁ with
  | next w =>
      simp only [hloop, Flow.holds_next] at hpages
      refine Or.inl ⟨?_, ?_⟩
      · simp only [r, ftlCopyAttempt, Prog.val_bind, hfind, if_neg hgt, ← hd₁, hloop,
          Prog.val_pure]
      · simp only [r, ftlCopyAttempt, Prog.state_bind, hfind, if_neg hgt, ← hd₁, hloop,
          Prog.state_pure]
        exact Moved.finish hB.writes (by omega) hsame hpages.2
  | exit w =>
      simp only [hloop, Flow.holds_exit] at hpages
      obtain ⟨i, hi, rfl, hfailed⟩ := hpages
      refine Or.inr ⟨i, hi, ?_, ?_⟩
      · simp only [r, ftlCopyAttempt, Prog.val_bind, hfind, if_neg hgt, ← hd₁, hloop,
          Prog.val_pure]
      · simp only [r, ftlCopyAttempt, Prog.state_bind, hfind, if_neg hgt, ← hd₁, hloop,
          Prog.state_pure]
        exact Retried.finish hB hsame hfailed

/-- What one pass does: there is no unused block, or the block is moved, or the
destination is thrown away and the next pass goes on with what is left of the
arguments. -/
theorem ftlCopyAttempt_spec (hB : B.Steady) {source : ℕ} (pageoffset : ℕ) (v : CopyArgs)
    {d : Dev} (hs : source < B.blockTotalnum)
    (hblank : ¬ Blank B d.flash source) :
    let r := ftlCopyAttempt B source pageoffset v
    (r.val d = .exit 1 ∧ (∀ u, ¬ Target B d.flash source u) ∧ Agrees d (r.state d)) ∨
    (∃ u, Target B d.flash source u ∧ r.val d = .exit 0 ∧
      Moved B source u pageoffset v d (r.state d)) ∨
    (∃ u, ∃ i < B.blockPagenum, Target B d.flash source u ∧
      r.val d = .next (argsAt B pageoffset v (i + 1)) ∧ Retried B u i d (r.state d)) := by
  intro r
  have htot := B.total_lt
  set u := (ftlFindSamePlaneUnusedBlock B source).val d with hu
  have hfind := ftlFindSamePlaneUnusedBlock_spec hB.reads source d
  rw [← hu] at hfind
  rcases hfind with ⟨hnone, hall⟩ | ⟨hult, hpar, hub⟩
  · -- no unused block of the plane
    have hgt : u > B.blockTotalnum := by rw [hnone, noBlock]; omega
    have hsame : Agrees d ((ftlFindSamePlaneUnusedBlock B source).state d) :=
      quiet_ftlFindSamePlaneUnusedBlock source d
    refine Or.inl ⟨?_, fun u' hu' => hall u' hu'.lt hu'.parity hu'.blank, ?_⟩
    · simp only [r, ftlCopyAttempt, Prog.val_bind, ← hu, if_pos hgt, Prog.val_pure]
    · simpa only [r, ftlCopyAttempt, Prog.state_bind, ← hu, if_pos hgt, Prog.state_pure] using hsame
  · have hne : source ≠ u := by
      intro h
      exact hblank (h ▸ hub)
    have htarget : Target B d.flash source u := ⟨hult, hpar, hub⟩
    rcases ftlCopyAttempt_found hB pageoffset v hs hu.symm hult hpar hne with
      ⟨hval, hm⟩ | ⟨i, hi, hval, hr⟩
    · exact Or.inr (Or.inl ⟨u, htarget, hval, hm⟩)
    · exact Or.inr (Or.inr ⟨u, i, hi, htarget, hval, hr⟩)

end Apollo.Ftl
