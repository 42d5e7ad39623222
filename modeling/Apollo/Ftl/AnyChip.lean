import Apollo.Ftl.Write

/-!
# What the steps return on any chip

The results of the passes of `ftl_copy_and_write_to_block` and of the path of
`ftl_write_sectors` into the page, on a chip of which nothing is assumed: reads may time out,
programs, copy-backs and erases may do anything.  The results depend on the answers to the
commands that are issued and on what the search and the comparison read.

## Main definitions

* `SearchFinds`, `PagesCopy` — what decides a pass; `ftlCopyAttempt_any` — what it returns.
* `PageAnswers`, `Served` — what decides the path into the page; `writeInPlace_any` — what it
  returns.
-/

namespace Apollo.Ftl
open Lib Nand

variable {B : Board} {c : Cmd}

/-! ## The search -/

theorem ftlFindUnusedBlockFrom_range (flag k : ℕ) (temp : Bytes) (d : Dev) :
    (ftlFindUnusedBlockFrom B flag k temp).val d = noBlock ∨
      ((ftlFindUnusedBlockFrom B flag k temp).val d < k ∧
        (ftlFindUnusedBlockFrom B flag k temp).val d % 2 = flag) := by
  induction k generalizing temp d with
  | zero => exact Or.inl rfl
  | succ k ih =>
      simp only [ftlFindUnusedBlockFrom, Prog.val_ite, Prog.val_bind, Prog.val_pure]
      split_ifs with hpar hword
      · exact Or.inr ⟨Nat.lt_succ_self k, hpar⟩
      · exact (ih _ _).imp_right fun h => ⟨Nat.lt_succ_of_lt h.1, h.2⟩
      · exact (ih _ _).imp_right fun h => ⟨Nat.lt_succ_of_lt h.1, h.2⟩

theorem ftlFindUnusedBlock_range {sblock : ℕ} (hs : sblock < B.blockTotalnum) (flag : ℕ) (d : Dev) :
    (ftlFindUnusedBlock B sblock flag).val d = noBlock ∨
      ((ftlFindUnusedBlock B sblock flag).val d < B.blockTotalnum ∧
        (ftlFindUnusedBlock B sblock flag).val d % 2 = flag) := by
  have hmod : u32 (sblock + 1) ≤ sblock + 1 := Nat.mod_le _ _
  refine (ftlFindUnusedBlockFrom_range flag (u32 (sblock + 1)) (fun _ => 0) d).imp_right fun h => ?_
  exact ⟨lt_of_lt_of_le h.1 (hmod.trans hs), h.2⟩

/-- The search returns a block of the plane, whatever the reads deliver. -/
theorem ftlFindSamePlaneUnusedBlock_range (sblock : ℕ) (d : Dev) :
    let u := (ftlFindSamePlaneUnusedBlock B sblock).val d
    u = noBlock ∨ (u < B.blockTotalnum ∧ u % 2 = sblock % 2) := by
  have hpos := B.total_pos
  have hcur : (if d.curblock > B.blockTotalnum - 1 then B.blockTotalnum - 1 else d.curblock) <
      B.blockTotalnum := by
    split <;> omega
  have hlast : B.blockTotalnum - 1 < B.blockTotalnum := by omega
  simp only [ftlFindSamePlaneUnusedBlock, Prog.val_bind, Prog.val_get, Prog.state_get,
    Prog.val_ite, Prog.val_pure]
  generalize (if d.curblock > B.blockTotalnum - 1 then B.blockTotalnum - 1 else d.curblock) = cur
    at hcur
  split_ifs
  · exact Or.inl rfl
  · exact ftlFindUnusedBlock_range hlast _ _
  · exact Or.inl rfl
  · exact ftlFindUnusedBlock_range hcur _ _

theorem avoids_ftlFindUnusedBlockFrom (h : c ≠ .read) (flag k : ℕ) (temp : Bytes) :
    Avoids c (ftlFindUnusedBlockFrom B flag k temp) := by
  induction k generalizing temp with
  | zero => exact .pure _
  | succ k ih =>
      refine .ite _ (.bind (avoids_nandReadspare h _ _ _ _) fun _ => ?_) (ih _)
      exact .ite _ (.pure _) (ih _)

theorem avoids_ftlFindSamePlaneUnusedBlock (h : c ≠ .read) (sblock : ℕ) :
    Avoids c (ftlFindSamePlaneUnusedBlock B sblock) := by
  have hcur (b : ℕ) : Avoids c (setCurblock b) := .modify fun _ => rfl
  have hfind (b flag : ℕ) : Avoids c (ftlFindUnusedBlock B b flag) :=
    avoids_ftlFindUnusedBlockFrom h _ _ _
  refine .bind (.get _) fun _ => .bind (hcur _) fun _ => .bind (hfind _ _) fun _ => ?_
  refine .bind (.ite _ (.bind (hcur _) fun _ => hfind _ _) (.pure _)) fun _ => ?_
  exact .ite _ (.pure _) (.bind (hcur _) fun _ => .pure _)

/-! ## How many commands -/

theorem ticks_nandWritepage (pagenum colnum : ℕ) (pbuffer : Bytes) (n : ℕ) (d : Dev) :
    ((nandWritepage B pagenum colnum pbuffer n).state d).ticks .program = d.ticks .program + 1 := by
  simp only [nandWritepage, Prog.state_bind, state_command, state_programPage, Prog.state_pure,
    Dev.ticks_store, Dev.ticks_tick_self]

theorem ticks_ftlUsedBlockmark (b : ℕ) (d : Dev) :
    ((ftlUsedBlockmark B b).state d).ticks .program = d.ticks .program + 1 :=
  ticks_nandWritepage _ _ _ _ d

theorem ticks_nandEraseblock (b : ℕ) (d : Dev) :
    ((nandEraseblock B b).state d).ticks .erase = d.ticks .erase + 1 := by
  simp only [nandEraseblock, Prog.state_bind, state_command, state_eraseRow, Prog.state_pure,
    Dev.ticks_store, Dev.ticks_tick_self]

/-! ## A pass of the retry loop -/

/-- The search returns a block. -/
def SearchFinds (B : Board) (source : ℕ) (d : Dev) : Prop :=
  (ftlFindSamePlaneUnusedBlock B source).val d ≠ noBlock

/-- The chip carries out the next copy-backs, as many as a block has pages. -/
def PagesCopy (B : Board) (d : Dev) : Prop :=
  ∀ i < B.blockPagenum, CopyOk B (d.ticks .copyback + i)

section Copyback
variable {src dst : ℕ} (edit : Bytes → Bytes)

theorem ticks_copyback (hplane : u16 (src / B.blockPagenum) % 2 = u16 (dst / B.blockPagenum) % 2)
    (d : Dev) :
    ((copyback B src dst edit).state d).ticks .copyback = d.ticks .copyback + 1 := by
  simp only [copyback, if_neg (not_not.mpr hplane), Prog.state_bind, val_command, state_command,
    Prog.state_get]
  split
  · exact Dev.ticks_tick_self d _
  · simp only [Prog.state_bind, state_programPage, Prog.state_pure, Dev.ticks_store]
    exact Dev.ticks_tick_self d _

theorem avoids_copyback (h : c ≠ .copyback) : Avoids c (copyback B src dst edit) := by
  refine .ite _ (.pure _) (.bind (avoids_command h) fun _ => .bind (.get _) fun _ => ?_)
  exact .ite _ (.pure _) (.bind (.modify fun _ => rfl) fun _ => .pure _)

end Copyback

section Pass
variable {source unused : ℕ} (pageoffset : ℕ) (v : CopyArgs) (d : Dev)

/-- The page loop ends early exactly at the first copy that fails. -/
theorem ftlCopyPages_any (hs : source < 2 ^ 16) (hu : unused < 2 ^ 16)
    (hpar : unused % 2 = source % 2) :
    ((ftlCopyPages B source unused pageoffset v).val d).Holds
      (fun _ => PagesCopy B d ∧
        ((ftlCopyPages B source unused pageoffset v).state d).ticks .copyback =
          d.ticks .copyback + B.blockPagenum)
      fun _ => ¬ PagesCopy B d := by
  refine Prog.loop_inv (n := B.blockPagenum)
    (I := fun j _ (t : Dev) => (∀ i < j, CopyOk B (d.ticks .copyback + i)) ∧
      t.ticks .copyback = d.ticks .copyback + j)
    (Q := fun _ _ => ¬ PagesCopy B d) ?_ (Nat.zero_add _)
    ⟨fun i hi => absurd hi (Nat.not_lt_zero i), rfl⟩
  intro j hj w t ht
  obtain ⟨hok, hticks⟩ := ht
  have hplane := same_plane (B := B) hs hu hpar hj
  have hiff := copyback_val_iff (w.edit B pageoffset j) hplane t
  have hmore := ticks_copyback (w.edit B pageoffset j) hplane t
  simp only [ftlCopyPage_eq, Prog.val_bind, Prog.state_bind, Prog.val_pure, Prog.state_pure]
  rw [hticks] at hiff hmore
  by_cases hval : (copyback B (source * B.blockPagenum + j) (unused * B.blockPagenum + j)
      (w.edit B pageoffset j)).val t = 0
  · rw [if_neg (not_not.mpr hval)]
    refine ⟨fun i hi => ?_, by rw [hmore, Nat.add_assoc]⟩
    by_cases hij : i = j
    · rw [hij]
      exact hiff.mp hval
    · exact hok i (by omega)
  · rw [if_pos hval]
    exact fun hall => hval (hiff.mpr (hall j hj))

theorem avoids_ftlCopyPages (h : c ≠ .copyback) :
    Avoids c (ftlCopyPages B source unused pageoffset v) := by
  refine .loop (fun i w => ?_) _ _ _
  rw [ftlCopyPage_eq]
  exact .bind (.bind (avoids_copyback _ h) fun _ => .pure _) fun _ => .pure _

/-- The used mark and the erase with which the last pass ends. -/
theorem ticks_endPass (source u : ℕ) (t : Dev) :
    let t' := (replaceEntry B source u).state
      ((nandEraseblock B source).state ((ftlUsedBlockmark B u).state t))
    t'.ticks .program = t.ticks .program + 1 ∧ t'.ticks .copyback = t.ticks .copyback ∧
      t'.ticks .erase = t.ticks .erase + 1 := by
  intro t'
  set t₁ := (ftlUsedBlockmark B u).state t with ht₁
  have hmarked : ∀ c, c ≠ .program → t₁.ticks c = t.ticks c :=
    fun c hc => avoids_nandWritespare hc _ _ _ _ t
  have herased : ∀ c, c ≠ .erase → t'.ticks c = t₁.ticks c := fun c hc => by
    rw [ticks_replaceEntry]
    exact avoids_nandEraseblock hc source _
  refine ⟨?_, ?_, ?_⟩
  · rw [herased _ (by decide), ht₁, ticks_ftlUsedBlockmark]
  · rw [herased _ (by decide), hmarked _ (by decide)]
  · rw [ticks_replaceEntry, ticks_nandEraseblock, hmarked _ (by decide)]

/-- What a pass returns, and how many commands it has issued when it is the last. -/
theorem ftlCopyAttempt_any (hs : source < B.blockTotalnum) :
    let r := ftlCopyAttempt B source pageoffset v
    (¬ SearchFinds B source d ∧ r.val d = .exit 1 ∧
      ∀ c, c ≠ .read → (r.state d).ticks c = d.ticks c) ∨
    (SearchFinds B source d ∧ PagesCopy B d ∧ r.val d = .exit 0 ∧
      (r.state d).ticks .program = d.ticks .program + 1 ∧
      (r.state d).ticks .copyback = d.ticks .copyback + B.blockPagenum ∧
      (r.state d).ticks .erase = d.ticks .erase + 1) ∨
    (SearchFinds B source d ∧ ¬ PagesCopy B d ∧ ∃ w, r.val d = .next w) := by
  intro r
  have htot := B.total_lt
  set u := (ftlFindSamePlaneUnusedBlock B source).val d with hu
  set d₁ := (ftlFindSamePlaneUnusedBlock B source).state d with hd₁
  have hsearch : ∀ c, c ≠ .read → d₁.ticks c = d.ticks c :=
    fun c hc => avoids_ftlFindSamePlaneUnusedBlock hc source d
  rcases ftlFindSamePlaneUnusedBlock_range source d with hnone | ⟨hlt, hpar⟩
  · rw [← hu] at hnone
    have hgt : u > B.blockTotalnum := by
      rw [hnone, noBlock]
      omega
    refine Or.inl ⟨not_not.mpr hnone, ?_, ?_⟩
    · simp only [r, ftlCopyAttempt, Prog.val_bind, ← hu, if_pos hgt, Prog.val_pure]
    · simpa only [r, ftlCopyAttempt, Prog.state_bind, ← hu, if_pos hgt, Prog.state_pure] using
        hsearch
  · rw [← hu] at hlt hpar
    have hgt : ¬ u > B.blockTotalnum := by omega
    have hfinds : SearchFinds B source d := by
      rw [SearchFinds, ← hu, noBlock]
      omega
    have hpages := ftlCopyPages_any (B := B) pageoffset v d₁ (by omega) (by omega) hpar
    have hcopy : PagesCopy B d₁ ↔ PagesCopy B d := by
      rw [PagesCopy, PagesCopy, hsearch .copyback (by decide)]
    set d₂ := (ftlCopyPages B source u pageoffset v).state d₁ with hd₂
    cases hloop : (ftlCopyPages B source u pageoffset v).val d₁ with
    | next w =>
        rw [hloop, Flow.holds_next, hcopy] at hpages
        have hval : r.val d = .exit 0 := by
          simp only [r, ftlCopyAttempt, Prog.val_bind, ← hu, if_neg hgt, ← hd₁, hloop,
            Prog.val_pure]
        have hstate : r.state d = (replaceEntry B source u).state
            ((nandEraseblock B source).state ((ftlUsedBlockmark B u).state d₂)) := by
          simp only [r, ftlCopyAttempt, Prog.state_bind, ← hu, if_neg hgt, ← hd₁, hloop, ← hd₂,
            Prog.state_pure]
        have hcopied : ∀ c, c ≠ .copyback → d₂.ticks c = d₁.ticks c :=
          fun c hc => avoids_ftlCopyPages pageoffset v hc d₁
        obtain ⟨hprogram, hcopyback, herase⟩ := ticks_endPass (B := B) source u d₂
        rw [← hstate] at hprogram hcopyback herase
        refine Or.inr (Or.inl ⟨hfinds, hpages.1, hval, ?_, ?_, ?_⟩)
        · rw [hprogram, hcopied _ (by decide), hsearch _ (by decide)]
        · rw [hcopyback, hpages.2, hsearch _ (by decide)]
        · rw [herase, hcopied _ (by decide), hsearch _ (by decide)]
    | exit w =>
        rw [hloop, Flow.holds_exit, hcopy] at hpages
        refine Or.inr (Or.inr ⟨hfinds, hpages, w, ?_⟩)
        simp only [r, ftlCopyAttempt, Prog.val_bind, ← hu, if_neg hgt, ← hd₁, hloop,
          Prog.val_pure]

end Pass

/-! ## The path into the page -/

/-- The chip delivers the next page that is read, and is ready in time. -/
def PageAnswers (B : Board) (d : Dev) : Prop :=
  ¬ (B.reply .read (d.ticks .read)).RbTimeout ∧ (B.reply .read (d.ticks .read)).waitCode = 0

theorem nandReadpagecomp_any (pagenum colnum cmpval n equal : ℕ) (d : Dev) :
    let r := (nandReadpagecomp B pagenum colnum cmpval n equal).val d
    (r.1 = 0 ↔ PageAnswers B d) ∧
      (PageAnswers B d → r.2 = equalWords (shift (d.flash pagenum) colnum) cmpval n 0) := by
  simp only [nandReadpagecomp, Prog.val_bind, val_command, state_command, Prog.val_get,
    Prog.state_get, Dev.flash_tick, Prog.val_ite, Prog.val_pure, PageAnswers, Reply.waitCode]
  by_cases hrb : (B.reply .read (d.ticks .read)).RbTimeout
  · rw [if_pos hrb]
    exact ⟨iff_of_false (show nstaTimeout ≠ 0 by decide) fun h => h.1 hrb, fun h => absurd hrb h.1⟩
  · rw [if_neg hrb]
    by_cases hready : nandWaitForReady (B.reply .read (d.ticks .read)).status = nstaReady
    · rw [if_neg (not_not.mpr hready), if_neg (not_not.mpr hready)]
      exact ⟨iff_of_true rfl ⟨hrb, rfl⟩, fun _ => rfl⟩
    · rw [if_pos hready, if_pos hready]
      have herror : nstaError ≠ 0 := by decide
      exact ⟨iff_of_false herror fun h => herror h.2, fun h => absurd h.2 herror⟩

/-- The part of the page is blank, and the programs of the page and, where it is due, of the used
mark report success. -/
def Served (B : Board) (page pageoffset wlen pbnno markdpbn : ℕ) (d : Dev) : Prop :=
  PartBlank d.flash page pageoffset (4 * (wlen / 4)) ∧
    (B.reply .program (d.ticks .program)).waitCode = 0 ∧
    (markdpbn ≠ pbnno → (B.reply .program (d.ticks .program + 1)).waitCode = 0)

/-- A part that is blank is programmed, and the used mark is written where it is due. -/
theorem writeInPlace_blank {page pageoffset wlen : ℕ} (pbuffer : Bytes) (temp pbnno markdpbn : ℕ)
    {d : Dev} (hans : PageAnswers B d)
    (hblank : PartBlank d.flash page pageoffset (4 * (wlen / 4))) :
    let d₁ := (nandWritepage B page pageoffset pbuffer wlen).state (d.reads 1)
    let code := (B.reply .program (d.ticks .program)).waitCode
    writeInPlace B page pageoffset pbuffer wlen temp pbnno markdpbn d =
      if code = 0 ∧ markdpbn ≠ pbnno then
        (.next ((B.reply .program (d.ticks .program + 1)).waitCode, pbnno),
          (ftlUsedBlockmark B pbnno).state d₁)
      else (.next (code, markdpbn), d₁) := by
  intro d₁ code
  obtain ⟨hcode, hequal⟩ :=
    nandReadpagecomp_any (B := B) page pageoffset 0xFFFFFFFF (wlen / 4) temp d
  have heq : ((nandReadpagecomp B page pageoffset 0xFFFFFFFF (wlen / 4) temp).val d).2 =
      wlen / 4 := by
    rw [hequal hans, equalWords_ff]
    exact hblank
  have hread : (d.reads 1).ticks .program = d.ticks .program :=
    Dev.ticks_reads_of_ne d 1 (by decide)
  have hflag : (nandWritepage B page pageoffset pbuffer wlen).val (d.reads 1) = code := by
    rw [val_nandWritepage, hread]
  rw [writeInPlace, Prog.bind_apply, if_neg (not_not.mpr (hcode.mpr hans)), if_pos heq,
    state_nandReadpagecomp, Prog.bind_apply, hflag]
  by_cases hdue : code = 0 ∧ markdpbn ≠ pbnno
  · have hmark : (ftlUsedBlockmark B pbnno).val d₁ =
        (B.reply .program (d.ticks .program + 1)).waitCode := by
      rw [ftlUsedBlockmark, val_nandWritespare, ticks_nandWritepage, hread]
    rw [if_pos hdue, if_pos hdue, Prog.bind_apply, hmark]
    rfl
  · rw [if_neg hdue, if_neg hdue]
    rfl

/-- What the path into the page returns, and how many commands it has issued when it reports
success. -/
theorem writeInPlace_any (page pageoffset : ℕ) (pbuffer : Bytes) (wlen temp pbnno markdpbn : ℕ)
    (d : Dev) :
    let r := writeInPlace B page pageoffset pbuffer wlen temp pbnno markdpbn
    (¬ PageAnswers B d ∧ r.val d = .exit 2 ∧ ∀ c, c ≠ .read → (r.state d).ticks c = d.ticks c) ∨
    (PageAnswers B d ∧ ¬ Served B page pageoffset wlen pbnno markdpbn d ∧
      ∃ flag m, flag ≠ 0 ∧ r.val d = .next (flag, m)) ∨
    (PageAnswers B d ∧ Served B page pageoffset wlen pbnno markdpbn d ∧
      (∃ m, r.val d = .next (0, m)) ∧
      (r.state d).ticks .program = d.ticks .program + (if markdpbn ≠ pbnno then 2 else 1) ∧
      (∀ c, c ≠ .read → c ≠ .program → (r.state d).ticks c = d.ticks c)) := by
  intro r
  obtain ⟨hcode, hequal⟩ :=
    nandReadpagecomp_any (B := B) page pageoffset 0xFFFFFFFF (wlen / 4) temp d
  set cmp := (nandReadpagecomp B page pageoffset 0xFFFFFFFF (wlen / 4) temp).val d with hcmp
  have hreads : ∀ c, c ≠ .read → (d.reads 1).ticks c = d.ticks c :=
    fun c hc => Dev.ticks_reads_of_ne d 1 hc
  by_cases hread : PageAnswers B d
  case neg =>
    have herr : cmp.1 ≠ 0 := fun h => hread (hcode.mp h)
    refine Or.inl ⟨hread, ?_, ?_⟩
    · simp only [r, writeInPlace, Prog.val_bind, ← hcmp, if_pos herr, Prog.val_pure]
    · simpa only [r, writeInPlace, Prog.state_bind, ← hcmp, if_pos herr, Prog.state_pure,
        state_nandReadpagecomp] using hreads
  by_cases hblank : PartBlank d.flash page pageoffset (4 * (wlen / 4))
  case neg =>
    have herr : ¬ cmp.1 ≠ 0 := not_not.mpr (hcode.mpr hread)
    have heq : cmp.2 ≠ wlen / 4 := by
      rw [hequal hread]
      exact fun h => hblank (by rwa [equalWords_ff] at h)
    refine Or.inr (Or.inl ⟨hread, fun h => hblank h.1, 1, markdpbn, one_ne_zero, ?_⟩)
    simp only [r, writeInPlace, Prog.val_bind, ← hcmp, if_neg herr, if_neg heq, Prog.val_pure,
      one_ne_zero, false_and, if_false]
  have hrun := writeInPlace_blank pbuffer temp pbnno markdpbn hread hblank
  dsimp only at hrun
  set d₁ := (nandWritepage B page pageoffset pbuffer wlen).state (d.reads 1) with hd₁
  set code := (B.reply .program (d.ticks .program)).waitCode with hcode'
  have hprogram : d₁.ticks .program = d.ticks .program + 1 := by
    rw [hd₁, ticks_nandWritepage, hreads _ (by decide)]
  have hother : ∀ c, c ≠ .read → c ≠ .program → d₁.ticks c = d.ticks c := fun c hc hc' =>
    (avoids_nandWritepage hc' _ _ _ _ (d.reads 1)).trans (hreads c hc)
  by_cases hdue : code = 0 ∧ markdpbn ≠ pbnno
  · -- the used mark is due
    rw [if_pos hdue] at hrun
    have hval : r.val d = .next ((B.reply .program (d.ticks .program + 1)).waitCode, pbnno) :=
      congrArg Prod.fst hrun
    have hstate : r.state d = (ftlUsedBlockmark B pbnno).state d₁ := congrArg Prod.snd hrun
    by_cases hzero : (B.reply .program (d.ticks .program + 1)).waitCode = 0
    · refine Or.inr (Or.inr ⟨hread, ⟨hblank, hdue.1, fun _ => hzero⟩, ⟨pbnno, ?_⟩, ?_, ?_⟩)
      · rw [hval, hzero]
      · rw [hstate, ticks_ftlUsedBlockmark, hprogram, if_pos hdue.2]
      · intro c hc hc'
        rw [hstate, ← hother c hc hc']
        exact avoids_nandWritespare hc' _ _ _ _ d₁
    · exact Or.inr (Or.inl ⟨hread, fun h => hzero (h.2.2 hdue.2), _, _, hzero, hval⟩)
  · rw [if_neg hdue] at hrun
    have hval : r.val d = .next (code, markdpbn) := congrArg Prod.fst hrun
    have hstate : r.state d = d₁ := congrArg Prod.snd hrun
    by_cases hzero : code = 0
    · have hsame : ¬ markdpbn ≠ pbnno := fun h => hdue ⟨hzero, h⟩
      refine Or.inr (Or.inr ⟨hread, ⟨hblank, hzero, fun h => absurd h hsame⟩,
        ⟨markdpbn, ?_⟩, ?_, ?_⟩)
      · rw [hval, hzero]
      · rw [hstate, hprogram, if_neg hsame]
      · rwa [hstate]
    · exact Or.inr (Or.inl ⟨hread, fun h => hzero h.2.1, _, _, hzero, hval⟩)

end Apollo.Ftl
