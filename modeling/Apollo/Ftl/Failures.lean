import Apollo.Ftl.AnyChip

/-!
# Whether failures reach the bad-block handling

`ftl.c` answers failed operations in three places: a pass of `ftl_copy_and_write_to_block` marks
its destination bad and starts again, `ftl_write_sectors` moves the block, `ftl_format` marks the
block.  These are reached through the codes of the driver, which say nothing of the failure bit.
And for three operations there is no handling at all: the used mark of a copy, the erase of
its source, and the number that a format writes into a block.

## Main definitions

* `FailureBetween` — the chip reports a failure of something that is issued.
* `PassHandles`, `WriteHandles`, `FormatHandles`, `NumberHandles` — what each place does then.
* `failures_handled_iff` — the answers of the chip with which they do.
-/

namespace Apollo.Ftl
open Lib Nand

variable {B : Board}

/-- The chip reports a failure of a program, a copy-back or an erase that is issued between the
states `d` and `d'`. -/
def FailureBetween (B : Board) (d d' : Dev) : Prop :=
  ∃ c, c ≠ .read ∧ ∃ n, d.ticks c ≤ n ∧ n < d'.ticks c ∧ (B.reply c n).Failed

theorem not_failureBetween {d d' : Dev} (h : ∀ c, c ≠ .read → d'.ticks c = d.ticks c) :
    ¬ FailureBetween B d d' := by
  rintro ⟨c, hc, n, hle, hlt, -⟩
  have := h c hc
  omega

/-! ## A copy -/

section Pass
variable (B : Board) (source pageoffset : ℕ) (v : CopyArgs) (d : Dev)

/-- When the chip reports a failure in a pass, the destination is marked and the pass is followed
by another. -/
def PassHandles : Prop :=
  FailureBetween B d ((ftlCopyAttempt B source pageoffset v).state d) →
    ∃ w, (ftlCopyAttempt B source pageoffset v).val d = .next w

/-- In a pass whose page copies all return 0, the first ready byte of each has bit 0 clear, and
neither the used mark nor the erase of the source is reported as failed. -/
def PassClear : Prop :=
  SearchFinds B source d → PagesCopy B d →
    (∀ i < B.blockPagenum, FirstReadyClear (B.reply .copyback (d.ticks .copyback + i)).status) ∧
    ¬ (B.reply .program (d.ticks .program)).Failed ∧ ¬ (B.reply .erase (d.ticks .erase)).Failed

variable {source}

theorem passHandles_iff (hs : source < B.blockTotalnum) :
    PassHandles B source pageoffset v d ↔ PassClear B source d := by
  rcases ftlCopyAttempt_any pageoffset v d hs with
    ⟨hnone, -, hticks⟩ | ⟨hfinds, hcopy, hval, hprogram, hcopyback, herase⟩ |
    ⟨-, hfails, w, hval⟩
  · exact iff_of_true (fun h => absurd h (not_failureBetween hticks)) fun h => absurd h hnone
  · have hpass : PassHandles B source pageoffset v d ↔
        ¬ FailureBetween B d ((ftlCopyAttempt B source pageoffset v).state d) := by
      refine imp_congr_right fun _ => iff_of_false ?_ id
      rintro ⟨w, hw⟩
      rw [hval] at hw
      cases hw
    rw [hpass, PassClear, imp_iff_right hfinds, imp_iff_right hcopy]
    constructor
    · intro h
      refine ⟨fun i hi => ?_, fun hf => h ?_, fun hf => h ?_⟩
      · by_contra hclear
        refine h ⟨.copyback, by decide, d.ticks .copyback + i, by omega, by omega, ?_⟩
        by_contra hf
        exact hclear ((not_failed_iff _).mp hf).2
      · exact ⟨.program, by decide, _, le_rfl, by omega, hf⟩
      · exact ⟨.erase, by decide, _, le_rfl, by omega, hf⟩
    · rintro ⟨hclear, hmark, hsource⟩ ⟨c, hc, n, hle, hlt, hf⟩
      cases c with
      | read => exact hc rfl
      | program =>
          rw [show n = d.ticks .program by omega] at hf
          exact hmark hf
      | copyback =>
          obtain ⟨i, rfl⟩ := Nat.exists_eq_add_of_le hle
          have hi : i < B.blockPagenum := by omega
          exact (not_failed_iff _).mpr ⟨(hcopy i hi).2, hclear i hi⟩ hf
      | erase =>
          rw [show n = d.ticks .erase by omega] at hf
          exact hsource hf
  · exact iff_of_true (fun _ => ⟨w, hval⟩) fun _ h => absurd h hfails

end Pass

/-! ## A write into the page -/

section Write
variable (B : Board) (page pageoffset : ℕ) (pbuffer : Bytes) (wlen temp pbnno markdpbn : ℕ)
  (d : Dev)

/-- When the chip reports a failure on the path into the page, `flag` says so, and the block is
moved. -/
def WriteHandles : Prop :=
  let r := writeInPlace B page pageoffset pbuffer wlen temp pbnno markdpbn
  FailureBetween B d (r.state d) → ∃ flag m, flag ≠ 0 ∧ r.val d = .next (flag, m)

/-- Where the programs of the page and of the used mark return 0, the first ready byte of each has
bit 0 clear. -/
def WriteClear : Prop :=
  PageAnswers B d → Served B page pageoffset wlen pbnno markdpbn d →
    FirstReadyClear (B.reply .program (d.ticks .program)).status ∧
    (markdpbn ≠ pbnno → FirstReadyClear (B.reply .program (d.ticks .program + 1)).status)

theorem writeHandles_iff :
    WriteHandles B page pageoffset pbuffer wlen temp pbnno markdpbn d ↔
      WriteClear B page pageoffset wlen pbnno markdpbn d := by
  rcases writeInPlace_any (B := B) page pageoffset pbuffer wlen temp pbnno markdpbn d with
    ⟨hread, -, hticks⟩ | ⟨-, hserved, hval⟩ | ⟨hread, hserved, ⟨m, hval⟩, hprogram, hticks⟩
  · exact iff_of_true (fun h => absurd h (not_failureBetween hticks)) fun h => absurd h hread
  · exact iff_of_true (fun _ => hval) fun _ h => absurd h hserved
  · set d' := (writeInPlace B page pageoffset pbuffer wlen temp pbnno markdpbn).state d with hd'
    have hhandles : WriteHandles B page pageoffset pbuffer wlen temp pbnno markdpbn d ↔
        ¬ FailureBetween B d d' := by
      refine imp_congr_right fun _ => iff_of_false ?_ id
      rintro ⟨flag, m', hne, hw⟩
      rw [hval] at hw
      cases hw
      exact hne rfl
    obtain ⟨hblank, hcode, hmark⟩ := hserved
    rw [hhandles, WriteClear, imp_iff_right hread, imp_iff_right ⟨hblank, hcode, hmark⟩]
    constructor
    · intro h
      refine ⟨?_, fun hdue => ?_⟩
      · by_contra hclear
        refine h ⟨.program, by decide, d.ticks .program, le_rfl, by split at hprogram <;> omega, ?_⟩
        by_contra hf
        exact hclear ((not_failed_iff _).mp hf).2
      · by_contra hclear
        rw [if_pos hdue] at hprogram
        refine h ⟨.program, by decide, d.ticks .program + 1, by omega, by omega, ?_⟩
        by_contra hf
        exact hclear ((not_failed_iff _).mp hf).2
    · rintro ⟨hclear, hclear'⟩ ⟨c, hc, n, hle, hlt, hf⟩
      by_cases hprog : c = .program
      · rw [hprog] at hle hlt hf
        rw [hprogram] at hlt
        rcases Nat.eq_or_lt_of_le hle with heq | hgt
        · rw [← heq] at hf
          exact (not_failed_iff _).mpr ⟨hcode, hclear⟩ hf
        · have hdue : markdpbn ≠ pbnno := by
            by_contra hsame
            rw [if_neg (not_not.mpr hsame)] at hlt
            omega
          rw [if_pos hdue] at hlt
          rw [show n = d.ticks .program + 1 by omega] at hf
          exact (not_failed_iff _).mpr ⟨hmark hdue, hclear' hdue⟩ hf
      · have := hticks c hc hprog
        omega

end Write

/-! ## A format -/

section Format
variable (B : Board) (i : ℕ) (d : Dev)

/-- The check, the erase and the marking of a block. -/
def eraseAndMark : NandM Unit := do
  let _ ← ftlCheckBadblock B i
  let _ ← nandEraseblock B i
  ftlBadblockMark B i

/-- When the chip reports a failure of the erase of a block, the block is marked bad. -/
def FormatHandles : Prop :=
  FailureBetween B d ((formatBlock B i).state d) →
    (formatBlock B i).state d = (eraseAndMark B i).state d

/-- The first ready byte of the erase of a good block has bit 0 clear. -/
def FormatClear : Prop :=
  (ftlCheckBadblock B i).val d = 0 → FirstReadyClear (B.reply .erase (d.ticks .erase)).status

theorem goodBlocknum_ftlBadblockMark (b : ℕ) :
    Prog.Keeps Dev.goodBlocknum (ftlBadblockMark B b) := by
  have hwrite (page : ℕ) (pbuffer : Bytes) :
      Prog.Keeps Dev.goodBlocknum (nandWritespare B page 0 pbuffer 4) :=
    .bind (fun _ => rfl) fun _ => .bind (.modify fun _ => rfl) fun _ => .pure _
  exact .bind (hwrite _ _) fun _ => .bind (hwrite _ _) fun _ => .pure _

theorem formatHandles_iff : FormatHandles B i d ↔ FormatClear B i d := by
  set d₁ := (ftlCheckBadblock B i).state d with hd₁
  have hcheck : ∀ c, c ≠ .read → d₁.ticks c = d.ticks c :=
    fun c hc => avoids_ftlCheckBadblock hc i d
  by_cases hgood : (ftlCheckBadblock B i).val d = 0
  case neg =>
    have hstate : (formatBlock B i).state d = d₁ := by
      simp only [formatBlock, Prog.state_bind, if_neg hgood, Prog.state_pure, ← hd₁]
    refine iff_of_true (fun h => ?_) fun h => absurd h hgood
    rw [hstate] at h
    exact absurd h (not_failureBetween hcheck)
  set d₂ := (nandEraseblock B i).state d₁ with hd₂
  set code := (B.reply .erase (d.ticks .erase)).waitCode with hcode
  have herase : (nandEraseblock B i).val d₁ = code := by
    rw [val_nandEraseblock, hcheck _ (by decide)]
  have hmark : (eraseAndMark B i).state d = (ftlBadblockMark B i).state d₂ := by
    simp only [eraseAndMark, Prog.state_bind, ← hd₁, ← hd₂]
  rw [FormatHandles, FormatClear, imp_iff_right hgood, hmark]
  by_cases hzero : code = 0
  · have hstate : (formatBlock B i).state d = { d₂ with goodBlocknum := d₂.goodBlocknum + 1 } := by
      simp only [formatBlock, Prog.state_bind, if_pos hgood, ← hd₁, herase, hzero, ne_eq,
        not_true_eq_false, if_false, ← hd₂, Prog.state_modify]
    -- the block is counted as good, which the marking does not do
    have hcounted : (formatBlock B i).state d ≠ (ftlBadblockMark B i).state d₂ := by
      intro heq
      have hgood' := congrArg Dev.goodBlocknum heq
      rw [goodBlocknum_ftlBadblockMark B i d₂, hstate] at hgood'
      exact Nat.succ_ne_self _ hgood'
    rw [imp_iff_not hcounted, hstate]
    have hticks : ∀ c, c ≠ .read → c ≠ .erase → d₂.ticks c = d.ticks c := fun c hc hc' =>
      (avoids_nandEraseblock hc' i d₁).trans (hcheck c hc)
    have herased : d₂.ticks .erase = d.ticks .erase + 1 := by
      rw [hd₂, ticks_nandEraseblock, hcheck _ (by decide)]
    constructor
    · intro h
      by_contra hclear
      refine h ⟨.erase, by decide, d.ticks .erase, le_rfl, ?_, ?_⟩
      · exact lt_of_lt_of_eq (Nat.lt_succ_self _) herased.symm
      · by_contra hf
        exact hclear ((not_failed_iff _).mp hf).2
    · rintro hclear ⟨c, hc, n, hle, hlt, hf⟩
      change n < d₂.ticks c at hlt
      by_cases hce : c = .erase
      · rw [hce] at hle hlt hf
        rw [show n = d.ticks .erase by omega] at hf
        exact (not_failed_iff _).mpr ⟨hzero, hclear⟩ hf
      · have := hticks c hc hce
        omega
  · have hstate : (formatBlock B i).state d = (ftlBadblockMark B i).state d₂ := by
      simp only [formatBlock, Prog.state_bind, if_pos hgood, ← hd₁, herase, ne_eq, hzero,
        not_false_eq_true, if_true, ← hd₂]
    refine iff_of_true (fun _ => hstate) fun t ht => ?_
    exact absurd ((waitCode_eq_zero _).mpr ⟨t, ht.1, ht.2.1⟩) hzero

variable (goodblock n : ℕ)

/-- No write of a logical number is reported as failed: what it returns is not looked at. -/
def NumberHandles : Prop := ¬ FailureBetween B d ((numberBlock B goodblock i n).state d)

/-- The write of the number into a good block is not reported as failed. -/
def NumberClear : Prop :=
  (ftlCheckBadblock B i).val d = 0 → ¬ (B.reply .program (d.ticks .program)).Failed

theorem numberHandles_iff : NumberHandles B i d goodblock n ↔ NumberClear B i d := by
  set d₁ := (ftlCheckBadblock B i).state d with hd₁
  have hcheck : ∀ c, c ≠ .read → d₁.ticks c = d.ticks c :=
    fun c hc => avoids_ftlCheckBadblock hc i d
  by_cases hgood : (ftlCheckBadblock B i).val d = 0
  case neg =>
    have hstate : (numberBlock B goodblock i n).state d = d₁ := by
      simp only [numberBlock, Prog.state_bind, if_neg hgood, Prog.state_pure, ← hd₁]
    refine iff_of_true ?_ fun h => absurd h hgood
    rw [NumberHandles, hstate]
    exact not_failureBetween hcheck
  set d₂ := (nandWritespare B (i * B.blockPagenum) 2 (wordByte n) 2).state d₁ with hd₂
  have hstate : (numberBlock B goodblock i n).state d = d₂ := by
    simp only [numberBlock, Prog.state_bind, if_pos hgood, Prog.state_pure, ← hd₁, ← hd₂]
  have hticks : ∀ c, c ≠ .read → c ≠ .program → d₂.ticks c = d.ticks c := fun c hc hc' =>
    (avoids_nandWritespare hc' _ _ _ _ d₁).trans (hcheck c hc)
  have hprogram : d₂.ticks .program = d.ticks .program + 1 := by
    rw [hd₂, nandWritespare, ticks_nandWritepage, hcheck _ (by decide)]
  rw [NumberHandles, NumberClear, imp_iff_right hgood, hstate]
  refine not_congr ⟨?_, fun hf => ⟨.program, by decide, _, le_rfl, by omega, hf⟩⟩
  rintro ⟨c, hc, m, hle, hlt, hf⟩
  by_cases hcp : c = .program
  · rw [hcp] at hle hlt hf
    rwa [show m = d.ticks .program by omega] at hf
  · have := hticks c hc hcp
    omega

end Format

/-! ## All of them -/

/-- Each of the four writing functions keeps the code 0 for operations that are not reported as
failed exactly when the first ready byte, if the wait sees one, has bit 0 clear (or, for a
copy-back, the status is not polled); and a reported failure reaches the bad-block handling of a
pass of `ftl_copy_and_write_to_block`, of a round of `ftl_write_sectors` and of the rounds of
`ftl_format` exactly when this bit is clear in the answers to the operations whose code is looked
at and the others are not reported as failed.  This holds in every state, and so in every one
that a call reaches. -/
theorem failures_handled_iff (B : Board) (d : Dev) :
    (∀ pagenum colnum pbuffer numbyteToWrite,
      ReportsFailure ((nandWritepage B pagenum colnum pbuffer numbyteToWrite).val d)
          (B.reply .program (d.ticks .program)).status ↔
        FirstReadyClear (B.reply .program (d.ticks .program)).status) ∧
    (∀ sourcePagenum destPagenum colnum pbuffer numbyteToWrite,
      ReportsFailure
          ((nandCopypageWithwrite B sourcePagenum destPagenum colnum pbuffer numbyteToWrite).val d)
          (B.reply .copyback (d.ticks .copyback)).status ↔
        CopyStopsEarly B (B.reply .copyback (d.ticks .copyback)) sourcePagenum destPagenum ∨
          FirstReadyClear (B.reply .copyback (d.ticks .copyback)).status) ∧
    (∀ sourcePagenum destPagenum,
      ReportsFailure ((nandCopypageWithoutwrite B sourcePagenum destPagenum).val d)
          (B.reply .copyback (d.ticks .copyback)).status ↔
        CopyStopsEarly B (B.reply .copyback (d.ticks .copyback)) sourcePagenum destPagenum ∨
          FirstReadyClear (B.reply .copyback (d.ticks .copyback)).status) ∧
    (∀ blocknum,
      ReportsFailure ((nandEraseblock B blocknum).val d)
          (B.reply .erase (d.ticks .erase)).status ↔
        FirstReadyClear (B.reply .erase (d.ticks .erase)).status) ∧
    (∀ source < B.blockTotalnum, ∀ pageoffset v,
      PassHandles B source pageoffset v d ↔ PassClear B source d) ∧
    (∀ page pageoffset pbuffer wlen temp pbnno markdpbn,
      WriteHandles B page pageoffset pbuffer wlen temp pbnno markdpbn d ↔
        WriteClear B page pageoffset wlen pbnno markdpbn d) ∧
    (∀ i, FormatHandles B i d ↔ FormatClear B i d) ∧
    (∀ i goodblock n, NumberHandles B i d goodblock n ↔ NumberClear B i d) := by
  obtain ⟨hwrite, hcopyWith, hcopyWithout, herase⟩ := failures_reported_iff B d
  exact ⟨hwrite, hcopyWith, hcopyWithout, herase,
    fun _ hs pageoffset v => passHandles_iff B pageoffset v d hs,
    fun _ _ _ _ _ _ _ => writeHandles_iff B _ _ _ _ _ _ _ d,
    fun i => formatHandles_iff B i d, fun i goodblock n => numberHandles_iff B i d goodblock n⟩

/-- On a sound chip the first pass of a copy of block 0 has no failure to handle. -/
theorem failures_handled_iff_board512 :
    PassHandles board512 0 0 ⟨0, fun _ => 0, 1⟩ Dev.blank := by
  have hclear : FirstReadyClear Reply.sound.status :=
    fun _ _ => (by decide : (0xE0 : UInt8) &&& 0x01 = 0)
  have hsound : ¬ Reply.sound.Failed := (not_failed_iff _).mpr ⟨Reply.sound_waitCode, hclear⟩
  exact ((failures_handled_iff board512 Dev.blank).2.2.2.2.1 0 (by decide) 0 _).mpr
    fun _ _ => ⟨fun _ _ => hclear, hsound, hsound⟩

end Apollo.Ftl
