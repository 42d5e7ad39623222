import Apollo.Ftl.AnyChip
import Apollo.Ftl.Recover

/-!
# Whether a sector write makes progress

A round of `ftl_write_sectors` converts the number of sectors that are left to 16 bits
before it compares it with the room in the page.  Where the number is a multiple of
`2 ^ 16`, the round writes nothing, goes on, and finds itself where it was.  And a round that
moves a block waits for the retry loop of `ftl_copy_and_write_to_block`, which has no bound
either: on a chip whose bad-block marks have no effect it may go on for ever.

## Main definitions

* `SectorsFit` — sector sizes whose room in a page and in a block is never taken for 0.
* `RetriesEnd`, `FindsNone` — how the retry loop stops.
* `RoundOutcome`, `writeRound_any` — what a round does on any chip.
* `RoundFine` — the condition on a round.
* `Progress`, `write_progresses_iff` — the call returns and every round moves the index up.
* `Sound.roundsFine` — where the condition is met.
-/

namespace Apollo.Ftl
open Lib Nand

/-- Pages are whole sectors, and a block has fewer than `2 ^ 16` of them. -/
structure SectorsFit (G : Geometry) (sectorsize : ℕ) : Prop where
  page : sectorsize ∣ G.pageMainsize
  block : G.blockPagenum * G.pageMainsize < 2 ^ 16 * sectorsize

/-- The sectors of `ftl.c`'s callers, 512 bytes. -/
theorem sectorsFit_512 (G : Geometry) : SectorsFit G nandEccSectorSize where
  page := G.mainsize_sectors
  block := by
    have hP := G.pagenum_lt
    calc G.blockPagenum * G.pageMainsize
        ≤ 2 ^ 8 * 4096 := Nat.mul_le_mul (Nat.le_of_lt hP) G.mainsize_le
      _ < 2 ^ 16 * nandEccSectorSize := by decide

variable {B : Board}

section Room
variable {sectorsize : ℕ}

theorem SectorsFit.pos (h : SectorsFit B.toGeometry sectorsize) : 0 < sectorsize :=
  Nat.pos_of_dvd_of_pos h.page B.mainsize_pos

theorem SectorsFit.toSectorSize (h : SectorsFit B.toGeometry sectorsize) :
    SectorSize B sectorsize :=
  ⟨h.pos, Nat.le_of_dvd B.mainsize_pos h.page⟩

/-- There is room for a sector in its page. -/
theorem SectorsFit.pageRoom_pos (h : SectorsFit B.toGeometry sectorsize) (sectorno i : ℕ) :
    0 < (B.pageMainsize - blockoffset B sectorno sectorsize i % B.pageMainsize) / sectorsize := by
  have hcol := offset_col_lt B (o := blockoffset B sectorno sectorsize i)
  have hcoldvd : sectorsize ∣ blockoffset B sectorno sectorsize i % B.pageMainsize :=
    (Nat.dvd_mod_iff h.page).mpr (Nat.dvd_mul_left _ _)
  have hdvd := Nat.dvd_sub h.page hcoldvd
  exact Nat.div_pos (Nat.le_of_dvd (by omega) hdvd) h.pos

/-- There is room for it in its block, and the conversion to 16 bits does not lose it. -/
theorem SectorsFit.blockRoom_pos (h : SectorsFit B.toGeometry sectorsize) (sectorno i : ℕ) :
    0 < u16 ((blockSize B - blockoffset B sectorno sectorsize i) / sectorsize) := by
  have hlt := blockoffset_lt h.toSectorSize sectorno i
  have hdvd : sectorsize ∣ blockSize B - blockoffset B sectorno sectorsize i :=
    Nat.dvd_sub (Nat.dvd_mul_left_of_dvd h.page _) (Nat.dvd_mul_left _ _)
  have hpos := Nat.div_pos (Nat.le_of_dvd (by omega) hdvd) h.pos
  have hroom : (blockSize B - blockoffset B sectorno sectorsize i) / sectorsize < 2 ^ 16 :=
    (Nat.div_lt_iff_lt_mul h.pos).mpr (lt_of_le_of_lt (Nat.sub_le _ _) h.block)
  rwa [u16, Nat.mod_eq_of_lt hroom]

end Room

/-! ## The retry loop -/

section Retry
variable (B : Board) (source pageoffset : ℕ) (v : CopyArgs) (d : Dev)

/-- A pass that is followed by another: the search finds a block, and the copy of some page into
it fails. -/
def PassFails (_ : CopyArgs) (d : Dev) : Prop := SearchFinds B source d ∧ ¬ PagesCopy B d

/-- The retry loop stops: it comes to a pass that does not fail. -/
def RetriesEnd : Prop :=
  ∃ m, ¬ Prog.Rounds (PassFails B source) (fun _ => ftlCopyAttempt B source pageoffset) m 0 v d

/-- The retry loop comes to a pass whose search finds no block. -/
def FindsNone : Prop :=
  ∃ m, ¬ Prog.Rounds (fun _ => SearchFinds B source)
    (fun _ => ftlCopyAttempt B source pageoffset) m 0 v d

variable {B source}

theorem attempt_exits_iff (hs : source < B.blockTotalnum) :
    (∃ c, (ftlCopyAttempt B source pageoffset v).val d = .exit c ∧ True) ↔
      ¬ PassFails B source v d := by
  rcases ftlCopyAttempt_any pageoffset v d hs with
    ⟨hnone, hval, -⟩ | ⟨-, hcopy, hval, -⟩ | ⟨hfinds, hfails, w, hval⟩
  · exact iff_of_true ⟨1, hval, trivial⟩ fun h => hnone h.1
  · exact iff_of_true ⟨0, hval, trivial⟩ fun h => h.2 hcopy
  · refine iff_of_false ?_ (not_not.mpr ⟨hfinds, hfails⟩)
    rintro ⟨c, hc, -⟩
    rw [hval] at hc
    cases hc

theorem attempt_fails_iff (hs : source < B.blockTotalnum) :
    (∃ c, (ftlCopyAttempt B source pageoffset v).val d = .exit c ∧ c ≠ 0) ↔
      ¬ SearchFinds B source d := by
  rcases ftlCopyAttempt_any pageoffset v d hs with
    ⟨hnone, hval, -⟩ | ⟨hfinds, -, hval, -⟩ | ⟨hfinds, -, w, hval⟩
  · exact iff_of_true ⟨1, hval, one_ne_zero⟩ hnone
  · refine iff_of_false ?_ (not_not.mpr hfinds)
    rintro ⟨c, hc, hne⟩
    rw [hval] at hc
    cases hc
    exact hne rfl
  · refine iff_of_false ?_ (not_not.mpr hfinds)
    rintro ⟨c, hc, -⟩
    rw [hval] at hc
    cases hc

end Retry

section Copy
variable {source pageoffset colnum n : ℕ} {pbuffer : Bytes} {d : Dev}

/-- A call returns what its retry loop leaves with. -/
theorem copy_eq_some (hp : pageoffset < B.blockPagenum) {fuel c : ℕ} :
    (ftlCopyAndWriteToBlock B fuel (source * B.blockPagenum + pageoffset) colnum pbuffer n).val d =
        some c ↔
      (Prog.loop (fun _ => ftlCopyAttempt B source pageoffset) fuel 0 ⟨colnum, pbuffer, n⟩).val d =
        .exit c := by
  simp only [ftlCopyAndWriteToBlock, B.page_div _ hp, B.page_mod _ hp, Prog.val_bind]
  cases (Prog.loop (fun _ => ftlCopyAttempt B source pageoffset) fuel 0
      ⟨colnum, pbuffer, n⟩).val d with
  | next w => exact iff_of_false (fun h => by cases h) fun h => by cases h
  | exit c' =>
      simp only [Prog.val_pure, Option.some.injEq, Flow.exit.injEq]

/-- Whether a call returns. -/
theorem copy_ends_iff (hs : source < B.blockTotalnum) (hp : pageoffset < B.blockPagenum) :
    (∃ fuel c, (ftlCopyAndWriteToBlock B fuel (source * B.blockPagenum + pageoffset) colnum pbuffer
      n).val d = some c) ↔ RetriesEnd B source pageoffset ⟨colnum, pbuffer, n⟩ d := by
  refine exists_congr fun fuel => ?_
  simp only [copy_eq_some hp]
  rw [← Prog.loop_exits_iff_rounds (P := fun _ => True)
    (fun _ w t => attempt_exits_iff pageoffset w t hs)]
  simp only [and_true]

/-- Whether a call returns a failure. -/
theorem copy_fails_iff (hs : source < B.blockTotalnum) (hp : pageoffset < B.blockPagenum) :
    (∃ fuel c, (ftlCopyAndWriteToBlock B fuel (source * B.blockPagenum + pageoffset) colnum pbuffer
      n).val d = some c ∧ c ≠ 0) ↔ FindsNone B source pageoffset ⟨colnum, pbuffer, n⟩ d := by
  refine exists_congr fun fuel => ?_
  simp only [copy_eq_some hp]
  exact Prog.loop_exits_iff_rounds (fun _ w t => attempt_fails_iff pageoffset w t hs) _ _ _ _

/-- A call that returns does the same with more fuel. -/
theorem copy_mono (hp : pageoffset < B.blockPagenum) {fuel fuel' c : ℕ} (hle : fuel ≤ fuel')
    (h : (ftlCopyAndWriteToBlock B fuel (source * B.blockPagenum + pageoffset) colnum pbuffer
      n).val d = some c) :
    ftlCopyAndWriteToBlock B fuel' (source * B.blockPagenum + pageoffset) colnum pbuffer n d =
      ftlCopyAndWriteToBlock B fuel (source * B.blockPagenum + pageoffset) colnum pbuffer n d := by
  obtain ⟨k, rfl⟩ := Nat.exists_eq_add_of_le hle
  have hloop := Prog.loop_add_exit ((copy_eq_some hp).mp h) k
  simp only [ftlCopyAndWriteToBlock, B.page_div _ hp, B.page_mod _ hp, Prog.bind_apply, Prog.val,
    Prog.state, hloop]

end Copy

/-! ## A round on any chip -/

section Round
variable (B : Board) (sectorno sectorsize sectorcount : ℕ) (v : WriteVars) (d : Dev)

/-- The sector a round begins with lies in a mapped block. -/
def RoundMapped : Prop :=
  lbnno B sectorno sectorsize v.i ≤ d.validBlocknum ∧
    d.lut (lbnno B sectorno sectorsize v.i) < B.blockTotalnum

/-- The round writes into the page, and that is all. -/
def RoundServed : Prop :=
  Served B (roundPage B sectorno sectorsize v d)
    (blockoffset B sectorno sectorsize v.i % B.pageMainsize)
    (pageSecs B sectorno sectorsize sectorcount v.i * sectorsize)
    (d.lut (lbnno B sectorno sectorsize v.i)) v.markdpbn d

/-- The path of a round into the page. -/
def roundInPlace : NandM (Lib.Flow (ℕ × ℕ) ℕ) :=
  writeInPlace B (roundPage B sectorno sectorsize v d)
    (blockoffset B sectorno sectorsize v.i % B.pageMainsize) v.pbuffer
    (pageSecs B sectorno sectorsize sectorcount v.i * sectorsize)
    ((B.pageMainsize - blockoffset B sectorno sectorsize v.i % B.pageMainsize) / sectorsize)
    (d.lut (lbnno B sectorno sectorsize v.i)) v.markdpbn

/-- The arguments with which a round begins to move a block. -/
def roundArgs : CopyArgs :=
  ⟨blockoffset B sectorno sectorsize v.i % B.pageMainsize, v.pbuffer,
    blockSecs B sectorno sectorsize sectorcount v.i * sectorsize⟩

/-- The retry loop of a round, from where the path into the page has left the chip. -/
def RoundRetriesEnd : Prop :=
  RetriesEnd B (d.lut (lbnno B sectorno sectorsize v.i))
    (blockoffset B sectorno sectorsize v.i / B.pageMainsize)
    (roundArgs B sectorno sectorsize sectorcount v)
    ((roundInPlace B sectorno sectorsize sectorcount v d).state d)

def RoundFindsNone : Prop :=
  FindsNone B (d.lut (lbnno B sectorno sectorsize v.i))
    (blockoffset B sectorno sectorsize v.i / B.pageMainsize)
    (roundArgs B sectorno sectorsize sectorcount v)
    ((roundInPlace B sectorno sectorsize sectorcount v d).state d)

/-- The condition on a round that has a sector to write, in a mapped block whose page the chip
delivers: if all goes into the page, the number of sectors left is no multiple of `2 ^ 16`;
otherwise the retry loop stops, and if it is such a multiple, for want of a block. -/
def RoundFine : Prop :=
  v.i < sectorcount → RoundMapped B sectorno sectorsize v d → PageAnswers B d →
    (RoundServed B sectorno sectorsize sectorcount v d → ¬ 2 ^ 16 ∣ sectorcount - v.i) ∧
    (¬ RoundServed B sectorno sectorsize sectorcount v d →
      RoundRetriesEnd B sectorno sectorsize sectorcount v d ∧
      (2 ^ 16 ∣ sectorcount - v.i → RoundFindsNone B sectorno sectorsize sectorcount v d))

/-- What a round does, with any fuel. -/
inductive RoundOutcome : Prop where
  | returns (r : ℕ) (d' : Dev) (fine : RoundFine B sectorno sectorsize sectorcount v d)
      (run : ∀ fuel, writeRound B fuel sectorno sectorsize sectorcount v d = (.exit (some r), d'))
  | served (m : ℕ) (hi : v.i < sectorcount) (mapped : RoundMapped B sectorno sectorsize v d)
      (answers : PageAnswers B d) (served : RoundServed B sectorno sectorsize sectorcount v d)
      (run : ∀ fuel, writeRound B fuel sectorno sectorsize sectorcount v d =
        (.next (v.after sectorsize (pageSecs B sectorno sectorsize sectorcount v.i) m),
          (roundInPlace B sectorno sectorsize sectorcount v d).state d))
  | moves (m : ℕ) (hi : v.i < sectorcount) (mapped : RoundMapped B sectorno sectorsize v d)
      (answers : PageAnswers B d) (served : ¬ RoundServed B sectorno sectorsize sectorcount v d)
      (run : ∀ fuel, writeRound B fuel sectorno sectorsize sectorcount v d =
        (afterCopy B sectorno sectorsize sectorcount v m
            ((roundCopy B fuel sectorno sectorsize sectorcount v d).val
              ((roundInPlace B sectorno sectorsize sectorcount v d).state d)),
          (roundCopy B fuel sectorno sectorsize sectorcount v d).state
            ((roundInPlace B sectorno sectorsize sectorcount v d).state d)))

/-- What the path into the page returns. -/
theorem roundInPlace_any :
    let r := roundInPlace B sectorno sectorsize sectorcount v d
    (¬ PageAnswers B d ∧ r.val d = .exit 2) ∨
    (PageAnswers B d ∧ ¬ RoundServed B sectorno sectorsize sectorcount v d ∧
      ∃ flag m, flag ≠ 0 ∧ r.val d = .next (flag, m)) ∨
    (PageAnswers B d ∧ RoundServed B sectorno sectorsize sectorcount v d ∧
      ∃ m, r.val d = .next (0, m)) := by
  intro r
  rcases writeInPlace_any (B := B) (roundPage B sectorno sectorsize v d)
      (blockoffset B sectorno sectorsize v.i % B.pageMainsize) v.pbuffer
      (pageSecs B sectorno sectorsize sectorcount v.i * sectorsize)
      ((B.pageMainsize - blockoffset B sectorno sectorsize v.i % B.pageMainsize) / sectorsize)
      (d.lut (lbnno B sectorno sectorsize v.i)) v.markdpbn d with
    ⟨hread, hval, -⟩ | hmoves | ⟨hread, hserved, hval, -⟩
  · exact Or.inl ⟨hread, hval⟩
  · exact Or.inr (Or.inl hmoves)
  · exact Or.inr (Or.inr ⟨hread, hserved, hval⟩)

theorem writeRound_any : RoundOutcome B sectorno sectorsize sectorcount v d := by
  by_cases hi : v.i < sectorcount
  case neg =>
    refine .returns 0 d (fun h => absurd h hi) fun fuel => ?_
    rw [writeRound, if_neg hi]
    rfl
  by_cases hmap : RoundMapped B sectorno sectorsize v d
  case neg =>
    have htot := B.total_lt
    have hpbn : B.blockTotalnum ≤ (ftlLbnToPbn (lbnno B sectorno sectorsize v.i)).val d := by
      rw [RoundMapped] at hmap
      rw [Prog.val, ftlLbnToPbn_apply]
      split <;> omega
    refine .returns 1 d (fun _ h => absurd h hmap) fun fuel => ?_
    rw [writeRound, if_pos hi, Prog.bind_apply, if_pos hpbn]
    rfl
  have hround := fun fuel => @writeRound_mapped B fuel sectorno sectorsize sectorcount v d
    hi hmap.1 hmap.2
  rcases roundInPlace_any B sectorno sectorsize sectorcount v d with
    ⟨hread, hval⟩ | ⟨hread, hserved, flag, m, hflag, hval⟩ | ⟨hread, hserved, m, hval⟩
  · refine .returns 2 ((roundInPlace B sectorno sectorsize sectorcount v d).state d)
      (fun _ _ h => absurd h hread) fun fuel => ?_
    rw [hround fuel, ← roundInPlace, Prog.bind_apply, hval]
    rfl
  · refine .moves m hi hmap hread hserved fun fuel => ?_
    rw [hround fuel, ← roundInPlace, Prog.bind_apply, hval]
    simp only [ne_eq, hflag, not_false_eq_true, if_true]
    rfl
  · refine .served m hi hmap hread hserved fun fuel => ?_
    rw [hround fuel, ← roundInPlace, Prog.bind_apply, hval]
    simp only [ne_eq, not_true_eq_false, if_false]
    rfl

end Round

/-! ## Moving on -/

section Moving
variable {sectorno sectorsize sectorcount : ℕ} {v : WriteVars} {d : Dev}

/-- Only a multiple of `2 ^ 16` sectors is taken for none. -/
theorem wsecs_pos_iff {temp : ℕ} (hroom : 0 < temp) (i : ℕ) :
    0 < wsecs sectorcount i temp ↔ ¬ 2 ^ 16 ∣ sectorcount - i := by
  rw [wsecs, Nat.dvd_iff_mod_eq_zero, u16]
  split <;> omega

theorem SectorsFit.pageSecs_pos_iff (hw : SectorsFit B.toGeometry sectorsize) (sectorno : ℕ) :
    0 < pageSecs B sectorno sectorsize sectorcount v.i ↔ ¬ 2 ^ 16 ∣ sectorcount - v.i :=
  wsecs_pos_iff (hw.pageRoom_pos sectorno v.i) v.i

theorem SectorsFit.blockSecs_pos_iff (hw : SectorsFit B.toGeometry sectorsize) (sectorno : ℕ) :
    0 < blockSecs B sectorno sectorsize sectorcount v.i ↔ ¬ 2 ^ 16 ∣ sectorcount - v.i :=
  wsecs_pos_iff (hw.blockRoom_pos sectorno v.i) v.i

/-- The index goes up by the sectors that have been written. -/
theorem WriteVars.after_i (hcount : sectorcount < 2 ^ 32) (hi : v.i < sectorcount) {n : ℕ}
    (hn : n ≤ sectorcount - v.i) (sectorsize m : ℕ) : (v.after sectorsize n m).i = v.i + n :=
  advance_eq (by omega)

section Copy
variable {t : Dev} (hw : SectorsFit B.toGeometry sectorsize)
include hw

theorem roundCopy_mono {fuel fuel' c : ℕ} (hle : fuel ≤ fuel')
    (h : (roundCopy B fuel sectorno sectorsize sectorcount v d).val t = some c) :
    roundCopy B fuel' sectorno sectorsize sectorcount v d t =
      roundCopy B fuel sectorno sectorsize sectorcount v d t :=
  copy_mono (offset_page_lt B (blockoffset_lt hw.toSectorSize sectorno v.i)) hle h

/-- Calls that return do so with the same result. -/
theorem roundCopy_result {fuel fuel' c c' : ℕ}
    (h : (roundCopy B fuel sectorno sectorsize sectorcount v d).val t = some c)
    (h' : (roundCopy B fuel' sectorno sectorsize sectorcount v d).val t = some c') : c = c' := by
  have hmax := roundCopy_mono hw (Nat.le_max_left fuel fuel') h
  have hmax' := roundCopy_mono hw (Nat.le_max_right fuel fuel') h'
  have hval := congrArg Prod.fst (hmax.symm.trans hmax')
  exact Option.some_injective _ (h.symm.trans (hval.trans h'))

variable (hmap : RoundMapped B sectorno sectorsize v d)
include hmap

theorem roundCopy_ends_iff :
    (∃ fuel c, (roundCopy B fuel sectorno sectorsize sectorcount v d).val t = some c) ↔
      RetriesEnd B (d.lut (lbnno B sectorno sectorsize v.i))
        (blockoffset B sectorno sectorsize v.i / B.pageMainsize)
        (roundArgs B sectorno sectorsize sectorcount v) t :=
  copy_ends_iff hmap.2 (offset_page_lt B (blockoffset_lt hw.toSectorSize sectorno v.i))

theorem roundCopy_fails_iff :
    (∃ fuel c, (roundCopy B fuel sectorno sectorsize sectorcount v d).val t = some c ∧ c ≠ 0) ↔
      FindsNone B (d.lut (lbnno B sectorno sectorsize v.i))
        (blockoffset B sectorno sectorsize v.i / B.pageMainsize)
        (roundArgs B sectorno sectorsize sectorcount v) t :=
  copy_fails_iff hmap.2 (offset_page_lt B (blockoffset_lt hw.toSectorSize sectorno v.i))

end Copy

theorem afterCopy_some_ne (m c : ℕ) :
    afterCopy B sectorno sectorsize sectorcount v m (some c) ≠ .exit none := by
  rw [afterCopy]
  split <;> simp

/-- A round that has come to its end does the same with more fuel. -/
theorem writeRound_mono (hw : SectorsFit B.toGeometry sectorsize) {fuel fuel' : ℕ}
    (hle : fuel ≤ fuel')
    (h : (writeRound B fuel sectorno sectorsize sectorcount v).val d ≠ .exit none) :
    writeRound B fuel' sectorno sectorsize sectorcount v d =
      writeRound B fuel sectorno sectorsize sectorcount v d := by
  cases writeRound_any B sectorno sectorsize sectorcount v d with
  | returns r d' _ run => rw [run, run]
  | served m _ _ _ _ run => rw [run, run]
  | moves m _ _ _ _ run =>
      rw [Prog.val, run fuel] at h
      rw [run fuel, run fuel']
      cases hval : (roundCopy B fuel sectorno sectorsize sectorcount v d).val
          ((roundInPlace B sectorno sectorsize sectorcount v d).state d) with
      | none =>
          rw [hval] at h
          exact absurd rfl h
      | some c =>
          have hsame := roundCopy_mono hw hle hval
          rw [← hval]
          exact congrArg (fun x => (afterCopy B sectorno sectorsize sectorcount v m x.1, x.2)) hsame

theorem writeRound_result (hw : SectorsFit B.toGeometry sectorsize) {fuel fuel' : ℕ}
    (h : (writeRound B fuel sectorno sectorsize sectorcount v).val d ≠ .exit none)
    (h' : (writeRound B fuel' sectorno sectorsize sectorcount v).val d ≠ .exit none) :
    writeRound B fuel sectorno sectorsize sectorcount v d =
      writeRound B fuel' sectorno sectorsize sectorcount v d :=
  (writeRound_mono hw (Nat.le_max_left fuel fuel') h).symm.trans
    (writeRound_mono hw (Nat.le_max_right fuel fuel') h')

section Fine
variable (hw : SectorsFit B.toGeometry sectorsize) (hcount : sectorcount < 2 ^ 32)
include hw hcount

/-- A round that meets the condition returns, given enough fuel, or moves the index up. -/
theorem RoundFine.round (h : RoundFine B sectorno sectorsize sectorcount v d) :
    (∃ f r, ∀ fuel ≥ f, (writeRound B fuel sectorno sectorsize sectorcount v).val d =
      .exit (some r)) ∨
    ∃ f w d', v.i < w.i ∧ w.i ≤ sectorcount ∧
      ∀ fuel ≥ f, writeRound B fuel sectorno sectorsize sectorcount v d = (.next w, d') := by
  cases writeRound_any B sectorno sectorsize sectorcount v d with
  | returns r d' _ run =>
      refine Or.inl ⟨0, r, fun fuel _ => ?_⟩
      rw [Prog.val, run fuel]
  | served m hi mapped answers served run =>
      have hpos := (hw.pageSecs_pos_iff sectorno).mpr ((h hi mapped answers).1 served)
      have hle := pageSecs_le B sectorno sectorsize sectorcount v.i
      have hafter := WriteVars.after_i hcount hi hle sectorsize m
      exact Or.inr ⟨0, _, _, by omega, by omega, fun fuel _ => run fuel⟩
  | moves m hi mapped answers served run =>
      obtain ⟨hends, hmultiple⟩ := (h hi mapped answers).2 served
      obtain ⟨f, c, hc⟩ := (roundCopy_ends_iff hw mapped).mpr hends
      have hval : (writeRound B f sectorno sectorsize sectorcount v).val d =
          afterCopy B sectorno sectorsize sectorcount v m (some c) := by
        rw [← hc]
        exact congrArg Prod.fst (run f)
      have hsame : ∀ fuel ≥ f, writeRound B fuel sectorno sectorsize sectorcount v d =
          writeRound B f sectorno sectorsize sectorcount v d :=
        fun fuel hle => writeRound_mono hw hle (hval.trans_ne (afterCopy_some_ne m c))
      by_cases hzero : c = 0
      · have hnot : ¬ 2 ^ 16 ∣ sectorcount - v.i := fun hdvd => by
          obtain ⟨f', c', hc', hne⟩ := (roundCopy_fails_iff hw mapped).mpr (hmultiple hdvd)
          exact hne ((roundCopy_result hw hc' hc).trans hzero)
        have hpos := (hw.blockSecs_pos_iff sectorno).mpr hnot
        have hle := blockSecs_le B sectorno sectorsize sectorcount v.i
        have hafter := WriteVars.after_i hcount hi hle sectorsize m
        refine Or.inr ⟨f, v.after sectorsize (blockSecs B sectorno sectorsize sectorcount v.i) m,
          (writeRound B f sectorno sectorsize sectorcount v).state d, by omega, by omega,
          fun fuel hfuel => ?_⟩
        exact (hsame fuel hfuel).trans (Prod.ext (hval.trans (if_neg (not_not.mpr hzero))) rfl)
      · refine Or.inl ⟨f, 3, fun fuel hfuel => ?_⟩
        rw [Prog.val, hsame fuel hfuel]
        exact hval.trans (if_pos hzero)

/-- A round that returns, or goes on and moves the index up, meets the condition. -/
theorem RoundFine.of_round {fuel : ℕ}
    (h : ((writeRound B fuel sectorno sectorsize sectorcount v).val d).Holds (fun w => v.i < w.i)
      (· ≠ none)) : RoundFine B sectorno sectorsize sectorcount v d := by
  cases writeRound_any B sectorno sectorsize sectorcount v d with
  | returns r d' fine run => exact fine
  | served m hi mapped answers served run =>
      have hle := pageSecs_le B sectorno sectorsize sectorcount v.i
      have hafter := WriteVars.after_i hcount hi hle sectorsize m
      rw [Prog.val, run fuel, Flow.holds_next, hafter] at h
      exact fun _ _ _ => ⟨fun _ => (hw.pageSecs_pos_iff sectorno).mp (by omega),
        fun hnot => absurd served hnot⟩
  | moves m hi mapped answers served run =>
      refine fun _ _ _ => ⟨fun hserved => absurd hserved served, fun _ => ?_⟩
      rw [Prog.val, run fuel] at h
      cases hcopy : (roundCopy B fuel sectorno sectorsize sectorcount v d).val
          ((roundInPlace B sectorno sectorsize sectorcount v d).state d) with
      | none =>
          rw [hcopy] at h
          exact absurd rfl h
      | some c =>
          refine ⟨(roundCopy_ends_iff hw mapped).mp ⟨fuel, c, hcopy⟩, fun hdvd => ?_⟩
          refine (roundCopy_fails_iff hw mapped).mp ⟨fuel, c, hcopy, fun hzero => ?_⟩
          have hle := blockSecs_le B sectorno sectorsize sectorcount v.i
          have hafter := WriteVars.after_i hcount hi hle sectorsize m
          rw [hcopy, hzero, afterCopy, if_neg (not_not.mpr rfl), Flow.holds_next, hafter] at h
          exact (hw.blockSecs_pos_iff sectorno).mp (by omega) hdvd

end Fine
end Moving

/-! ## Calls -/

section Calls
variable (B : Board) (fuel sectorno sectorsize sectorcount : ℕ) (v : WriteVars) (d : Dev)

/-- A round that goes on moves the index up. -/
def Advances : Prop :=
  ((writeRound B fuel sectorno sectorsize sectorcount v).val d).Holds (fun w => v.i < w.i)
    fun _ => True

/-- The call returns, and every round that does not return moves the index up. -/
structure Progress (pbuffer : Bytes) : Prop where
  returns : ∃ fuel r,
    (ftlWriteSectors B fuel pbuffer sectorno sectorsize sectorcount).val d = some r
  advances : ∀ fuel k, Prog.Rounds (Advances B fuel sectorno sectorsize sectorcount)
    (fun _ => writeRound B fuel sectorno sectorsize sectorcount) k 0 ⟨0, pbuffer, 0xFFFFFFFF⟩ d

/-- Every round that the call reaches meets the condition. -/
def RoundsFine (pbuffer : Bytes) : Prop :=
  ∀ fuel k, Prog.Rounds (RoundFine B sectorno sectorsize sectorcount)
    (fun _ => writeRound B fuel sectorno sectorsize sectorcount) k 0 ⟨0, pbuffer, 0xFFFFFFFF⟩ d

variable {B fuel sectorno sectorsize sectorcount v d}

theorem ftlWriteSectors_eq_some {pbuffer : Bytes} {r : ℕ} :
    (ftlWriteSectors B fuel pbuffer sectorno sectorsize sectorcount).val d = some r ↔
      (Prog.loop (fun _ => writeRound B fuel sectorno sectorsize sectorcount) fuel 0
        ⟨0, pbuffer, 0xFFFFFFFF⟩).val d = .exit (some r) := by
  rw [ftlWriteSectors, Prog.val_bind]
  cases (Prog.loop (fun _ => writeRound B fuel sectorno sectorsize sectorcount) fuel 0
      ⟨0, pbuffer, 0xFFFFFFFF⟩).val d with
  | next w => exact iff_of_false (fun h => by cases h) fun h => by cases h
  | exit r' => exact ⟨fun h => congrArg _ h, fun h => Flow.exit.inj h⟩

variable (hw : SectorsFit B.toGeometry sectorsize) (hcount : sectorcount < 2 ^ 32)
include hw hcount

theorem RoundFine.advances (h : RoundFine B sectorno sectorsize sectorcount v d) :
    Advances B fuel sectorno sectorsize sectorcount v d := by
  rw [Advances]
  cases hval : (writeRound B fuel sectorno sectorsize sectorcount v).val d with
  | exit r => trivial
  | next w =>
      have hne : (writeRound B fuel sectorno sectorsize sectorcount v).val d ≠ .exit none := by
        rw [hval]
        exact fun h => by cases h
      rcases h.round hw hcount with ⟨f, r, hrun⟩ | ⟨f, w', d', hlt, -, hrun⟩
      · have hmax := hrun _ (Nat.le_max_right fuel f)
        rw [Prog.val, writeRound_mono hw (Nat.le_max_left fuel f) hne] at hmax
        cases hval.symm.trans hmax
      · have hmax := hrun _ (Nat.le_max_right fuel f)
        rw [writeRound_mono hw (Nat.le_max_left fuel f) hne] at hmax
        rw [Prog.val, hmax] at hval
        rw [← Flow.next.inj hval]
        exact hlt

/-- From rounds that meet the condition on, the loop leaves with a result. -/
theorem loop_returns {f i n : ℕ}
    (h : ∀ fuel ≥ f, ∀ k, Prog.Rounds (RoundFine B sectorno sectorsize sectorcount)
      (fun _ => writeRound B fuel sectorno sectorsize sectorcount) k i v d)
    (hn : sectorcount - v.i = n) :
    ∃ f' r, ∀ fuel ≥ f', ∀ k > n,
      (Prog.loop (fun _ => writeRound B fuel sectorno sectorsize sectorcount) k i v).val d =
        .exit (some r) := by
  induction n using Nat.strong_induction_on generalizing f i v d with
  | _ n ih =>
      have hfine := (h f (Nat.le_refl f) 1).1
      rcases hfine.round hw hcount with ⟨f₁, r, hrun⟩ | ⟨f₁, w, d', hlt, hle, hrun⟩
      · refine ⟨f₁, r, fun fuel hfuel k hk => ?_⟩
        obtain ⟨k, rfl⟩ := Nat.exists_eq_succ_of_ne_zero (Nat.ne_of_gt (Nat.zero_lt_of_lt hk))
        exact Prog.val_loop_exit _ (hrun fuel hfuel)
      · have hrest : ∀ fuel ≥ max f f₁, ∀ k,
            Prog.Rounds (RoundFine B sectorno sectorsize sectorcount)
              (fun _ => writeRound B fuel sectorno sectorsize sectorcount) k (i + 1) w d' := by
          intro fuel hfuel k
          have hround := hrun fuel (le_of_max_le_right hfuel)
          exact (h fuel (le_of_max_le_left hfuel) (k + 1)).of_next hround
        obtain ⟨f₂, r, hloop⟩ := ih (sectorcount - w.i) (by omega) hrest rfl
        refine ⟨max f₁ f₂, r, fun fuel hfuel k hk => ?_⟩
        obtain ⟨k, rfl⟩ := Nat.exists_eq_succ_of_ne_zero (Nat.ne_of_gt (Nat.zero_lt_of_lt hk))
        have hround := hrun fuel (le_of_max_le_left hfuel)
        rw [Prog.val, Prog.loop_of_next
          (fun _ => writeRound B fuel sectorno sectorsize sectorcount) hround]
        exact hloop fuel (le_of_max_le_right hfuel) k (by omega)

/-- A loop that leaves with a result, and whose rounds move the index up, is made of rounds that
meet the condition. -/
theorem rounds_of_returns {f m i r : ℕ}
    (hloop : (Prog.loop (fun _ => writeRound B f sectorno sectorsize sectorcount) m i v).val d =
      .exit (some r))
    (hup : ∀ k, Prog.Rounds (Advances B f sectorno sectorsize sectorcount)
      (fun _ => writeRound B f sectorno sectorsize sectorcount) k i v d) (fuel k : ℕ) :
    Prog.Rounds (RoundFine B sectorno sectorsize sectorcount)
      (fun _ => writeRound B fuel sectorno sectorsize sectorcount) k i v d := by
  induction k generalizing m i v d with
  | zero => trivial
  | succ k ih =>
      obtain ⟨m, rfl⟩ : ∃ m', m = m' + 1 := by
        cases m with
        | zero => cases hloop
        | succ m => exact ⟨m, rfl⟩
      have hround : ((writeRound B f sectorno sectorsize sectorcount v).val d).Holds
          (fun w => v.i < w.i) (· ≠ none) := by
        have hfirst := (hup 1).1
        rw [Advances] at hfirst
        cases hval : (writeRound B f sectorno sectorsize sectorcount v).val d with
        | next w =>
            rw [hval] at hfirst
            exact hfirst
        | exit r' =>
            rw [Prog.val_loop_exit (fun _ => writeRound B f sectorno sectorsize sectorcount) hval]
              at hloop
            rw [Flow.holds_exit, Flow.exit.inj hloop]
            exact Option.some_ne_none r
      refine ⟨RoundFine.of_round hw hcount hround, ?_⟩
      cases hval : (writeRound B fuel sectorno sectorsize sectorcount v).val d with
      | exit r' => trivial
      | next w =>
          -- with `f` the round goes on in the same way
          have hsame : writeRound B fuel sectorno sectorsize sectorcount v d =
              writeRound B f sectorno sectorsize sectorcount v d := by
            refine writeRound_result hw (fun h => ?_) fun h => ?_
            · cases hval.symm.trans h
            · rw [h] at hround
              exact hround rfl
          have hnext : writeRound B f sectorno sectorsize sectorcount v d =
              (.next w, (writeRound B fuel sectorno sectorsize sectorcount v).state d) := by
            rw [← hsame, ← hval]
            rfl
          rw [Prog.val, Prog.loop_of_next
            (fun _ => writeRound B f sectorno sectorsize sectorcount) hnext] at hloop
          exact ih hloop fun k => (hup (k + 1)).of_next hnext

/-- A call makes progress exactly when every round that it reaches meets the condition. -/
theorem write_progresses_iff (pbuffer : Bytes) :
    Progress B sectorno sectorsize sectorcount d pbuffer ↔
      RoundsFine B sectorno sectorsize sectorcount d pbuffer := by
  constructor
  · rintro ⟨⟨f, r, hr⟩, hup⟩
    rw [ftlWriteSectors_eq_some] at hr
    exact rounds_of_returns hw hcount hr (hup f)
  · intro h
    refine ⟨?_, fun fuel k => (h fuel k).imp fun v t ht => ht.advances hw hcount⟩
    obtain ⟨f, r, hloop⟩ := loop_returns hw hcount (f := 0) (fun fuel _ k => h fuel k) rfl
    refine ⟨max f (sectorcount + 1), r, ftlWriteSectors_eq_some.mpr ?_⟩
    exact hloop _ (Nat.le_max_left ..) _ (lt_of_lt_of_le (Nat.lt_succ_self _) (Nat.le_max_right ..))

end Calls

/-! ## Where marks and writes take effect -/

section Steady
variable {sectorno sectorsize sectorcount : ℕ} {d : Dev}

/-- Every failed pass marks a block bad, so the retry loop stops. -/
theorem Sound.retriesEnd (hB : B.Steady) (h : Sound B d) {l pageoffset : ℕ}
    (hl : l < d.validBlocknum) (hp : pageoffset < B.blockPagenum) (v : CopyArgs) :
    RetriesEnd B (d.lut l) pageoffset v d := by
  refine (copy_ends_iff (h.lut_lt l hl) hp).mp
    ⟨(unusedBlocks B d.flash (d.lut l % 2)).card + 1, ?_⟩
  rcases ftlCopyAndWriteToBlock_spec hB ((unusedBlocks B d.flash (d.lut l % 2)).card + 1) v.colnum
      v.pbuffer v.numbyte h hl hp with ⟨-, -, hfew⟩ | ⟨c, hc, -⟩
  · omega
  · exact ⟨c, hc⟩

/-- The path into the page leaves the flash as it was, or programs the page. -/
theorem roundInPlace_cases (hB : B.Steady) (sectorno sectorsize sectorcount : ℕ) (v : WriteVars)
    (d : Dev) :
    let r := roundInPlace B sectorno sectorsize sectorcount v d
    ((∀ m, r.val d ≠ .next (0, m)) ∧ Agrees d (r.state d)) ∨
    Programmed B (roundPage B sectorno sectorsize v d) (d.lut (lbnno B sectorno sectorsize v.i))
      (roundReg B sectorno sectorsize sectorcount v) d (r.state d) := by
  intro r
  rcases writeInPlace_cases hB (roundPage B sectorno sectorsize v d)
      (blockoffset B sectorno sectorsize v.i % B.pageMainsize) v.pbuffer
      (pageSecs B sectorno sectorsize sectorcount v.i * sectorsize)
      ((B.pageMainsize - blockoffset B sectorno sectorsize v.i % B.pageMainsize) / sectorsize)
      (d.lut (lbnno B sectorno sectorsize v.i)) v.markdpbn d with
    ⟨hval, -, ha⟩ | ⟨hval, ha, -⟩ | ⟨-, hp, -⟩
  · refine Or.inl ⟨fun _ h => ?_, ha⟩
    cases hval.symm.trans h
  · refine Or.inl ⟨fun _ h => ?_, ha⟩
    cases hval.symm.trans h
  · exact Or.inr hp

/-- The path into the page keeps the invariant and the table. -/
theorem sound_roundInPlace (hB : B.Steady) (hs : SectorSize B sectorsize) (sectorcount : ℕ)
    {v : WriteVars} (h : Sound B d) (hmap : RoundMapped B sectorno sectorsize v d) :
    let d₁ := (roundInPlace B sectorno sectorsize sectorcount v d).state d
    Sound B d₁ ∧ d₁.lut = d.lut ∧ d₁.validBlocknum = d.validBlocknum := by
  intro d₁
  rcases roundInPlace_cases hB sectorno sectorsize sectorcount v d with ⟨-, ha⟩ | hp
  · exact ⟨h.of_agrees ha, ha.lut, ha.validBlocknum⟩
  · exact ⟨hp.sound_round hs h hmap.1 hmap.2, hp.lut, hp.validBlocknum⟩

/-- Fewer than `2 ^ 16` sectors, on a disk that keeps its invariant. -/
theorem Sound.roundsFine (hB : B.Steady) (hw : SectorsFit B.toGeometry sectorsize) (h : Sound B d)
    (hcount : sectorcount < 2 ^ 16) (pbuffer : Bytes) :
    RoundsFine B sectorno sectorsize sectorcount d pbuffer := by
  intro fuel k
  refine Prog.rounds_of_inv (I := Sound B) _ (fun _ v t ht => ⟨?_, ?_⟩) k 0 _ h
  · intro hi hmap _
    have hnot : ¬ 2 ^ 16 ∣ sectorcount - v.i := Nat.not_dvd_of_pos_of_lt (by omega) (by omega)
    refine ⟨fun _ => hnot, fun _ => ⟨?_, fun hdvd => absurd hdvd hnot⟩⟩
    obtain ⟨ht₁, hlut, hvalid⟩ := sound_roundInPlace hB hw.toSectorSize sectorcount ht hmap
    have hretries := ht₁.retriesEnd hB (by rw [hvalid]; exact ht.lt_of_lut_lt hmap.1 hmap.2)
      (offset_page_lt B (blockoffset_lt hw.toSectorSize sectorno v.i))
      (roundArgs B sectorno sectorsize sectorcount v)
    rwa [hlut] at hretries
  · exact (writeRound_cases fuel sectorno sectorsize sectorcount v t hB).sound hB hw.toSectorSize ht

end Steady

/-- Every third page copy fails, four sectors have been written, and 128 sectors go over them:
the block is moved until a pass succeeds. -/
theorem write_progresses_iff_rewrite :
    let B : Board := .faulty part512 (fun _ => 0xFFFFFFFF) 0 fun n => n % 3 = 0
    let d := (ftlWriteSectors B 100 (fun _ => 0) 0 nandEccSectorSize 4).state
      ((ftlFormat B).state Dev.blank)
    Progress B 0 nandEccSectorSize 128 d fun _ => 1 := by
  have hsteady : (Board.faulty part512 (fun _ => 0xFFFFFFFF) 0 fun n => n % 3 = 0).Steady :=
    Board.faulty_steady _ _ _ _
  have herases : (Board.faulty part512 (fun _ => 0xFFFFFFFF) 0 fun n => n % 3 = 0).ErasesOk :=
    Board.faulty_erases _ _ _ _
  have htotal : (Board.faulty part512 (fun _ => 0xFFFFFFFF) 0
    fun n => n % 3 = 0).blockTotalnum = 4096 := rfl
  generalize Board.faulty part512 (fun _ => 0xFFFFFFFF) 0 (fun n => n % 3 = 0) = B
    at hsteady herases htotal
  have hw := sectorsFit_512 B.toGeometry
  have hsound := (ftlFormat_blank hsteady herases (by rw [htotal]; decide)).2.1.sound
  have hsound' := sound_ftlWriteSectors hsteady hw.toSectorSize 100 (fun _ => 0) 0 4 hsound
  exact (write_progresses_iff hw (by decide) _).mpr
    (hsound'.roundsFine hsteady hw (by decide) _)

/-! ## Many sectors -/

section Stuck
variable {sectorno sectorsize sectorcount : ℕ} {v : WriteVars} {d : Dev}

/-- On a chip without faults a round whose part of the page is blank programs it. -/
theorem writeRound_programs (hB : B.FaultFree) (fuel : ℕ) (hi : v.i < sectorcount)
    (hl : lbnno B sectorno sectorsize v.i ≤ d.validBlocknum)
    (mapped : d.lut (lbnno B sectorno sectorsize v.i) < B.blockTotalnum)
    (hblank : RoundBlank B sectorno sectorsize sectorcount v d) :
    (∃ m, (writeRound B fuel sectorno sectorsize sectorcount v).val d =
      .next (v.after sectorsize (pageSecs B sectorno sectorsize sectorcount v.i) m)) ∧
    Programmed B (roundPage B sectorno sectorsize v d)
      (d.lut (lbnno B sectorno sectorsize v.i)) (roundReg B sectorno sectorsize sectorcount v) d
      ((writeRound B fuel sectorno sectorsize sectorcount v).state d) := by
  have hround := writeRound_cases fuel sectorno sectorsize sectorcount v d hB.steady
  revert hround
  generalize (writeRound B fuel sectorno sectorsize sectorcount v).val d = out
  generalize (writeRound B fuel sectorno sectorsize sectorcount v).state d = d'
  intro hround
  cases hround with
  | finished hout => exact absurd hi hout
  | outside _ hunmapped _ =>
      rcases hunmapped with hlt | hge
      · exact absurd hl (Nat.not_le.mpr hlt)
      · exact absurd mapped (Nat.not_lt.mpr hge)
  | unreadable _ hfault _ => exact absurd hB hfault
  | inPlace m _ _ _ _ hp => exact ⟨⟨m, rfl⟩, hp⟩
  | rewrite m _ _ _ htried => exact absurd hblank (htried.agrees hB).2

/-- A call that is to write a multiple of `2 ^ 16` sectors stays at the first one for ever. -/
theorem never_returns_of_multiple (hB : B.FaultFree) (fuel : ℕ)
    (hw : SectorsFit B.toGeometry sectorsize) (hcount : sectorcount % 2 ^ 16 = 0)
    (hpos : 0 < sectorcount) (hi : v.i = 0) (hmap : d.lut 0 < B.blockTotalnum) (k : ℕ) :
    ∃ w, (Prog.loop (fun _ => writeRound B fuel 0 sectorsize sectorcount) k 0 v).val d =
      .next w := by
  have hlbn : lbnno B 0 sectorsize 0 = 0 := by simp [lbnno]
  refine Prog.loop_never_exits (I := fun w t => w.i = 0 ∧ t.lut 0 < B.blockTotalnum)
    (fun _ w t ht => ?_) k 0 ⟨hi, hmap⟩
  · obtain ⟨hwi, htmap⟩ := ht
    have hsecs : pageSecs B 0 sectorsize sectorcount w.i = 0 := by
      refine Nat.eq_zero_of_not_pos fun hpos' => (hw.pageSecs_pos_iff 0).mp hpos' ?_
      rw [hwi]
      exact Nat.dvd_of_mod_eq_zero hcount
    have hblank : RoundBlank B 0 sectorsize sectorcount w t := by
      intro j hj
      rw [hsecs, Nat.zero_mul] at hj
      exact absurd hj (Nat.not_lt_zero j)
    obtain ⟨⟨m, hval⟩, hp⟩ := writeRound_programs hB fuel (show w.i < sectorcount by omega)
      (by rw [hwi, hlbn]; exact Nat.zero_le _) (by rw [hwi, hlbn]; exact htmap) hblank
    rw [hval, Flow.holds_next, hp.lut, hsecs]
    refine ⟨?_, htmap⟩
    simp only [WriteVars.after, hwi]
    rfl

end Stuck

section Formatted
variable {d : Dev}

/-- A call on a formatted disk that is to write a multiple of `2 ^ 16` sectors does not return. -/
theorem Formatted.never_returns (hB : B.FaultFree) (h : Formatted B d) (hpos : 0 < d.validBlocknum)
    {sectorsize sectorcount : ℕ} (hw : SectorsFit B.toGeometry sectorsize)
    (hcount : sectorcount % 2 ^ 16 = 0) (hsome : 0 < sectorcount) (pbuffer : Bytes) (fuel : ℕ) :
    (ftlWriteSectors B fuel pbuffer 0 sectorsize sectorcount).val d = none := by
  obtain ⟨w, hval⟩ := never_returns_of_multiple (v := ⟨0, pbuffer, 0xFFFFFFFF⟩) hB fuel hw hcount
    hsome rfl (h.sound.lut_lt 0 hpos) fuel
  rw [ftlWriteSectors, Prog.val_bind, hval]
  rfl

/-- A disk of 3809 blocks of 64 pages of 2048 bytes has `2 ^ 16` sectors. -/
theorem inRange_part512 (hpages : B.blockPagenum = 64) (hbytes : B.pageMainsize = 2048)
    (hblocks : d.validBlocknum = 3809) : InRange B 0 nandEccSectorSize (2 ^ 16) d := by
  intro i hi
  have hdisk : diskSectors B nandEccSectorSize d = 975104 := by
    rw [diskSectors, hblocks, hpages, hbytes]
    rfl
  omega

end Formatted

/-- On the 512 MB part, after the format of a new chip: a call that is to write the first `2 ^ 16`
of its 975104 sectors never returns. -/
theorem write_never_returns :
    let B := Board.ideal part512 fun _ => 0
    let d := (ftlFormat B).state Dev.blank
    (ftlFormat B).val Dev.blank = 0 ∧ InRange B 0 nandEccSectorSize (2 ^ 16) d ∧
      (∀ fuel, (ftlWriteSectors B fuel erasedPage 0 nandEccSectorSize (2 ^ 16)).val d = none) ∧
      ¬ Progress B 0 nandEccSectorSize (2 ^ 16) d erasedPage := by
  have hgeometry : (Board.ideal part512 fun _ => 0).toGeometry = part512 := rfl
  have hsize : part512.blockTotalnum = 4096 ∧ part512.blockPagenum = 64 ∧
      part512.pageMainsize = 2048 := ⟨rfl, rfl, rfl⟩
  have hB := Board.ideal_faultFree part512 fun _ => 0
  generalize Board.ideal part512 (fun _ => 0) = B at hgeometry hB
  rw [← hgeometry] at hsize
  obtain ⟨hval, hformatted, hvalid, -, -⟩ := ftlFormat_blank hB.steady hB.erases
    (by rw [hsize.1]; decide)
  rw [hsize.1] at hvalid
  have hnever := hformatted.never_returns hB (by rw [hvalid]; decide) (sectorsFit_512 B.toGeometry)
    (Nat.mod_self (2 ^ 16)) (Nat.two_pow_pos 16) erasedPage
  refine ⟨hval, inRange_part512 hsize.2.1 hsize.2.2 hvalid, hnever, fun hprogress => ?_⟩
  obtain ⟨fuel, r, hr⟩ := hprogress.returns
  cases (hnever fuel).symm.trans hr

end Apollo.Ftl
