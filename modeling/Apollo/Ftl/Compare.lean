import Apollo.Ftl.Code
import Apollo.Nand.Spec

/-!
# The test of a whole block

`ftl_blockcompare` reads the first page of its block as often as the block has pages, and
never another one.  A time-out leaves the count of equal words as it was, so what decides
is what the reads find that the chip answers.

## Main definitions

* `PageHolds`, `BlockHolds` — a page, a block that reads as one value.
* `FirstPagePasses` — the comparison comes out equal.
* `ftlBlockcompare_whole_iff` — when 0 speaks for the whole block.
-/

namespace Apollo.Ftl
open Lib Nand

variable {B : Board}

/-! ## Pages and blocks -/

/-- Every 32-bit word of the main area of a page is `cmpval`. -/
def PageHolds (B : Board) (cmpval page : ℕ) (f : Flash) : Prop :=
  ∀ i < B.pageMainsize / 4, word (f page) i = cmpval

/-- Every 32-bit word of the main area of every page of a block is `cmpval`. -/
def BlockHolds (B : Board) (blockx cmpval : ℕ) (f : Flash) : Prop :=
  ∀ p < B.blockPagenum, PageHolds B cmpval (blockx * B.blockPagenum + p) f

/-- The chip answers the `n`-th read. -/
abbrev Answers (B : Board) (n : ℕ) : Prop := ¬ (B.reply .read n).RbTimeout

/-! ## Comparing the first page -/

section Compare
variable {blockx cmpval k : ℕ} {d : Dev}

/-- A comparison counts all words of the page if they are equal, or leaves the count as it was. -/
theorem nandReadpagecomp_eq (page : ℕ) :
    ((nandReadpagecomp B page 0 cmpval (B.pageMainsize / 4) k).val d).2 = B.pageMainsize / 4 ↔
      if Answers B (d.ticks .read) then PageHolds B cmpval page d.flash
      else k = B.pageMainsize / 4 := by
  simp only [nandReadpagecomp, Prog.val_bind, val_command, state_command, Prog.val_get,
    Prog.state_get, Dev.flash_tick, Prog.val_ite, Prog.val_pure]
  by_cases hrb : (B.reply .read (d.ticks .read)).RbTimeout
  · rw [if_pos hrb, if_neg (not_not.mpr hrb)]
  · have heq := equalWords_eq (shift (d.flash page) 0) cmpval (B.pageMainsize / 4) 0
    simp only [Nat.zero_add, shift_zero] at heq
    rw [if_neg hrb, if_pos hrb, PageHolds, ← heq, shift_zero]
    split <;> rfl

/-- `n` reads of the first page of a block come out equal, if `k` words have been counted
before: those that the chip answers find the value, and where it does not answer the first,
the count is right already. -/
structure PagesPass (B : Board) (blockx cmpval k n : ℕ) (d : Dev) : Prop where
  first : n ≠ 0 → ¬ Answers B (d.ticks .read) → k = B.pageMainsize / 4
  equal : ∀ j < n, Answers B (d.ticks .read + j) →
    PageHolds B cmpval (blockx * B.blockPagenum) d.flash

/-- The comparison at the head of a chance comes out equal. -/
abbrev FirstPagePasses (B : Board) (blockx cmpval k : ℕ) (d : Dev) : Prop :=
  PagesPass B blockx cmpval k B.blockPagenum d

/-- One read more. -/
theorem pagesPass_succ {n : ℕ} :
    PagesPass B blockx cmpval k (n + 1) d ↔
      (if Answers B (d.ticks .read) then PageHolds B cmpval (blockx * B.blockPagenum) d.flash
        else k = B.pageMainsize / 4) ∧
      PagesPass B blockx cmpval (B.pageMainsize / 4) n (d.reads 1) := by
  have hticks : (d.reads 1).ticks .read = d.ticks .read + 1 := by simp [Dev.reads]
  constructor
  · intro h
    refine ⟨?_, fun _ _ => rfl, fun j hj hans => ?_⟩
    · split
      · rename_i hans
        exact h.equal 0 (Nat.zero_lt_succ n) hans
      · rename_i hans
        exact h.first (Nat.succ_ne_zero n) hans
    · rw [hticks, Nat.add_assoc, Nat.add_comm 1] at hans
      exact h.equal (j + 1) (Nat.succ_lt_succ hj) hans
  · rintro ⟨hhead, hrest⟩
    refine ⟨fun _ hans => ?_, fun j hj hans => ?_⟩
    · rwa [if_neg hans] at hhead
    · cases j with
      | zero =>
          rw [Nat.add_zero] at hans
          rwa [if_pos hans] at hhead
      | succ j =>
          refine hrest.equal j (Nat.lt_of_succ_lt_succ hj) ?_
          rwa [hticks, Nat.add_assoc, Nat.add_comm 1]

/-- One round of the inner loop. -/
def comparePage (B : Board) (blockx cmpval k : ℕ) : NandM (Lib.Flow ℕ ℕ) := do
  let r ← nandReadpagecomp B (blockx * B.blockPagenum) 0 cmpval (B.pageMainsize / 4) k
  pure (if r.2 ≠ B.pageMainsize / 4 then .exit r.2 else .next r.2)

theorem comparePages_eq : comparePages B blockx cmpval k =
    Prog.loop (fun _ => comparePage B blockx cmpval) B.blockPagenum 0 k := rfl

theorem state_comparePage : (comparePage B blockx cmpval k).state d = d.reads 1 := by
  simp only [comparePage, Prog.state_bind, state_nandReadpagecomp, Prog.state_pure]

theorem val_comparePage (blockx cmpval k : ℕ) (d : Dev) :
    ((comparePage B blockx cmpval k).val d).Holds
      (fun k' => k' = B.pageMainsize / 4 ∧
        if Answers B (d.ticks .read) then PageHolds B cmpval (blockx * B.blockPagenum) d.flash
        else k = B.pageMainsize / 4)
      fun _ => ¬ if Answers B (d.ticks .read) then
          PageHolds B cmpval (blockx * B.blockPagenum) d.flash
        else k = B.pageMainsize / 4 := by
  rw [← nandReadpagecomp_eq]
  simp only [comparePage, Prog.val_bind, Prog.val_pure]
  by_cases hr : ((nandReadpagecomp B (blockx * B.blockPagenum) 0 cmpval (B.pageMainsize / 4)
      k).val d).2 = B.pageMainsize / 4
  · rw [if_neg (not_not.mpr hr)]
    exact ⟨hr, hr⟩
  · rw [if_pos hr]
    exact hr

/-- The inner loop goes through exactly when its reads come out equal. -/
theorem pages_holds (blockx cmpval k n i : ℕ) (d : Dev) :
    ((Prog.loop (fun _ => comparePage B blockx cmpval) n i k).val d).Holds
      (fun _ => PagesPass B blockx cmpval k n d) fun _ => ¬ PagesPass B blockx cmpval k n d := by
  induction n generalizing i k d with
  | zero => exact ⟨fun h => absurd rfl h, fun j hj => absurd hj (Nat.not_lt_zero j)⟩
  | succ n ih =>
      have hpage := val_comparePage (B := B) blockx cmpval k d
      rw [pagesPass_succ]
      cases hval : (comparePage B blockx cmpval k).val d with
      | next k' =>
          rw [hval] at hpage
          obtain ⟨hk', hhead⟩ := hpage
          rw [Prog.val_loop_next (fun _ => comparePage B blockx cmpval) hval,
            state_comparePage, hk']
          exact (ih (B.pageMainsize / 4) (i + 1) (d.reads 1)).imp (fun _ h => ⟨hhead, h⟩)
            fun _ h hpass => h hpass.2
      | exit b =>
          rw [hval] at hpage
          rw [Prog.val_loop_exit (fun _ => comparePage B blockx cmpval) hval]
          exact fun h => hpage h.1

theorem flash_comparePages : ((comparePages B blockx cmpval k).state d).flash = d.flash := by
  have hround : ∀ k, Prog.Keeps Dev.flash (comparePage B blockx cmpval k) :=
    fun k t => by rw [state_comparePage, Dev.flash_reads]
  exact Prog.Keeps.loop (fun _ => hround) _ _ _ d

/-! ## Chances -/

/-- A chance whose comparison goes through leaves with 0. -/
theorem compareRound_of_next {w : ℕ} (h : (comparePages B blockx cmpval k).val d = .next w) :
    compareRound B blockx cmpval k d = (.exit 0, (comparePages B blockx cmpval k).state d) := by
  rw [compareRound, Prog.bind_apply, h]
  rfl

/-- After a difference there is another chance, whatever the erase reports. -/
theorem compareRound_of_exit {k' : ℕ} (h : (comparePages B blockx cmpval k).val d = .exit k') :
    ∃ y, (compareRound B blockx cmpval k).val d = .next y := by
  rw [compareRound, Prog.val_bind, h]
  simp only [Prog.val_bind, Prog.val_ite, Prog.val_pure]
  split
  · exact ⟨_, rfl⟩
  · split
    · exact ⟨_, rfl⟩
    · exact ⟨_, rfl⟩

/-- One chance leaves exactly when the comparison comes out equal, with 0, and has then changed
nothing. -/
theorem compareRound_holds (blockx cmpval k : ℕ) (d : Dev) :
    ((compareRound B blockx cmpval k).val d).Holds
      (fun _ => ¬ FirstPagePasses B blockx cmpval k d)
      fun b => b = 0 ∧ FirstPagePasses B blockx cmpval k d ∧
        ((compareRound B blockx cmpval k).state d).flash = d.flash := by
  have hpages := pages_holds (B := B) blockx cmpval k B.blockPagenum 0 d
  rw [← comparePages_eq] at hpages
  cases hval : (comparePages B blockx cmpval k).val d with
  | next w =>
      rw [hval] at hpages
      simp only [Prog.val, Prog.state, compareRound_of_next hval]
      exact ⟨rfl, hpages, flash_comparePages⟩
  | exit k' =>
      rw [hval] at hpages
      obtain ⟨y, hy⟩ := compareRound_of_exit hval
      rw [hy]
      exact hpages

/-- A test whose first comparison comes out equal returns 0 at once. -/
theorem ftlBlockcompare_of_passes
    (h : FirstPagePasses B blockx cmpval (u16 (word B.uninit 0)) d) :
    (ftlBlockcompare B blockx cmpval).val d = 0 ∧
      ((ftlBlockcompare B blockx cmpval).state d).flash = d.flash := by
  have hround := compareRound_holds (B := B) blockx cmpval (u16 (word B.uninit 0)) d
  cases hval : (compareRound B blockx cmpval (u16 (word B.uninit 0))).val d with
  | next k' =>
      rw [hval] at hround
      exact absurd h hround
  | exit b =>
      rw [hval] at hround
      obtain ⟨hb, -, hflash⟩ := hround
      have hloop :
          Prog.loop (fun _ => compareRound B blockx cmpval) 3 0 (u16 (word B.uninit 0)) d = _ :=
        Prog.loop_exit hval
      rw [Prog.val, Prog.state, ftlBlockcompare, Prog.bind_apply, Prog.val, Prog.state, hloop]
      exact ⟨hb, hflash⟩

/-- The only code with which the chances are left is 0. -/
theorem chances_exit_zero (blockx cmpval k n i : ℕ) (d : Dev) :
    ((Prog.loop (fun _ => compareRound B blockx cmpval) n i k).val d).Holds (fun _ => True)
      fun b => b = 0 :=
  Prog.loop_inv (I := fun _ _ _ => True) (Q := fun b _ => b = 0)
    (fun _ _ k t _ => (compareRound_holds blockx cmpval k t).imp (fun _ _ => trivial)
      fun _ h => h.1)
    rfl trivial

/-- The test returns 0 only for a block all of whose pages hold the value if and only if, at
every chance it comes to, they do when the comparison of the first page comes out equal. -/
theorem ftlBlockcompare_whole_iff (B : Board) (blockx cmpval : ℕ) (d : Dev) :
    ((ftlBlockcompare B blockx cmpval).val d = 0 →
        BlockHolds B blockx cmpval ((ftlBlockcompare B blockx cmpval).state d).flash) ↔
      Prog.Rounds (fun k t => FirstPagePasses B blockx cmpval k t →
          BlockHolds B blockx cmpval t.flash)
        (fun _ => compareRound B blockx cmpval) 3 0 (u16 (word B.uninit 0)) d := by
  set body : ℕ → ℕ → NandM (Lib.Flow ℕ ℕ) := fun _ => compareRound B blockx cmpval with hbody
  have hround : ∀ j k t, ((body j k).val t).Holds (fun _ => ¬ FirstPagePasses B blockx cmpval k t)
      fun _ => FirstPagePasses B blockx cmpval k t ∧
        (BlockHolds B blockx cmpval ((body j k).state t).flash ↔
          BlockHolds B blockx cmpval t.flash) := by
    intro j k t
    refine (compareRound_holds blockx cmpval k t).imp (fun _ h => h) fun _ h => ⟨h.2.1, ?_⟩
    rw [h.2.2]
  have hzero := chances_exit_zero (B := B) blockx cmpval (u16 (word B.uninit 0)) 3 0 d
  have hexit := Prog.loop_exit_iff_rounds (Q := fun t => BlockHolds B blockx cmpval t.flash)
    hround 3 0 (u16 (word B.uninit 0)) d
  rw [← hexit]
  rw [ftlBlockcompare, Prog.val_bind, Prog.state_bind]
  cases hloop : (Prog.loop body 3 0 (u16 (word B.uninit 0))).val d with
  | next k' =>
      refine ⟨fun _ b hb => ?_, fun _ h => ?_⟩
      · cases hb
      · exact absurd h (show (1 : ℕ) ≠ 0 from one_ne_zero)
  | exit b =>
      rw [hloop] at hzero
      have hb : b = 0 := hzero
      exact ⟨fun h _ _ => h hb, fun h _ => h b rfl⟩

end Compare

/-! ## A blank page before a written one -/

/-- Only the first page of the chip is blank. -/
def firstBlank : Dev :=
  { Dev.blank with flash := fun p => if p = 0 then erasedPage else fun _ => 0 }

theorem firstPagePasses_firstBlank (hB : B.ReadsOk) (k : ℕ) :
    FirstPagePasses B 0 0xFFFFFFFF k firstBlank where
  first := fun _ hans => absurd (hB _) hans
  equal := fun _ _ _ i _ => by
    rw [Nat.zero_mul]
    exact word_eq_ff.mpr fun _ _ => rfl

theorem not_blockHolds_firstBlank (B : Board) : ¬ BlockHolds B 0 0xFFFFFFFF firstBlank.flash := by
  intro h
  have hms : 512 ≤ B.pageMainsize := Nat.le_of_dvd B.mainsize_pos B.mainsize_sectors
  have hword := h 1 (by rcases B.pagenum_of_id with ⟨-, hP⟩ | ⟨-, hP⟩ <;> omega) 0 (by omega)
  rw [Nat.zero_mul] at hword
  exact absurd (show word (fun _ => 0) 0 = 0xFFFFFFFF from hword) (by decide)

/-- The test of a block whose first page is blank and whose second page is not returns 0. -/
theorem ftlBlockcompare_firstBlank :
    let B := Board.ideal part512 fun _ => 0
    (ftlBlockcompare B 0 0xFFFFFFFF).val firstBlank = 0 ∧
      ¬ BlockHolds B 0 0xFFFFFFFF ((ftlBlockcompare B 0 0xFFFFFFFF).state firstBlank).flash := by
  intro B
  have hB : B.ReadsOk := (Board.ideal_faultFree _ _).answers .read
  obtain ⟨hval, hflash⟩ := ftlBlockcompare_of_passes (firstPagePasses_firstBlank hB _)
  rw [hflash]
  exact ⟨hval, not_blockHolds_firstBlank B⟩

end Apollo.Ftl
