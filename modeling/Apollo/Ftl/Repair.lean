import Apollo.Ftl.Relocate

/-!
# What a read does to the disk

A page that twice reports a corrected bit is moved to another block by the read.  As
long as some pass of each such copy succeeds, the read leaves every sector of the disk as
it was, up to the corrected bit, and the table stays sound.

## Main definitions

* `ReportsTwice`, `MovesPage` — when a round moves its page.
* `RoundFinds`, `ReadFinds` — the copy finds a block; the condition on a round, on a call.
* `Repaired` — the disk is as it was, up to corrected bits of a window.
* `SameDisk` — what a caller sees of it.
* `read_keeps_disk` — runs of calls that meet the condition.
-/

namespace Apollo.Ftl
open Lib Nand

variable {B : Board}

/-! ## One page -/

/-- What the second of two reads of a page returns. -/
def reread (B : Board) (page colnum : ℕ) (pbuffer : Bytes) (n : ℕ) (d : Dev) : ℕ × Bytes :=
  (nandReadpage B page colnum ((nandReadpage B page colnum pbuffer n).val d).2 n).val (d.reads 1)

/-- Two reads in a row report a corrected bit. -/
structure ReportsTwice (B : Board) (page colnum : ℕ) (pbuffer : Bytes) (n : ℕ) (d : Dev) :
    Prop where
  first : ((nandReadpage B page colnum pbuffer n).val d).1 = nstaEcc1biterr
  second : (reread B page colnum pbuffer n d).1 = nstaEcc1biterr

section Page
variable {fuel page colnum n : ℕ} {pbuffer : Bytes} {d : Dev}

/-- A page that does not report twice is only read. -/
theorem readAndRelocate_quiet (fuel : ℕ) (h : ¬ ReportsTwice B page colnum pbuffer n d) :
    ∃ r, (readAndRelocate B fuel page colnum pbuffer n).val d = some r ∧
      Agrees d ((readAndRelocate B fuel page colnum pbuffer n).state d) := by
  by_cases h₁ : ((nandReadpage B page colnum pbuffer n).val d).1 = nstaEcc1biterr
  · have h₂ : ¬ (reread B page colnum pbuffer n d).1 = nstaEcc1biterr := fun h₂ => h ⟨h₁, h₂⟩
    have hrun : readAndRelocate B fuel page colnum pbuffer n d =
        (some (reread B page colnum pbuffer n d), d.reads 2) := by
      rw [readAndRelocate, Prog.bind_apply, if_pos h₁, state_nandReadpage,
        Prog.bind_apply, ← reread,
        if_neg h₂, state_nandReadpage, Dev.reads_reads]
      rfl
    simp only [Prog.val, Prog.state, hrun]
    exact ⟨_, rfl, agrees_reads d 2⟩
  · have hrun : readAndRelocate B fuel page colnum pbuffer n d =
        (some ((nandReadpage B page colnum pbuffer n).val d), d.reads 1) := by
      rw [readAndRelocate, Prog.bind_apply, if_neg h₁, state_nandReadpage]
      rfl
    simp only [Prog.val, Prog.state, hrun]
    exact ⟨_, rfl, agrees_reads d 1⟩

/-- A page that reports twice is relocated with what the second read delivers. -/
theorem readAndRelocate_moves (h : ReportsTwice B page colnum pbuffer n d) {o : Option Unit}
    (ho : (relocate B fuel page colnum (reread B page colnum pbuffer n d).2 n).val
      (d.reads 2) = o) :
    (readAndRelocate B fuel page colnum pbuffer n) d =
      (o.map fun _ => (0, (reread B page colnum pbuffer n d).2),
        (relocate B fuel page colnum (reread B page colnum pbuffer n d).2 n).state
          (d.reads 2)) := by
  rw [readAndRelocate, Prog.bind_apply, if_pos h.first, state_nandReadpage, Prog.bind_apply,
    ← reread, if_pos h.second, state_nandReadpage, Dev.reads_reads, Prog.bind_apply, ho]
  cases o <;> rfl

/-- The second read delivers each sector of the page up to one bit. -/
theorem reread_corrected (hB : B.ReadsOk) (hn : nandEccSectorSize ∣ n) {c : ℕ}
    (hc : c < n / nandEccSectorSize) :
    Corrected (shift (d.flash page) (colnum + nandEccSectorSize * c))
      (shift (reread B page colnum pbuffer n d).2 (nandEccSectorSize * c)) :=
  nandReadpage_corrected hB page colnum _ hn (d.reads 1) hc

end Page

/-! ## Repairs -/

/-- `d'` is a sound state whose disk is that of `d`, up to one bit in each ECC sector of the
window `[a, a + n)`. -/
structure Repaired (B : Board) (a n : ℕ) (d d' : Dev) : Prop where
  sound : Sound B d'
  validBlocknum : d'.validBlocknum = d.validBlocknum
  outside : ∀ x < d.validBlocknum * blockSize B, ¬(a ≤ x ∧ x < a + n) → disk B d' x = disk B d x
  inside : ∀ c < n / nandEccSectorSize,
    Corrected (shift (disk B d) (a + nandEccSectorSize * c))
      (shift (disk B d') (a + nandEccSectorSize * c))

namespace Repaired
variable {a n k : ℕ} {d d' d'' : Dev}

theorem of_agrees (h : Sound B d) (ha : Agrees d d') (a n : ℕ) : Repaired B a n d d' where
  sound := h.of_agrees ha
  validBlocknum := ha.validBlocknum
  outside := fun _ _ _ => by rw [ha.disk]
  inside := fun _ _ => by
    rw [ha.disk]
    exact .refl _

/-- The buffer of a window whose sectors it holds up to one bit, laid over the window or not. -/
theorem of_overlay {pbuffer : Bytes} {m : ℕ} (hsound : Sound B d')
    (hvalid : d'.validBlocknum = d.validBlocknum) (hend : a + n ≤ d.validBlocknum * blockSize B)
    (hm : m = n ∨ m = 0)
    (hbuffer : ∀ c < n / nandEccSectorSize,
      Corrected (shift (disk B d) (a + nandEccSectorSize * c))
        (shift pbuffer (nandEccSectorSize * c)))
    (hdisk : ∀ x < d.validBlocknum * blockSize B,
      disk B d' x = overlay (disk B d) a pbuffer m x) : Repaired B a n d d' where
  sound := hsound
  validBlocknum := hvalid
  outside := by
    intro x hx hout
    rw [hdisk x hx, overlay_outside (by omega)]
  inside := by
    intro c hc
    have hle := Nat.mul_le_mul_left nandEccSectorSize (Nat.succ_le_of_lt hc)
    have hmul := Nat.mul_div_le n nandEccSectorSize
    rw [Nat.mul_succ] at hle
    rcases hm with rfl | rfl
    · refine (hbuffer c hc).congr (fun _ _ => rfl) fun t ht => ?_
      rw [shift_apply, shift_apply, hdisk _ (by omega), overlay_inside (by omega) (by omega)]
      congr 1
      omega
    · refine (Corrected.refl _).congr (fun _ _ => rfl) fun t ht => ?_
      rw [shift_apply, shift_apply, hdisk _ (by omega), overlay_zero]

/-- The windows of two repairs are adjacent. -/
theorem append (h : Repaired B a n d d') (h' : Repaired B (a + n) k d' d'')
    (hn : nandEccSectorSize ∣ n) (hend : a + n + k ≤ d.validBlocknum * blockSize B) :
    Repaired B a (n + k) d d'' where
  sound := h'.sound
  validBlocknum := h'.validBlocknum.trans h.validBlocknum
  outside := by
    intro x hx hout
    rw [h'.outside x (by rwa [h.validBlocknum]) (by omega), h.outside x hx (by omega)]
  inside := by
    intro c hc
    obtain ⟨m, rfl⟩ := hn
    rw [Nat.mul_add_div (by decide)] at hc
    have hvalid := h.validBlocknum
    have hmul := Nat.mul_div_le k nandEccSectorSize
    by_cases hcm : c < m
    · have hle := Nat.mul_le_mul_left nandEccSectorSize (Nat.succ_le_of_lt hcm)
      rw [Nat.mul_succ] at hle
      refine (h.inside c (by rwa [Nat.mul_div_cancel_left _ (by decide)])).congr (fun _ _ => rfl)
        fun t ht => ?_
      rw [shift_apply, shift_apply, h'.outside _ (by rw [hvalid]; omega) (by omega)]
    · obtain ⟨c, rfl⟩ := Nat.exists_eq_add_of_le (Nat.not_lt.mp hcm)
      have hlt : c < k / nandEccSectorSize := by omega
      have hle := Nat.mul_le_mul_left nandEccSectorSize (Nat.succ_le_of_lt hlt)
      rw [Nat.mul_succ] at hle
      refine (h'.inside c hlt).congr (fun t ht => ?_) fun t ht => ?_
      · rw [shift_apply, shift_apply, Nat.mul_add, ← Nat.add_assoc,
          h.outside _ (by omega) (by omega)]
      · rw [shift_apply, shift_apply, Nat.mul_add, ← Nat.add_assoc a]

end Repaired

/-- A page read in logical block `l` returns, and repairs the sectors it reads and no others, if
its copy finds a block. -/
theorem readAndRelocate_repaired (hB : B.Steady) {fuel l o n : ℕ} (pbuffer : Bytes) {d : Dev}
    (h : Sound B d) (hl : l < d.validBlocknum) (ho : o < blockSize B)
    (hfit : o % B.pageMainsize + n ≤ B.pageMainsize) (hn : nandEccSectorSize ∣ n)
    (hfuel : B.blockTotalnum < fuel)
    (hfinds : ReportsTwice B (d.lut l * B.blockPagenum + o / B.pageMainsize) (o % B.pageMainsize)
        pbuffer n d →
      failedPages B (d.ticks .copyback) (unusedBlocks B d.flash (d.lut l % 2)).card ≠ none) :
    let r := readAndRelocate B fuel (d.lut l * B.blockPagenum + o / B.pageMainsize)
      (o % B.pageMainsize) pbuffer n
    (∃ x, r.val d = some x) ∧ Repaired B (l * blockSize B + o) n d (r.state d) := by
  intro r
  by_cases htwice : ReportsTwice B (d.lut l * B.blockPagenum + o / B.pageMainsize)
      (o % B.pageMainsize) pbuffer n d
  · have h₂ : Sound B (d.reads 2) := h.of_agrees (agrees_reads d 2)
    have hcopies : (d.reads 2).ticks .copyback = d.ticks .copyback := (agrees_reads d 2).copies
    have hcol := offset_col_lt B (o := o)
    have heta := offset_eta B (o := o)
    obtain ⟨hval, hsound, hvalid, m, hm, hdisk⟩ := relocate_spec hB
      (reread B (d.lut l * B.blockPagenum + o / B.pageMainsize) (o % B.pageMainsize) pbuffer n d).2
      h₂ hl (offset_page_lt B ho) hcol hfit hfuel (by rw [hcopies]; exact hfinds htwice)
    rw [heta, (agrees_reads d 2).disk] at hdisk
    have hrun := readAndRelocate_moves htwice hval
    have hend : l * blockSize B + o + n ≤ d.validBlocknum * blockSize B := by
      have hpage : _ ≤ blockSize B := page_end_le B (offset_page_lt B ho)
      have hblock := Nat.mul_le_mul_right (blockSize B) (Nat.succ_le_of_lt hl)
      rw [Nat.succ_mul] at hblock
      omega
    simp only [r, Prog.val, Prog.state, hrun]
    refine ⟨⟨_, rfl⟩, .of_overlay hsound hvalid hend hm (fun c hc => ?_) hdisk⟩
    refine (reread_corrected hB.reads hn hc).congr (fun t ht => ?_) fun _ _ => rfl
    have hle := Nat.mul_le_mul_left nandEccSectorSize (Nat.succ_le_of_lt hc)
    have hmul := Nat.mul_div_le n nandEccSectorSize
    rw [Nat.mul_succ] at hle
    rw [shift_apply, shift_apply, Nat.add_assoc, Nat.add_assoc (o % _)]
    exact disk_page ho (by omega)
  · obtain ⟨x, hval, ha⟩ := readAndRelocate_quiet fuel htwice
    exact ⟨⟨x, hval⟩, .of_agrees h ha _ _⟩

/-! ## Rounds and calls -/

section Round
variable (B : Board) (fuel sectorno sectorsize sectorcount : ℕ) (v : ReadVars) (d : Dev)

/-- The round at hand finds its page reporting twice, and moves it. -/
structure MovesPage : Prop where
  left : v.i < sectorcount
  lbn_le : lbnno B sectorno sectorsize v.i ≤ d.validBlocknum
  mapped : d.lut (lbnno B sectorno sectorsize v.i) < B.blockTotalnum
  twice : ReportsTwice B (readPage B sectorno sectorsize v.i d)
    (blockoffset B sectorno sectorsize v.i % B.pageMainsize) (shift v.pbuffer v.offset)
    (readSecs B sectorno sectorsize sectorcount v.i * sectorsize) d

/-- If the round moves its page, some pass of the copy succeeds: among the unused blocks of the
plane, one for each pass, there is one into which the chip copies every page. -/
def RoundFinds : Prop :=
  MovesPage B sectorno sectorsize sectorcount v d →
    failedPages B (d.ticks .copyback)
      (unusedBlocks B d.flash (d.lut (lbnno B sectorno sectorsize v.i) % 2)).card ≠ none

variable {B fuel sectorno sectorsize sectorcount v d}

/-- A round whose sector belongs to no block leaves with 1. -/
theorem readRound_unmapped (fuel : ℕ) (hi : v.i < sectorcount)
    (hout : ¬(lbnno B sectorno sectorsize v.i ≤ d.validBlocknum ∧
      d.lut (lbnno B sectorno sectorsize v.i) < B.blockTotalnum)) :
    readRound B fuel sectorno sectorsize sectorcount v d = (.exit (some 1, v.pbuffer), d) := by
  have htot := B.total_lt
  have hpbn : B.blockTotalnum ≤ ((ftlLbnToPbn (lbnno B sectorno sectorsize v.i)) d).1 := by
    rw [ftlLbnToPbn_apply]
    dsimp only
    split <;> omega
  rw [readRound, if_pos hi, Prog.bind_apply, Prog.val, if_pos hpbn]
  rfl

/-- A round that has read its page goes on behind it, or leaves. -/
theorem afterRead_holds (B : Board) (sectorno sectorsize sectorcount : ℕ) (v : ReadVars)
    (r : ℕ × Bytes) :
    (afterRead B sectorno sectorsize sectorcount v (some r)).Holds
      (fun w => w.i = advance v.i (readSecs B sectorno sectorsize sectorcount v.i))
      (fun out => out.1 ≠ none) := by
  simp only [afterRead]
  by_cases hflag : (if r.1 = nstaEcc2biterr then 0 else r.1) ≠ 0
  · rw [if_pos hflag]
    exact Option.some_ne_none 2
  · rw [if_neg hflag]
    rfl

/-- A round repairs its own sectors and touches no others, if its copy finds a block. -/
theorem readRound_repaired (hB : B.Steady) (hw : WholeSectors B sectorsize)
    (hfuel : B.blockTotalnum < fuel) (h : Sound B d)
    (hfinds : RoundFinds B sectorno sectorsize sectorcount v d) :
    let r := readRound B fuel sectorno sectorsize sectorcount v
    Repaired B
      (lbnno B sectorno sectorsize v.i * blockSize B + blockoffset B sectorno sectorsize v.i)
      (readSecs B sectorno sectorsize sectorcount v.i * sectorsize) d (r.state d) ∧
    (r.val d).Holds
      (fun w => v.i < sectorcount ∧
        w.i = advance v.i (readSecs B sectorno sectorsize sectorcount v.i))
      (fun out => out.1 ≠ none) := by
  intro r
  by_cases hi : v.i < sectorcount
  case neg =>
    have hround := readRound_finished B fuel sectorno sectorsize d hi
    simp only [r, Prog.val, Prog.state, hround]
    exact ⟨.of_agrees h (.refl d) _ _, Option.some_ne_none 0⟩
  by_cases hmap : lbnno B sectorno sectorsize v.i ≤ d.validBlocknum ∧
      d.lut (lbnno B sectorno sectorsize v.i) < B.blockTotalnum
  case neg =>
    have hround := readRound_unmapped fuel hi hmap
    simp only [r, Prog.val, Prog.state, hround]
    exact ⟨.of_agrees h (.refl d) _ _, Option.some_ne_none 1⟩
  obtain ⟨⟨x, hx⟩, hrep⟩ := readAndRelocate_repaired hB (shift v.pbuffer v.offset) h
    (h.lt_of_lut_lt hmap.1 hmap.2) (blockoffset_lt hw.toSectorSize sectorno v.i)
    (readSecs_fits B sectorno sectorsize sectorcount v.i) (Nat.dvd_mul_left_of_dvd hw.ecc _) hfuel
    fun htwice => hfinds ⟨hi, hmap.1, hmap.2, htwice⟩
  have hround : r d = _ := readRound_mapped hi hmap.1 hmap.2
  rw [readPage, Prog.bind_apply, hx] at hround
  have hafter := afterRead_holds B sectorno sectorsize sectorcount v x
  simp only [r, Prog.val, Prog.state, hround]
  refine ⟨hrep, ?_⟩
  exact hafter.imp (fun _ hw => ⟨hi, hw⟩) fun _ => id

end Round

/-- Every round of a call meets the condition. -/
def ReadFinds (B : Board) (fuel : ℕ) (pbuffer : Bytes) (sectorno sectorsize sectorcount : ℕ)
    (d : Dev) : Prop :=
  Prog.Rounds (RoundFinds B sectorno sectorsize sectorcount)
    (fun _ => readRound B fuel sectorno sectorsize sectorcount) fuel 0 ⟨0, pbuffer, 0⟩ d

section Call
variable {fuel sectorno sectorsize sectorcount : ℕ} {pbuffer : Bytes} {d : Dev}

/-- A call whose copies find a block keeps the invariant, on the disk or off it. -/
theorem sound_ftlReadSectors (hB : B.Steady) (hw : WholeSectors B sectorsize)
    (hfuel : B.blockTotalnum < fuel) (h : Sound B d)
    (hfinds : ReadFinds B fuel pbuffer sectorno sectorsize sectorcount d) :
    Sound B ((ftlReadSectors B fuel pbuffer sectorno sectorsize sectorcount).state d) := by
  have hloop := Prog.loop_inv_rounds (I := fun _ _ t => Sound B t) (Q := fun _ t => Sound B t)
    (fun j _ v t hC ht =>
      (Flow.holds_const _ _).mpr (readRound_repaired (v := v) hB hw hfuel ht hC).1.sound)
    (Nat.zero_add _) hfinds h
  have hsound := (Flow.holds_const _ _).mp hloop
  simp only [ftlReadSectors, Prog.state_bind]
  split <;> exact hsound

/-- At round `j` the locals of a read stand at sector `v.i` of its window, and the sectors
before it are repaired. -/
structure Repairing (B : Board) (sectorno sectorsize sectorcount : ℕ) (d : Dev) (j : ℕ)
    (v : ReadVars) (d' : Dev) : Prop where
  round_le : j ≤ v.i
  le : v.i ≤ sectorcount
  repaired : Repaired B (sectorno * sectorsize) (v.i * sectorsize) d d'

/-- One round of a read on the disk. -/
theorem Repairing.round (hB : B.Steady) (hw : WholeSectors B sectorsize)
    (hfuel : B.blockTotalnum < fuel) (h : Sound B d)
    (hr : InRange B sectorno sectorsize sectorcount d) {j : ℕ} {v : ReadVars} {t : Dev}
    (hfinds : RoundFinds B sectorno sectorsize sectorcount v t)
    (hrep : Repairing B sectorno sectorsize sectorcount d j v t) :
    let r := readRound B fuel sectorno sectorsize sectorcount v
    (r.val t).Holds
      (fun w => Repairing B sectorno sectorsize sectorcount d (j + 1) w (r.state t))
      (fun out => out.1 ≠ none ∧ ∃ k ≤ sectorcount,
        Repaired B (sectorno * sectorsize) (k * sectorsize) d (r.state t)) := by
  intro r
  obtain ⟨hround, hflow⟩ := readRound_repaired (v := v) hB hw hfuel hrep.repaired.sound hfinds
  have hle := hrep.le
  set n := readSecs B sectorno sectorsize sectorcount v.i with hn
  -- the window of the round is the next piece of the window of the call
  have hnext : v.i < sectorcount → v.i + n ≤ sectorcount ∧ 0 < n ∧ advance v.i n = v.i + n ∧
      Repaired B (sectorno * sectorsize) ((v.i + n) * sectorsize) d (r.state t) := by
    intro hi
    have hpos := readSecs_pos hw sectorno hi
    have hmin : n ≤ sectorcount - v.i := Nat.min_le_right _ _
    have hcount := hr.count_lt hw h.valid_lt
    have haddr := sector_address hw sectorno v.i
    rw [hr.u32_eq hw h.valid_lt hi] at haddr
    rw [haddr, Nat.add_mul sectorno] at hround
    refine ⟨by omega, hpos, advance_eq (by omega), ?_⟩
    have hend := hr.end_le (show v.i + n - 1 < sectorcount by omega)
    have hlast : sectorno + (v.i + n - 1) + 1 = sectorno + v.i + n := by omega
    rw [hlast, Nat.add_mul, Nat.add_mul] at hend
    rw [Nat.add_mul]
    exact hrep.repaired.append hround (Nat.dvd_mul_left_of_dvd hw.ecc _) hend
  cases hval : r.val t with
  | next w =>
      rw [hval] at hflow
      obtain ⟨hi, hwi⟩ := hflow
      obtain ⟨hsum, hpos, hadv, hall⟩ := hnext hi
      have hj := hrep.round_le
      rw [hadv] at hwi
      refine ⟨by omega, by omega, ?_⟩
      rw [hwi]
      exact hall
  | exit out =>
      rw [hval] at hflow
      refine ⟨hflow, ?_⟩
      by_cases hi : v.i < sectorcount
      · obtain ⟨hsum, -, -, hall⟩ := hnext hi
        exact ⟨_, hsum, hall⟩
      · have hstate : r.state t = t :=
          congrArg Prod.snd (readRound_finished B fuel sectorno sectorsize t hi)
        rw [hstate]
        exact ⟨_, hle, hrep.repaired⟩

/-- A read on the disk whose copies find a block returns, and repairs sectors of its window and
no others. -/
theorem ftlReadSectors_repaired (hB : B.Steady) (hw : WholeSectors B sectorsize)
    (hfuel : B.blockTotalnum < fuel) (hcount : sectorcount < fuel) (h : Sound B d)
    (hr : InRange B sectorno sectorsize sectorcount d)
    (hfinds : ReadFinds B fuel pbuffer sectorno sectorsize sectorcount d) :
    ((ftlReadSectors B fuel pbuffer sectorno sectorsize sectorcount).val d).1 ≠ none ∧
      ∃ k ≤ sectorcount, Repaired B (sectorno * sectorsize) (k * sectorsize) d
        ((ftlReadSectors B fuel pbuffer sectorno sectorsize sectorcount).state d) := by
  have hstart : Repairing B sectorno sectorsize sectorcount d 0 ⟨0, pbuffer, 0⟩ d :=
    ⟨Nat.le_refl _, Nat.zero_le _, .of_agrees h (.refl d) _ _⟩
  have hloop := Prog.loop_inv_rounds (I := Repairing B sectorno sectorsize sectorcount d)
    (Q := fun out t => out.1 ≠ none ∧ ∃ k ≤ sectorcount,
      Repaired B (sectorno * sectorsize) (k * sectorsize) d t)
    (fun j _ v t hC ht => ht.round hB hw hfuel h hr hC) (Nat.zero_add fuel) hfinds hstart
  simp only [ftlReadSectors, Prog.val_bind, Prog.state_bind]
  revert hloop
  cases (Prog.loop (fun _ => readRound B fuel sectorno sectorsize sectorcount) fuel 0
      ⟨0, pbuffer, 0⟩).val d with
  | next v =>
      intro hend
      have hround := hend.round_le
      have hle := hend.le
      omega
  | exit out => exact id

end Call

/-! ## Runs -/

/-- The disk of `d'` is that of `d`, up to one bit in each ECC sector: every logical block is
mapped, and holds the same data. -/
structure SameDisk (B : Board) (d d' : Dev) : Prop where
  validBlocknum : d'.validBlocknum = d.validBlocknum
  mapped : ∀ l < d.validBlocknum, d'.lut l < B.blockTotalnum ∧ tag B d'.flash (d'.lut l) = l
  corrected : ∀ s < diskSectors B nandEccSectorSize d,
    Corrected (shift (disk B d) (nandEccSectorSize * s))
      (shift (disk B d') (nandEccSectorSize * s))

/-- A repair of whole ECC sectors leaves the disk the same up to corrected bits. -/
theorem Repaired.sameDisk {a n : ℕ} {d d' : Dev} (h : Repaired B a n d d')
    (ha : nandEccSectorSize ∣ a) (hn : nandEccSectorSize ∣ n) : SameDisk B d d' where
  validBlocknum := h.validBlocknum
  mapped := by
    intro l hl
    rw [← h.validBlocknum] at hl
    exact ⟨h.sound.lut_lt l hl, h.sound.lut_tag l hl⟩
  corrected := by
    intro s hs
    obtain ⟨a, rfl⟩ := ha
    obtain ⟨n, rfl⟩ := hn
    by_cases hin : a ≤ s ∧ s < a + n
    · have hsector := h.inside (s - a) (by
        rw [Nat.mul_div_cancel_left _ (by decide)]
        omega)
      rwa [← Nat.mul_add, Nat.add_sub_cancel' hin.1] at hsector
    · refine (Corrected.refl _).congr (fun _ _ => rfl) fun t ht => ?_
      have hbyte := sector_byte_lt hs ht
      simp only [nandEccSectorSize] at ht hbyte ⊢
      refine h.outside _ (by omega) ?_
      simp only [nandEccSectorSize]
      omega

/-- One call that returned: a write, a copy, or a read whose copies find a block. -/
inductive ServedCall (B : Board) (d : Dev) : Dev → Prop where
  | write {d' : Dev} (call : Call B d d') : ServedCall B d d'
  | read (fuel : ℕ) (pbuffer : Bytes) (sectorno sectorsize sectorcount c : ℕ)
      (hw : WholeSectors B sectorsize) (hfuel : B.blockTotalnum < fuel)
      (finds : ReadFinds B fuel pbuffer sectorno sectorsize sectorcount d)
      (returned :
        ((ftlReadSectors B fuel pbuffer sectorno sectorsize sectorcount).val d).1 = some c) :
      ServedCall B d ((ftlReadSectors B fuel pbuffer sectorno sectorsize sectorcount).state d)

theorem ServedCall.sound (hB : B.Steady) {d d' : Dev} (h : Sound B d) (hc : ServedCall B d d') :
    Sound B d' := by
  cases hc with
  | write call => exact call.sound hB h
  | read fuel pbuffer sectorno sectorsize sectorcount c hw hfuel finds =>
      exact sound_ftlReadSectors hB hw hfuel h finds

/-- Such calls keep the invariant. -/
theorem sound_of_servedCalls (hB : B.Steady) {d₀ d : Dev} (hmarks : FirstPageMarks B d₀.flash)
    (hformat : (ftlFormat B).val d₀ = 0)
    (hrun : Relation.ReflTransGen (ServedCall B) ((ftlFormat B).state d₀) d) : Sound B d := by
  induction hrun with
  | refl => exact (ftlFormat_spec hB hmarks hformat).sound
  | tail _ hc ih => exact hc.sound hB ih

section Flips
variable {fuel page colnum : ℕ} {pbuffer : Bytes} {d : Dev}

/-- Every read of a sector picks up one bit error in the ECC word, and the words the unit
computes are all ones. -/
structure Flips (B : Board) : Prop where
  steady : B.Steady
  code : ∀ n, (B.reply .read n).waitCode = 0
  ecc : ∀ data, B.hwEcc data = 0xFFFFFFFF
  flip : ∀ n k, (B.reply .read n).eccFlip k = 0x00555555

theorem faulty_flips (G : Geometry) (fails : ℕ → Bool) :
    Flips (.faulty G (fun _ => 0xFFFFFFFF) 0x00555555 fails) :=
  ⟨Board.faulty_steady _ _ _ _, fun _ => Reply.sound_waitCode, fun _ => rfl, fun _ _ => rfl⟩

/-- One of the 12 pairs of bits is off: one bit of the data. -/
theorem nandEccCorrection_flip (data : Bytes) :
    ∃ q, nandEccCorrection data (0xFFFFFFFF ^^^ 0x00555555) 0xFFFFFFFF = (0, q) := by
  rw [nandEccCorrection]
  exact ⟨_, if_pos (by decide)⟩

/-- Such a read reports a corrected bit where the stored word is blank. -/
theorem Flips.reports (hB : Flips B) (pbuffer : Bytes)
    (hword : word (shift (d.flash page) (eccColumn B colnum)) 0 = 0xFFFFFFFF) :
    ((nandReadpage B page colnum pbuffer nandEccSectorSize).val d).1 = nstaEcc1biterr := by
  have hready :=
    (nandWaitForReady_eq_ready _).mpr ((waitCode_eq_zero _).mp (hB.code (d.ticks .read)))
  have hecc : ∀ data k, hdEcc B data k = 0xFFFFFFFF := fun data k => by rw [hdEcc, hB.ecc]; rfl
  have hstored : word (shift (d.flash page) (eccColumn B colnum)) 0 ^^^
      ((B.reply .read (d.ticks .read)).eccFlip 0).toNat = 0xFFFFFFFF ^^^ 0x00555555 := by
    rw [hword, hB.flip]
    rfl
  obtain ⟨q, hq⟩ := nandEccCorrection_flip
    (shift (overlay pbuffer 0 (shift (d.flash page) colnum) nandEccSectorSize)
      (nandEccSectorSize * 0))
  simp only [nandReadpage, Prog.val_bind, val_command, state_command, Prog.val_get, Prog.state_get,
    Dev.flash_tick, if_neg (hB.steady.reads _), Prog.val_pure, if_neg (not_not.mpr hready),
    Nat.mod_self, ne_eq, not_true_eq_false, if_false,
    Nat.div_self (show 0 < nandEccSectorSize by decide)]
  rw [eccCheck, hstored, hecc, if_pos (by decide), hq]
  rfl

theorem Flips.reportsTwice (hB : Flips B) (pbuffer : Bytes)
    (hword : word (shift (d.flash page) (eccColumn B colnum)) 0 = 0xFFFFFFFF) :
    ReportsTwice B page colnum pbuffer nandEccSectorSize d :=
  ⟨hB.reports pbuffer hword, hB.reports _ hword⟩

end Flips

/-! ## Reading the first sector -/

section FirstSector
variable {fuel : ℕ} {pbuffer : Bytes} {d : Dev}

theorem readSecs_first (B : Board) : readSecs B 0 nandEccSectorSize 1 0 = 1 := by
  have hpos := readSecs_pos (wholeSectors_512 B) 0 (show 0 < 1 by omega)
  have hle : readSecs B 0 nandEccSectorSize 1 0 ≤ 1 - 0 := Nat.min_le_right _ _
  omega

/-- After one round there is nothing left to read. -/
theorem readFinds_first (fuel : ℕ) (hB : B.Steady) (hfuel : B.blockTotalnum < fuel + 2)
    (h : Sound B d)
    (hfinds : RoundFinds B 0 nandEccSectorSize 1 ⟨0, pbuffer, 0⟩ d) :
    ReadFinds B (fuel + 2) pbuffer 0 nandEccSectorSize 1 d := by
  obtain ⟨-, hflow⟩ := readRound_repaired hB (wholeSectors_512 B) hfuel h hfinds
  refine ⟨hfinds, ?_⟩
  revert hflow
  cases (readRound B (fuel + 2) 0 nandEccSectorSize 1 ⟨0, pbuffer, 0⟩).val d with
  | exit out => exact fun _ => trivial
  | next w =>
      rintro ⟨-, hwi⟩
      have hadv : advance 0 1 = 1 := rfl
      have hlast : ¬ w.i < 1 := by
        rw [hwi, readSecs_first, hadv]
        exact Nat.lt_irrefl 1
      have hexit : ∀ t, (readRound B (fuel + 2) 0 nandEccSectorSize 1 w).val t =
          .exit (some 0, w.pbuffer) :=
        fun t => congrArg Prod.fst (readRound_finished B (fuel + 2) 0 nandEccSectorSize t hlast)
      refine ⟨fun hmoves => absurd hmoves.left hlast, ?_⟩
      simp only [hexit, Flow.holds_exit]

/-- The first sector reports twice where its stored word is blank. -/
theorem Flips.movesPage (hB : Flips B) (h : Sound B d) (hpos : 0 < d.validBlocknum)
    (hword : ∀ c, B.pageMainsize + 0x10 ≤ c → d.flash (d.lut 0 * B.blockPagenum + 0) c = 0xFF) :
    MovesPage B 0 nandEccSectorSize 1 ⟨0, pbuffer, 0⟩ d := by
  have hlbn : lbnno B 0 nandEccSectorSize 0 = 0 := by simp [lbnno]
  refine ⟨Nat.one_pos, ?_, ?_, ?_⟩
  · rw [hlbn]
    exact Nat.zero_le _
  · rw [hlbn]
    exact h.lut_lt 0 hpos
  · rw [readSecs_first, Nat.one_mul]
    refine hB.reportsTwice _ (word_eq_ff.mpr fun j _ => ?_)
    have hpage : readPage B 0 nandEccSectorSize 0 d = d.lut 0 * B.blockPagenum + 0 :=
      sectorPage_first
    rw [hpage, shift_apply, eccColumn]
    exact hword _ (by omega)

/-- A read of the first sector whose page is relocated returns 0 and does nothing else. -/
theorem ftlReadSectors_relocated (hmoves : MovesPage B 0 nandEccSectorSize 1 ⟨0, pbuffer, 0⟩ d)
    (hval : ∀ p, (relocate B (fuel + 2) (d.lut 0 * B.blockPagenum + 0) 0 p nandEccSectorSize).val
      (d.reads 2) = some ()) :
    let r := ftlReadSectors B (fuel + 2) pbuffer 0 nandEccSectorSize 1
    (r.val d).1 = some 0 ∧ ∃ p, r.state d = (relocate B (fuel + 2)
      (d.lut 0 * B.blockPagenum + 0) 0 p nandEccSectorSize).state (d.reads 2) := by
  intro r
  have hlbn : lbnno B 0 nandEccSectorSize 0 = 0 := by simp [lbnno]
  have hoff : blockoffset B 0 nandEccSectorSize 0 = 0 := by simp [blockoffset]
  have hsecs := readSecs_first B
  set v : ReadVars := ⟨0, pbuffer, 0⟩ with hv
  have htwice := hmoves.twice
  have hround : readRound B (fuel + 2) 0 nandEccSectorSize 1 v d = _ :=
    readRound_mapped hmoves.left hmoves.lbn_le hmoves.mapped
  have hi : v.i = 0 := rfl
  rw [readPage, hi, hsecs, hlbn, hoff, Nat.one_mul, Nat.zero_div, Nat.zero_mod] at htwice hround
  set p := (reread B (d.lut 0 * B.blockPagenum + 0) 0 (shift v.pbuffer v.offset)
    nandEccSectorSize d).2 with hp
  set d' := (relocate B (fuel + 2) (d.lut 0 * B.blockPagenum + 0) 0 p nandEccSectorSize).state
    (d.reads 2) with hd'
  have hafter : afterRead B 0 nandEccSectorSize 1 v (some (0, p)) =
      .next ⟨1, graft v.pbuffer v.offset p, v.offset + nandEccSectorSize * 1⟩ := by
    rw [afterRead, if_neg (by decide), hi, hsecs]
    rfl
  rw [Prog.bind_apply, Prog.val, Prog.state, readAndRelocate_moves htwice (hval p)] at hround
  set body := fun _ : ℕ => readRound B (fuel + 2) 0 nandEccSectorSize 1 with hbody
  have hnext : (body 0 v).val d = .next ⟨1, graft v.pbuffer v.offset p,
      v.offset + nandEccSectorSize * 1⟩ := (congrArg Prod.fst hround).trans hafter
  have hstate : (body 0 v).state d = d' := congrArg Prod.snd hround
  have hlast : readRound B (fuel + 2) 0 nandEccSectorSize 1
      ⟨1, graft v.pbuffer v.offset p, v.offset + nandEccSectorSize * 1⟩ d' = _ :=
    readRound_finished B (fuel + 2) 0 nandEccSectorSize d' (Nat.lt_irrefl 1)
  have hloop : (Prog.loop body (fuel + 2) 0 v).val d = .exit (some 0, graft v.pbuffer v.offset p) ∧
      (Prog.loop body (fuel + 2) 0 v).state d = d' := by
    rw [Prog.val_loop_next body hnext, Prog.state_loop_next body hnext, hstate,
      Prog.val_loop_exit body (congrArg Prod.fst hlast),
        Prog.state_loop_exit body (congrArg Prod.fst hlast)]
    exact ⟨rfl, congrArg Prod.snd hlast⟩
  simp only [r, ftlReadSectors, Prog.val_bind, Prog.state_bind, ← hv, ← hbody, hloop.1, hloop.2]
  exact ⟨rfl, p, rfl⟩

/-- A byte that has been erased is more than one bit away from 0. -/
theorem not_corrected_of_erased {g g' : Bytes} (hg : g 0 = 0) (hg' : g' 0 = 0xFF) :
    ¬ Corrected g g' := by
  have hbits : ∀ bit < 8, (0xFF : UInt8) ≠ (0 : UInt8) ^^^ 1 <<< UInt8.ofNat bit := by decide
  have hpos : 0 < nandEccSectorSize := by decide
  rintro (hsame | ⟨t₀, -, bit, hbit, hflip⟩)
  · have hbyte := hsame 0 hpos
    rw [hg, hg'] at hbyte
    cases hbyte
  · have hbyte := hflip 0 hpos
    rw [hg, hg'] at hbyte
    split at hbyte
    · exact hbits bit hbit hbyte
    · cases hbyte

/-- The block that holds the first sector is lost when its page reports twice and no pass of
the copy succeeds; the read returns 0. -/
theorem not_sameDisk_of_failed (fuel : ℕ) (pbuffer : Bytes) (hB : B.Steady) (h : Sound B d)
    (hpos : 0 < d.validBlocknum)
    (hfuel : B.blockTotalnum < fuel + 2)
    (hmoves : MovesPage B 0 nandEccSectorSize 1 ⟨0, pbuffer, 0⟩ d)
    (hnone : failedPages B (d.ticks .copyback) (unusedBlocks B d.flash (d.lut 0 % 2)).card = none)
    (hdata : disk B d 0 = 0) :
    let r := ftlReadSectors B (fuel + 2) pbuffer 0 nandEccSectorSize 1
    (r.val d).1 = some 0 ∧ ¬ SameDisk B d (r.state d) := by
  intro r
  have htot := B.total_lt
  have h₂ : Sound B (d.reads 2) := h.of_agrees (agrees_reads d 2)
  have hfull := fun p => relocate_full (fuel + 2) 0 (n := nandEccSectorSize) hB p h₂
    hpos B.pagenum_pos hfuel (by rw [(agrees_reads d 2).copies]; exact hnone)
  obtain ⟨hval, p, hstate⟩ := ftlReadSectors_relocated hmoves fun p => (hfull p).1
  have hlost : (∀ o < blockSize B, blockData B (r.state d).flash ((r.state d).lut 0) o = 0xFF) ∨
      (r.state d).lut 0 = 0xFFFF := by
    rw [show r.state d = _ from hstate]
    exact (hfull p).2
  refine ⟨hval, fun hsame => ?_⟩
  rcases hlost with hff | hlut
  · refine not_corrected_of_erased ?_ ?_
      (hsame.corrected 0 (inRange_first (wholeSectors_512 B) hpos 0 Nat.one_pos))
    · exact hdata
    · have hbyte := hff 0 (blockSize_pos B)
      rwa [shift_apply, Nat.mul_zero, disk, Nat.zero_div, Nat.zero_mod]
  · have hmapped := (hsame.mapped 0 hpos).1
    omega

end FirstSector

/-! ## After a format -/

section Format
variable {d : Dev}

/-- Where the chip carries out every copy, a plane with an unused block is enough. -/
theorem failedPages_ne_none (hok : ∀ t, CopyOk B t) (t : ℕ) {m : ℕ} (hm : 0 < m) :
    failedPages B t m ≠ none := by
  obtain ⟨m, rfl⟩ := Nat.exists_eq_succ_of_ne_zero (Nat.ne_of_gt hm)
  rw [failedPages_of_ok fun j _ => hok (t + j)]
  exact Option.some_ne_none []

/-- Where the chip carries out no copy any more, no number of unused blocks is. -/
theorem failedPages_eq_none {t : ℕ} (hfail : ∀ j, t ≤ j → ¬ CopyOk B j) (m : ℕ) :
    failedPages B t m = none := by
  induction m generalizing t with
  | zero => rfl
  | succ m ih =>
      rw [failedPages_of_failed B.pagenum_pos (fun j hj => absurd hj (Nat.not_lt_zero j))
        (hfail _ (Nat.le_refl _)), ih fun j hj => hfail j (by omega)]
      rfl

/-- A byte written over the first one of a blank disk by a copy that succeeds. -/
theorem Formatted.rewrite_first (hB : B.Steady) (h : Formatted B d) (hpos : 0 < d.validBlocknum)
    (hok : ∀ j < B.blockPagenum, CopyOk B (d.ticks .copyback + j))
    (hunused : (unusedBlocks B d.flash (d.lut 0 % 2)).Nonempty) {fuel : ℕ} (hfuel : fuel ≠ 0) :
    let r := ftlCopyAndWriteToBlock B fuel (d.lut 0 * B.blockPagenum + 0) 0 (fun _ => 0) 1
    r.val d = some 0 ∧ (r.state d).validBlocknum = d.validBlocknum ∧
      (r.state d).ticks .copyback = d.ticks .copyback + B.blockPagenum ∧
      disk B (r.state d) 0 = 0 ∧ ∀ c, B.pageMainsize + 0x10 ≤ c →
        (r.state d).flash ((r.state d).lut 0 * B.blockPagenum + 0) c = 0xFF := by
  intro r
  have hv : CopyArgs.InPage B ⟨0, fun _ => 0, 1⟩ := ⟨B.mainsize_pos, by decide⟩
  have hms := B.mainsize_pos
  have hspec := ftlCopyAndWriteToBlock_first hB fuel 0 (fun _ => 0) 1 (h.sound.lut_lt 0 hpos)
    (h.sound.not_blank hpos) B.pagenum_pos hok
  rcases hspec with ⟨hzero, -, -⟩ | ⟨-, hnone, -⟩ | ⟨u, ht, hval, hm⟩
  · exact absurd hzero hfuel
  · obtain ⟨u, hu⟩ := hunused
    exact absurd (mem_unusedBlocks_iff_target.mp hu) (hnone u)
  · have hsu : d.lut 0 ≠ u := h.sound.ne_of_blank hpos ht.blank
    have hend : B.pageMainsize ≤ blockSize B := Nat.le_mul_of_pos_left _ B.pagenum_pos
    have hlut : (r.state d).lut 0 = u := by
      rw [hm.lut, h.sound.replaced_eq hpos, Function.update_self]
    refine ⟨hval, hm.validBlocknum, hm.copies, ?_, fun c hc => ?_⟩
    · rw [hm.disk h.sound hpos hv ht (by simp only; omega) (Nat.mul_pos hpos (blockSize_pos B)),
        overlay_inside (by simp only; omega) (by simp only; omega)]
    · rw [hlut, hm.flash, moved_dest hsu B.pagenum_pos
        (congrFun (h.sound.erased u ht.lt ht.blank 0 B.pagenum_pos) c) (by omega)]
      have hlen : CopyArgs.wrlen B ⟨0, fun _ => 0, 1⟩ = 1 := by
        rw [hv.wrlen]
        simp only
        omega
      rw [editAt, argsAt, CopyArgs.edit, if_pos ⟨Nat.le_refl _, one_ne_zero⟩, hlen]
      simp only [loadRegister]
      rw [if_pos (by decide), overlay_after (by omega)]
      exact h.clean 0 hpos 0 B.pagenum_pos c (by omega)

/-- A format of a new chip with room to spare leaves unused blocks in both planes. -/
theorem formatted_unused (hB : B.Steady) (herase : B.ErasesOk)
    (htotal : 100 ≤ B.blockTotalnum * 93 / 100)
    (hroom : B.blockTotalnum * 93 / 100 + 3 < B.blockTotalnum) :
    let d := (ftlFormat B).state Dev.blank
    (ftlFormat B).val Dev.blank = 0 ∧ Formatted B d ∧ 0 < d.validBlocknum ∧
      d.ticks .copyback = 0 ∧ (unusedBlocks B d.flash (d.lut 0 % 2)).Nonempty := by
  intro d
  obtain ⟨hval, hformatted, hvalid, -, hblank⟩ := ftlFormat_blank hB herase htotal
  have hlt : d.validBlocknum = B.blockTotalnum * 93 / 100 := hvalid
  have htwo := two_le_unusedBlocks (Nat.mod_lt (d.lut 0) Nat.two_pos) hblank (by omega)
  exact ⟨hval, hformatted, by omega, ftlFormat_copiesNothing hB.reads Dev.blank,
    Finset.card_pos.mp (lt_of_lt_of_le Nat.two_pos htwo)⟩

/-- On a chip that carries out every copy, the first sector is moved when it is read. -/
theorem Flips.readFinds_first (hB : Flips B) (hok : ∀ t, CopyOk B t) (h : Formatted B d)
    (hpos : 0 < d.validBlocknum) (hunused : (unusedBlocks B d.flash (d.lut 0 % 2)).Nonempty)
    (pbuffer : Bytes) :
    MovesPage B 0 nandEccSectorSize 1 ⟨0, pbuffer, 0⟩ d ∧
      ReadFinds B (B.blockTotalnum + 2) pbuffer 0 nandEccSectorSize 1 d := by
  have hlbn : lbnno B 0 nandEccSectorSize 0 = 0 := by simp [lbnno]
  refine ⟨hB.movesPage h.sound hpos fun c hc => h.clean 0 hpos 0 B.pagenum_pos c (by omega),
    Ftl.readFinds_first B.blockTotalnum hB.steady (by omega) h.sound fun _ =>
      failedPages_ne_none hok _ ?_⟩
  rw [hlbn]
  exact Finset.card_pos.mpr hunused

/-- On a chip that carries out the copies of one more block and no others, the first sector is
lost when it is read after it has been rewritten. -/
theorem Flips.loses_first (hB : Flips B) (h : Formatted B d) (hpos : 0 < d.validBlocknum)
    (hunused : (unusedBlocks B d.flash (d.lut 0 % 2)).Nonempty) (hticks : d.ticks .copyback = 0)
    (hcopy : ∀ t, CopyOk B t ↔ t < B.blockPagenum) (pbuffer : Bytes) :
    let w := ftlCopyAndWriteToBlock B 1 (d.lut 0 * B.blockPagenum + 0) 0 (fun _ => 0) 1
    let r := ftlReadSectors B (B.blockTotalnum + 2) pbuffer 0 nandEccSectorSize 1
    Call B d (w.state d) ∧ InRange B 0 nandEccSectorSize 1 (w.state d) ∧
      (r.val (w.state d)).1 = some 0 ∧ ¬ SameDisk B (w.state d) (r.state (w.state d)) := by
  intro w r
  have hok : ∀ j < B.blockPagenum, CopyOk B (d.ticks .copyback + j) := by
    intro j hj
    rwa [hcopy, hticks, Nat.zero_add]
  obtain ⟨hw, hvalid, hwticks, hdata, hspare⟩ := h.rewrite_first hB.steady hpos hok hunused
    one_ne_zero
  have hcall : Call B d (w.state d) :=
    .copy 1 _ 0 (fun _ => 0) 1 0 ⟨⟨0, hpos, 0, B.pagenum_pos, rfl⟩, B.mainsize_pos⟩ (by decide) hw
  have hsound := hcall.sound hB.steady h.sound
  have hpos' : 0 < (w.state d).validBlocknum := lt_of_lt_of_eq hpos hvalid.symm
  have hfail : ∀ j, (w.state d).ticks .copyback ≤ j → ¬ CopyOk B j := by
    intro j hj hok
    have hle := (hwticks.symm.trans_le hj).trans_lt ((hcopy j).mp hok)
    omega
  obtain ⟨hread, hlost⟩ := not_sameDisk_of_failed B.blockTotalnum pbuffer
    hB.steady hsound hpos' (by omega) (hB.movesPage hsound hpos' hspare)
    (failedPages_eq_none hfail _) hdata
  exact ⟨hcall, inRange_first (wholeSectors_512 B) hpos', hread, hlost⟩

end Format

/-- The 512 MB part on a board on which every read needs a correction, and the copies that
`fails` names fail. -/
def flipBoard (fails : ℕ → Bool) : Board :=
  .faulty part512 (fun _ => 0xFFFFFFFF) 0x00555555 fails

section FlipBoard
variable (fails : ℕ → Bool)

theorem flipBoard_flips : Flips (flipBoard fails) := faulty_flips _ _

theorem flipBoard_erases : (flipBoard fails).ErasesOk := Board.faulty_erases _ _ _ _

theorem copyOk_flipBoard (t : ℕ) : CopyOk (flipBoard fails) t ↔ fails t = false := copyOk_faulty

theorem flipBoard_total : 100 ≤ (flipBoard fails).blockTotalnum * 93 / 100 ∧
    (flipBoard fails).blockTotalnum * 93 / 100 + 3 < (flipBoard fails).blockTotalnum := by
  have hblocks : (flipBoard fails).blockTotalnum = 4096 := rfl
  omega

end FlipBoard

end Apollo.Ftl
