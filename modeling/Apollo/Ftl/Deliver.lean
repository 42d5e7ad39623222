import Apollo.Ftl.Repair
import Apollo.Nand.Sector

/-!
# What a sector read delivers

`ftl_read_sectors` takes an uncorrectable sector for a sector that has never been written, goes
on with whatever a relocation has left of the other pages, and stops at the first page that the
chip does not give out.  The caller has the sectors of the disk in its buffer exactly when each
round that is made leaves those it stands for there.

## Main definitions

* `DiskHolds` — the bytes that a sector of the disk holds.
* `lastRead`, `readBytes` — the read of a page that counts, and what it leaves.
* `RoundDelivers` — the condition on a round.
* `ftlReadSectors_delivers_iff` — when a read that returns has delivered the sectors.
-/

namespace Apollo.Ftl
open Lib Nand

variable {B : Board}

/-! ## The sectors of the disk -/

/-- The page in which sector `s` of the disk is stored. -/
def diskPage (B : Board) (d : Dev) (s : ℕ) : ℕ :=
  d.lut (s * nandEccSectorSize / blockSize B) * B.blockPagenum +
    s * nandEccSectorSize % blockSize B / B.pageMainsize

/-- Its number among the sectors of that page. -/
def diskIndex (B : Board) (s : ℕ) : ℕ :=
  s * nandEccSectorSize % blockSize B % B.pageMainsize / nandEccSectorSize

/-- Sector `s` of the disk is there and holds `data`. -/
def DiskHolds (B : Board) (d : Dev) (s : ℕ) (data : Bytes) : Prop :=
  s < diskSectors B nandEccSectorSize d ∧
    SectorHolds B (d.flash (diskPage B d s)) (diskIndex B s) data

theorem diskHolds_congr {d : Dev} {s : ℕ} {data data' : Bytes}
    (h : ∀ t < nandEccSectorSize, data' t = data t) :
    DiskHolds B d s data' ↔ DiskHolds B d s data := and_congr_right' (sectorHolds_congr h)

/-! ## One page -/

section Page
variable (B) (page colnum : ℕ) (pbuffer : Bytes) (n : ℕ) (d : Dev)

/-- The state from which the last read of a page is made: after a corrected bit there is a
second one. -/
def lastRead : Dev :=
  if ((nandReadpage B page colnum pbuffer n).val d).1 = nstaEcc1biterr then d.reads 1 else d

/-- What the reads of a page leave behind the pointer. -/
def readBytes : Bytes :=
  if ((nandReadpage B page colnum pbuffer n).val d).1 = nstaEcc1biterr then
    (reread B page colnum pbuffer n d).2
  else ((nandReadpage B page colnum pbuffer n).val d).2

variable {B page colnum pbuffer n d}

/-- A page that the chip gives out is delivered sector by sector. -/
theorem readBytes_delivers (hn : nandEccSectorSize ∣ n)
    (h : ReadDone B (lastRead B page colnum pbuffer n d)) {k : ℕ} (hk : k < n / nandEccSectorSize)
    {t : ℕ} (ht : t < nandEccSectorSize) :
    readBytes B page colnum pbuffer n d (nandEccSectorSize * k + t) =
      delivered B page colnum (lastRead B page colnum pbuffer n d) k t := by
  rw [lastRead] at h ⊢
  rw [readBytes]
  split
  · rename_i hone
    rw [if_pos hone] at h
    exact nandReadpage_delivers page colnum _ hn h.1 hk ht
  · rename_i hone
    rw [if_neg hone] at h
    exact nandReadpage_delivers page colnum _ hn h.1 hk ht

/-- Reads that return leave these bytes, and a code that the round takes for 0 exactly when the
chip has given the page out. -/
theorem readAndRelocate_some (hn : nandEccSectorSize ∣ n) {fuel : ℕ} {x : ℕ × Bytes}
    (h : (readAndRelocate B fuel page colnum pbuffer n).val d = some x) :
    x.2 = readBytes B page colnum pbuffer n d ∧
      ((if x.1 = nstaEcc2biterr then 0 else x.1) = 0 ↔
        ReadDone B (lastRead B page colnum pbuffer n d)) := by
  have hflag : ∀ c : ℕ, c ≠ nstaEcc1biterr → ∀ t : Dev,
      (ReadDone B t ∧ c ∈ [0, nstaEcc1biterr, nstaEcc2biterr]) ∨
        (¬ ReadDone B t ∧ c ∈ [nstaError, nstaTimeout]) →
      ((if c = nstaEcc2biterr then 0 else c) = 0 ↔ ReadDone B t) := by
    intro c hone t hcode
    simp only [List.mem_cons, List.not_mem_nil, or_false] at hcode
    rcases hcode with ⟨hdone, rfl | rfl | rfl⟩ | ⟨hdone, rfl | rfl⟩
    · exact iff_of_true rfl hdone
    · exact absurd rfl hone
    · exact iff_of_true rfl hdone
    · exact iff_of_false (by decide) hdone
    · exact iff_of_false (by decide) hdone
  by_cases h₁ : ((nandReadpage B page colnum pbuffer n).val d).1 = nstaEcc1biterr
  · have hcode := nandReadpage_code (B := B) page colnum
      ((nandReadpage B page colnum pbuffer n).val d).2 (d := d.reads 1) hn
    rw [lastRead, readBytes, if_pos h₁, if_pos h₁]
    by_cases h₂ : (reread B page colnum pbuffer n d).1 = nstaEcc1biterr
    · rw [Prog.val, readAndRelocate_moves ⟨h₁, h₂⟩ rfl] at h
      obtain ⟨-, -, rfl⟩ := Option.map_eq_some_iff.mp h
      refine ⟨rfl, iff_of_true rfl ?_⟩
      rcases hcode with hdone | ⟨-, hcode⟩
      · exact hdone.1
      · rw [← reread, h₂] at hcode
        exact absurd hcode (by decide)
    · have hval : (readAndRelocate B fuel page colnum pbuffer n).val d =
          some (reread B page colnum pbuffer n d) := by
        rw [Prog.val, readAndRelocate, Prog.bind_apply, if_pos h₁, state_nandReadpage,
          Prog.bind_apply, ← reread, if_neg h₂]
        rfl
      obtain rfl := Option.some.inj (hval.symm.trans h)
      exact ⟨rfl, hflag _ h₂ _ hcode⟩
  · have hcode := nandReadpage_code (B := B) page colnum pbuffer (d := d) hn
    have hval : (readAndRelocate B fuel page colnum pbuffer n).val d =
        some ((nandReadpage B page colnum pbuffer n).val d) := by
      rw [Prog.val, readAndRelocate, Prog.bind_apply, if_neg h₁]
      rfl
    obtain rfl := Option.some.inj (hval.symm.trans h)
    rw [lastRead, readBytes, if_neg h₁, if_neg h₁]
    exact ⟨rfl, hflag _ h₁ _ hcode⟩

end Page

/-! ## A round -/

section Round
variable (B : Board) (sectorno sectorcount : ℕ) (v : ReadVars) (d : Dev)

/-- The sector a round begins with lies in a mapped block. -/
def ReadMapped : Prop :=
  lbnno B sectorno nandEccSectorSize v.i ≤ d.validBlocknum ∧
    d.lut (lbnno B sectorno nandEccSectorSize v.i) < B.blockTotalnum

instance : Decidable (ReadMapped B sectorno v d) := inferInstanceAs (Decidable (_ ∧ _))

/-- The column from which a round reads its page. -/
def readCol : ℕ := blockoffset B sectorno nandEccSectorSize v.i % B.pageMainsize

/-- The state from which a round makes the last read of its page. -/
def roundLastRead : Dev :=
  lastRead B (readPage B sectorno nandEccSectorSize v.i d) (readCol B sectorno v)
    (shift v.pbuffer v.offset)
    (readSecs B sectorno nandEccSectorSize sectorcount v.i * nandEccSectorSize) d

/-- A round has a page to read, and the chip gives it out. -/
def RoundAnswered : Prop :=
  ReadMapped B sectorno v d ∧ ReadDone B (roundLastRead B sectorno sectorcount v d)

/-- What a round leaves in the buffer. -/
def roundLeft : Bytes :=
  if ReadMapped B sectorno v d then
    graft v.pbuffer v.offset (readBytes B (readPage B sectorno nandEccSectorSize v.i d)
      (readCol B sectorno v) (shift v.pbuffer v.offset)
      (readSecs B sectorno nandEccSectorSize sectorcount v.i * nandEccSectorSize) d)
  else v.pbuffer

/-- The condition on a round of a read that should deliver what the disk held in `d₀`: each
sector of a page that the chip gives out is what was held; where there is no page, or the chip
does not give it out, the buffer has the rest of the sectors already. -/
def RoundDelivers (d₀ : Dev) : Prop :=
  v.i < sectorcount →
    (RoundAnswered B sectorno sectorcount v d →
      ∀ k < readSecs B sectorno nandEccSectorSize sectorcount v.i,
        DiskHolds B d₀ (sectorno + (v.i + k))
          (delivered B (readPage B sectorno nandEccSectorSize v.i d) (readCol B sectorno v)
            (roundLastRead B sectorno sectorcount v d) k)) ∧
    (¬ RoundAnswered B sectorno sectorcount v d →
      ∀ j, v.i ≤ j → j < sectorcount →
        DiskHolds B d₀ (sectorno + j)
          (shift (roundLeft B sectorno sectorcount v d) (nandEccSectorSize * j)))

variable {B sectorno sectorcount v d}

/-- A round that has something to read does not return, or leaves at a page that it does not
get, or goes on behind its page. -/
theorem readRound_outcome (fuel : ℕ) (hi : v.i < sectorcount) :
    let r := (readRound B fuel sectorno nandEccSectorSize sectorcount v).val d
    (∃ p, r = .exit (none, p)) ∨
    (¬ RoundAnswered B sectorno sectorcount v d ∧
      ∃ c, r = .exit (some c, roundLeft B sectorno sectorcount v d)) ∨
    (RoundAnswered B sectorno sectorcount v d ∧
      r = .next ⟨advance v.i (readSecs B sectorno nandEccSectorSize sectorcount v.i),
        roundLeft B sectorno sectorcount v d,
        v.offset +
          nandEccSectorSize * readSecs B sectorno nandEccSectorSize sectorcount v.i⟩) := by
  intro r
  by_cases hmap : ReadMapped B sectorno v d
  case neg =>
    have hround := readRound_unmapped fuel hi hmap
    refine Or.inr (Or.inl ⟨fun h => hmap h.1, 1, ?_⟩)
    simp only [r, Prog.val, hround, roundLeft, if_neg hmap]
  have hround : readRound B fuel sectorno nandEccSectorSize sectorcount v d = _ :=
    readRound_mapped hi hmap.1 hmap.2
  have hr : r = afterRead B sectorno nandEccSectorSize sectorcount v
      ((readAndRelocate B fuel (readPage B sectorno nandEccSectorSize v.i d) (readCol B sectorno v)
        (shift v.pbuffer v.offset)
        (readSecs B sectorno nandEccSectorSize sectorcount v.i * nandEccSectorSize)).val d) :=
    congrArg Prod.fst hround
  have hn : nandEccSectorSize ∣
      readSecs B sectorno nandEccSectorSize sectorcount v.i * nandEccSectorSize :=
    Nat.dvd_mul_left _ _
  rw [hr]
  cases hx : (readAndRelocate B fuel (readPage B sectorno nandEccSectorSize v.i d)
      (readCol B sectorno v) (shift v.pbuffer v.offset)
      (readSecs B sectorno nandEccSectorSize sectorcount v.i * nandEccSectorSize)).val d with
  | none => exact Or.inl ⟨_, rfl⟩
  | some x =>
      obtain ⟨hbytes, hflag⟩ := readAndRelocate_some hn hx
      have hleft : graft v.pbuffer v.offset x.2 = roundLeft B sectorno sectorcount v d := by
        rw [roundLeft, if_pos hmap, hbytes]
      have hafter : afterRead B sectorno nandEccSectorSize sectorcount v (some x) =
          if (if x.1 = nstaEcc2biterr then 0 else x.1) ≠ 0 then
            .exit (some 2, graft v.pbuffer v.offset x.2)
          else .next ⟨advance v.i (readSecs B sectorno nandEccSectorSize sectorcount v.i),
            graft v.pbuffer v.offset x.2,
            v.offset +
              nandEccSectorSize * readSecs B sectorno nandEccSectorSize sectorcount v.i⟩ := rfl
      right
      by_cases hdone : ReadDone B (roundLastRead B sectorno sectorcount v d)
      · refine Or.inr ⟨⟨hmap, hdone⟩, ?_⟩
        rw [← hleft]
        exact hafter.trans (if_neg (not_not.mpr (hflag.mpr hdone)))
      · refine Or.inl ⟨fun h => hdone h.2, 2, ?_⟩
        rw [← hleft]
        exact hafter.trans (if_pos fun h => hdone (hflag.mp h))

/-- A page that a round is given is in the buffer, sector by sector. -/
theorem roundLeft_delivers (hoff : v.offset = v.i * nandEccSectorSize)
    (h : RoundAnswered B sectorno sectorcount v d) {k t : ℕ}
    (hk : k < readSecs B sectorno nandEccSectorSize sectorcount v.i)
    (ht : t < nandEccSectorSize) :
    roundLeft B sectorno sectorcount v d (nandEccSectorSize * (v.i + k) + t) =
      delivered B (readPage B sectorno nandEccSectorSize v.i d) (readCol B sectorno v)
        (roundLastRead B sectorno sectorcount v d) k t := by
  have hk' : k < readSecs B sectorno nandEccSectorSize sectorcount v.i * nandEccSectorSize /
      nandEccSectorSize := by
    rwa [Nat.mul_div_cancel _ (by decide)]
  have hpos : nandEccSectorSize * (v.i + k) + t = v.offset + (nandEccSectorSize * k + t) := by
    rw [hoff, Nat.mul_add, Nat.mul_comm v.i, Nat.add_assoc]
  rw [roundLeft, if_pos h.1, hpos, graft_from (Nat.le_add_right _ _), Nat.add_sub_cancel_left]
  exact readBytes_delivers (Nat.dvd_mul_left _ _) h.2 hk' ht

/-- What stands before the pointer is left alone. -/
theorem roundLeft_before {x : ℕ} (hx : x < v.offset) :
    roundLeft B sectorno sectorcount v d x = v.pbuffer x := by
  rw [roundLeft]
  split
  · exact graft_before hx
  · rfl

end Round

/-! ## A call -/

/-- The sectors from `i` on are the next `m` and those behind them. -/
theorem forall_sectors_iff {P : ℕ → Prop} {i m n : ℕ} (hle : i + m ≤ n) :
    (∀ j, i ≤ j → j < n → P j) ↔ (∀ x < m, P (i + x)) ∧ ∀ j, i + m ≤ j → j < n → P j := by
  constructor
  · intro h
    exact ⟨fun x hx => h _ (Nat.le_add_right _ _) (by omega), fun j hj => h j (by omega)⟩
  · rintro ⟨hnext, hlater⟩ j hj hlt
    by_cases hin : j < i + m
    · obtain ⟨x, rfl⟩ := Nat.exists_eq_add_of_le hj
      exact hnext x (by omega)
    · exact hlater j (Nat.not_lt.mp hin) hlt

/-- A loop that returns has left the sectors from `v.i` on in the buffer exactly when its rounds
meet the condition, and leaves those before alone. -/
theorem readLoop_delivers_iff {fuel sectorno n : ℕ} (d₀ : Dev) (hn : n < 2 ^ 32) {k i : ℕ}
    {v : ReadVars} {d : Dev} (hoff : v.offset = v.i * nandEccSectorSize) {c : ℕ} {out : Bytes}
    (hval : (Prog.loop (fun _ => readRound B fuel sectorno nandEccSectorSize n) k i v).val d =
      .exit (some c, out)) :
    (∀ x < v.offset, out x = v.pbuffer x) ∧
      ((∀ j, v.i ≤ j → j < n →
          DiskHolds B d₀ (sectorno + j) (shift out (nandEccSectorSize * j))) ↔
        Prog.Rounds (fun w t => RoundDelivers B sectorno n w t d₀)
          (fun _ => readRound B fuel sectorno nandEccSectorSize n) k i v d) := by
  induction k generalizing i v d with
  | zero => cases hval
  | succ k ih =>
      by_cases hi : v.i < n
      case neg =>
        have hround : (readRound B fuel sectorno nandEccSectorSize n v).val d = _ :=
          congrArg Prod.fst (readRound_finished B fuel sectorno nandEccSectorSize d hi)
        rw [Prog.val_loop_exit _ (i := i) hround] at hval
        cases hval
        refine ⟨fun _ _ => rfl, iff_of_true (fun j hj hlt => absurd hlt (by omega)) ?_⟩
        rw [Prog.Rounds, hround]
        exact ⟨fun h => absurd h hi, trivial⟩
      rcases readRound_outcome fuel hi with ⟨p, hround⟩ | ⟨hans, e, hround⟩ | ⟨hans, hround⟩
      · rw [Prog.val_loop_exit _ (i := i) hround] at hval
        cases hval
      · rw [Prog.val_loop_exit _ (i := i) hround] at hval
        cases hval
        refine ⟨fun x hx => roundLeft_before hx, ?_⟩
        rw [Prog.Rounds, hround]
        exact ⟨fun h => ⟨fun _ => ⟨fun h' => absurd h' hans, fun _ => h⟩, trivial⟩,
          fun h => (h.1 hi).2 hans⟩
      · generalize hm : readSecs B sectorno nandEccSectorSize n v.i = m at hround
        have hle : m ≤ n - v.i := hm ▸ Nat.min_le_right _ _
        have hnext : advance v.i m = v.i + m := advance_eq (by omega)
        have hafter : v.offset + nandEccSectorSize * m = (v.i + m) * nandEccSectorSize := by
          rw [hoff, Nat.add_mul, Nat.mul_comm m]
        rw [hnext] at hround
        rw [Prog.val_loop_next _ (i := i) hround] at hval
        obtain ⟨hbefore, hrest⟩ := ih hafter hval
        dsimp only at hbefore hrest
        have hpage : ∀ j < m, (DiskHolds B d₀ (sectorno + (v.i + j))
            (shift out (nandEccSectorSize * (v.i + j))) ↔
              DiskHolds B d₀ (sectorno + (v.i + j))
                (delivered B (readPage B sectorno nandEccSectorSize v.i d) (readCol B sectorno v)
                  (roundLastRead B sectorno n v d) j)) := by
          intro j hj
          refine diskHolds_congr fun t ht => ?_
          have hend := Nat.mul_le_mul_left nandEccSectorSize (Nat.succ_le_of_lt hj)
          rw [Nat.mul_succ] at hend
          have hlt : nandEccSectorSize * (v.i + j) + t < v.offset + nandEccSectorSize * m := by
            rw [hoff, Nat.mul_add, Nat.mul_comm v.i]
            omega
          rw [shift_apply, hbefore _ hlt]
          exact roundLeft_delivers hoff hans (hm ▸ hj) ht
        refine ⟨fun x hx => (hbefore x (by omega)).trans (roundLeft_before hx), ?_⟩
        have hin : v.i + m ≤ n := by omega
        rw [Prog.Rounds, hround, Flow.holds_next, ← hrest, forall_sectors_iff hin]
        refine and_congr_left fun _ => ⟨fun h _ => ⟨fun _ j hj => ?_, fun h' => absurd hans h'⟩,
          fun h j hj => (hpage j hj).mpr ((h hi).1 hans j (hm ▸ hj))⟩
        rw [hm] at hj
        exact (hpage j hj).mp (h j hj)

/-- A read that returns, with whatever code, has delivered the sectors that the disk held exactly
when each of its rounds meets the condition. -/
theorem ftlReadSectors_delivers_iff {fuel sectorno n : ℕ} (hn : n < 2 ^ 32) {pbuffer out : Bytes}
    {d : Dev} {c : ℕ}
    (hval : (ftlReadSectors B fuel pbuffer sectorno nandEccSectorSize n).val d = (some c, out)) :
    (∀ j < n, DiskHolds B d (sectorno + j) (shift out (nandEccSectorSize * j))) ↔
      Prog.Rounds (fun w t => RoundDelivers B sectorno n w t d)
        (fun _ => readRound B fuel sectorno nandEccSectorSize n) fuel 0 ⟨0, pbuffer, 0⟩ d := by
  simp only [ftlReadSectors, Prog.val_bind] at hval
  cases hloop : (Prog.loop (fun _ => readRound B fuel sectorno nandEccSectorSize n) fuel 0
      ⟨0, pbuffer, 0⟩).val d with
  | next v =>
      rw [hloop] at hval
      cases hval
  | exit r =>
      rw [hloop] at hval
      obtain rfl : r = (some c, out) := hval
      have hstart : (⟨0, pbuffer, 0⟩ : ReadVars).offset = 0 * nandEccSectorSize :=
        (Nat.zero_mul _).symm
      have hiff := (readLoop_delivers_iff d hn hstart hloop).2
      rw [← hiff]
      exact forall_congr' fun j => ⟨fun h _ hj => h hj, fun h hj => h (Nat.zero_le _) hj⟩

/-- A read from a chip that does not answer leaves the buffer alone. -/
theorem ftlReadSectors_timeout (fuel : ℕ) {sectorno n : ℕ} {pbuffer : Bytes} {d : Dev}
    (hmap : ReadMapped B sectorno ⟨0, pbuffer, 0⟩ d) (hpos : 0 < n)
    (htimeout : (B.reply .read (d.ticks .read)).RbTimeout) :
    (ftlReadSectors B (fuel + 1) pbuffer sectorno nandEccSectorSize n).val d =
      (some 2, pbuffer) := by
  have hpage (page colnum m : ℕ) (buf : Bytes) :
      (nandReadpage B page colnum buf m).val d = (nstaTimeout, buf) := by
    simp only [nandReadpage, Prog.val_bind, val_command, if_pos htimeout, Prog.val_pure]
  have hread (page colnum m : ℕ) (buf : Bytes) :
      (readAndRelocate B (fuel + 1) page colnum buf m).val d = some (nstaTimeout, buf) := by
    have hone : ¬ nstaTimeout = nstaEcc1biterr := by decide
    simp only [readAndRelocate, Prog.val_bind, hpage, if_neg hone, Prog.val_pure]
  have hround : (readRound B (fuel + 1) sectorno nandEccSectorSize n ⟨0, pbuffer, 0⟩).val d =
      .exit (some 2, pbuffer) := by
    have hmapped : readRound B (fuel + 1) sectorno nandEccSectorSize n ⟨0, pbuffer, 0⟩ d = _ :=
      readRound_mapped hpos hmap.1 hmap.2
    have hgraft : graft pbuffer 0 (shift pbuffer 0) = pbuffer := by
      funext x
      rw [graft_from (Nat.zero_le x), shift_apply, Nat.sub_zero, Nat.zero_add]
    rw [Prog.val, hmapped]
    change afterRead B sectorno nandEccSectorSize n ⟨0, pbuffer, 0⟩
      ((readAndRelocate B (fuel + 1) _ _ (shift pbuffer 0) _).val d) = _
    rw [hread]
    exact congrArg (fun out => Flow.exit (some 2, out)) hgraft
  have hloop : (Prog.loop (fun _ => readRound B (fuel + 1) sectorno nandEccSectorSize n) (fuel + 1)
      0 ⟨0, pbuffer, 0⟩).val d = .exit (some 2, pbuffer) :=
    Prog.val_loop_exit (fun _ => readRound B (fuel + 1) sectorno nandEccSectorSize n) hround
  rw [ftlReadSectors, Prog.val_bind, hloop]
  rfl

end Apollo.Ftl
