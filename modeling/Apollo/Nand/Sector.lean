import Apollo.Nand.ReadCode

/-!
# What a sector holds

A sector with at most one wrong bit holds the bytes that its ECC word belongs to; one with more
holds nothing that can be known.  A read delivers each of its sectors as the check leaves it,
with the word as it came over the bus.

## Main definitions

* `SectorHolds` — the bytes that a sector of a page holds.
* `delivered`, `nandReadpage_delivers` — what a read makes of a sector.
* `nandReadpage_code` — the codes of a read.
* `CoherentAt.holds` — a sector whose word is that of its bytes holds them.
-/

namespace Apollo.Nand
open Lib

variable {B : Board}

/-- Sector `k` of a page holds `data`: nothing has been written into it and all is `0xFF`, or
no more than one bit is wrong and `data` is what is right. -/
def SectorHolds (B : Board) (page : Bytes) (k : ℕ) (data : Bytes) : Prop :=
  (SectorBlank page k ∧ ∀ t < nandEccSectorSize, data t = 0xFF) ∨
    (¬ SectorBlank page k ∧
      sectorCode (storedEcc B page k) (hdEcc B page k) ≠ nstaEcc2biterr ∧
      ∀ t < nandEccSectorSize, data t = (nandEccCorrection (shift page (nandEccSectorSize * k))
        (storedEcc B page k) (hdEcc B page k)).2 t)

theorem sectorHolds_congr {page data data' : Bytes} {k : ℕ}
    (h : ∀ t < nandEccSectorSize, data' t = data t) :
    SectorHolds B page k data' ↔ SectorHolds B page k data := by
  have hsame (g : Bytes) : (∀ t < nandEccSectorSize, data' t = g t) ↔
      ∀ t < nandEccSectorSize, data t = g t := forall₂_congr fun t ht => by rw [h t ht]
  rw [SectorHolds, SectorHolds, hsame, hsame]

/-- Words that agree point at nothing. -/
theorem nandEccCorrection_self (data : Bytes) (ecc : ℕ) :
    nandEccCorrection data ecc ecc = (1, data) := by
  have hzero (a b : ℕ) : a ^^^ b ^^^ a ^^^ b = 0 := by
    rw [Nat.xor_assoc, Nat.xor_self]
  refine if_neg ?_
  rw [hzero]
  decide

/-- The correction looks at each byte apart. -/
theorem nandEccCorrection_congr {data data' : Bytes} (eccrd ecccl : ℕ) {t : ℕ}
    (h : data t = data' t) :
    (nandEccCorrection data eccrd ecccl).2 t = (nandEccCorrection data' eccrd ecccl).2 t := by
  simp only [nandEccCorrection]
  split
  · dsimp only
    by_cases hpos : t = (nandEccGetOe 1 eccrd ^^^ nandEccGetOe 1 ecccl) / 8
    · rw [← hpos, Function.update_self, Function.update_self, h]
    · rw [Function.update_of_ne hpos, Function.update_of_ne hpos, h]
  · exact h

/-- The main area and the ECC words decide what a sector holds. -/
theorem sectorHolds_page_congr {page page' data : Bytes} {k : ℕ}
    (hk : k < B.pageMainsize / nandEccSectorSize)
    (hsame : ∀ c, c ≠ B.pageMainsize + 1 → page' c = page c) :
    SectorHolds B page' k data ↔ SectorHolds B page k data := by
  have hend : nandEccSectorSize * k + nandEccSectorSize ≤ B.pageMainsize := by
    have hmul := Nat.mul_le_mul_left nandEccSectorSize (Nat.succ_le_of_lt hk)
    rwa [Nat.mul_div_cancel' B.mainsize_sectors, Nat.mul_succ] at hmul
  have hmain : ∀ t < nandEccSectorSize,
      page' (nandEccSectorSize * k + t) = page (nandEccSectorSize * k + t) :=
    fun t ht => hsame _ (by omega)
  have hecc : storedEcc B page' k = storedEcc B page k :=
    storedEcc_congr fun j _ => hsame _ (by omega)
  rw [SectorHolds, SectorHolds, sectorBlank_congr hmain, hecc, hdEcc_congr hmain]
  refine or_congr_right (and_congr_right fun _ => and_congr_right fun _ => ?_)
  have hcorrected (t : ℕ) (ht : t < nandEccSectorSize) :
      (nandEccCorrection (shift page' (nandEccSectorSize * k)) (storedEcc B page k)
        (hdEcc B page k)).2 t = (nandEccCorrection (shift page (nandEccSectorSize * k))
        (storedEcc B page k) (hdEcc B page k)).2 t := nandEccCorrection_congr _ _ (hmain t ht)
  exact forall₂_congr fun t ht => by rw [hcorrected t ht]

/-- A sector whose word is that of its bytes holds them. -/
theorem CoherentAt.holds {page data : Bytes} {k : ℕ} (h : CoherentAt B page k)
    (hdata : ∀ t < nandEccSectorSize, page (nandEccSectorSize * k + t) = data t) :
    SectorHolds B page k data := by
  by_cases hblank : SectorBlank page k
  · exact Or.inl ⟨hblank, fun t ht => by rw [← hdata t ht, hblank t ht]⟩
  · refine Or.inr ⟨hblank, ?_, fun t ht => ?_⟩
    · rw [sectorCode_of_eq (h hblank)]
      decide
    · rw [h hblank, nandEccCorrection_self]
      exact (hdata t ht).symm

/-! ## The check, sector by sector -/

/-- What lies outside its sector is left alone by the correction of a sector. -/
theorem graft_correction (p : Bytes) (i eccrd ecccl : ℕ) {x : ℕ}
    (hx : ¬(nandEccSectorSize * i ≤ x ∧ x < nandEccSectorSize * i + nandEccSectorSize)) :
    graft p (nandEccSectorSize * i)
      (nandEccCorrection (shift p (nandEccSectorSize * i)) eccrd ecccl).2 x = p x := by
  by_cases hle : nandEccSectorSize * i ≤ x
  · have hlast := (nandEccCorrection_spec (shift p (nandEccSectorSize * i)) eccrd ecccl).2
      (x - nandEccSectorSize * i) (by omega)
    rw [shift_apply, Nat.add_sub_cancel' hle] at hlast
    rw [graft_from hle, hlast]
  · exact graft_before (by omega)

/-- The check leaves each of its sectors as the correction does, and the others alone. -/
theorem eccCheck_sector (eccrd ecchd : ℕ → ℕ) (m i errsta : ℕ) (p : Bytes) {k t : ℕ}
    (ht : t < nandEccSectorSize) :
    (eccCheck eccrd ecchd m i (errsta, p)).2 (nandEccSectorSize * k + t) =
      if i ≤ k ∧ k < i + m then
        (nandEccCorrection (shift p (nandEccSectorSize * k)) (eccrd k) (ecchd k)).2 t
      else p (nandEccSectorSize * k + t) := by
  induction m generalizing i errsta p with
  | zero => rw [if_neg (by omega), eccCheck]
  | succ m ih =>
      have hrange : k ≠ i → ((i + 1 ≤ k ∧ k < i + 1 + m) ↔ (i ≤ k ∧ k < i + (m + 1))) := by omega
      by_cases heq : eccrd i = ecchd i
      · rw [eccCheck, if_neg (not_not.mpr heq), ih]
        by_cases hki : k = i
        · rw [if_neg (by omega), if_pos (by omega), hki, heq, nandEccCorrection_self]
          rfl
        · exact if_congr (hrange hki) rfl rfl
      · obtain ⟨e, hstep⟩ : ∃ e, eccCheck eccrd ecchd (m + 1) i (errsta, p) =
            eccCheck eccrd ecchd m (i + 1) (e, graft p (nandEccSectorSize * i)
              (nandEccCorrection (shift p (nandEccSectorSize * i)) (eccrd i) (ecchd i)).2) :=
          ⟨_, if_pos heq⟩
        rw [hstep, ih]
        by_cases hki : k = i
        · rw [if_neg (by omega), if_pos (by omega), hki, graft_from (Nat.le_add_right _ _),
            Nat.add_sub_cancel_left]
        · have hsame : ∀ s < nandEccSectorSize, graft p (nandEccSectorSize * i)
              (nandEccCorrection (shift p (nandEccSectorSize * i)) (eccrd i) (ecchd i)).2
                (nandEccSectorSize * k + s) = p (nandEccSectorSize * k + s) := by
            intro s hs
            simp only [nandEccSectorSize] at hs
            exact graft_correction p i _ _ (by simp only [nandEccSectorSize]; omega)
          exact if_ctx_congr (hrange hki) (fun _ => nandEccCorrection_congr _ _ (hsame t ht))
            fun _ => hsame t ht

/-- The codes of the check. -/
theorem eccCheck_code (eccrd ecchd : ℕ → ℕ) (m : ℕ) (p : Bytes) :
    (eccCheck eccrd ecchd m 0 (0, p)).1 ∈ [0, nstaEcc1biterr, nstaEcc2biterr] := by
  induction m with
  | zero => exact List.mem_cons_self
  | succ m ih =>
      rw [eccCheck_code_succ, sectorCode]
      split_ifs
      · exact ih
      · simp
      · simp

/-! ## A read -/

/-- What a read makes of its `k`-th sector: the bytes of the page, corrected with the words as
they came. -/
def delivered (B : Board) (pagenum colnum : ℕ) (d : Dev) (k : ℕ) : Bytes :=
  (nandEccCorrection (shift (d.flash pagenum) (colnum + nandEccSectorSize * k))
    (eccRdbuf B pagenum colnum d k) (eccHdbuf B pagenum colnum d k)).2

section Read
variable {n : ℕ} (pagenum colnum : ℕ) (pbuffer : Bytes) {d : Dev}

/-- The codes of a read: those of the check, unless one of the waits has run out. -/
theorem nandReadpage_code (hn : nandEccSectorSize ∣ n) :
    let c := ((nandReadpage B pagenum colnum pbuffer n).val d).1
    (ReadDone B d ∧ c ∈ [0, nstaEcc1biterr, nstaEcc2biterr]) ∨
      (¬ ReadDone B d ∧ c ∈ [nstaError, nstaTimeout]) := by
  intro c
  have hmod : n % nandEccSectorSize = 0 := Nat.mod_eq_zero_of_dvd hn
  have hcheck := eccCheck_code (eccRdbuf B pagenum colnum d) (eccHdbuf B pagenum colnum d)
    (n / nandEccSectorSize) (overlay pbuffer 0 (shift (d.flash pagenum) colnum) n)
  simp only [c, nandReadpage, Prog.val_bind, val_command, state_command, Prog.val_get,
    Prog.state_get, Dev.flash_tick, hmod, ne_eq, not_true_eq_false, if_false, Prog.val_ite,
    Prog.val_pure, ReadDone]
  by_cases hrb : (B.reply .read (d.ticks .read)).RbTimeout
  · rw [if_pos hrb]
    exact Or.inr ⟨fun h => h.1 hrb, by simp⟩
  rw [if_neg hrb]
  by_cases hready : nandWaitForReady (B.reply .read (d.ticks .read)).status = nstaReady
  · rw [if_neg (not_not.mpr hready)]
    exact Or.inl ⟨⟨hrb, hready⟩, hcheck⟩
  · rw [if_pos hready]
    exact Or.inr ⟨fun h => hready h.2, by simp⟩

/-- A chip that gives a page out delivers each of its sectors. -/
theorem nandReadpage_delivers (hn : nandEccSectorSize ∣ n)
    (hrb : ¬ (B.reply .read (d.ticks .read)).RbTimeout) {k : ℕ} (hk : k < n / nandEccSectorSize)
    {t : ℕ} (ht : t < nandEccSectorSize) :
    ((nandReadpage B pagenum colnum pbuffer n).val d).2 (nandEccSectorSize * k + t) =
      delivered B pagenum colnum d k t := by
  have hmod : n % nandEccSectorSize = 0 := Nat.mod_eq_zero_of_dvd hn
  have hend := Nat.mul_le_mul_left nandEccSectorSize (Nat.succ_le_of_lt hk)
  rw [Nat.mul_div_cancel' hn, Nat.mul_succ] at hend
  have hcheck := eccCheck_sector (eccRdbuf B pagenum colnum d) (eccHdbuf B pagenum colnum d)
    (n / nandEccSectorSize) 0 0 (overlay pbuffer 0 (shift (d.flash pagenum) colnum) n) (k := k) ht
  rw [if_pos (by omega)] at hcheck
  have hval : ((nandReadpage B pagenum colnum pbuffer n).val d).2 =
      (eccCheck (eccRdbuf B pagenum colnum d) (eccHdbuf B pagenum colnum d)
        (n / nandEccSectorSize) 0
        (0, overlay pbuffer 0 (shift (d.flash pagenum) colnum) n)).2 := by
    simp only [nandReadpage, Prog.val_bind, val_command, state_command, Prog.val_get,
      Prog.state_get, Dev.flash_tick, if_neg hrb, hmod, ne_eq, not_true_eq_false, if_false]
    split <;> rfl
  rw [hval, hcheck, delivered]
  refine nandEccCorrection_congr _ _ ?_
  rw [shift_apply, overlay_inside (Nat.zero_le _) (by omega), shift_apply, shift_apply,
    Nat.sub_zero, Nat.add_assoc]

end Read

end Apollo.Nand
