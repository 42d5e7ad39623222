import Apollo.Nand.Hamming

/-!
# The code of a read

The check of `nand_readpage` goes through the sectors of the range and keeps one code,
which every sector whose words differ overwrites.  The code that is left is that of the
last such sector, whatever the sectors before it were.

## Main definitions

* `sectorCode` — what the check makes of one sector.
* `LastDiffers` — what it makes of the last sector whose words differ.
* `ReportsWorst`, `reportsWorst_iff` — the code of a read is that of its worst sector.
-/

namespace Apollo.Nand
open Lib

/-! ## One sector -/

/-- The check bits differ as those of one wrong data bit do. -/
def Correctable (eccrd ecccl : ℕ) : Prop :=
  nandEccGetOe 1 eccrd ^^^ nandEccGetOe 0 eccrd ^^^ nandEccGetOe 1 ecccl ^^^
    nandEccGetOe 0 ecccl = 0xFFF

instance (eccrd ecccl : ℕ) : Decidable (Correctable eccrd ecccl) :=
  inferInstanceAs (Decidable (_ = _))

theorem nandEccCorrection_code (data : Bytes) (eccrd ecccl : ℕ) :
    (nandEccCorrection data eccrd ecccl).1 = if Correctable eccrd ecccl then 0 else 1 := by
  by_cases hc : Correctable eccrd ecccl
  · rw [if_pos hc]
    exact congrArg Prod.fst (if_pos hc)
  · rw [if_neg hc]
    exact congrArg Prod.fst (if_neg hc)

/-- The code of a sector with these words, stored and computed: 0 if they agree, else
`NSTA_ECC1BITERR` or `NSTA_ECC2BITERR`. -/
def sectorCode (eccrd ecccl : ℕ) : ℕ :=
  if eccrd = ecccl then 0 else if Correctable eccrd ecccl then nstaEcc1biterr else nstaEcc2biterr

theorem sectorCode_of_eq {eccrd ecccl : ℕ} (h : eccrd = ecccl) : sectorCode eccrd ecccl = 0 :=
  if_pos h

/-- A sector whose words the correction refuses. -/
theorem sectorCode_of_refused {eccrd ecccl : ℕ} {data data' : Bytes} (hne : eccrd ≠ ecccl)
    (h : nandEccCorrection data eccrd ecccl = (1, data')) :
    sectorCode eccrd ecccl = nstaEcc2biterr := by
  have hcode := nandEccCorrection_code data eccrd ecccl
  rw [h] at hcode
  rw [sectorCode, if_neg hne, if_neg]
  intro hc
  rw [if_pos hc] at hcode
  exact Nat.one_ne_zero hcode

/-- A sector in which a bit is corrected. -/
theorem sectorCode_of_corrected {eccrd ecccl : ℕ} {data data' : Bytes} (hne : eccrd ≠ ecccl)
    (h : nandEccCorrection data eccrd ecccl = (0, data')) :
    sectorCode eccrd ecccl = nstaEcc1biterr := by
  have hcode := nandEccCorrection_code data eccrd ecccl
  rw [h] at hcode
  rw [sectorCode, if_neg hne, if_pos]
  by_contra hc
  rw [if_neg hc] at hcode
  exact Nat.zero_ne_one hcode

/-! ## A range of sectors -/

section Range
variable {eccrd ecchd : ℕ → ℕ} {m e : ℕ}

/-- `e` is the code of the last of `m` sectors whose words differ. -/
def LastDiffers (eccrd ecchd : ℕ → ℕ) (m e : ℕ) : Prop :=
  ∃ k < m, sectorCode (eccrd k) (ecchd k) = e ∧ ∀ j, k < j → j < m → eccrd j = ecchd j

/-- None of `m` sectors is uncorrectable. -/
def NoneUncorrectable (eccrd ecchd : ℕ → ℕ) (m : ℕ) : Prop :=
  ∀ k < m, sectorCode (eccrd k) (ecchd k) ≠ nstaEcc2biterr

/-- What the check has done after one sector does not depend on how many are left. -/
theorem eccCheck_step (eccrd ecchd : ℕ → ℕ) (i : ℕ) (s : ℕ × Bytes) :
    ∃ s', ∀ k, eccCheck eccrd ecchd (k + 1) i s = eccCheck eccrd ecchd k (i + 1) s' := by
  obtain ⟨errsta, p⟩ := s
  by_cases heq : eccrd i = ecchd i
  · exact ⟨(errsta, p), fun k => by rw [eccCheck, if_neg (not_not.mpr heq)]⟩
  · exact ⟨_, fun k => by rw [eccCheck, if_pos heq]⟩

/-- One more sector at the end of the range. -/
theorem eccCheck_code_succ (eccrd ecchd : ℕ → ℕ) (k i : ℕ) (s : ℕ × Bytes) :
    (eccCheck eccrd ecchd (k + 1) i s).1 =
      if eccrd (i + k) = ecchd (i + k) then (eccCheck eccrd ecchd k i s).1
      else sectorCode (eccrd (i + k)) (ecchd (i + k)) := by
  induction k generalizing i s with
  | zero =>
      obtain ⟨errsta, p⟩ := s
      simp only [Nat.add_zero, eccCheck, sectorCode, nandEccCorrection_code]
      by_cases heq : eccrd i = ecchd i
      · rw [if_neg (not_not.mpr heq), if_pos heq]
      · rw [if_pos heq, if_neg heq, if_neg heq]
        by_cases hc : Correctable (eccrd i) (ecchd i)
        · simp [hc]
        · simp [hc]
  | succ k ih =>
      have hindex : i + 1 + k = i + (k + 1) := by omega
      obtain ⟨s', hstep⟩ := eccCheck_step eccrd ecchd i s
      rw [hstep (k + 1), hstep k, ih, hindex]

/-- The code that the check leaves is that of the last sector whose words differ. -/
theorem eccCheck_code_eq (eccrd ecchd : ℕ → ℕ) (m : ℕ) (he : e ≠ 0) (p : Bytes) :
    (eccCheck eccrd ecchd m 0 (0, p)).1 = e ↔ LastDiffers eccrd ecchd m e := by
  induction m with
  | zero =>
      constructor
      · intro h
        exact absurd h.symm he
      · rintro ⟨k, hk, -⟩
        exact absurd hk (Nat.not_lt_zero k)
  | succ m ih =>
      rw [eccCheck_code_succ, Nat.zero_add]
      by_cases heq : eccrd m = ecchd m
      · rw [if_pos heq, ih]
        constructor
        · rintro ⟨k, hk, hcode, hlast⟩
          refine ⟨k, Nat.lt_succ_of_lt hk, hcode, fun j hkj hj => ?_⟩
          rcases Nat.lt_succ_iff_lt_or_eq.mp hj with hlt | rfl
          · exact hlast j hkj hlt
          · exact heq
        · rintro ⟨k, hk, hcode, hlast⟩
          have hne : k ≠ m := by
            rintro rfl
            rw [sectorCode_of_eq heq] at hcode
            exact he hcode.symm
          exact ⟨k, by omega, hcode, fun j hkj hj => hlast j hkj (Nat.lt_succ_of_lt hj)⟩
      · rw [if_neg heq]
        constructor
        · intro hcode
          exact ⟨m, Nat.lt_succ_self m, hcode, fun j hmj hj => by omega⟩
        · rintro ⟨k, hk, hcode, hlast⟩
          have hkm : k = m := by
            by_contra hne
            exact heq (hlast m (by omega) (Nat.lt_succ_self m))
          rwa [hkm] at hcode

end Range

/-! ## A read -/

/-- `ecc_rdbuf` of a read: the words stored for its sectors, as they pass the bus. -/
def eccRdbuf (B : Board) (pagenum colnum : ℕ) (d : Dev) (k : ℕ) : ℕ :=
  word (shift (d.flash pagenum) (eccColumn B colnum)) k ^^^
    ((B.reply .read (d.ticks .read)).eccFlip k).toNat

/-- `ecc_hdbuf` of a read: the words the unit computes of its sectors. -/
def eccHdbuf (B : Board) (pagenum colnum : ℕ) (d : Dev) : ℕ → ℕ :=
  hdEcc B (shift (d.flash pagenum) colnum)

/-- The chip delivers the page that is read next, and says that it is ready. -/
def ReadDone (B : Board) (d : Dev) : Prop :=
  ¬ (B.reply .read (d.ticks .read)).RbTimeout ∧
    nandWaitForReady (B.reply .read (d.ticks .read)).status = nstaReady

/-- Every sector that the next read of `n` bytes covers is clean or is corrected. -/
abbrev ReadsCorrectable (B : Board) (pagenum colnum n : ℕ) (d : Dev) : Prop :=
  NoneUncorrectable (eccRdbuf B pagenum colnum d) (eccHdbuf B pagenum colnum d)
    (n / nandEccSectorSize)

/-- `e` is the code of the last sector whose words the next read finds different. -/
abbrev ReadEndsOn (B : Board) (pagenum colnum n : ℕ) (d : Dev) (e : ℕ) : Prop :=
  ReadDone B d ∧ LastDiffers (eccRdbuf B pagenum colnum d) (eccHdbuf B pagenum colnum d)
    (n / nandEccSectorSize) e

section Read
variable {B : Board} {pagenum colnum n e : ℕ} {pbuffer : Bytes} {d : Dev}

/-- Either ECC code of a read is that of the last sector whose words differ. -/
theorem nandReadpage_code_eq (pagenum colnum : ℕ) (d : Dev) (hn : nandEccSectorSize ∣ n)
    (he : e = nstaEcc1biterr ∨ e = nstaEcc2biterr) (pbuffer : Bytes) :
    ((nandReadpage B pagenum colnum pbuffer n).val d).1 = e ↔
      ReadEndsOn B pagenum colnum n d e := by
  have hmod : n % nandEccSectorSize = 0 := Nat.mod_eq_zero_of_dvd hn
  have hne : e ≠ 0 := by
    rcases he with rfl | rfl
    · decide
    · decide
  have hcheck := eccCheck_code_eq (eccRdbuf B pagenum colnum d) (eccHdbuf B pagenum colnum d)
    (n / nandEccSectorSize) hne (overlay pbuffer 0 (shift (d.flash pagenum) colnum) n)
  rw [ReadEndsOn, ReadDone, ← hcheck]
  simp only [nandReadpage, Prog.val_bind, val_command, state_command, Prog.val_get,
    Prog.state_get, Dev.flash_tick, hmod, ne_eq, not_true_eq_false, if_false, Prog.val_ite,
    Prog.val_pure]
  by_cases hrb : (B.reply .read (d.ticks .read)).RbTimeout
  · rw [if_pos hrb]
    refine ⟨fun h => ?_, fun h => absurd hrb h.1.1⟩
    rcases he with rfl | rfl <;> cases h
  rw [if_neg hrb]
  by_cases hready : nandWaitForReady (B.reply .read (d.ticks .read)).status = nstaReady
  · rw [if_neg (not_not.mpr hready)]
    exact ⟨fun h => ⟨⟨hrb, hready⟩, h⟩, fun h => h.2⟩
  · rw [if_pos hready]
    refine ⟨fun h => ?_, fun h => absurd h.1.2 hready⟩
    rcases he with rfl | rfl <;> cases h

/-- A code that is that of the worst of `m` sectors: `NSTA_ECC1BITERR` only if one of them was
corrected and none was uncorrectable, `NSTA_ECC2BITERR` whenever one was uncorrectable. -/
structure ReportsWorst (code : ℕ) (eccrd ecchd : ℕ → ℕ) (m : ℕ) : Prop where
  corrected : code = nstaEcc1biterr →
    (∃ k < m, sectorCode (eccrd k) (ecchd k) = nstaEcc1biterr) ∧ NoneUncorrectable eccrd ecchd m
  uncorrectable : (∃ k < m, sectorCode (eccrd k) (ecchd k) = nstaEcc2biterr) →
    code = nstaEcc2biterr

/-- A read of whole sectors reports its worst sector just when none is uncorrectable, or the
last one whose words differ is and the read ends without an error. -/
theorem reportsWorst_iff (hn : nandEccSectorSize ∣ n) :
    ReportsWorst ((nandReadpage B pagenum colnum pbuffer n).val d).1
        (eccRdbuf B pagenum colnum d) (eccHdbuf B pagenum colnum d) (n / nandEccSectorSize) ↔
      ReadsCorrectable B pagenum colnum n d ∨
        ReadEndsOn B pagenum colnum n d nstaEcc2biterr := by
  have hone := nandReadpage_code_eq (B := B) pagenum colnum d hn (Or.inl rfl) pbuffer
  have htwo := nandReadpage_code_eq (B := B) pagenum colnum d hn (Or.inr rfl) pbuffer
  constructor
  · intro h
    by_cases hnone : ReadsCorrectable B pagenum colnum n d
    · exact Or.inl hnone
    · simp only [NoneUncorrectable, not_forall, not_not] at hnone
      obtain ⟨k, hk, hbad⟩ := hnone
      exact Or.inr (htwo.mp (h.uncorrectable ⟨k, hk, hbad⟩))
  · rintro (hnone | hlast)
    · refine ⟨fun hcode => ⟨?_, hnone⟩, fun ⟨k, hk, hbad⟩ => absurd hbad (hnone k hk)⟩
      obtain ⟨-, k, hk, hcorr, -⟩ := hone.mp hcode
      exact ⟨k, hk, hcorr⟩
    · have hcode := htwo.mpr hlast
      refine ⟨fun h => ?_, fun _ => hcode⟩
      rw [hcode] at h
      cases h

end Read

/-! ## A page of zeros with three wrong bits -/

/-- An ECC unit that computes the check bits of its 512 bytes. -/
def hammingEcc (data : Fin nandEccSectorSize → UInt8) : UInt32 :=
  UInt32.ofNat (eccWord fun t => if h : t < nandEccSectorSize then data ⟨t, h⟩ else 0)

/-- Two wrong bits in the first sector, one in the second; the words are still those of the
zeros. -/
def wornPage : Bytes := fun c => if c = 0 then 3 else if c = 512 then 1 else 0

theorem eccWord_lt (buf : Bytes) : eccWord buf < 2 ^ 32 :=
  lt_trans (Nat.ofBits_lt_two_pow _) (by decide)

theorem hdEcc_hammingEcc (G : Geometry) (data : Bytes) (k : ℕ) :
    hdEcc (.ideal G hammingEcc) data k =
      eccWord fun t => if t < nandEccSectorSize then data (nandEccSectorSize * k + t) else 0 := by
  rw [hdEcc]
  exact UInt32.toNat_ofNat_of_lt' (eccWord_lt _)

theorem isEccWord_zeros : IsEccWord 0 fun _ => 0 := by
  intro k _
  have hbits : dataBit (fun _ => 0) = fun _ => false := by
    funext a
    exact Nat.zero_testBit _
  simp [hbits, checkBit, parity]

/-- Words that are not those of one sector are different. -/
theorem IsEccWord.ne {eccrd ecccl : ℕ} {buf buf' : Bytes} {e : ℕ → Bool}
    (hrd : IsEccWord eccrd buf) (hcl : IsEccWord ecccl buf')
    (he : ∀ a, dataBit buf' a = (dataBit buf a ^^ e a)) {k : ℕ} (hk : k < 12) {b : Bool}
    (hodd : checkBit 12 k b e = true) : eccrd ≠ ecccl := by
  rintro rfl
  obtain ⟨htrue, hfalse⟩ := hrd.differ hcl he hk
  rw [Bool.xor_self] at htrue hfalse
  cases b
  · rw [hodd] at hfalse
    cases hfalse
  · rw [hodd] at htrue
    cases htrue

/-- Two wrong bits are refused. -/
theorem sectorCode_double :
    sectorCode 0 (eccWord (flipBit (flipBit (fun _ => 0) 0) 1)) = nstaEcc2biterr := by
  have hcl := isEccWord_eccWord (flipBit (flipBit (fun _ => 0) 0) 1)
  refine sectorCode_of_refused ?_
    (nandEccCorrection_double (by decide) (by decide) isEccWord_zeros hcl)
  refine isEccWord_zeros.ne hcl
    (e := fun a => decide (a = 0) ^^ decide (a = 1))
    (fun a => by rw [dataBit_flipBit, dataBit_flipBit, Bool.xor_assoc]) (Nat.zero_lt_succ 11)
    (b := true) ?_
  rw [checkBit_xor, checkBit_single (by decide), checkBit_single (by decide)]
  rfl

/-- One wrong bit is corrected. -/
theorem sectorCode_single : sectorCode 0 (eccWord (flipBit (fun _ => 0) 0)) = nstaEcc1biterr := by
  have hcl := isEccWord_eccWord (flipBit (fun _ => 0) 0)
  refine sectorCode_of_corrected ?_ (nandEccCorrection_single (by decide) isEccWord_zeros hcl)
  refine isEccWord_zeros.ne hcl (dataBit_flipBit _ 0) (Nat.zero_lt_succ 11) (b := false) ?_
  rw [checkBit_single (by decide)]
  rfl

section Worn
variable {G : Geometry} {pagenum : ℕ} {d : Dev}

/-- The words that a read of the first two sectors compares. -/
theorem wornPage_words (hpage : d.flash pagenum = wornPage) :
    (∀ k < 2, eccRdbuf (.ideal G hammingEcc) pagenum 0 d k = 0) ∧
      eccHdbuf (.ideal G hammingEcc) pagenum 0 d 0 = eccWord (flipBit (flipBit (fun _ => 0) 0) 1) ∧
      eccHdbuf (.ideal G hammingEcc) pagenum 0 d 1 = eccWord (flipBit (fun _ => 0) 0) := by
  refine ⟨fun k _ => ?_, ?_, ?_⟩
  · have hzero : ∀ x, shift wornPage (eccColumn (.ideal G hammingEcc) 0) x = 0 := by
      intro x
      have hle : 512 ≤ G.pageMainsize := Nat.le_of_dvd G.mainsize_pos G.mainsize_sectors
      have hcol : G.pageMainsize + 0x10 ≤ eccColumn (.ideal G hammingEcc) 0 := Nat.le_add_right _ _
      rw [shift_apply, wornPage, if_neg (by omega), if_neg (by omega)]
    have hflip : (((Board.ideal G hammingEcc).reply .read (d.ticks .read)).eccFlip k).toNat = 0 :=
      rfl
    rw [eccRdbuf, hpage, hflip, Nat.xor_zero, word, hzero, hzero, hzero, hzero]
    rfl
  · rw [eccHdbuf, hpage, hdEcc_hammingEcc]
    congr 1
    funext t
    by_cases ht : t = 0
    · subst ht
      rfl
    · have hnext : t < nandEccSectorSize → ¬ t = 512 := fun hlt => Nat.ne_of_lt hlt
      simpa [wornPage, flipBit, Function.update, ht] using hnext
  · rw [eccHdbuf, hpage, hdEcc_hammingEcc]
    congr 1
    funext t
    by_cases ht : t = 0
    · subst ht
      rfl
    · simp [wornPage, flipBit, Function.update, ht]

end Worn
end Apollo.Nand
