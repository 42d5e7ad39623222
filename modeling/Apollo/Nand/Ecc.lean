import Apollo.Nand.Spec

/-!
# The ECC words of a page

The spare area of a page holds one ECC word for each sector of its main area.  A page
is coherent if the word of every sector that is not blank is what the ECC unit computes
of the sector.  Loading the page register keeps a page coherent; programming a blank
part does so only where the new words can be programmed over the old ones.

## Main definitions

* `storedEcc`, `SectorBlank`, `CoherentAt`, `Coherent` — the words and what they should be.
* `coherentAt_loadRegister`, `coherentAt_program` — the two ways a sector gets into a page.
* `Coherent.loadRegister`, `Coherent.program_iff` — what they make of a coherent page.
* `nandReadpage_clean` — a read of sectors whose words agree.
-/

namespace Apollo.Nand
open Lib

variable (B : Board)

/-- The ECC word stored for sector `k` of a page. -/
def storedEcc (page : Bytes) (k : ℕ) : ℕ := word (shift page (B.pageMainsize + 0x10)) k

/-- Every byte of sector `k` is `0xFF`. -/
def SectorBlank (data : Bytes) (k : ℕ) : Prop :=
  ∀ t < nandEccSectorSize, data (nandEccSectorSize * k + t) = 0xFF

/-- Sector `k` of a page is blank, or has the word that the ECC unit computes of it. -/
def CoherentAt (page : Bytes) (k : ℕ) : Prop :=
  ¬ SectorBlank page k → storedEcc B page k = hdEcc B page k

/-- The word of every sector that is not blank is what the ECC unit computes of it. -/
def Coherent (page : Bytes) : Prop :=
  ∀ k < B.pageMainsize / nandEccSectorSize, ¬ SectorBlank page k →
    storedEcc B page k = hdEcc B page k

variable {B}

/-! ## Words -/

theorem hdEcc_lt (data : Bytes) (k : ℕ) : hdEcc B data k < 2 ^ 32 := UInt32.toNat_lt _

/-- The word depends on the 512 bytes alone. -/
theorem hdEcc_congr {data data' : Bytes} {k k' : ℕ}
    (h : ∀ t < nandEccSectorSize,
      data (nandEccSectorSize * k + t) = data' (nandEccSectorSize * k' + t)) :
    hdEcc B data k = hdEcc B data' k' := by
  rw [hdEcc, hdEcc, funext fun t : Fin nandEccSectorSize => h t t.isLt]

theorem sectorBlank_congr {data data' : Bytes} {k k' : ℕ}
    (h : ∀ t < nandEccSectorSize,
      data (nandEccSectorSize * k + t) = data' (nandEccSectorSize * k' + t)) :
    SectorBlank data k ↔ SectorBlank data' k' :=
  forall₂_congr fun t ht => by rw [h t ht]

theorem storedEcc_congr {page page' : Bytes} {k : ℕ}
    (h : ∀ j < 4, page (B.pageMainsize + 0x10 + (4 * k + j)) =
      page' (B.pageMainsize + 0x10 + (4 * k + j))) : storedEcc B page k = storedEcc B page' k := by
  have h0 := h 0 (by omega)
  simp only [Nat.add_zero] at h0
  simp only [storedEcc, word, shift_apply, h0, h 1 (by omega), h 2 (by omega), h 3 (by omega)]

/-- The bytes of a sector and its word decide whether it is coherent. -/
theorem CoherentAt.congr {page page' : Bytes} {k : ℕ} (h : CoherentAt B page k)
    (hmain : ∀ t < nandEccSectorSize,
      page' (nandEccSectorSize * k + t) = page (nandEccSectorSize * k + t))
    (hecc : ∀ j < 4, page' (B.pageMainsize + 0x10 + (4 * k + j)) =
      page (B.pageMainsize + 0x10 + (4 * k + j))) : CoherentAt B page' k := by
  intro hblank
  rw [storedEcc_congr hecc, hdEcc_congr hmain]
  exact h fun hb => hblank ((sectorBlank_congr hmain).mpr hb)

/-- The main area and the ECC words decide whether a page is coherent. -/
theorem Coherent.congr {page page' : Bytes} (h : Coherent B page)
    (hsame : ∀ c, c < B.pageMainsize ∨ B.pageMainsize + 0x10 ≤ c → page' c = page c) :
    Coherent B page' := by
  intro k hk
  have hend : nandEccSectorSize * k + nandEccSectorSize ≤ B.pageMainsize := by
    have hmul := Nat.mul_le_mul_left nandEccSectorSize (Nat.succ_le_of_lt hk)
    rwa [Nat.mul_div_cancel' B.mainsize_sectors, Nat.mul_succ] at hmul
  exact CoherentAt.congr (h k hk) (fun t ht => hsame _ (Or.inl (by omega)))
    fun j _ => hsame _ (Or.inr (by omega))

/-- An erased page is coherent: it has no sector that is not blank. -/
theorem Coherent.of_blank {page : Bytes} (h : ∀ c < B.pageMainsize, page c = 0xFF) :
    Coherent B page := by
  intro k hk hblank
  refine absurd (fun t ht => h _ ?_) hblank
  have hmul := Nat.mul_le_mul_left nandEccSectorSize (Nat.succ_le_of_lt hk)
  rw [Nat.mul_div_cancel' B.mainsize_sectors, Nat.mul_succ] at hmul
  omega

/-! ## The page register -/

section Register
variable {reg page pbuffer : Bytes} {a m k : ℕ}

/-- Whole sectors loaded at a sector boundary: the main bytes. -/
theorem loadRegister_main (hk : k < B.pageMainsize / nandEccSectorSize) {t : ℕ}
    (ht : t < nandEccSectorSize) :
    loadRegister B reg (nandEccSectorSize * a) pbuffer (nandEccSectorSize * m)
        (nandEccSectorSize * k + t) =
      if a ≤ k ∧ k < a + m then pbuffer (nandEccSectorSize * (k - a) + t)
      else reg (nandEccSectorSize * k + t) := by
  have hmul := Nat.mul_le_mul_left nandEccSectorSize (Nat.succ_le_of_lt hk)
  rw [Nat.mul_div_cancel' B.mainsize_sectors, Nat.mul_succ] at hmul
  rw [loadRegister_low _ _ _ _ _ (by omega)]
  simp only [nandEccSectorSize] at ht ⊢
  by_cases hin : a ≤ k ∧ k < a + m
  · rw [if_pos hin, overlay_inside (by omega) (by omega)]
    congr 1
    omega
  · rw [if_neg hin, overlay_outside (by omega)]

/-- Whole sectors loaded at a sector boundary: the ECC bytes. -/
theorem loadRegister_ecc (hfit : nandEccSectorSize * a + nandEccSectorSize * m ≤ B.pageMainsize)
    {j : ℕ} (hj : j < 4) :
    loadRegister B reg (nandEccSectorSize * a) pbuffer (nandEccSectorSize * m)
        (B.pageMainsize + 0x10 + (4 * k + j)) =
      if a ≤ k ∧ k < a + m then wordByte (hdEcc B pbuffer (k - a)) j
      else reg (B.pageMainsize + 0x10 + (4 * k + j)) := by
  have hcol : eccColumn B (nandEccSectorSize * a) = B.pageMainsize + 0x10 + 4 * a := by
    rw [eccColumn, Nat.mul_div_cancel_left _ (by decide), Nat.mul_comm a]
  have hnum : nandEccSectorSize * m / nandEccSectorSize = m :=
    Nat.mul_div_cancel_left _ (by decide)
  simp only [loadRegister, Nat.mul_mod_right, ne_eq, not_true_eq_false, if_false, hcol, hnum]
  by_cases hin : a ≤ k ∧ k < a + m
  · have hidx : B.pageMainsize + 0x10 + (4 * k + j) - (B.pageMainsize + 0x10 + 4 * a) =
        4 * (k - a) + j := by omega
    rw [if_pos hin, overlay_inside (by omega) (by omega), hidx,
      show (4 * (k - a) + j) / 4 = k - a by omega, show (4 * (k - a) + j) % 4 = j by omega]
  · rw [if_neg hin, overlay_outside (by omega), overlay_after (by omega)]

/-- A sector has its word once it has been loaded, and keeps it when others are. -/
theorem coherentAt_loadRegister (hk : k < B.pageMainsize / nandEccSectorSize)
    (hfit : nandEccSectorSize * a + nandEccSectorSize * m ≤ B.pageMainsize)
    (h : (a ≤ k ∧ k < a + m) ∨ CoherentAt B page k) :
    CoherentAt B
      (loadRegister B page (nandEccSectorSize * a) pbuffer (nandEccSectorSize * m)) k := by
  intro hblank
  by_cases hin : a ≤ k ∧ k < a + m
  · have hmain : ∀ t < nandEccSectorSize,
        loadRegister B page (nandEccSectorSize * a) pbuffer (nandEccSectorSize * m)
          (nandEccSectorSize * k + t) = pbuffer (nandEccSectorSize * (k - a) + t) := by
      intro t ht
      rw [loadRegister_main hk ht, if_pos hin]
    rw [hdEcc_congr hmain]
    refine word_of_wordByte (hdEcc_lt _ _) fun j hj => ?_
    rw [shift_apply, loadRegister_ecc hfit hj, if_pos hin]
  · have hmain : ∀ t < nandEccSectorSize,
        loadRegister B page (nandEccSectorSize * a) pbuffer (nandEccSectorSize * m)
          (nandEccSectorSize * k + t) = page (nandEccSectorSize * k + t) := by
      intro t ht
      rw [loadRegister_main hk ht, if_neg hin]
    rw [hdEcc_congr hmain, storedEcc_congr fun j hj => by rw [loadRegister_ecc hfit hj, if_neg hin]]
    exact h.resolve_left hin fun hb => hblank ((sectorBlank_congr hmain).mpr hb)

/-- A coherent page stays so when whole sectors are loaded over it. -/
theorem Coherent.loadRegister (h : Coherent B page)
    (hfit : nandEccSectorSize * a + nandEccSectorSize * m ≤ B.pageMainsize) :
    Coherent B
      (loadRegister B page (nandEccSectorSize * a) pbuffer (nandEccSectorSize * m)) :=
  fun k hk => coherentAt_loadRegister hk hfit (Or.inr (h k hk))

/-- Every sector of a buffer that is not blank has an ECC word that can be programmed over
the one stored in the page: no bit that it needs is 0 there. -/
def EccFits (B : Board) (page : Bytes) (a : ℕ) (pbuffer : Bytes) (m : ℕ) : Prop :=
  ∀ k < m, ¬ SectorBlank pbuffer k → ∀ j < 4,
    page (B.pageMainsize + 0x10 + (4 * (a + k) + j)) &&& wordByte (hdEcc B pbuffer k) j =
      wordByte (hdEcc B pbuffer k) j

/-- What a program of whole sectors makes of a page whose part is blank: the main bytes. -/
theorem program_main (hk : k < B.pageMainsize / nandEccSectorSize)
    (hblank : ∀ j < nandEccSectorSize * m, page (nandEccSectorSize * a + j) = 0xFF) {t : ℕ}
    (ht : t < nandEccSectorSize) :
    page (nandEccSectorSize * k + t) &&& loadRegister B erasedPage (nandEccSectorSize * a) pbuffer
        (nandEccSectorSize * m) (nandEccSectorSize * k + t) =
      if a ≤ k ∧ k < a + m then pbuffer (nandEccSectorSize * (k - a) + t)
      else page (nandEccSectorSize * k + t) := by
  rw [loadRegister_main hk ht]
  by_cases hin : a ≤ k ∧ k < a + m
  · have hff := hblank (nandEccSectorSize * (k - a) + t) (by
      simp only [nandEccSectorSize] at ht ⊢
      omega)
    rw [← Nat.add_assoc, ← Nat.mul_add, Nat.add_sub_cancel' hin.1] at hff
    rw [if_pos hin, if_pos hin, hff, ff_and]
  · rw [if_neg hin, if_neg hin, erasedPage_apply, and_ff]

/-- What it makes of the ECC bytes. -/
theorem program_ecc (hfit : nandEccSectorSize * a + nandEccSectorSize * m ≤ B.pageMainsize) {j : ℕ}
    (hj : j < 4) :
    page (B.pageMainsize + 0x10 + (4 * k + j)) &&& loadRegister B erasedPage (nandEccSectorSize * a)
        pbuffer (nandEccSectorSize * m) (B.pageMainsize + 0x10 + (4 * k + j)) =
      if a ≤ k ∧ k < a + m then page (B.pageMainsize + 0x10 + (4 * k + j)) &&&
        wordByte (hdEcc B pbuffer (k - a)) j
      else page (B.pageMainsize + 0x10 + (4 * k + j)) := by
  rw [loadRegister_ecc hfit hj]
  split
  · rfl
  · rw [erasedPage_apply, and_ff]

/-- A sector has its word once it has been programmed over one that it fits, and keeps it when
others are. -/
theorem coherentAt_program (hk : k < B.pageMainsize / nandEccSectorSize)
    (hfit : nandEccSectorSize * a + nandEccSectorSize * m ≤ B.pageMainsize)
    (hblank : ∀ j < nandEccSectorSize * m, page (nandEccSectorSize * a + j) = 0xFF)
    (hfits : EccFits B page a pbuffer m) (h : ¬(a ≤ k ∧ k < a + m) → CoherentAt B page k) :
    CoherentAt B (fun c => page c &&& loadRegister B erasedPage (nandEccSectorSize * a) pbuffer
      (nandEccSectorSize * m) c) k := by
  intro hnot
  by_cases hin : a ≤ k ∧ k < a + m
  · have hdata : ∀ t < nandEccSectorSize,
        page (nandEccSectorSize * k + t) &&& loadRegister B erasedPage (nandEccSectorSize * a)
          pbuffer (nandEccSectorSize * m) (nandEccSectorSize * k + t) =
        pbuffer (nandEccSectorSize * (k - a) + t) := by
      intro t ht
      rw [program_main hk hblank ht, if_pos hin]
    rw [hdEcc_congr hdata]
    refine word_of_wordByte (hdEcc_lt _ _) fun j hj => ?_
    have hbyte := hfits (k - a) (by omega)
      (fun hb => hnot ((sectorBlank_congr hdata).mpr hb)) j hj
    rw [Nat.add_sub_cancel' hin.1] at hbyte
    rw [shift_apply, program_ecc hfit hj, if_pos hin, hbyte]
  · have hdata : ∀ t < nandEccSectorSize,
        page (nandEccSectorSize * k + t) &&& loadRegister B erasedPage (nandEccSectorSize * a)
          pbuffer (nandEccSectorSize * m) (nandEccSectorSize * k + t) =
        page (nandEccSectorSize * k + t) := by
      intro t ht
      rw [program_main hk hblank ht, if_neg hin]
    rw [hdEcc_congr hdata, storedEcc_congr fun j hj => by rw [program_ecc hfit hj, if_neg hin]]
    exact h hin fun hb => hnot ((sectorBlank_congr hdata).mpr hb)

/-- Whole sectors programmed into a blank part of a coherent page leave it coherent exactly
when their ECC words can be programmed over the old ones. -/
theorem Coherent.program_iff (h : Coherent B page)
    (hfit : nandEccSectorSize * a + nandEccSectorSize * m ≤ B.pageMainsize)
    (hblank : ∀ j < nandEccSectorSize * m, page (nandEccSectorSize * a + j) = 0xFF) :
    Coherent B (fun c => page c &&& Nand.loadRegister B erasedPage (nandEccSectorSize * a) pbuffer
      (nandEccSectorSize * m) c) ↔ EccFits B page a pbuffer m := by
  have hle : a + m ≤ B.pageMainsize / nandEccSectorSize := by
    rw [← Nat.mul_add] at hfit
    exact (Nat.le_div_iff_mul_le (by decide)).mpr (by rwa [Nat.mul_comm])
  constructor
  · intro hcoh k hk hnot j hj
    have hin : a ≤ a + k ∧ a + k < a + m := ⟨Nat.le_add_right a k, by omega⟩
    have hsub : a + k - a = k := Nat.add_sub_cancel_left a k
    have hdata : ∀ t < nandEccSectorSize,
        page (nandEccSectorSize * (a + k) + t) &&&
          Nand.loadRegister B erasedPage (nandEccSectorSize * a) pbuffer (nandEccSectorSize * m)
            (nandEccSectorSize * (a + k) + t) = pbuffer (nandEccSectorSize * k + t) := by
      intro t ht
      rw [program_main (by omega) hblank ht, if_pos hin, hsub]
    have hword := hcoh (a + k) (by omega) fun hb => hnot ((sectorBlank_congr hdata).mp hb)
    rw [hdEcc_congr hdata] at hword
    have hbyte := wordByte_word (shift (fun c => page c &&& Nand.loadRegister B erasedPage
      (nandEccSectorSize * a) pbuffer (nandEccSectorSize * m) c) (B.pageMainsize + 0x10)) (a + k) hj
    rw [← storedEcc, hword, shift_apply, program_ecc hfit hj, if_pos hin, hsub] at hbyte
    exact hbyte.symm
  · intro hfits k hk
    exact coherentAt_program hk hfit hblank hfits fun _ => h k hk

end Register

/-! ## Reading -/

/-- Where the words agree the check changes nothing. -/
theorem eccCheck_of_eq {eccrd ecchd : ℕ → ℕ} {k i : ℕ} (h : ∀ j < k, eccrd (i + j) = ecchd (i + j))
    (s : ℕ × Bytes) : eccCheck eccrd ecchd k i s = s := by
  induction k generalizing i with
  | zero => rfl
  | succ k ih =>
      have h0 := h 0 (by omega)
      rw [Nat.add_zero] at h0
      rw [eccCheck, if_neg (not_not.mpr h0)]
      refine ih fun j hj => ?_
      have hj' := h (j + 1) (by omega)
      rwa [Nat.add_comm j, ← Nat.add_assoc] at hj'

/-- A read of whole sectors whose words agree with their data reports nothing and delivers
the stored bytes. -/
theorem nandReadpage_clean (hB : B.FaultFree) (pagenum colnum : ℕ) (pbuffer : Bytes) (n : ℕ)
    (d : Dev)
    (h : ∀ k < n / nandEccSectorSize,
      word (shift (d.flash pagenum) (eccColumn B colnum)) k ^^^
          ((B.reply .read (d.ticks .read)).eccFlip k).toNat =
        hdEcc B (shift (d.flash pagenum) colnum) k) :
    (nandReadpage B pagenum colnum pbuffer n).val d =
      (0, overlay pbuffer 0 (shift (d.flash pagenum) colnum) n) := by
  have hready := (nandWaitForReady_eq_ready _).mpr
    ((waitCode_eq_zero _).mp (hB.code .read (d.ticks .read)))
  simp only [nandReadpage, Prog.val_bind, val_command, state_command, Prog.val_get, Prog.state_get,
    Dev.flash_tick, if_neg (hB.answers _ _), Prog.val_pure, if_neg (not_not.mpr hready)]
  split
  · rfl
  · rw [eccCheck_of_eq fun j hj => by rw [Nat.zero_add]; exact h j hj]

/-! ## Correction -/

/-- The 512 bytes of `g'` are those of `g`, up to one bit. -/
def Corrected (g g' : Bytes) : Prop :=
  (∀ t < nandEccSectorSize, g' t = g t) ∨
    ∃ t₀ < nandEccSectorSize, ∃ bit < 8, ∀ t < nandEccSectorSize,
      g' t = if t = t₀ then g t ^^^ 1 <<< UInt8.ofNat bit else g t

theorem Corrected.refl (g : Bytes) : Corrected g g := Or.inl fun _ _ => rfl

theorem Corrected.congr {g₁ g₁' g₂ g₂' : Bytes} (h : Corrected g₁ g₁')
    (h₁ : ∀ t < nandEccSectorSize, g₂ t = g₁ t) (h₂ : ∀ t < nandEccSectorSize, g₂' t = g₁' t) :
    Corrected g₂ g₂' := by
  rcases h with hsame | ⟨t₀, ht₀, bit, hbit, hflip⟩
  · exact Or.inl fun t ht => by rw [h₁ t ht, h₂ t ht, hsame t ht]
  · exact Or.inr ⟨t₀, ht₀, bit, hbit, fun t ht => by rw [h₁ t ht, h₂ t ht, hflip t ht]⟩

/-- The packed bits are as many as there are odd, or even, positions. -/
theorem nandEccGetOeFrom_lt {oe : ℕ} (hoe : oe < 2) (eccval i : ℕ) :
    nandEccGetOeFrom oe eccval i < 2 ^ ((i + 1 - oe) / 2) := by
  induction i with
  | zero => exact Nat.two_pow_pos _
  | succ i ih =>
      rw [nandEccGetOeFrom]
      have hmono : 2 ^ ((i + 1 - oe) / 2) ≤ 2 ^ ((i + 1 + 1 - oe) / 2) :=
        Nat.pow_le_pow_right (by omega) (by omega)
      split
      · rename_i hbit
        have hhalf : i >>> 1 = (i + 1 - oe) / 2 := by
          rw [Nat.shiftRight_eq_div_pow]
          omega
        have hnext : (i + 1 + 1 - oe) / 2 = (i + 1 - oe) / 2 + 1 := by omega
        rw [hhalf, Nat.one_shiftLeft, hnext, Nat.pow_succ]
        omega
      · omega

theorem nandEccGetOe_lt {oe : ℕ} (hoe : oe < 2) (eccval : ℕ) : nandEccGetOe oe eccval < 2 ^ 12 :=
  lt_of_lt_of_le (nandEccGetOeFrom_lt hoe eccval 24) (Nat.pow_le_pow_right (by omega) (by omega))

/-- The correction of a sector changes at most one bit of it, and nothing behind it. -/
theorem nandEccCorrection_spec (data : Bytes) (eccrd ecccl : ℕ) :
    Corrected data (nandEccCorrection data eccrd ecccl).2 ∧
      ∀ t, nandEccSectorSize ≤ t → (nandEccCorrection data eccrd ecccl).2 t = data t := by
  have hpos : (nandEccGetOe 1 eccrd ^^^ nandEccGetOe 1 ecccl) / 8 < nandEccSectorSize := by
    have hxor := Nat.xor_lt_two_pow (nandEccGetOe_lt Nat.one_lt_two eccrd)
      (nandEccGetOe_lt Nat.one_lt_two ecccl)
    simp only [nandEccSectorSize]
    omega
  set errorpos := nandEccGetOe 1 eccrd ^^^ nandEccGetOe 1 ecccl with herrorpos
  simp only [nandEccCorrection, ← herrorpos]
  split
  · refine ⟨Or.inr ⟨errorpos / 8, hpos, errorpos % 8, Nat.mod_lt _ (by omega), fun t _ => ?_⟩,
      fun t ht => Function.update_of_ne (by omega) _ _⟩
    · dsimp only
      by_cases heq : t = errorpos / 8
      · rw [if_pos heq, heq, Function.update_self]
      · rw [if_neg heq, Function.update_of_ne heq]
  · exact ⟨.refl data, fun _ _ => rfl⟩

/-- One sector of the check: the buffer is corrected in that sector or left as it is. -/
theorem eccCheck_succ (eccrd ecchd : ℕ → ℕ) (k i errsta : ℕ) (p : Bytes) :
    ∃ e q, eccCheck eccrd ecchd (k + 1) i (errsta, p) = eccCheck eccrd ecchd k (i + 1) (e, q) ∧
      Corrected (shift p (nandEccSectorSize * i)) (shift q (nandEccSectorSize * i)) ∧
      ∀ x, ¬(nandEccSectorSize * i ≤ x ∧ x < nandEccSectorSize * i + nandEccSectorSize) →
        q x = p x := by
  by_cases heq : eccrd i = ecchd i
  · rw [eccCheck, if_neg (not_not.mpr heq)]
    exact ⟨errsta, p, rfl, .refl _, fun _ _ => rfl⟩
  · obtain ⟨hcorr, hbehind⟩ :=
      nandEccCorrection_spec (shift p (nandEccSectorSize * i)) (eccrd i) (ecchd i)
    rw [eccCheck, if_pos heq]
    generalize nandEccCorrection (shift p (nandEccSectorSize * i)) (eccrd i) (ecchd i) = r
      at hcorr hbehind ⊢
    obtain ⟨res, q⟩ := r
    dsimp only at hcorr hbehind
    refine ⟨_, _, rfl, hcorr.congr (fun _ _ => rfl) fun t _ => ?_, fun x hx => ?_⟩
    · rw [shift_apply, graft_from (Nat.le_add_right _ _), Nat.add_sub_cancel_left]
    · by_cases hle : nandEccSectorSize * i ≤ x
      · have hlast := hbehind (x - nandEccSectorSize * i) (by omega)
        rw [shift_apply, Nat.add_sub_cancel' hle] at hlast
        rw [graft_from hle, hlast]
      · exact graft_before (by omega)

/-- The check corrects each of its sectors on its own, and leaves the other bytes alone. -/
theorem eccCheck_spec (eccrd ecchd : ℕ → ℕ) (k i errsta : ℕ) (p : Bytes) :
    (∀ c, i ≤ c → c < i + k → Corrected (shift p (nandEccSectorSize * c))
      (shift (eccCheck eccrd ecchd k i (errsta, p)).2 (nandEccSectorSize * c))) ∧
    ∀ x, ¬(nandEccSectorSize * i ≤ x ∧ x < nandEccSectorSize * (i + k)) →
      (eccCheck eccrd ecchd k i (errsta, p)).2 x = p x := by
  induction k generalizing i errsta p with
  | zero => exact ⟨fun c h₁ h₂ => absurd h₁ (by omega), fun x _ => rfl⟩
  | succ k ih =>
      obtain ⟨e, q, hcheck, hcorr, hother⟩ := eccCheck_succ eccrd ecchd k i errsta p
      obtain ⟨hlater, hrest⟩ := ih (i + 1) e q
      rw [hcheck]
      simp only [nandEccSectorSize] at hcorr hother hlater hrest ⊢
      refine ⟨fun c h₁ h₂ => ?_, fun x hx => ?_⟩
      · by_cases hci : c = i
        · rw [hci]
          refine hcorr.congr (fun _ _ => rfl) fun t ht => ?_
          simp only [nandEccSectorSize] at ht
          rw [shift_apply, shift_apply, hrest _ (by omega)]
        · refine (hlater c (by omega) (by omega)).congr (fun t _ => ?_) fun _ _ => rfl
          rw [shift_apply, shift_apply, hother _ (by omega)]
      · rw [hrest x (by omega), hother x (by omega)]

/-- Whatever a read of whole sectors reports, it delivers each sector of the page up to one
bit. -/
theorem nandReadpage_corrected (hB : B.ReadsOk) (pagenum colnum : ℕ) (pbuffer : Bytes) {n : ℕ}
    (hn : nandEccSectorSize ∣ n) (d : Dev) {c : ℕ} (hc : c < n / nandEccSectorSize) :
    Corrected (shift (d.flash pagenum) (colnum + nandEccSectorSize * c))
      (shift ((nandReadpage B pagenum colnum pbuffer n).val d).2 (nandEccSectorSize * c)) := by
  have hmod : n % nandEccSectorSize = 0 := Nat.mod_eq_zero_of_dvd hn
  have hend := Nat.mul_le_mul_left nandEccSectorSize (Nat.succ_le_of_lt hc)
  rw [Nat.mul_div_cancel' hn, Nat.mul_succ] at hend
  obtain ⟨hcheck, -⟩ := eccCheck_spec
    (fun k => word (shift (d.flash pagenum) (eccColumn B colnum)) k ^^^
      ((B.reply .read (d.ticks .read)).eccFlip k).toNat)
    (hdEcc B (shift (d.flash pagenum) colnum)) (n / nandEccSectorSize) 0 0
    (overlay pbuffer 0 (shift (d.flash pagenum) colnum) n)
  refine (hcheck c (Nat.zero_le _) (by omega)).congr (fun t ht => ?_) fun t _ => ?_
  · rw [shift_apply, shift_apply, overlay_inside (Nat.zero_le _) (by omega), shift_apply,
      Nat.sub_zero, Nat.add_assoc]
  · simp only [nandReadpage, Prog.val_bind, val_command, state_command, Prog.val_get,
      Prog.state_get, Dev.flash_tick, if_neg (hB _), hmod, ne_eq, not_true_eq_false, if_false]
    split <;> rfl

end Apollo.Nand
