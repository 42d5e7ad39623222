import Apollo.Lib.Parity
import Apollo.Nand.Ecc
import Mathlib.Data.Nat.Bitwise

/-!
# The Hamming correction

The ECC word of a sector packs the check bits of its 4096 data bits: bit `2k + 1` for the
data whose address has bit `k` set, bit `2k` for the rest.  `nand_ecc_correction` takes
the words apart again and compares them: if every pair differs in exactly one half, the
upper halves are the address of the one wrong bit.

## Main definitions

* `dataBit`, `flipBit` — the bits of a sector.
* `IsEccWord`, `eccWord` — what the ECC word of a sector is.
* `nandEccCorrection_single`, `_double`, `_stored` — one data bit, two data bits, one bit of
  the stored word.
* `nandEccCorrection_hamming` — all of them, and that nothing else is changed.
-/

namespace Apollo.Nand
open Lib

/-! ## Data bits -/

/-- Bit `a` of a buffer. -/
def dataBit (buf : Bytes) (a : ℕ) : Bool := (buf (a / 8)).toNat.testBit (a % 8)

/-- The buffer with bit `p` inverted. -/
def flipBit (buf : Bytes) (p : ℕ) : Bytes :=
  Function.update buf (p / 8) (buf (p / 8) ^^^ 1 <<< UInt8.ofNat (p % 8))

theorem toNat_one_shiftLeft : ∀ r < 8, ((1 : UInt8) <<< UInt8.ofNat r).toNat = 2 ^ r := by
  decide

theorem flipBit_flipBit (buf : Bytes) (p : ℕ) : flipBit (flipBit buf p) p = buf := by
  rw [flipBit, flipBit, Function.update_self, Function.update_idem, UInt8.xor_assoc,
    UInt8.xor_self, UInt8.xor_zero, Function.update_eq_self]

/-- The inverted bit is the one that differs. -/
theorem dataBit_flipBit (buf : Bytes) (p a : ℕ) :
    dataBit (flipBit buf p) a = (dataBit buf a ^^ decide (a = p)) := by
  by_cases hbyte : a / 8 = p / 8
  · have hbit : decide (p % 8 = a % 8) = decide (a = p) := decide_eq_decide.mpr (by omega)
    rw [dataBit, dataBit, flipBit, hbyte, Function.update_self, UInt8.toNat_xor, Nat.testBit_xor,
      toNat_one_shiftLeft _ (Nat.mod_lt _ (by omega)), Nat.testBit_two_pow, hbit]
  · have hne : ¬ a = p := fun h => hbyte (by rw [h])
    rw [dataBit, dataBit, flipBit, Function.update_of_ne hbyte, decide_eq_false hne, Bool.xor_false]

/-! ## The ECC word -/

/-- `w` is an ECC word of the sector: each pair of its low 24 bits is a pair of check bits. -/
def IsEccWord (w : ℕ) (buf : Bytes) : Prop :=
  ∀ k < 12, w.testBit (2 * k + 1) = checkBit 12 k true (dataBit buf) ∧
    w.testBit (2 * k) = checkBit 12 k false (dataBit buf)

/-- The ECC word with nothing in its upper byte. -/
def eccWord (buf : Bytes) : ℕ :=
  Nat.ofBits fun i : Fin 24 => checkBit 12 (i.val / 2) (i.val % 2 = 1) (dataBit buf)

theorem isEccWord_eccWord (buf : Bytes) : IsEccWord (eccWord buf) buf := by
  intro k hk
  have hodd : (2 * k + 1) / 2 = k ∧ (2 * k + 1) % 2 = 1 := by omega
  have heven : 2 * k / 2 = k ∧ 2 * k % 2 ≠ 1 := by omega
  refine ⟨?_, ?_⟩
  · rw [eccWord, Nat.testBit_ofBits_lt _ _ (by omega)]
    simp only [hodd.1, hodd.2, decide_true]
  · rw [eccWord, Nat.testBit_ofBits_lt _ _ (by omega)]
    simp only [heven.1, decide_eq_false heven.2]

theorem testBit_nandEccGetOeFrom {oe : ℕ} (hoe : oe < 2) (eccval i k : ℕ) :
    (nandEccGetOeFrom oe eccval i).testBit k =
      (decide (2 * k + oe < i) && eccval.testBit (2 * k + oe)) := by
  induction i with
  | zero => simp [nandEccGetOeFrom]
  | succ i ih =>
      have hset : eccval >>> i &&& 0x01 ≠ 0 ↔ eccval.testBit i = true := by
        rw [Nat.testBit, bne_iff_ne, Nat.and_comm]
      simp only [nandEccGetOeFrom, hset]
      by_cases hact : i % 2 = oe ∧ eccval.testBit i = true
      · -- the bit goes above those that have been packed
        obtain ⟨hpar, hbit⟩ := hact
        have hhalf : i >>> 1 = i / 2 := Nat.shiftRight_eq_div_pow i 1
        have hlt : nandEccGetOeFrom oe eccval i < 2 ^ (i / 2) := by
          have := nandEccGetOeFrom_lt hoe eccval i
          rwa [show (i + 1 - oe) / 2 = i / 2 by omega] at this
        have hor := Nat.two_pow_add_eq_or_of_lt hlt 1
        rw [Nat.mul_one] at hor
        rw [if_pos ⟨hpar, hbit⟩, hhalf, Nat.one_shiftLeft, Nat.add_comm, hor, Nat.testBit_or, ih,
          Nat.testBit_two_pow]
        by_cases hk : 2 * k + oe = i
        · simp only [hk, hbit, show i / 2 = k by omega, decide_true, Bool.true_or, Nat.lt_succ_self,
            Bool.and_self]
        · rw [decide_eq_false (show ¬ i / 2 = k by omega), Bool.false_or,
            decide_eq_decide.mpr (show 2 * k + oe < i ↔ 2 * k + oe < i + 1 by omega)]
      · rw [if_neg hact, Nat.add_zero, ih]
        by_cases hk : 2 * k + oe = i
        · have hbit : eccval.testBit i = false := by
            rw [← Bool.not_eq_true]
            exact fun h => hact ⟨by omega, h⟩
          rw [hk, hbit, Bool.and_false, Bool.and_false]
        · rw [decide_eq_decide.mpr (show 2 * k + oe < i ↔ 2 * k + oe < i + 1 by omega)]

/-- The halves of an ECC word, packed, are its odd and its even bits. -/
theorem testBit_nandEccGetOe {oe : ℕ} (hoe : oe < 2) (eccval k : ℕ) :
    (nandEccGetOe oe eccval).testBit k = (decide (k < 12) && eccval.testBit (2 * k + oe)) := by
  rw [nandEccGetOe, testBit_nandEccGetOeFrom hoe,
    decide_eq_decide.mpr (show 2 * k + oe < 24 ↔ k < 12 by omega)]

/-! ## Comparing two words -/

section Compare
variable {eccrd ecccl : ℕ}

/-- The check of `nand_ecc_correction`: every pair of check bits differs in exactly one half. -/
theorem eccchk_eq : nandEccGetOe 1 eccrd ^^^ nandEccGetOe 0 eccrd ^^^ nandEccGetOe 1 ecccl ^^^
      nandEccGetOe 0 ecccl = 0xFFF ↔
    ∀ k < 12, ((eccrd.testBit (2 * k + 1) ^^ ecccl.testBit (2 * k + 1)) ^^
      (eccrd.testBit (2 * k) ^^ ecccl.testBit (2 * k))) = true := by
  have hbit : ∀ k, (nandEccGetOe 1 eccrd ^^^ nandEccGetOe 0 eccrd ^^^ nandEccGetOe 1 ecccl ^^^
      nandEccGetOe 0 ecccl).testBit k = (decide (k < 12) &&
        ((eccrd.testBit (2 * k + 1) ^^ ecccl.testBit (2 * k + 1)) ^^
          (eccrd.testBit (2 * k) ^^ ecccl.testBit (2 * k)))) := by
    intro k
    simp only [Nat.testBit_xor, testBit_nandEccGetOe Nat.one_lt_two,
      testBit_nandEccGetOe Nat.two_pos, Nat.add_zero]
    cases decide (k < 12)
    · rfl
    · simp only [Bool.true_and, Bool.xor_assoc, Bool.xor_left_comm]
  have hall : ∀ k, (0xFFF : ℕ).testBit k = decide (k < 12) := Nat.testBit_two_pow_sub_one 12
  constructor
  · intro h k hk
    have hk' := hbit k
    rw [h, hall, decide_eq_true hk, Bool.true_and] at hk'
    exact hk'.symm
  · intro h
    refine Nat.eq_of_testBit_eq fun k => ?_
    rw [hbit, hall]
    by_cases hk : k < 12
    · rw [h k hk, Bool.and_true]
    · rw [decide_eq_false hk, Bool.false_and]

/-- A word that fails the check leaves the data alone. -/
theorem nandEccCorrection_of_not (data : Bytes)
    (h : ∃ k < 12, ((eccrd.testBit (2 * k + 1) ^^ ecccl.testBit (2 * k + 1)) ^^
      (eccrd.testBit (2 * k) ^^ ecccl.testBit (2 * k))) = false) :
    nandEccCorrection data eccrd ecccl = (1, data) := by
  obtain ⟨k, hk, hfalse⟩ := h
  refine if_neg fun hchk => ?_
  rw [eccchk_eq.mp hchk k hk] at hfalse
  cases hfalse

/-- One that passes it has the bit inverted that the upper halves name. -/
theorem nandEccCorrection_of_forall (data : Bytes) {p : ℕ} (hp : p < 2 ^ 12)
    (h : ∀ k < 12, ((eccrd.testBit (2 * k + 1) ^^ ecccl.testBit (2 * k + 1)) ^^
      (eccrd.testBit (2 * k) ^^ ecccl.testBit (2 * k))) = true)
    (hpos : ∀ k < 12, (eccrd.testBit (2 * k + 1) ^^ ecccl.testBit (2 * k + 1)) = p.testBit k) :
    nandEccCorrection data eccrd ecccl = (0, flipBit data p) := by
  have herr : nandEccGetOe 1 eccrd ^^^ nandEccGetOe 1 ecccl = p := by
    refine eq_of_testBit_lt (Nat.xor_lt_two_pow (nandEccGetOe_lt Nat.one_lt_two _)
      (nandEccGetOe_lt Nat.one_lt_two _)) hp fun k hk => ?_
    rw [Nat.testBit_xor, testBit_nandEccGetOe Nat.one_lt_two, testBit_nandEccGetOe Nat.one_lt_two,
      decide_eq_true hk, Bool.true_and, Bool.true_and, hpos k hk]
  simp only [nandEccCorrection, if_pos (eccchk_eq.mpr h), herr]
  rfl

end Compare

/-! ## Errors -/

section Errors
variable {buf : Bytes} {eccrd ecccl p q : ℕ}

/-- What the check bits of a sector with wrong bits differ in. -/
theorem IsEccWord.differ {buf' : Bytes} {e : ℕ → Bool} (hrd : IsEccWord eccrd buf)
    (hcl : IsEccWord ecccl buf') (he : ∀ a, dataBit buf' a = (dataBit buf a ^^ e a)) {k : ℕ}
    (hk : k < 12) :
    (eccrd.testBit (2 * k + 1) ^^ ecccl.testBit (2 * k + 1)) = checkBit 12 k true e ∧
      (eccrd.testBit (2 * k) ^^ ecccl.testBit (2 * k)) = checkBit 12 k false e := by
  rw [(hrd k hk).1, (hrd k hk).2, (hcl k hk).1, (hcl k hk).2, funext he, checkBit_xor,
    checkBit_xor, ← Bool.xor_assoc, Bool.xor_self, Bool.false_xor, ← Bool.xor_assoc,
    Bool.xor_self, Bool.false_xor]
  exact ⟨rfl, rfl⟩

/-- One wrong data bit is found and inverted back. -/
theorem nandEccCorrection_single (hp : p < 2 ^ 12) (hrd : IsEccWord eccrd buf)
    (hcl : IsEccWord ecccl (flipBit buf p)) :
    nandEccCorrection (flipBit buf p) eccrd ecccl = (0, buf) := by
  have hdiffer := fun (k : ℕ) (hk : k < 12) => hrd.differ hcl (dataBit_flipBit buf p) hk
  simp only [checkBit_single hp] at hdiffer
  have hcorr : nandEccCorrection (flipBit buf p) eccrd ecccl = (0, flipBit (flipBit buf p) p) := by
    refine nandEccCorrection_of_forall _ hp (fun k hk => ?_) fun k hk => ?_
    · rw [(hdiffer k hk).1, (hdiffer k hk).2]
      cases p.testBit k <;> rfl
    · rw [(hdiffer k hk).1]
      cases p.testBit k <;> rfl
  rw [hcorr, flipBit_flipBit]

/-- Two wrong data bits change both halves of each pair alike. -/
theorem nandEccCorrection_double (hp : p < 2 ^ 12) (hq : q < 2 ^ 12)
    (hrd : IsEccWord eccrd buf) (hcl : IsEccWord ecccl (flipBit (flipBit buf p) q)) :
    nandEccCorrection (flipBit (flipBit buf p) q) eccrd ecccl =
      (1, flipBit (flipBit buf p) q) := by
  have hdiffer := hrd.differ hcl (e := fun a => decide (a = p) ^^ decide (a = q))
    (fun a => by rw [dataBit_flipBit, dataBit_flipBit, Bool.xor_assoc]) (Nat.zero_lt_succ 11)
  rw [checkBit_xor, checkBit_xor, checkBit_single hp, checkBit_single hp, checkBit_single hq,
    checkBit_single hq] at hdiffer
  refine nandEccCorrection_of_not _ ⟨0, by omega, ?_⟩
  rw [hdiffer.1, hdiffer.2]
  cases p.testBit 0 <;> cases q.testBit 0 <;> rfl

/-- A wrong bit of the stored word touches one pair at most. -/
theorem nandEccCorrection_stored (hrd : IsEccWord eccrd buf) (hcl : IsEccWord ecccl buf) (j : ℕ) :
    nandEccCorrection buf (eccrd ^^^ 2 ^ j) ecccl = (1, buf) := by
  -- a pair that does not contain bit `j`
  obtain ⟨k, hk, hlow, hhigh⟩ : ∃ k < 12, j ≠ 2 * k ∧ j ≠ 2 * k + 1 := by
    by_cases hj : j < 2
    · exact ⟨1, by omega, by omega, by omega⟩
    · exact ⟨0, by omega, by omega, by omega⟩
  refine nandEccCorrection_of_not _ ⟨k, hk, ?_⟩
  rw [Nat.testBit_xor, Nat.testBit_xor, Nat.testBit_two_pow, Nat.testBit_two_pow,
    decide_eq_false hlow, decide_eq_false hhigh, (hrd k hk).1, (hrd k hk).2, (hcl k hk).1,
    (hcl k hk).2]
  simp only [Bool.xor_false, Bool.xor_self]

/-- Whatever the words are, at most one bit of the 512 bytes is changed. -/
theorem nandEccCorrection_one_bit (data : Bytes) (eccrd ecccl : ℕ) :
    (nandEccCorrection data eccrd ecccl).2 = data ∨
      ∃ p < 2 ^ 12, (nandEccCorrection data eccrd ecccl).2 = flipBit data p := by
  simp only [nandEccCorrection]
  split
  · exact Or.inr ⟨_, Nat.xor_lt_two_pow (nandEccGetOe_lt Nat.one_lt_two _)
      (nandEccGetOe_lt Nat.one_lt_two _), rfl⟩
  · exact Or.inl rfl

/-- The correction restores a sector with one wrong bit, refuses one with two and one whose
stored word has a wrong bit, and changes at most one bit whatever it is given. -/
theorem nandEccCorrection_hamming (buf : Bytes) :
    (∀ eccrd ecccl p, p < 8 * nandEccSectorSize → IsEccWord eccrd buf →
      IsEccWord ecccl (flipBit buf p) →
      nandEccCorrection (flipBit buf p) eccrd ecccl = (0, buf)) ∧
    (∀ eccrd ecccl p q, p < 8 * nandEccSectorSize → q < 8 * nandEccSectorSize → p ≠ q →
      IsEccWord eccrd buf → IsEccWord ecccl (flipBit (flipBit buf p) q) →
      nandEccCorrection (flipBit (flipBit buf p) q) eccrd ecccl =
        (1, flipBit (flipBit buf p) q)) ∧
    (∀ eccrd ecccl j, j < 32 → IsEccWord eccrd buf → IsEccWord ecccl buf →
      nandEccCorrection buf (eccrd ^^^ 2 ^ j) ecccl = (1, buf)) ∧
    ∀ eccrd ecccl, (nandEccCorrection buf eccrd ecccl).2 = buf ∨
      ∃ p < 8 * nandEccSectorSize, (nandEccCorrection buf eccrd ecccl).2 = flipBit buf p := by
  refine ⟨?_, ?_, ?_, ?_⟩
  · intro eccrd ecccl p hp hrd hcl
    exact nandEccCorrection_single hp hrd hcl
  · intro eccrd ecccl p q hp hq _ hrd hcl
    exact nandEccCorrection_double hp hq hrd hcl
  · intro eccrd ecccl j _ hrd hcl
    exact nandEccCorrection_stored hrd hcl j
  · exact nandEccCorrection_one_bit buf

/-- A sector of zeros whose bit 5 has been read as a one. -/
theorem nandEccCorrection_hamming_zeros :
    nandEccCorrection (flipBit (fun _ => 0) 5) (eccWord fun _ => 0)
      (eccWord (flipBit (fun _ => 0) 5)) = (0, fun _ => 0) :=
  (nandEccCorrection_hamming fun _ => 0).1 _ _ 5 (by decide) (isEccWord_eccWord _)
    (isEccWord_eccWord _)

end Errors
end Apollo.Nand
