import Apollo.Nand.Status
import Mathlib.Data.Fintype.Basic

/-!
# Specifications of the driver's functions

What the FTL may rely on.  A read changes nothing but the number of reads; a
program, a copy-back that reports success and an erase change one page or one
block.  The assumptions on the chip are separate predicates of the board, so that
each result says which of them it uses.

## Main definitions

* `Board.ReadsOk`, `Board.WritesOk`, `Board.CopiesHonest`, `Board.Steady` — a chip on
  which page copies may fail in any pattern.
* `Board.Marking` — a chip on which erases may fail in any pattern.
* `Board.FaultFree` — a chip on which nothing fails.
* `Dev.reads` — the state after some reads.
* `eraseBlock`, `andPage` — the array after an erase, after a program.
* `Avoids` — a program that issues no command of a kind.
-/

namespace Apollo.Nand
open Lib

/-! ## Assumptions on the chip -/

theorem Reply.sound_answers : ¬ Reply.sound.RbTimeout := by
  have hlow : nandWaitrb Reply.sound.rbLow false = 0 :=
    (nandWaitrb_eq_zero _ _).mpr ⟨0, by decide, rfl⟩
  have hhigh : nandWaitrb Reply.sound.rbHigh true = 0 :=
    (nandWaitrb_eq_zero _ _).mpr ⟨0, by decide, rfl⟩
  intro h
  rcases h with h | h
  · exact h hlow
  · exact h hhigh

theorem Reply.sound_waitCode : Reply.sound.waitCode = 0 :=
  (waitCode_eq_zero _).mpr ⟨0, by decide, by decide⟩

/-- The answer of a chip that is never ready again and has done nothing. -/
def Reply.stuck : Reply := { Reply.sound with status := fun _ => 0, effect := .nothing }

theorem Reply.stuck_waitCode : Reply.stuck.waitCode ≠ 0 := by
  intro h
  obtain ⟨t, -, ht⟩ := (waitCode_eq_zero _).mp h
  simp [Reply.stuck] at ht

namespace Board
variable (B : Board)

/-- Every read delivers the bytes of the page. -/
def ReadsOk : Prop := ∀ n, ¬ (B.reply .read n).RbTimeout

/-- Programs and erases take effect, whatever the status says. -/
def WritesOk : Prop :=
  ∀ n, (B.reply .program n).effect = .done ∧ (B.reply .erase n).effect = .done

/-- Programs take effect, whatever the status says. -/
def ProgramsOk : Prop := ∀ n, (B.reply .program n).effect = .done

/-- An erase that reports success has been carried out; one that fails may leave anything
in its block. -/
def ErasesHonest : Prop :=
  ∀ n, (B.reply .erase n).waitCode = 0 → (B.reply .erase n).effect = .done

/-- A copy-back that returns 0 has been carried out; one that fails may leave anything
in its destination page. -/
def CopiesHonest : Prop :=
  ∀ n, ¬ (B.reply .copyback n).RbTimeout → (B.reply .copyback n).waitCode = 0 →
    (B.reply .copyback n).effect = .done

/-- A chip on which page copies may fail in any pattern and nothing else goes wrong
with the array. -/
structure Steady : Prop where
  reads : B.ReadsOk
  writes : B.WritesOk
  copies : B.CopiesHonest

/-- A chip on which erases may fail in any pattern and bad-block marks take effect. -/
structure Marking : Prop where
  reads : B.ReadsOk
  programs : B.ProgramsOk
  erases : B.ErasesHonest

/-- Every erase reports success. -/
def ErasesOk : Prop := ∀ n, (B.reply .erase n).waitCode = 0

/-- A chip on which every operation is carried out and reports success. -/
structure FaultFree : Prop where
  answers : ∀ c n, ¬ (B.reply c n).RbTimeout
  code : ∀ c n, (B.reply c n).waitCode = 0
  effect : ∀ c n, (B.reply c n).effect = .done

theorem WritesOk.programs {B : Board} (h : B.WritesOk) : B.ProgramsOk := fun n => (h n).1

theorem Steady.marking {B : Board} (h : B.Steady) : B.Marking where
  reads := h.reads
  programs := h.writes.programs
  erases := fun n _ => (h.writes n).2

theorem FaultFree.steady {B : Board} (h : B.FaultFree) : B.Steady where
  reads := h.answers .read
  writes := fun n => ⟨h.effect .program n, h.effect .erase n⟩
  copies := fun n _ _ => h.effect .copyback n

theorem FaultFree.erases {B : Board} (h : B.FaultFree) : B.ErasesOk := h.code .erase

/-- A board with this part and this ECC unit on which every command is carried out at once
and reported so. -/
def ideal (G : Geometry) (hwEcc : (Fin nandEccSectorSize → UInt8) → UInt32) : Board :=
  { G with hwEcc := hwEcc, reply := fun _ _ => Reply.sound, uninit := fun _ => 0 }

/-- The assumptions can be met on every part. -/
theorem ideal_faultFree (G : Geometry) (hwEcc : (Fin nandEccSectorSize → UInt8) → UInt32) :
    (ideal G hwEcc).FaultFree where
  answers := fun _ _ => Reply.sound_answers
  code := fun _ _ => Reply.sound_waitCode
  effect := fun _ _ => rfl

/-- A board on which nothing goes wrong but for the copy-backs that `fails` names, and every
read picks up the bit errors `flip` in each ECC word. -/
def faulty (G : Geometry) (hwEcc : (Fin nandEccSectorSize → UInt8) → UInt32) (flip : UInt32)
    (fails : ℕ → Bool) : Board :=
  { ideal G hwEcc with
    reply := fun
      | .read, _ => { Reply.sound with eccFlip := fun _ => flip }
      | .copyback, n => if fails n then Reply.stuck else Reply.sound
      | _, _ => Reply.sound }

section Faulty
variable (G : Geometry) (hwEcc : (Fin nandEccSectorSize → UInt8) → UInt32) (flip : UInt32)
  (fails : ℕ → Bool)

theorem faulty_steady : (faulty G hwEcc flip fails).Steady where
  reads := fun _ => Reply.sound_answers
  writes := fun _ => ⟨rfl, rfl⟩
  copies := by
    intro n _ hcode
    simp only [faulty] at hcode ⊢
    cases hn : fails n with
    | true =>
        rw [hn, if_pos rfl] at hcode
        exact absurd hcode Reply.stuck_waitCode
    | false => rfl

theorem faulty_erases : (faulty G hwEcc flip fails).ErasesOk := fun _ => Reply.sound_waitCode

end Faulty
end Board

/-! ## Numbers of pages and blocks -/

namespace Geometry
variable (G : Geometry)

theorem pagenum_pos : 0 < G.blockPagenum := by
  rcases G.pagenum_of_id with ⟨-, h⟩ | ⟨-, h⟩ <;> omega

theorem two_le_pagenum : 2 ≤ G.blockPagenum := by
  rcases G.pagenum_of_id with ⟨-, h⟩ | ⟨-, h⟩ <;> omega

theorem pagenum_lt : G.blockPagenum < 2 ^ 8 := by
  rcases G.pagenum_of_id with ⟨-, h⟩ | ⟨-, h⟩ <;> omega

theorem sixteen_le_sparesize : 0x10 ≤ G.pageSparesize :=
  le_trans (Nat.le_add_right _ _) G.ecc_fits

/-- The block of a page address. -/
theorem page_div (b : ℕ) {i : ℕ} (hi : i < G.blockPagenum) :
    (b * G.blockPagenum + i) / G.blockPagenum = b := row_div hi

/-- The page offset of a page address. -/
theorem page_mod (b : ℕ) {i : ℕ} (hi : i < G.blockPagenum) :
    (b * G.blockPagenum + i) % G.blockPagenum = i := Nat.mul_add_mod_of_lt hi

theorem page_div_zero (b : ℕ) : b * G.blockPagenum / G.blockPagenum = b :=
  Nat.mul_div_cancel _ G.pagenum_pos

/-- A page address is its block and its offset. -/
theorem page_eta (p : ℕ) : p / G.blockPagenum * G.blockPagenum + p % G.blockPagenum = p :=
  Nat.div_add_mod' p G.blockPagenum

end Geometry

/-! ## Bytes -/

@[simp] theorem ff_and (x : UInt8) : 0xFF &&& x = x := by
  rw [UInt8.and_comm]; exact UInt8.and_neg_one

@[simp] theorem and_ff (x : UInt8) : x &&& 0xFF = x := UInt8.and_neg_one

/-- A byte that is no longer `0xFF` stays so. -/
theorem and_ne_ff {x : UInt8} (h : x ≠ 0xFF) (y : UInt8) : x &&& y ≠ 0xFF := by
  intro hff
  have hle : (x &&& y).toNat ≤ x.toNat := by
    rw [UInt8.toNat_and]
    exact Nat.and_le_left
  have hlt := UInt8.toNat_lt x
  have hne : x.toNat ≠ 255 := fun heq => h (UInt8.toNat_inj.mp heq)
  rw [hff] at hle
  change 255 ≤ x.toNat at hle
  omega

/-- A byte that has been ANDed with a bad-block mark is never `0xFF`. -/
theorem and_mark_ne (x : UInt8) : x &&& 0xAA ≠ 0xFF := by
  rw [UInt8.and_comm]
  exact and_ne_ff (by decide) x

/-- Four bytes that are those of a word make the word. -/
theorem word_of_wordByte {b : Bytes} {k w : ℕ} (hw : w < 2 ^ 32)
    (h : ∀ j < 4, b (4 * k + j) = wordByte w j) : word b k = w := by
  have h0 := h 0 (by omega)
  rw [Nat.add_zero] at h0
  have hbyte : ∀ j, (wordByte w j).toNat = w / 2 ^ (8 * j) % 2 ^ 8 := fun j => UInt8.toNat_ofNat'
  rw [word, h0, h 1 (by omega), h 2 (by omega), h 3 (by omega), hbyte, hbyte, hbyte, hbyte]
  omega

/-- The bytes of the word four bytes make are these bytes. -/
theorem wordByte_word (b : Bytes) (k : ℕ) {j : ℕ} (hj : j < 4) :
    wordByte (word b k) j = b (4 * k + j) := by
  have hlt := fun c => (b c).toNat_lt
  have h0 := hlt (4 * k)
  have h1 := hlt (4 * k + 1)
  have h2 := hlt (4 * k + 2)
  have h3 := hlt (4 * k + 3)
  apply UInt8.toNat_inj.mp
  rw [wordByte, UInt8.toNat_ofNat', word]
  rcases (by omega : j = 0 ∨ j = 1 ∨ j = 2 ∨ j = 3) with rfl | rfl | rfl | rfl
  · simp only [Nat.add_zero, Nat.mul_zero, Nat.pow_zero, Nat.div_one]
    omega
  all_goals omega

theorem wordByte_ff {j : ℕ} (hj : j < 4) : wordByte 0xFFFFFFFF j = 0xFF := by
  rcases (by omega : j = 0 ∨ j = 1 ∨ j = 2 ∨ j = 3) with rfl | rfl | rfl | rfl <;> rfl

/-- Four bytes make the word `0xFFFFFFFF` exactly when each is `0xFF`. -/
theorem word_eq_ff {b : Bytes} {k : ℕ} :
    word b k = 0xFFFFFFFF ↔ ∀ j < 4, b (4 * k + j) = 0xFF := by
  constructor
  · intro h j hj
    rw [← wordByte_word b k hj, h, wordByte_ff hj]
  · intro h
    exact word_of_wordByte (by decide) fun j hj => by rw [h j hj, wordByte_ff hj]

/-! ## Reads -/

/-- The state after `k` more reads. -/
def Dev.reads (d : Dev) (k : ℕ) : Dev :=
  { d with ticks := Function.update d.ticks .read (d.ticks .read + k) }

section Reads
variable (d : Dev) (k : ℕ)

@[simp] theorem Dev.flash_reads : (d.reads k).flash = d.flash := rfl
@[simp] theorem Dev.lut_reads : (d.reads k).lut = d.lut := rfl
@[simp] theorem Dev.goodBlocknum_reads : (d.reads k).goodBlocknum = d.goodBlocknum := rfl
@[simp] theorem Dev.validBlocknum_reads : (d.reads k).validBlocknum = d.validBlocknum := rfl
@[simp] theorem Dev.curblock_reads : (d.reads k).curblock = d.curblock := rfl
@[simp] theorem Dev.log_reads : (d.reads k).log = d.log := rfl

@[simp] theorem Dev.ticks_reads_of_ne {c : Cmd} (h : c ≠ .read) :
    (d.reads k).ticks c = d.ticks c := by simp [Dev.reads, h]

@[simp] theorem Dev.reads_reads (j : ℕ) : (d.reads j).reads k = d.reads (j + k) := by
  simp [Dev.reads, Nat.add_assoc]

@[simp] theorem Dev.reads_zero : d.reads 0 = d := by
  simp [Dev.reads]

end Reads

/-- `p` leaves everything but the number of reads as it is. -/
def ReadOnly {α : Type} (p : NandM α) : Prop := ∀ d, ∃ k, p.state d = d.reads k

theorem ReadOnly.pure {α : Type} (a : α) : ReadOnly (pure a : NandM α) :=
  fun d => ⟨0, by simp⟩

theorem ReadOnly.get {α : Type} (f : Dev → α) : ReadOnly (Prog.get f) :=
  fun d => ⟨0, by simp⟩

theorem ReadOnly.bind {α β : Type} {p : NandM α} {f : α → NandM β} (hp : ReadOnly p)
    (hf : ∀ a, ReadOnly (f a)) : ReadOnly (p >>= f) := by
  intro d
  obtain ⟨j, hj⟩ := hp d
  obtain ⟨k, hk⟩ := hf (p.val d) (p.state d)
  refine ⟨j + k, ?_⟩
  rw [Prog.state_bind, hk, hj, Dev.reads_reads]

theorem ReadOnly.ite {α : Type} (c : Prop) [Decidable c] {p q : NandM α} (hp : ReadOnly p)
    (hq : ReadOnly q) : ReadOnly (if c then p else q) := by
  split
  · exact hp
  · exact hq

@[simp] theorem state_nandReadpage (B : Board) (pagenum colnum : ℕ) (pbuffer : Bytes) (n : ℕ)
    (d : Dev) : (nandReadpage B pagenum colnum pbuffer n).state d = d.reads 1 := by
  simp only [nandReadpage, Prog.state_bind, state_command, val_command, Prog.state_get,
    Prog.state_ite, Prog.state_pure, ite_self]
  rfl

@[simp] theorem state_nandReadpagecomp (B : Board) (pagenum colnum cmpval n equal : ℕ)
    (d : Dev) : (nandReadpagecomp B pagenum colnum cmpval n equal).state d = d.reads 1 := by
  simp only [nandReadpagecomp, Prog.state_bind, state_command, val_command, Prog.state_get,
    Prog.state_ite, Prog.state_pure, ite_self]
  rfl

@[simp] theorem state_nandReadspare (B : Board) (pagenum colnum : ℕ) (pbuffer : Bytes) (n : ℕ)
    (d : Dev) : (nandReadspare B pagenum colnum pbuffer n).state d = d.reads 1 := by
  simp only [nandReadspare, state_nandReadpage]

/-- A read of less than a sector fills the buffer. -/
theorem nandReadpage_short {B : Board} (hB : B.ReadsOk) (pagenum colnum : ℕ) (pbuffer : Bytes)
    {n : ℕ} (hn : n % nandEccSectorSize ≠ 0) (d : Dev) :
    ((nandReadpage B pagenum colnum pbuffer n).val d).2 =
      overlay pbuffer 0 (shift (d.flash pagenum) colnum) n := by
  simp only [nandReadpage, Prog.val_bind, val_command, state_command, Prog.val_get,
    Prog.state_get, Dev.flash_tick, Prog.val_ite, if_neg (hB _), if_pos hn, Prog.val_pure]
  split <;> rfl

/-- A short spare read fills the buffer with the spare bytes of the page. -/
theorem nandReadspare_spec {B : Board} (hB : B.ReadsOk) (pagenum : ℕ) (pbuffer : Bytes) {n : ℕ}
    (h0 : 0 < n) (hn : n ≤ 4) (d : Dev) :
    ((nandReadspare B pagenum 0 pbuffer n).val d).2 =
      overlay pbuffer 0 (shift (d.flash pagenum) B.pageMainsize) n := by
  have hsp := B.sixteen_le_sparesize
  have hlt := B.sparesize_lt
  have hms := B.mainsize_le
  have hrem : (B.pageSparesize + 2 ^ 16 - 0) % 2 ^ 8 = B.pageSparesize := by omega
  have hcol : u16 (0 + B.pageMainsize) = B.pageMainsize := by simp only [u16]; omega
  have hmod : n % nandEccSectorSize ≠ 0 := by simp only [nandEccSectorSize]; omega
  rw [nandReadspare, hrem, if_neg (by omega : ¬ n > B.pageSparesize), hcol]
  exact nandReadpage_short hB _ _ _ hmod d

/-- The comparison runs to the end exactly when every word is equal. -/
theorem equalWords_eq (data : Bytes) (cmpval k i : ℕ) :
    equalWords data cmpval k i = i + k ↔ ∀ j < k, word data (i + j) = cmpval := by
  induction k generalizing i with
  | zero => exact ⟨fun _ j hj => absurd hj (Nat.not_lt_zero j), fun _ => rfl⟩
  | succ k ih =>
      rw [equalWords]
      by_cases hw : word data i = cmpval
      · rw [if_neg (not_not.mpr hw), ← Nat.add_assoc, Nat.add_right_comm, ih (i + 1)]
        constructor
        · intro h j hj
          cases j with
          | zero => exact hw
          | succ j => rw [Nat.add_comm j, ← Nat.add_assoc]; exact h j (by omega)
        · intro h j hj
          rw [Nat.add_assoc, Nat.add_comm 1]
          exact h (j + 1) (by omega)
      · rw [if_pos hw]
        refine ⟨fun h => by omega, fun h => absurd (h 0 (by omega)) hw⟩

/-- A comparison with `0xFFFFFFFF` runs to the end exactly when every byte is `0xFF`. -/
theorem equalWords_ff (data : Bytes) (k : ℕ) :
    equalWords data 0xFFFFFFFF k 0 = k ↔ ∀ j < 4 * k, data j = 0xFF := by
  have h := equalWords_eq data 0xFFFFFFFF k 0
  rw [Nat.zero_add] at h
  simp only [h, Nat.zero_add, word_eq_ff]
  constructor
  · intro hw j hj
    have := hw (j / 4) (by omega) (j % 4) (by omega)
    rwa [Nat.div_add_mod] at this
  · intro hb j hj t ht
    exact hb _ (by omega)

/-- What a page comparison reports, and that it reports no error on a sound chip. -/
theorem nandReadpagecomp_val {B : Board} (hB : B.ReadsOk) (pagenum colnum cmpval n equal : ℕ)
    (d : Dev) :
    ((nandReadpagecomp B pagenum colnum cmpval n equal).val d).2 =
        equalWords (shift (d.flash pagenum) colnum) cmpval n 0 ∧
      (B.FaultFree → ((nandReadpagecomp B pagenum colnum cmpval n equal).val d).1 = 0) := by
  simp only [nandReadpagecomp, Prog.val_bind, val_command, state_command, Prog.val_get,
    Prog.state_get, Dev.flash_tick, Prog.val_ite, if_neg (hB _), Prog.val_pure]
  constructor
  · split <;> rfl
  · intro hff
    have hready := (nandWaitForReady_eq_ready _).mpr
      ((waitCode_eq_zero _).mp (hff.code .read (d.ticks .read)))
    rw [if_neg (not_not.mpr hready)]

/-! ## Programs and erases -/

/-- The array with register `reg` programmed into page `page`. -/
def andPage (f : Flash) (page : ℕ) (reg : Bytes) : Flash :=
  Function.update f page fun c => f page c &&& reg c

/-- The array with block `b` erased. -/
def eraseBlock (B : Board) (f : Flash) (b : ℕ) : Flash :=
  fun p => if p / B.blockPagenum = b then erasedPage else f p

@[simp] theorem andPage_same (f : Flash) (page : ℕ) (reg : Bytes) :
    andPage f page reg page = fun c => f page c &&& reg c := Function.update_self _ _ _

theorem andPage_apply (f : Flash) (page : ℕ) (reg : Bytes) (c : ℕ) :
    andPage f page reg page c = f page c &&& reg c := by rw [andPage_same]

theorem andPage_of_ne (f : Flash) {page p : ℕ} (reg : Bytes) (h : p ≠ page) :
    andPage f page reg p = f p := Function.update_of_ne h _ _

/-- A program clears bits and sets none. -/
theorem andPage_and (f : Flash) (page : ℕ) (reg : Bytes) (p c : ℕ) :
    andPage f page reg p c = f p c &&& if p = page then reg c else 0xFF := by
  by_cases h : p = page
  · rw [h, andPage_apply, if_pos rfl]
  · rw [andPage_of_ne f reg h, if_neg h, and_ff]

theorem eraseBlock_same (B : Board) (f : Flash) (b : ℕ) {i : ℕ} (hi : i < B.blockPagenum) :
    eraseBlock B f b (b * B.blockPagenum + i) = erasedPage := by
  rw [eraseBlock, if_pos (B.page_div b hi)]

theorem eraseBlock_of_ne (B : Board) (f : Flash) {b p : ℕ} (h : p / B.blockPagenum ≠ b) :
    eraseBlock B f b p = f p := if_neg h

theorem programmed_done {f : Flash} {r : Reply} (h : r.effect = .done) (page : ℕ) (reg : Bytes) :
    programmed f r page reg = andPage f page reg := by
  rw [programmed, h]
  rfl

/-- In the main area and the tag the register is an overlay; the ECC words lie behind. -/
theorem loadRegister_low (B : Board) (reg : Bytes) (colnum : ℕ) (pbuffer : Bytes) (n : ℕ) {c : ℕ}
    (hc : c < B.pageMainsize + 0x10) :
    loadRegister B reg colnum pbuffer n c = overlay reg colnum pbuffer n c := by
  simp only [loadRegister]
  split
  · rfl
  · exact overlay_before (by simp only [eccColumn]; omega)

/-- The state after a page has been programmed in full. -/
def Dev.programs (d : Dev) (page : ℕ) (reg : Bytes) : Dev :=
  (d.tick .program).store .program page (andPage d.flash page reg)

/-- The state after a block has been erased in full. -/
def Dev.erases (B : Board) (d : Dev) (b : ℕ) : Dev :=
  (d.tick .erase).store .erase (b * B.blockPagenum) (eraseBlock B d.flash b)

section Programs
variable (d : Dev) (page : ℕ) (reg : Bytes)

@[simp] theorem Dev.flash_programs : (d.programs page reg).flash = andPage d.flash page reg := rfl
@[simp] theorem Dev.lut_programs : (d.programs page reg).lut = d.lut := rfl
@[simp] theorem Dev.goodBlocknum_programs :
    (d.programs page reg).goodBlocknum = d.goodBlocknum := rfl
@[simp] theorem Dev.validBlocknum_programs :
    (d.programs page reg).validBlocknum = d.validBlocknum := rfl
@[simp] theorem Dev.curblock_programs : (d.programs page reg).curblock = d.curblock := rfl
@[simp] theorem Dev.log_programs :
    (d.programs page reg).log =
      d.log ++ [⟨.program, d.ticks .program, page, andPage d.flash page reg⟩] := by
  simp [Dev.programs, Dev.store]
@[simp] theorem Dev.ticks_programs_of_ne {c : Cmd} (h : c ≠ .program) :
    (d.programs page reg).ticks c = d.ticks c := by simp [Dev.programs, h]

end Programs

section Erases
variable (B : Board) (d : Dev) (b : ℕ)

@[simp] theorem Dev.flash_erases : (d.erases B b).flash = eraseBlock B d.flash b := rfl
@[simp] theorem Dev.lut_erases : (d.erases B b).lut = d.lut := rfl
@[simp] theorem Dev.goodBlocknum_erases : (d.erases B b).goodBlocknum = d.goodBlocknum := rfl
@[simp] theorem Dev.validBlocknum_erases : (d.erases B b).validBlocknum = d.validBlocknum := rfl
@[simp] theorem Dev.curblock_erases : (d.erases B b).curblock = d.curblock := rfl
@[simp] theorem Dev.log_erases : (d.erases B b).log =
    d.log ++ [⟨.erase, d.ticks .erase, b * B.blockPagenum, eraseBlock B d.flash b⟩] := by
  simp [Dev.erases, Dev.store]
@[simp] theorem Dev.ticks_erases_of_ne {c : Cmd} (h : c ≠ .erase) :
    (d.erases B b).ticks c = d.ticks c := by simp [Dev.erases, h]

end Erases

variable {B : Board}

@[simp] theorem val_nandWritepage (pagenum colnum : ℕ) (pbuffer : Bytes) (n : ℕ) (d : Dev) :
    (nandWritepage B pagenum colnum pbuffer n).val d =
      (B.reply .program (d.ticks .program)).waitCode := (rfl)

theorem state_nandWritepage (hB : B.ProgramsOk) (pagenum colnum : ℕ) (pbuffer : Bytes) (n : ℕ)
    (d : Dev) :
    (nandWritepage B pagenum colnum pbuffer n).state d =
      d.programs pagenum (loadRegister B erasedPage colnum pbuffer n) := by
  simp only [nandWritepage, Prog.state_bind, val_command, state_command, state_programPage,
    Prog.state_pure, Dev.flash_tick, programmed_done (hB _), Dev.programs]

theorem state_nandWritePageconst (hB : B.ProgramsOk) (pagenum colnum cval n : ℕ) (d : Dev) :
    (nandWritePageconst B pagenum colnum cval n).state d =
      d.programs pagenum (overlay erasedPage colnum (fun j => wordByte cval (j % 4)) (4 * n)) := by
  simp only [nandWritePageconst, Prog.state_bind, val_command, state_command, state_programPage,
    Prog.state_pure, Dev.flash_tick, programmed_done (hB _), Dev.programs]

@[simp] theorem val_nandWritespare (pagenum colnum : ℕ) (pbuffer : Bytes) (n : ℕ) (d : Dev) :
    (nandWritespare B pagenum colnum pbuffer n).val d =
      (B.reply .program (d.ticks .program)).waitCode := (rfl)

/-- A short spare write programs the spare bytes and carries no ECC words. -/
theorem state_nandWritespare (hB : B.ProgramsOk) (pagenum : ℕ) {colnum n : ℕ} (pbuffer : Bytes)
    (h0 : 0 < n) (hn : colnum + n ≤ 4) (d : Dev) :
    (nandWritespare B pagenum colnum pbuffer n).state d =
      d.programs pagenum (overlay erasedPage (B.pageMainsize + colnum) pbuffer n) := by
  have hsp := B.sixteen_le_sparesize
  have hlt := B.sparesize_lt
  have hms := B.mainsize_le
  have hrem : (B.pageSparesize + 2 ^ 16 - colnum) % 2 ^ 8 = B.pageSparesize - colnum := by omega
  have hcol : u16 (colnum + B.pageMainsize) = B.pageMainsize + colnum := by
    simp only [u16]; omega
  have hmod : n % nandEccSectorSize ≠ 0 := by simp only [nandEccSectorSize]; omega
  simp only [nandWritespare, hrem, if_neg (by omega : ¬ n > B.pageSparesize - colnum), hcol,
    state_nandWritepage hB, loadRegister, if_pos hmod]

@[simp] theorem val_nandEraseblock (b : ℕ) (d : Dev) :
    (nandEraseblock B b).val d = (B.reply .erase (d.ticks .erase)).waitCode := (rfl)

/-- The row address of `nand_eraseblock` names the block, on both parts. -/
theorem nandEraseblock_row {b : ℕ} (hb : b < 2 ^ 16) :
    (if B.id = mt29f16g08ababa then u32 (b <<< 7)
      else if B.id = mt29f4g08abada then u32 (b <<< 6) else b) / B.blockPagenum = b := by
  rcases B.pagenum_of_id with ⟨hid, hp⟩ | ⟨hid, hp⟩
  · rw [if_pos hid, hp, Nat.shiftLeft_eq]
    simp only [u32]
    omega
  · rw [if_neg (by rw [hid]; decide), if_pos hid, hp, Nat.shiftLeft_eq]
    simp only [u32]
    omega

/-- Whatever an erase does, it does to its block. -/
theorem nandEraseblock_other {b : ℕ} (hb : b < 2 ^ 16) (d : Dev) {q : ℕ}
    (hq : q / B.blockPagenum ≠ b) : ((nandEraseblock B b).state d).flash q = d.flash q := by
  simp only [nandEraseblock, Prog.state_bind, val_command, state_command, state_eraseRow,
    Prog.state_pure, Dev.flash_store, Dev.flash_tick, erasedAt, nandEraseblock_row hb, if_neg hq]

/-- An erase that is carried out. -/
theorem state_nandEraseblock_done {b : ℕ} (hb : b < 2 ^ 16) (d : Dev)
    (hdone : (B.reply .erase (d.ticks .erase)).effect = .done) :
    (nandEraseblock B b).state d = d.erases B b := by
  have herase : erasedAt B d.flash (B.reply .erase (d.ticks .erase))
      (if B.id = mt29f16g08ababa then u32 (b <<< 7)
        else if B.id = mt29f4g08abada then u32 (b <<< 6) else b) = eraseBlock B d.flash b := by
    funext p
    rw [erasedAt, nandEraseblock_row hb, hdone, eraseBlock]
    rfl
  simp only [nandEraseblock, Prog.state_bind, val_command, state_command, state_eraseRow,
    Prog.state_pure, Dev.flash_tick, herase, nandEraseblock_row hb, Dev.erases]

theorem state_nandEraseblock (hB : B.WritesOk) {b : ℕ} (hb : b < 2 ^ 16) (d : Dev) :
    (nandEraseblock B b).state d = d.erases B b := state_nandEraseblock_done hb d (hB _).2

/-! ## Copy-backs -/

/-- The state after a copy-back that left `x` in its destination page. -/
def Dev.copies (d : Dev) (page : ℕ) (x : Bytes) : Dev :=
  (d.tick .copyback).store .copyback page (Function.update d.flash page x)

/-! ## What has been issued -/

/-- Every operation that was issued between two states meets `P`. -/
def Issued (P : Op → Prop) (d d' : Dev) : Prop := ∃ ops, d'.log = d.log ++ ops ∧ ∀ op ∈ ops, P op

namespace Issued
variable {P Q : Op → Prop} {d d' d'' : Dev}

theorem of_log_eq (h : d'.log = d.log) : Issued P d d' :=
  ⟨[], by rw [h, List.append_nil], fun op hop => by cases hop⟩

theorem mono (h : Issued P d d') (hPQ : ∀ op, P op → Q op) : Issued Q d d' := by
  obtain ⟨ops, hlog, hops⟩ := h
  exact ⟨ops, hlog, fun op hop => hPQ op (hops op hop)⟩

theorem trans (h : Issued P d d') (h' : Issued P d' d'') : Issued P d d'' := by
  obtain ⟨ops, hlog, hops⟩ := h
  obtain ⟨ops', hlog', hops'⟩ := h'
  refine ⟨ops ++ ops', by rw [hlog', hlog, List.append_assoc], fun op hop => ?_⟩
  exact (List.mem_append.mp hop).elim (hops op) (hops' op)

/-- One more operation. -/
theorem snoc {op : Op} (h : Issued P d d') (hlog : d''.log = d'.log ++ [op]) (hop : P op) :
    Issued P d d'' :=
  h.trans ⟨[op], hlog, fun _ hmem => by rwa [List.mem_singleton.mp hmem]⟩

end Issued

/-- What a copy-back between blocks of one plane does: it is carried out, or it fails and
its destination page may hold anything, or it fails before the page is programmed. -/
theorem copyback_cases (hB : B.CopiesHonest) {src dst : ℕ} (edit : Bytes → Bytes)
    (hplane : u16 (src / B.blockPagenum) % 2 = u16 (dst / B.blockPagenum) % 2) (d : Dev) :
    ((copyback B src dst edit).val d = 0 ∧
      (copyback B src dst edit).state d =
        d.copies dst (fun c => d.flash dst c &&& edit (d.flash src) c)) ∨
    ((copyback B src dst edit).val d ≠ 0 ∧
      ((copyback B src dst edit).state d = d.tick .copyback ∨
        ∃ x, (copyback B src dst edit).state d = d.copies dst x)) := by
  set r := B.reply .copyback (d.ticks .copyback) with hr
  by_cases hrb : r.RbTimeout
  · refine Or.inr ⟨?_, Or.inl ?_⟩
    · simp only [copyback, if_neg (not_not.mpr hplane), Prog.val_bind, val_command, ← hr,
        if_pos hrb, Prog.val_pure]
      decide
    · simp only [copyback, if_neg (not_not.mpr hplane), Prog.state_bind, val_command,
        state_command, Prog.state_get, ← hr, if_pos hrb, Prog.state_pure]
  · have hval : (copyback B src dst edit).val d = r.waitCode := by
      simp only [copyback, if_neg (not_not.mpr hplane), Prog.val_bind, val_command, ← hr,
        if_neg hrb, Prog.val_pure]
    have hstate : (copyback B src dst edit).state d = d.copies dst
        (r.effect.apply dst (d.flash dst) fun c => d.flash dst c &&& edit (d.flash src) c) := by
      simp only [copyback, if_neg (not_not.mpr hplane), Prog.state_bind, val_command,
        state_command, Prog.val_get, Prog.state_get, ← hr, if_neg hrb, state_programPage,
        Prog.state_pure, Dev.flash_tick, programmed, Dev.copies]
    by_cases hcode : r.waitCode = 0
    · refine Or.inl ⟨hval.trans hcode, ?_⟩
      rw [hstate, hB _ hrb hcode]
      rfl
    · exact Or.inr ⟨by rwa [hval], Or.inr ⟨_, hstate⟩⟩

/-- Whether a copy-back succeeds depends on the chip alone. -/
theorem copyback_val_iff {src dst : ℕ} (edit : Bytes → Bytes)
    (hplane : u16 (src / B.blockPagenum) % 2 = u16 (dst / B.blockPagenum) % 2) (d : Dev) :
    (copyback B src dst edit).val d = 0 ↔
      ¬ (B.reply .copyback (d.ticks .copyback)).RbTimeout ∧
        (B.reply .copyback (d.ticks .copyback)).waitCode = 0 := by
  set r := B.reply .copyback (d.ticks .copyback) with hr
  by_cases hrb : r.RbTimeout
  · have hval : (copyback B src dst edit).val d = nstaTimeout := by
      simp only [copyback, if_neg (not_not.mpr hplane), Prog.val_bind, val_command, ← hr,
        if_pos hrb, Prog.val_pure]
    rw [hval]
    exact ⟨fun h => absurd h (by decide), fun h => absurd hrb h.1⟩
  · have hval : (copyback B src dst edit).val d = r.waitCode := by
      simp only [copyback, if_neg (not_not.mpr hplane), Prog.val_bind, val_command, ← hr,
        if_neg hrb, Prog.val_pure]
    rw [hval]
    exact ⟨fun h => ⟨hrb, h⟩, fun h => h.2⟩

section Copies
variable (d : Dev) (page : ℕ) (x : Bytes)

@[simp] theorem Dev.flash_copies : (d.copies page x).flash = Function.update d.flash page x := rfl
@[simp] theorem Dev.lut_copies : (d.copies page x).lut = d.lut := rfl
@[simp] theorem Dev.goodBlocknum_copies : (d.copies page x).goodBlocknum = d.goodBlocknum := rfl
@[simp] theorem Dev.validBlocknum_copies : (d.copies page x).validBlocknum = d.validBlocknum := rfl
@[simp] theorem Dev.curblock_copies : (d.copies page x).curblock = d.curblock := rfl
@[simp] theorem Dev.log_copies :
    (d.copies page x).log =
      d.log ++ [⟨.copyback, d.ticks .copyback, page, Function.update d.flash page x⟩] := by
  simp [Dev.copies, Dev.store]
@[simp] theorem Dev.ticks_copies : (d.copies page x).ticks .copyback = d.ticks .copyback + 1 := by
  simp [Dev.copies]

end Copies

/-! ## Commands that are not issued -/

/-- `p` issues no command of kind `c`. -/
abbrev Avoids {α : Type} (c : Cmd) (p : NandM α) : Prop := Prog.Keeps (fun d => d.ticks c) p

section Avoids
variable {B : Board} {c : Cmd}

theorem avoids_command {c' : Cmd} (h : c ≠ c') : Avoids c (command B c') :=
  fun d => Dev.ticks_tick_of_ne d h

theorem avoids_nandReadpagecomp (h : c ≠ .read) (pagenum colnum cmpval n equal : ℕ) :
    Avoids c (nandReadpagecomp B pagenum colnum cmpval n equal) := by
  intro d
  simp only [state_nandReadpagecomp]
  exact Dev.ticks_reads_of_ne d 1 h

theorem avoids_nandReadspare (h : c ≠ .read) (pagenum colnum : ℕ) (pbuffer : Bytes) (n : ℕ) :
    Avoids c (nandReadspare B pagenum colnum pbuffer n) := by
  intro d
  simp only [state_nandReadspare]
  exact Dev.ticks_reads_of_ne d 1 h

theorem avoids_nandWritepage (h : c ≠ .program) (pagenum colnum : ℕ) (pbuffer : Bytes) (n : ℕ) :
    Avoids c (nandWritepage B pagenum colnum pbuffer n) :=
  .bind (avoids_command h) fun _ => .bind (.modify fun _ => rfl) fun _ => .pure _

theorem avoids_nandWritespare (h : c ≠ .program) (pagenum colnum : ℕ) (pbuffer : Bytes) (n : ℕ) :
    Avoids c (nandWritespare B pagenum colnum pbuffer n) := avoids_nandWritepage h _ _ _ _

theorem avoids_nandEraseblock (h : c ≠ .erase) (b : ℕ) : Avoids c (nandEraseblock B b) :=
  .bind (avoids_command h) fun _ => .bind (.modify fun _ => rfl) fun _ => .pure _

end Avoids
end Apollo.Nand
