import Apollo.Lib.Overlay
import Apollo.Lib.Prog
import Mathlib.Algebra.GroupWithZero.Nat

/-!
# Filling a playback buffer

`wav_buffill` reads 16-bit samples straight into the buffer; 24-bit samples it reads into
`tbuf` and spreads over words of four bytes, three of which are played.  When the file ends it
should pad with silence.  The 16-bit loop that does so stops at `size - bread` in place of
`size`, and the 24-bit path spreads what an earlier fill has left in `tbuf`.

## Main definitions

* `Buffers`, `wavBuffill` — the code.
* `Padded` — the delivered samples are in place and the rest is silence.
* `LeftSilent` — what was left in the buffers is silence already where it is not cleared.
* `padded_iff` — a fill is padded exactly under that condition.
-/

namespace Apollo.Wav
open Lib

/-- The buffer to be filled, and `g_audiodev.tbuf`. -/
structure Buffers where
  buf : ℕ → UInt8
  tbuf : ℕ → UInt8

/-- The buffer that `f_read` has written the delivered bytes to. -/
def delivered (read : List UInt8) (b : ℕ → UInt8) : ℕ → UInt8 :=
  overlay b 0 (fun i => read.getD i 0) read.length

/-- One round of the 24-bit loop, for `i = 4 * k` and `p = tbuf + 3 * k`. -/
def spreadRound (k : ℕ) (_ : Unit) : Prog Buffers Unit := do
  Prog.modify fun b => { b with buf := Function.update b.buf (4 * k) (b.tbuf (3 * k + 1)) }
  Prog.modify fun b => { b with buf := Function.update b.buf (4 * k + 1) (b.tbuf (3 * k + 2)) }
  Prog.modify fun b => { b with buf := Function.update b.buf (4 * k + 3) (b.tbuf (3 * k)) }

/-- `for (i = bread; i < size - bread; i++)` in the 16-bit path. -/
def padTail (size bread : ℕ) : Prog Buffers Unit :=
  if bread < size then
    Prog.forUp (fun i _ => Prog.modify fun b => { b with buf := Function.update b.buf i 0 })
      (size - bread - bread) bread ()
  else pure ()

/-- `wav_buffill`, for an `f_read` that delivers the bytes `read`. -/
def wavBuffill (size bits : ℕ) (read : List UInt8) : Prog Buffers ℕ :=
  if bits = 24 then do
    Prog.modify fun b => { b with tbuf := delivered read b.tbuf }
    Prog.forUp spreadRound ((size + 3) / 4) 0 ()
    pure (read.length * 4 % 2 ^ 32 / 3)
  else do
    Prog.modify fun b => { b with buf := delivered read b.buf }
    padTail size read.length
    pure read.length

/-- How many bytes `wav_buffill` asks `f_read` for. -/
def requested (size bits : ℕ) : ℕ := if bits = 24 then size / 4 * 3 else size

/-- The bytes of the buffer that samples go to: three of four with 24 bits. -/
def Played (bits i : ℕ) : Prop := bits = 24 → i % 4 ≠ 2

/-- The delivered samples are in place, and every played byte from the returned length on is
`0`. -/
structure Padded (size bits : ℕ) (read : List UInt8) (b : Buffers) : Prop where
  direct : bits ≠ 24 → ∀ i < read.length,
    ((wavBuffill size bits read).state b).buf i = read.getD i 0
  spread : bits = 24 → ∀ k, 3 * k + 3 ≤ read.length →
    ((wavBuffill size bits read).state b).buf (4 * k) = read.getD (3 * k + 1) 0 ∧
      ((wavBuffill size bits read).state b).buf (4 * k + 1) = read.getD (3 * k + 2) 0 ∧
      ((wavBuffill size bits read).state b).buf (4 * k + 3) = read.getD (3 * k) 0
  silent : ∀ i, (wavBuffill size bits read).val b ≤ i → i < size → Played bits i →
    ((wavBuffill size bits read).state b).buf i = 0

/-- What the fill does not clear is silence already: with 24 bits the bytes of `tbuf` from the
first triple on of which nothing is delivered, and the bytes past the returned length of a
triple that is delivered in part; else the bytes of the buffer that lie behind both the
delivered ones and `size - bread`. -/
def LeftSilent (size bits : ℕ) (read : List UInt8) (b : Buffers) : Prop :=
  if bits = 24 then
    (∀ j, (read.length + 2) / 3 * 3 ≤ j → j < size / 4 * 3 → b.tbuf j = 0) ∧
      (read.length % 3 ≠ 0 → read.getD (read.length / 3 * 3) 0 = 0) ∧
      (read.length % 3 = 1 → b.tbuf (read.length / 3 * 3 + 2) = 0)
  else ∀ i, read.length ≤ i → size - read.length ≤ i → i < size → b.buf i = 0

theorem delivered_inside {read : List UInt8} {b : ℕ → UInt8} {i : ℕ} (h : i < read.length) :
    delivered read b i = read.getD i 0 := overlay_inside (Nat.zero_le i) (by omega)

theorem delivered_outside {read : List UInt8} {b : ℕ → UInt8} {i : ℕ} (h : read.length ≤ i) :
    delivered read b i = b i := overlay_after (by omega)

/-! ## 24 bits -/

/-- What the spread puts where. -/
def spreadByte (t b : ℕ → UInt8) (i : ℕ) : UInt8 :=
  if i % 4 = 0 then t (i / 4 * 3 + 1)
  else if i % 4 = 1 then t (i / 4 * 3 + 2)
  else if i % 4 = 2 then b i
  else t (i / 4 * 3)

/-- After `n` rounds `n` words are spread. -/
theorem state_spread (n : ℕ) (b : Buffers) : (Prog.forUp spreadRound n 0 ()).state b =
    { b with buf := fun i => if i < 4 * n then spreadByte b.tbuf b.buf i else b.buf i } := by
  refine Prog.forUp_inv (n := n) (I := fun k _ t => t =
    { b with buf := fun i => if i < 4 * k then spreadByte b.tbuf b.buf i else b.buf i }) ?_
    (Nat.zero_add n) ?_
  · rintro k - _ t rfl
    simp only [spreadRound, Prog.state_bind, Prog.state_modify, Buffers.mk.injEq, and_true]
    funext i
    simp only [Function.update_apply, spreadByte]
    by_cases hword : 4 * k ≤ i ∧ i < 4 * (k + 1)
    · obtain rfl | rfl | rfl | rfl :
          i = 4 * k ∨ i = 4 * k + 1 ∨ i = 4 * k + 2 ∨ i = 4 * k + 3 := by omega
      all_goals grind
    · grind
  · simp

section Wide
variable {size : ℕ} {read : List UInt8} {b : Buffers}

theorem val_wavBuffill_wide (hlen : read.length ≤ size / 4 * 3) (hsize : size < 2 ^ 16) :
    (wavBuffill size 24 read).val b = read.length * 4 / 3 := by
  simp only [wavBuffill, if_true, Prog.val_bind, Prog.val_pure]
  rw [Nat.mod_eq_of_lt (by omega)]

theorem buf_wavBuffill_wide (hdvd : 4 ∣ size) {i : ℕ} (hi : i < size) :
    ((wavBuffill size 24 read).state b).buf i = spreadByte (delivered read b.tbuf) b.buf i := by
  simp only [wavBuffill, if_true, Prog.state_bind, Prog.state_modify, Prog.state_pure,
    state_spread]
  exact if_pos (by omega)

/-- The byte of the buffer that the byte `j` of `tbuf` goes to. -/
def slot (j : ℕ) : ℕ := j / 3 * 4 + if j % 3 = 0 then 3 else j % 3 - 1

theorem spreadByte_slot (t b : ℕ → UInt8) (j : ℕ) : spreadByte t b (slot j) = t j := by
  rcases (by omega : j % 3 = 0 ∨ j % 3 = 1 ∨ j % 3 = 2) with h | h | h
  · have hslot : slot j = j / 3 * 4 + 3 := by rw [slot, if_pos h]
    rw [hslot, spreadByte, if_neg (by omega), if_neg (by omega), if_neg (by omega)]
    congr 1
    omega
  · have hslot : slot j = j / 3 * 4 := by
      rw [slot, if_neg (by omega), h, Nat.sub_self, Nat.add_zero]
    rw [hslot, spreadByte, if_pos (by omega)]
    congr 1
    omega
  · have hslot : slot j = j / 3 * 4 + 1 := by rw [slot, if_neg (by omega), h]
    rw [hslot, spreadByte, if_neg (by omega), if_pos (by omega)]
    congr 1
    omega

/-- Every played byte comes from some byte of `tbuf`. -/
theorem exists_slot {i : ℕ} (h : i % 4 ≠ 2) : ∃ j, slot j = i := by
  rcases (by omega : i % 4 = 0 ∨ i % 4 = 1 ∨ i % 4 = 3) with h | h | h
  · refine ⟨i / 4 * 3 + 1, ?_⟩
    rw [slot, if_neg (by omega)]
    omega
  · refine ⟨i / 4 * 3 + 2, ?_⟩
    rw [slot, if_neg (by omega)]
    omega
  · refine ⟨i / 4 * 3, ?_⟩
    rw [slot, if_pos (by omega)]
    omega

/-- With 24 bits a fill is padded exactly if the bytes that `tbuf` has for the silence are `0`. -/
theorem padded_wide (hdvd : 4 ∣ size) (hsize : size < 2 ^ 16)
    (hlen : read.length ≤ size / 4 * 3) : Padded size 24 read b ↔
      ∀ j < size / 4 * 3, read.length * 4 / 3 ≤ slot j → delivered read b.tbuf j = 0 := by
  have hslot : ∀ j, j < size / 4 * 3 ↔ slot j < size := by
    intro j
    simp only [slot]
    split <;> omega
  have hbuf : ∀ j < size / 4 * 3,
      ((wavBuffill size 24 read).state b).buf (slot j) = delivered read b.tbuf j := by
    intro j hj
    rw [buf_wavBuffill_wide hdvd ((hslot j).mp hj), spreadByte_slot]
  constructor
  · intro h j hj hle
    have hsilent := h.silent (slot j)
    rw [val_wavBuffill_wide hlen hsize, hbuf j hj] at hsilent
    refine hsilent hle ((hslot j).mp hj) fun _ => ?_
    simp only [slot]
    split <;> omega
  · intro h
    refine ⟨fun h24 => absurd rfl h24, fun _ k hk => ⟨?_, ?_, ?_⟩, fun i hle hi hplayed => ?_⟩
    · have hk0 : slot (3 * k + 1) = 4 * k := by
        rw [slot, if_neg (by omega)]
        omega
      rw [← hk0, hbuf _ (by omega), delivered_inside (by omega)]
    · have hk1 : slot (3 * k + 2) = 4 * k + 1 := by
        rw [slot, if_neg (by omega)]
        omega
      rw [← hk1, hbuf _ (by omega), delivered_inside (by omega)]
    · have hk3 : slot (3 * k) = 4 * k + 3 := by
        rw [slot, if_pos (by omega)]
        omega
      rw [← hk3, hbuf _ (by omega), delivered_inside (by omega)]
    · obtain ⟨j, rfl⟩ := exists_slot (hplayed rfl)
      rw [val_wavBuffill_wide hlen hsize] at hle
      rw [hbuf j ((hslot j).mpr hi)]
      exact h j ((hslot j).mpr hi) hle

/-- The bytes of `tbuf` that the silence comes from. -/
theorem leftSilent_wide (hlen : read.length ≤ size / 4 * 3) : LeftSilent size 24 read b ↔
    ∀ j < size / 4 * 3, read.length * 4 / 3 ≤ slot j → delivered read b.tbuf j = 0 := by
  rw [LeftSilent, if_pos rfl]
  constructor
  · rintro ⟨hrest, hfirst, hthird⟩ j hj hle
    have hcases : read.length ≤ j ∧ (read.length + 2) / 3 * 3 ≤ j ∨
        read.length % 3 ≠ 0 ∧ j < read.length ∧ j = read.length / 3 * 3 ∨
        read.length ≤ j ∧ read.length % 3 = 1 ∧ j = read.length / 3 * 3 + 2 := by
      simp only [slot] at hle
      split at hle <;> omega
    rcases hcases with ⟨hout, hj'⟩ | ⟨hmod, hin, rfl⟩ | ⟨hout, hmod, rfl⟩
    · rw [delivered_outside hout]
      exact hrest j hj' hj
    · rw [delivered_inside hin]
      exact hfirst hmod
    · rw [delivered_outside hout]
      exact hthird hmod
  · intro h
    refine ⟨fun j hj hlt => ?_, fun hmod => ?_, fun hmod => ?_⟩
    · rw [← delivered_outside (b := b.tbuf) (i := j) (show read.length ≤ j by omega)]
      refine h j hlt ?_
      simp only [slot]
      split <;> omega
    · rw [← delivered_inside (b := b.tbuf) (by omega)]
      refine h _ (by omega) ?_
      rw [slot, if_pos (by omega)]
      omega
    · rw [← delivered_outside (b := b.tbuf) (i := read.length / 3 * 3 + 2)
        (show read.length ≤ read.length / 3 * 3 + 2 by omega)]
      refine h _ (by omega) ?_
      rw [slot, if_neg (by omega)]
      omega

end Wide

/-! ## 16 bits -/

section Narrow
variable {size bits : ℕ} {read : List UInt8} {b : Buffers}

/-- The clearing of `n` bytes from `first` on. -/
theorem state_clear (first n : ℕ) (b : Buffers) : (Prog.forUp (fun i (_ : Unit) =>
    Prog.modify fun b : Buffers =>
      { b with buf := Function.update b.buf i 0 }) n first ()).state b =
      { b with buf := overlay b.buf first (fun _ => 0) n } := by
  induction n generalizing first b with
  | zero => simp [Prog.forUp]
  | succ n ih =>
      simp only [Prog.forUp, Prog.state_bind, Prog.state_modify, ih, Buffers.mk.injEq, and_true]
      funext i
      simp only [overlay, Function.update_apply]
      grind

theorem val_wavBuffill_narrow (hbits : bits ≠ 24) :
    (wavBuffill size bits read).val b = read.length := by
  simp only [wavBuffill, hbits, if_false, Prog.val_bind, Prog.val_pure]

theorem buf_wavBuffill_narrow (hbits : bits ≠ 24) (i : ℕ) :
    ((wavBuffill size bits read).state b).buf i =
      if read.length ≤ i ∧ i < size - read.length then 0 else delivered read b.buf i := by
  simp only [wavBuffill, padTail, hbits, if_false, Prog.state_bind, Prog.state_modify,
    Prog.state_ite, Prog.state_pure, state_clear]
  split
  · simp only [overlay]
    exact if_congr (by omega) rfl rfl
  · rw [if_neg (by omega)]

theorem padded_narrow (hbits : bits ≠ 24) :
    Padded size bits read b ↔ LeftSilent size bits read b := by
  rw [LeftSilent, if_neg hbits]
  constructor
  · intro h i hle hlast hi
    have hsilent := h.silent i
    rw [val_wavBuffill_narrow hbits, buf_wavBuffill_narrow hbits, if_neg (by omega),
      delivered_outside hle] at hsilent
    exact hsilent hle hi fun h24 => absurd h24 hbits
  · intro h
    refine ⟨fun _ i hi => ?_, fun h24 => absurd h24 hbits, fun i hle hi _ => ?_⟩
    · rw [buf_wavBuffill_narrow hbits, if_neg (by omega), delivered_inside hi]
    · rw [val_wavBuffill_narrow hbits] at hle
      rw [buf_wavBuffill_narrow hbits]
      split
      · rfl
      · rw [delivered_outside hle]
        exact h i hle (by omega) hi

end Narrow

/-- A fill leaves the samples and silence behind them exactly if what it does not clear is
silent already. -/
theorem padded_iff {size bits : ℕ} {read : List UInt8} {b : Buffers} (hdvd : 4 ∣ size)
    (hsize : size < 2 ^ 16) (hlen : read.length ≤ requested size bits) :
    Padded size bits read b ↔ LeftSilent size bits read b := by
  by_cases hbits : bits = 24
  · subst hbits
    rw [padded_wide hdvd hsize hlen, leftSilent_wide hlen]
  · exact padded_narrow hbits

/-- Two samples of 24 bits and a part of a third are left of the file, and the buffers hold what an
earlier fill has left. -/
theorem padded_iff_rest : Padded 16 24 [1, 2, 3, 4, 5, 6, 7] ⟨fun _ => 9, fun _ => 8⟩ ↔
    LeftSilent 16 24 [1, 2, 3, 4, 5, 6, 7] ⟨fun _ => 9, fun _ => 8⟩ :=
  padded_iff (by decide) (by decide) (by decide)

/-- Six of eight bytes are delivered, and the last two are an earlier fill's. -/
theorem padded_stale : ¬ ∀ (size bits : ℕ) (read : List UInt8) (b : Buffers), 4 ∣ size →
    size < 2 ^ 16 → bits = 16 ∨ bits = 24 → read.length ≤ requested size bits →
    Padded size bits read b := by
  intro h
  have hpadded := h 8 16 [0, 0, 0, 0, 0, 0] ⟨fun _ => 1, fun _ => 0⟩ (by decide) (by decide)
    (Or.inl rfl) (by decide)
  have hleft := (padded_narrow (by decide)).mp hpadded
  rw [LeftSilent, if_neg (by decide)] at hleft
  exact absurd (hleft 6 (by decide) (by decide) (by decide)) (by decide)

end Apollo.Wav
