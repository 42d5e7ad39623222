import Apollo.Iic.At24cxx
import Mathlib.Data.Nat.Bitwise

/-!
# The port expander, beside the EEPROM

`pcf8574.c` drives eight pins over the bus that the EEPROM hangs on.  A pin whose latch is high
can be pulled low from outside, and a read gives the pins, not the latch: `pcf8574_write_bit`,
which reads the port and writes it back, keeps another pin high only if nobody pulls it low at
that moment.

## Main definitions

* `Port`, `expander` — the chip.
* `pcf8574WriteByte`, `pcf8574ReadByte`, `pcf8574WriteBit`, `pcf8574ReadBit`, `pcf8574Init` — the
  code.
* `Op` — what happens on the board; `Op.onBus`, `Op.onBoard` — on the wires, and to the memory
  and the pins.
* `board_simulates` — any run of the calls on the wires is one on the memory and the pins.
* `latch_high_iff` — when a pin is still high after a run.
-/

namespace Apollo.Iic
open Lib

/-- The pins: the latch, and the level that the outside allows each of them. -/
structure Port where
  latch : ℕ
  ext : ℕ
  deriving DecidableEq

/-- The pins as they are. -/
def Port.level (p : Port) : ℕ := p.latch &&& p.ext

/-- The port expander. -/
def expander : Device Port where
  select b p := (b / 2 = 32, p)
  write b p := (true, { p with latch := b })
  read p := (p.level, p)
  stop p := p

section Code
variable {σ : Type} (D : Device σ) (settle : σ → σ)

/-- `pcf8574_read_byte`. -/
def pcf8574ReadByte : Prog (Bus σ) ℕ := do
  iicStart D
  iicSendByte D (0x40 ||| 0x01)
  let _ ← iicWaitAck D
  let temp ← iicReadByte D false
  iicStop D
  pure temp

/-- `pcf8574_write_byte`. -/
def pcf8574WriteByte (data : ℕ) : Prog (Bus σ) Unit := do
  iicStart D
  iicSendByte D 0x40
  let _ ← iicWaitAck D
  iicSendByte D data
  let _ ← iicWaitAck D
  iicStop D
  delayTen settle

/-- The byte that `pcf8574_write_bit` writes back. -/
def withBit (data bit sta : ℕ) : ℕ :=
  if sta = 0 then data &&& (255 ^^^ (1 <<< bit) % 256) else (data ||| 1 <<< bit) % 256

/-- `pcf8574_write_bit`. -/
def pcf8574WriteBit (bit sta : ℕ) : Prog (Bus σ) Unit := do
  let data ← pcf8574ReadByte D
  pcf8574WriteByte D settle (withBit data bit sta)

/-- `pcf8574_read_bit`. -/
def pcf8574ReadBit (bit : ℕ) : Prog (Bus σ) ℕ := do
  let data ← pcf8574ReadByte D
  if data &&& 1 <<< bit ≠ 0 then pure 1 else pure 0

/-- `pcf8574_init`, once the pins are set up. -/
def pcf8574Init : Prog (Bus σ) ℕ := do
  iicInit D
  iicStart D
  iicSendByte D 0x40
  let temp ← iicWaitAck D
  iicStop D
  pcf8574WriteByte D settle 0xFF
  pure temp

end Code

/-! ## One call -/

section Calls
variable (eeType row : ℕ) {mem : ℕ → ℕ} {p : Port}

theorem expander_deaf (b : ℕ) (p : Port) (h : b / 2 = 80) : expander.select b p = (false, p) := by
  simp only [expander, h]
  rfl

/-- The board: the EEPROM and the expander on one bus. -/
abbrev board (eeType row : ℕ) : Device (Beside Eeprom Port) := chipAnd eeType row expander

variable {eeType row} (mem p) in
theorem answerTo_port_write (counter due : ℕ) (first : Bool) :
    answerTo (board eeType row) ⟨⟨mem, counter, due, [], false⟩, p, first⟩ true 0x40 =
      ⟨.answer true false, ⟨⟨mem, counter, due, [], false⟩, p, false⟩⟩ := rfl

variable {eeType row} (mem p) in
theorem answerTo_port_read (counter due : ℕ) (first : Bool) :
    answerTo (board eeType row) ⟨⟨mem, counter, due, [], false⟩, p, first⟩ true (0x40 ||| 0x01) =
      ⟨.answer true true, ⟨⟨mem, counter, due, [], false⟩, p, false⟩⟩ := rfl

theorem pcf8574ReadByte_eq (hlevel : p.level < 256) {b : Bus (Beside Eeprom Port)}
    (h : Kept mem p b) : ∃ b',
      pcf8574ReadByte (board eeType row) b = (p.level, b') ∧ Kept mem p b' := by
  obtain ⟨counter, due, first, rfl⟩ := h
  refine ⟨_, ?_, counter, due, false, rfl⟩
  have hgiven : (board eeType row).read ⟨⟨mem, counter, due, [], false⟩, p, false⟩ =
      (p.level, ⟨⟨mem, counter, due, [], false⟩, p, false⟩) := rfl
  rw [pcf8574ReadByte, Prog.bind_of (iicStart_free ..),
    Prog.bind_of (iicSendByte_address _ _ (by decide)), answerTo_port_read,
    Prog.bind_of (iicWaitAck_byte ..), hgiven, Prog.bind_of (iicReadByte_nack _ _ hlevel),
    Prog.bind_of (iicStop_held ..)]
  rfl

theorem pcf8574WriteByte_eq {data : ℕ} (hdata : data < 256) {b : Bus (Beside Eeprom Port)}
    (h : Kept mem p b) : ∃ b',
      pcf8574WriteByte (board eeType row) settled data b = ((), b') ∧
        Kept mem { p with latch := data } b' := by
  obtain ⟨counter, due, first, rfl⟩ := h
  refine ⟨_, ?_, counter, due, false, rfl⟩
  have htaken : answerTo (board eeType row) ⟨⟨mem, counter, due, [], false⟩, p, false⟩ false data =
      ⟨.answer true false,
        ⟨⟨mem, counter, due, [], false⟩, { p with latch := data }, false⟩⟩ := rfl
  rw [pcf8574WriteByte, Prog.bind_of (iicStart_free ..),
    Prog.bind_of (iicSendByte_address _ _ (by decide)), answerTo_port_write,
    Prog.bind_of (iicWaitAck_data ..), Prog.bind_of (iicSendByte_data _ _ hdata), htaken,
    Prog.bind_of (iicWaitAck_data ..), Prog.bind_of (iicStop_data ..)]
  rfl

theorem withBit_lt {data : ℕ} (hdata : data < 256) (bit sta : ℕ) : withBit data bit sta < 256 := by
  rw [withBit]
  split
  · exact Nat.lt_of_le_of_lt Nat.and_le_left hdata
  · exact Nat.mod_lt _ (by decide)

theorem pcf8574WriteBit_eq (hlevel : p.level < 256) (bit sta : ℕ)
    {b : Bus (Beside Eeprom Port)} (h : Kept mem p b) : ∃ b',
      pcf8574WriteBit (board eeType row) settled bit sta b = ((), b') ∧
        Kept mem { p with latch := withBit p.level bit sta } b' := by
  obtain ⟨b₁, hread, h₁⟩ := pcf8574ReadByte_eq eeType row hlevel h
  obtain ⟨b', hwrite, h'⟩ := pcf8574WriteByte_eq eeType row
    (withBit_lt hlevel bit sta) h₁
  exact ⟨b', by rw [pcf8574WriteBit, Prog.bind_of hread, hwrite], h'⟩

theorem pcf8574ReadBit_eq (hlevel : p.level < 256) (bit : ℕ)
    {b : Bus (Beside Eeprom Port)} (h : Kept mem p b) : ∃ b',
      pcf8574ReadBit (board eeType row) bit b = ((p.level.testBit bit).toNat, b') ∧
        Kept mem p b' := by
  obtain ⟨b', hread, h'⟩ := pcf8574ReadByte_eq eeType row hlevel h
  refine ⟨b', ?_, h'⟩
  have hbit : p.level &&& 1 <<< bit ≠ 0 ↔ p.level.testBit bit = true := by
    rw [Nat.one_shiftLeft, Nat.and_two_pow]
    cases p.level.testBit bit <;> simp
  rw [pcf8574ReadBit, Prog.bind_of hread]
  by_cases hhigh : p.level.testBit bit = true
  · rw [if_pos (hbit.2 hhigh), hhigh]
    rfl
  · rw [if_neg (mt hbit.1 hhigh), Bool.eq_false_iff.2 hhigh]
    rfl

/-- Whatever the wires were, the port is all high in the end. -/
theorem pcf8574Init_eq (scl sda : Bool) (counter due : ℕ) (first : Bool) : ∃ b',
    pcf8574Init (board eeType row) settled
        ⟨scl, sda, .idle, ⟨⟨mem, counter, due, [], false⟩, p, first⟩⟩ = (0, b') ∧
      Kept mem { p with latch := 0xFF } b' := by
  have hrest : Kept mem p (Link.bus ⟨.free, ⟨⟨mem, counter, due, [], false⟩, p, false⟩⟩) :=
    ⟨counter, due, false, rfl⟩
  obtain ⟨b', hwrite, h'⟩ := pcf8574WriteByte_eq eeType row
    (show 0xFF < 256 by decide) hrest
  have hstop : (board eeType row).stop ⟨⟨mem, counter, due, [], false⟩, p, first⟩ =
      ⟨⟨mem, counter, due, [], false⟩, p, first⟩ := rfl
  refine ⟨b', ?_, h'⟩
  rw [pcf8574Init, Prog.bind_of (iicInit_idle ..), hstop, Prog.bind_of (iicStart_free ..),
    Prog.bind_of (iicSendByte_address _ _ (by decide)), answerTo_port_write,
    Prog.bind_of (iicWaitAck_data ..), Prog.bind_of (iicStop_data ..)]
  exact Prog.bind_of hwrite _

end Calls

/-! ## Runs -/

/-- What happens on the board: a call of a driver, or a change of the levels outside. -/
inductive Op where
  | readEeprom (addr datalen : ℕ)
  | writeEeprom (addr : ℕ) (pbuf : ℕ → UInt8) (datalen : ℕ)
  | check
  | readByte
  | writeByte (data : UInt8)
  | readBit (bit : ℕ)
  | writeBit (bit sta : ℕ)
  | outside (ext : UInt8)

/-- What the calls are about: the bytes of the EEPROM and the pins. -/
structure Board where
  mem : ℕ → ℕ
  port : Port

/-- The bytes are bytes. -/
structure Board.Bounded (s : Board) : Prop where
  mem : ∀ a, s.mem a < 256
  latch : s.port.latch < 256

theorem Board.Bounded.level {s : Board} (h : s.Bounded) : s.port.level < 256 :=
  Nat.lt_of_le_of_lt Nat.and_le_left h.latch

/-- The addresses are on the chip. -/
def Op.Legal (eeType : ℕ) : Op → Prop
  | readEeprom addr datalen => addr + datalen ≤ eeType + 1
  | writeEeprom addr _ datalen => addr + datalen ≤ eeType + 1
  | _ => True

/-- On the wires, with what the call returns. -/
def Op.onBus (eeType row : ℕ) : Op → Prog (Bus (Beside Eeprom Port)) (List ℕ)
  | readEeprom addr datalen => at24cxxRead (board eeType row) eeType addr datalen
  | writeEeprom addr pbuf datalen => do
      at24cxxWrite (board eeType row) settled eeType addr (fun j => (pbuf j).toNat) datalen
      pure []
  | check => do
      let r ← at24cxxCheck (board eeType row) settled eeType
      pure [r]
  | readByte => do
      let r ← pcf8574ReadByte (board eeType row)
      pure [r]
  | writeByte data => do
      pcf8574WriteByte (board eeType row) settled data.toNat
      pure []
  | readBit bit => do
      let r ← pcf8574ReadBit (board eeType row) bit
      pure [r]
  | writeBit bit sta => do
      pcf8574WriteBit (board eeType row) settled bit sta
      pure []
  | outside ext => do
      Prog.modify fun b =>
        { b with dev := { b.dev with right := { b.dev.right with ext := ext.toNat } } }
      pure []

/-- On the memory and the pins. -/
def Op.onBoard (eeType : ℕ) : Op → Board → List ℕ × Board
  | readEeprom addr datalen, s => ((List.range' addr datalen).map s.mem, s)
  | writeEeprom addr pbuf datalen, s =>
      ([], { s with mem := overlay s.mem addr (fun j => (pbuf j).toNat) datalen })
  | check, s =>
      ([if s.mem eeType = 0x55 ∨ eeType = 255 ∨ s.mem 255 = 0x55 then 0 else 1],
        { s with mem := Function.update s.mem eeType 0x55 })
  | readByte, s => ([s.port.level], s)
  | writeByte data, s => ([], { s with port := { s.port with latch := data.toNat } })
  | readBit bit, s => ([(s.port.level.testBit bit).toNat], s)
  | writeBit bit sta, s =>
      ([], { s with port := { s.port with latch := withBit s.port.level bit sta } })
  | outside ext, s => ([], { s with port := { s.port with ext := ext.toNat } })

theorem Op.bounded (eeType : ℕ) (op : Op) {s : Board} (h : s.Bounded) :
    (op.onBoard eeType s).2.Bounded := by
  cases op with
  | writeEeprom addr pbuf datalen =>
      refine ⟨fun a => ?_, h.latch⟩
      change overlay s.mem addr (fun j => (pbuf j).toNat) datalen a < 256
      rw [overlay]
      split
      · exact (pbuf _).toNat_lt
      · exact h.mem a
  | check =>
      refine ⟨fun a => ?_, h.latch⟩
      change Function.update s.mem eeType 0x55 a < 256
      rw [Function.update_apply]
      split
      · decide
      · exact h.mem a
  | writeByte data => exact ⟨h.mem, data.toNat_lt⟩
  | writeBit bit sta => exact ⟨h.mem, withBit_lt h.level bit sta⟩
  | _ => exact ⟨h.mem, h.latch⟩

section Runs
variable {eeType : ℕ} (row : ℕ)

theorem Op.onBus_eq (hfits : Fits eeType) (hbytes : 255 ≤ eeType) {op : Op}
    (hop : op.Legal eeType) {s : Board} (hs : s.Bounded) {b : Bus (Beside Eeprom Port)}
    (h : Kept s.mem s.port b) : ∃ b',
      op.onBus eeType row b = ((op.onBoard eeType s).1, b') ∧
        Kept (op.onBoard eeType s).2.mem (op.onBoard eeType s).2.port b' := by
  have hstop : ∀ p : Port, expander.stop p = p := fun _ => rfl
  cases op with
  | readEeprom addr datalen =>
      exact at24cxxRead_eq expander_deaf hstop hfits hs.mem hop h
  | writeEeprom addr pbuf datalen =>
      exact ⟨_, rfl, at24cxxWrite_kept expander_deaf hstop hfits (fun j => (pbuf j).toNat_lt) hop h⟩
  | check =>
      obtain ⟨b', hrun, h'⟩ :=
        at24cxxCheck_eq row expander_deaf hstop hfits hs.mem hbytes h
      exact ⟨b', Prog.bind_of hrun _, h'⟩
  | readByte =>
      obtain ⟨b', hrun, h'⟩ := pcf8574ReadByte_eq eeType row hs.level h
      exact ⟨b', Prog.bind_of hrun _, h'⟩
  | writeByte data =>
      obtain ⟨b', hrun, h'⟩ := pcf8574WriteByte_eq eeType row data.toNat_lt h
      exact ⟨b', Prog.bind_of hrun _, h'⟩
  | readBit bit =>
      obtain ⟨b', hrun, h'⟩ := pcf8574ReadBit_eq eeType row hs.level bit h
      exact ⟨b', Prog.bind_of hrun _, h'⟩
  | writeBit bit sta =>
      obtain ⟨b', hrun, h'⟩ := pcf8574WriteBit_eq eeType row hs.level bit sta h
      exact ⟨b', Prog.bind_of hrun _, h'⟩
  | outside ext =>
      obtain ⟨counter, due, first, rfl⟩ := h
      exact ⟨_, rfl, counter, due, first, rfl⟩

/-- On the wires, one after the other. -/
def runWires (eeType row : ℕ) : List Op → Prog (Bus (Beside Eeprom Port)) (List (List ℕ))
  | [] => pure []
  | op :: ops => do
      let r ← op.onBus eeType row
      let rs ← runWires eeType row ops
      pure (r :: rs)

/-- On the memory and the pins, one after the other. -/
def runBoard (eeType : ℕ) : List Op → Board → List (List ℕ) × Board
  | [], s => ([], s)
  | op :: ops, s =>
      let (r, s₁) := op.onBoard eeType s
      let (rs, s₂) := runBoard eeType ops s₁
      (r :: rs, s₂)

/-- Any calls, one after the other and with any changes outside in between, do on the wires what
they do to the memory and the pins, and return the same. -/
theorem board_simulates (hfits : Fits eeType) (hbytes : 255 ≤ eeType) {ops : List Op}
    (hops : ∀ op ∈ ops, op.Legal eeType) {s : Board} (hs : s.Bounded)
    {b : Bus (Beside Eeprom Port)} (h : Kept s.mem s.port b) : ∃ b',
      runWires eeType row ops b = ((runBoard eeType ops s).1, b') ∧
        Kept (runBoard eeType ops s).2.mem (runBoard eeType ops s).2.port b' := by
  induction ops generalizing s b with
  | nil => exact ⟨b, rfl, h⟩
  | cons op ops ih =>
      rw [List.forall_mem_cons] at hops
      obtain ⟨b₁, hone, h₁⟩ := Op.onBus_eq row hfits hbytes hops.1 hs h
      obtain ⟨b', hmany, h'⟩ := ih hops.2 (Op.bounded eeType op hs) h₁
      refine ⟨b', ?_, h'⟩
      rw [runWires, Prog.bind_of hone, Prog.bind_of hmany]
      rfl

/-- A blank 24C02 and a port that is all high. -/
def blankBoard : Board := ⟨fun _ => 255, 255, 255⟩

theorem blankBoard_bounded : blankBoard.Bounded := ⟨fun _ => show 255 < 256 by decide, by decide⟩

/-- The wires of this board. -/
def blankWires : Bus (Beside Eeprom Port) :=
  Link.bus ⟨.free, ⟨⟨blankBoard.mem, 0, 0, [], false⟩, blankBoard.port, false⟩⟩

theorem blankWires_kept : Kept blankBoard.mem blankBoard.port blankWires := ⟨0, 0, false, rfl⟩

/-- While the second pin is low, another one is set. -/
def somePinLow : List Op :=
  [.check, .writeBit 0 1, .outside 253, .writeBit 7 0, .readBit 1, .readEeprom 254 2]

theorem board_simulates_blank : ∃ b',
    runWires 255 8 somePinLow blankWires = ([[0], [], [], [], [0], [255, 85]], b') ∧
      Kept (Function.update (fun _ => 255) 255 0x55) ⟨125, 253⟩ b' :=
  board_simulates 8 (Or.inl ⟨by decide, by decide⟩) (by decide)
    (by simp [somePinLow, Op.Legal]) blankBoard_bounded blankWires_kept

/-! ### A pin after a run -/

theorem testBit_withBit {data : ℕ} (bit sta : ℕ) {j : ℕ} (hj : j < 8) :
    (withBit data bit sta).testBit j = if j = bit then decide (sta ≠ 0) else data.testBit j := by
  have hfull : Nat.testBit 255 j = true := by interval_cases j <;> rfl
  have hlow : ∀ n, (n % 256).testBit j = n.testBit j := fun n => by
    rw [show 256 = 2 ^ 8 from rfl, Nat.testBit_mod_two_pow, decide_eq_true hj, Bool.true_and]
  have hone : (1 <<< bit).testBit j = decide (j = bit) := by
    rw [Nat.one_shiftLeft, Nat.testBit_two_pow]
    exact decide_eq_decide.2 eq_comm
  by_cases hsta : sta = 0
  · rw [withBit, if_pos hsta, Nat.testBit_and, Nat.testBit_xor, hfull, hlow, hone]
    by_cases h : j = bit <;> simp [h, hsta]
  · rw [withBit, if_neg hsta, hlow, Nat.testBit_or, hone]
    by_cases h : j = bit <;> simp [h, hsta]

/-- The call does not set the pin. -/
def Op.Spares (j : ℕ) : Op → Prop
  | writeByte _ => False
  | writeBit bit _ => bit ≠ j
  | _ => True

/-- The levels outside, each time that `pcf8574_write_bit` looks at the port. -/
def seenLevels : List Op → ℕ → List ℕ
  | [], _ => []
  | .outside ext :: ops, _ => seenLevels ops ext.toNat
  | .writeBit _ _ :: ops, ext => ext :: seenLevels ops ext
  | _ :: ops, ext => seenLevels ops ext

variable (eeType) in
/-- A pin that no call sets is high after a run if and only if it was before, and was not pulled
low whenever another pin was set. -/
theorem latch_high_iff {j : ℕ} (hj : j < 8) {ops : List Op} (hops : ∀ op ∈ ops, op.Spares j)
    (s : Board) : (runBoard eeType ops s).2.port.latch.testBit j = true ↔
      s.port.latch.testBit j = true ∧
        ∀ ext ∈ seenLevels ops s.port.ext, ext.testBit j = true := by
  induction ops generalizing s with
  | nil => simp [runBoard, seenLevels]
  | cons op ops ih =>
      rw [List.forall_mem_cons] at hops
      have hrest := ih hops.2 (op.onBoard eeType s).2
      cases op with
      | writeByte data => exact hops.1.elim
      | writeBit bit sta =>
          have hbit : (withBit s.port.level bit sta).testBit j = s.port.level.testBit j := by
            rw [testBit_withBit bit sta hj, if_neg (Ne.symm hops.1)]
          refine hrest.trans ?_
          change (withBit s.port.level bit sta).testBit j = true ∧ _ ↔ _
          rw [hbit, Port.level, Nat.testBit_and, Bool.and_eq_true, seenLevels,
            List.forall_mem_cons, and_assoc]
          rfl
      | _ => exact hrest

/-- A pin that was set, and that no later call sets, is high after a run if and only if it was
set high and not pulled low from outside whenever a later call set another pin. -/
theorem setPin_high_iff (hfits : Fits eeType) (hbytes : 255 ≤ eeType) {j : ℕ} (hj : j < 8)
    (sta : ℕ) {ops : List Op} (hops : ∀ op ∈ ops, op.Legal eeType ∧ op.Spares j) {s : Board}
    (hs : s.Bounded) {b : Bus (Beside Eeprom Port)} (h : Kept s.mem s.port b) : ∃ mem p,
      Kept mem p ((runWires eeType row (.writeBit j sta :: ops)).state b) ∧
        (p.latch.testBit j = true ↔
          sta ≠ 0 ∧ ∀ ext ∈ seenLevels ops s.port.ext, ext.testBit j = true) := by
  have hlegal : ∀ op ∈ Op.writeBit j sta :: ops, op.Legal eeType :=
    List.forall_mem_cons.2 ⟨trivial, fun op hop => (hops op hop).1⟩
  obtain ⟨b', hrun, h'⟩ := board_simulates row hfits hbytes hlegal hs h
  refine ⟨_, _, by rwa [Prog.state, hrun], ?_⟩
  have hpin := latch_high_iff eeType hj (fun op hop => (hops op hop).2)
    ((Op.writeBit j sta).onBoard eeType s).2
  refine hpin.trans (and_congr_left fun _ => ?_)
  change (withBit s.port.level j sta).testBit j = true ↔ _
  rw [testBit_withBit j sta hj, if_pos rfl, decide_eq_true_iff]

theorem setPin_high_iff_blank : ∃ mem p,
    Kept mem p ((runWires 255 8 [.writeBit 1 1, .outside 253, .writeBit 7 0]).state blankWires) ∧
      (p.latch.testBit 1 = true ↔ 1 ≠ 0 ∧ ∀ ext ∈ [253], Nat.testBit ext 1 = true) :=
  setPin_high_iff 8 (show Fits 255 from Or.inl ⟨by decide, by decide⟩) (by decide) (by decide) 1
    (by simp [Op.Legal, Op.Spares]) blankBoard_bounded blankWires_kept

end Runs

end Apollo.Iic
