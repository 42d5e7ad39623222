import Apollo.Lib.I2c
import Mathlib.Tactic.IntervalCases

/-!
# The bit-banged bus

`myiic.c` drives the two wires pin by pin.  Between its calls the bus is a `Link`, and each of
the calls does to it what the two-wire bus says of a start, a stop, a byte or an acknowledge.
The time between the edges is left out: the target follows them at once.

A missing acknowledge ends with a stop.  The data line is pulled low for it while the clock is
high, so that the target sees a start before the stop.

## Main definitions

* `iicInit`, `iicStart`, `iicStop`, `iicWaitAck`, `iicAck`, `iicNack`, `iicSendByte`,
  `iicReadByte` — the code.
* `Call`, `Call.run`, `Call.onLink` — its calls, on the wires and on the link.
* `Looks` — how often `iic_wait_ack` looks at the data line.
* `calls_simulate` — any legal run of them is the same on both.
-/

namespace Apollo.Iic
open Lib

section Code
variable {σ : Type} (D : Device σ)

/-- `IIC_SCL`. -/
def iicScl (x : Bool) : Prog (Bus σ) Unit := Prog.modify (Bus.setScl D x)

/-- `IIC_SDA`. -/
def iicSda (x : Bool) : Prog (Bus σ) Unit := Prog.modify (Bus.setSda D x)

/-- `IIC_READ_SDA`. -/
def iicReadSda : Prog (Bus σ) Bool := Prog.get Bus.line

/-- `iic_start`. -/
def iicStart : Prog (Bus σ) Unit := do
  iicSda D true
  iicScl D true
  iicSda D false
  iicScl D false

/-- `iic_stop`. -/
def iicStop : Prog (Bus σ) Unit := do
  iicSda D false
  iicScl D true
  iicSda D true

/-- What `iic_init` does to the wires once the pins are set up. -/
def iicInit : Prog (Bus σ) Unit := iicStop D

/-- One look at the line in `iic_wait_ack`. -/
def ackRound (_ waittime : ℕ) : Prog (Bus σ) (Lib.Flow ℕ ℕ) := do
  let high ← iicReadSda
  if high = true then
    if 250 < (waittime + 1) % 256 then do
      iicStop D
      pure (.exit 1)
    else pure (.next ((waittime + 1) % 256))
  else pure (.exit 0)

/-- `iic_wait_ack`.  The loop has at most 251 rounds. -/
def iicWaitAck : Prog (Bus σ) ℕ := do
  iicSda D true
  iicScl D true
  let rack ← Prog.loop (ackRound D) 251 0 0
  iicScl D false
  match rack with
  | .next _ => pure 1
  | .exit rack => pure rack

/-- `iic_ack`. -/
def iicAck : Prog (Bus σ) Unit := do
  iicSda D false
  iicScl D true
  iicScl D false
  iicSda D true

/-- `iic_nack`. -/
def iicNack : Prog (Bus σ) Unit := do
  iicSda D true
  iicScl D true
  iicScl D false

/-- One bit of `iic_send_byte`. -/
def sendBit (_ data : ℕ) : Prog (Bus σ) ℕ := do
  iicSda D (data / 128 % 2 = 1)
  iicScl D true
  iicScl D false
  pure (data * 2 % 256)

/-- `iic_send_byte`. -/
def iicSendByte (data : ℕ) : Prog (Bus σ) Unit := do
  let _ ← Prog.forUp (sendBit D) 8 0 data
  iicSda D true

/-- One bit of `iic_read_byte`. -/
def readBit (_ receive : ℕ) : Prog (Bus σ) ℕ := do
  iicScl D true
  let high ← iicReadSda
  iicScl D false
  pure (receive * 2 % 256 + if high = true then 1 else 0)

/-- `iic_read_byte`. -/
def iicReadByte (ack : Bool) : Prog (Bus σ) ℕ := do
  let receive ← Prog.forUp (readBit D) 8 0 0
  if ack = true then iicAck D else iicNack D
  pure receive

end Code

/-! ## One call -/

section Calls
variable {σ : Type} (D : Device σ) (dev : σ)

theorem iicStart_free : iicStart D (Link.bus ⟨.free, dev⟩) = ((), Link.bus ⟨.address, dev⟩) := rfl
theorem iicStart_data : iicStart D (Link.bus ⟨.data, dev⟩) = ((), Link.bus ⟨.address, dev⟩) := rfl

theorem iicStop_held : iicStop D (Link.bus ⟨.held, dev⟩) = ((), Link.bus ⟨.free, D.stop dev⟩) := rfl
theorem iicStop_data : iicStop D (Link.bus ⟨.data, dev⟩) = ((), Link.bus ⟨.free, D.stop dev⟩) := rfl

theorem iicInit_idle (scl sda : Bool) :
    iicInit D ⟨scl, sda, .idle, dev⟩ = ((), Link.bus ⟨.free, D.stop dev⟩) := by
  cases scl <;> cases sda <;> rfl

/-! ### An acknowledge -/

theorem iicWaitAck_data :
    iicWaitAck D (Link.bus ⟨.answer true false, dev⟩) = (0, Link.bus ⟨.data, dev⟩) := rfl

theorem iicWaitAck_byte : iicWaitAck D (Link.bus ⟨.answer true true, dev⟩) =
    (0, Link.bus ⟨.byte (D.read dev).1, (D.read dev).2⟩) := rfl

theorem ackRound_high {b : Bus σ} (hline : b.line = true) (i waittime : ℕ) :
    ackRound D i waittime b =
      if 250 < (waittime + 1) % 256 then (.exit 1, (iicStop D).state b)
      else (.next ((waittime + 1) % 256), b) := by
  have hlook : ackRound D i waittime b =
      (if 250 < (waittime + 1) % 256 then (do iicStop D; pure (.exit 1))
      else pure (.next ((waittime + 1) % 256)) : Prog (Bus σ) (Lib.Flow ℕ ℕ)) b := by
    rw [ackRound, iicReadSda, Prog.bind_apply, Prog.val_get, Prog.state_get, hline, if_pos rfl]
  rw [hlook]
  split <;> rfl

/-- While the line stays high, `iic_wait_ack` looks at it again. -/
theorem ackRounds_next {b : Bus σ} (hline : b.line = true) (k i waittime : ℕ)
    (hk : waittime + k ≤ 250) :
    Prog.loop (ackRound D) k i waittime b = (.next (waittime + k), b) := by
  induction k generalizing i waittime with
  | zero => rfl
  | succ k ih =>
      have hround := ackRound_high D hline i waittime
      rw [if_neg (by omega), Nat.mod_eq_of_lt (by omega)] at hround
      have hval : (ackRound D i waittime).val b = .next (waittime + 1) := congrArg Prod.fst hround
      rw [Prog.loop_next hval, Prog.state, hround, ih (i + 1) _ (by omega), Nat.add_assoc,
        Nat.add_comm 1]

/-- The 251st look is the last. -/
theorem ackRounds_high {b : Bus σ} (hline : b.line = true) :
    Prog.loop (ackRound D) 251 0 0 b = (.exit 1, (iicStop D).state b) := by
  have hround := ackRound_high D hline (0 + 250) (0 + 250)
  rw [if_pos (by decide)] at hround
  have hval : (ackRound D (0 + 250) (0 + 250)).val b = .exit 1 := congrArg Prod.fst hround
  have hbefore := ackRounds_next D hline 250 0 0 (by decide)
  rw [Prog.loop_add_next (m := 250) (congrArg Prod.fst hbefore) 1, Prog.state, hbefore,
    Prog.loop_exit hval, Prog.state, hround]

/-- Without an acknowledge there is a stop. -/
theorem iicWaitAck_none {phase : Phase} (hrise : phase.rise true = phase)
    (hline : phase.line = true) :
    iicWaitAck D ⟨false, true, phase, dev⟩ = (1, Link.bus ⟨.held, D.stop dev⟩) := by
  have hrose : (iicScl D true).state ((iicSda D true).state ⟨false, true, phase, dev⟩) =
      ⟨true, true, phase, dev⟩ := by
    simp [iicScl, iicSda, Bus.setSda, Bus.setScl, Bus.line, hrise, hline]
  have hstarted : (Phase.taking true []).line = true := rfl
  have hstop : (iicStop D).state ⟨true, true, phase, dev⟩ = ⟨true, true, .idle, D.stop dev⟩ := by
    simp [iicStop, iicSda, iicScl, Bus.setSda, Bus.setScl, Bus.line, hline, hstarted]
  have hhigh : (Bus.mk true true phase dev).line = true := by rw [Bus.line, hline]; rfl
  have hloop := ackRounds_high D hhigh
  rw [hstop] at hloop
  rw [iicWaitAck, Prog.bind_apply, Prog.bind_apply, hrose, Prog.bind_apply, Prog.val, Prog.state,
    hloop]
  rfl

theorem iicWaitAck_held :
    iicWaitAck D (Link.bus ⟨.held, dev⟩) = (1, Link.bus ⟨.held, D.stop dev⟩) :=
  iicWaitAck_none D dev rfl rfl

theorem iicWaitAck_silent (reads : Bool) :
    iicWaitAck D (Link.bus ⟨.answer false reads, dev⟩) = (1, Link.bus ⟨.held, D.stop dev⟩) :=
  iicWaitAck_none D dev rfl rfl

/-! ### A byte that is sent -/

/-- The upper `n` bits of a byte, the highest first, as they come out of a shift register. -/
def topBits : ℕ → ℕ → List Bool
  | _, 0 => []
  | data, n + 1 => (data / 128 % 2 = 1) :: topBits (data * 2 % 256) n

theorem topBits_shifted {data n : ℕ} (hn : n ≤ 8) :
    topBits (data * 2 ^ (8 - n) % 256) n = lowBits data n := by
  induction n with
  | zero => rfl
  | succ n ih =>
      have htop : data * 2 ^ (8 - (n + 1)) % 256 / 128 % 2 = data / 2 ^ n % 2 := by
        have hn' : n < 8 := hn
        interval_cases n <;> omega
      have hnext : data * 2 ^ (8 - (n + 1)) % 256 * 2 % 256 = data * 2 ^ (8 - n) % 256 := by
        rw [Nat.mod_mul_mod, Nat.mul_assoc, ← Nat.pow_succ]
        congr 4
        omega
      rw [topBits, lowBits, htop, hnext, ih (by omega)]

theorem topBits_eight {data : ℕ} (hdata : data < 256) : topBits data 8 = byteBits data := by
  have h : topBits (data * 2 ^ (8 - 8) % 256) 8 = byteBits data := topBits_shifted (Nat.le_refl 8)
  rwa [Nat.sub_self, Nat.pow_zero, Nat.mul_one, Nat.mod_eq_of_lt hdata] at h

/-- A bit is clocked out. -/
theorem sendBit_state {phase : Phase} (hline : phase.line = true) (sda : Bool) (i data : ℕ) :
    (sendBit D i data).state ⟨false, sda, phase, dev⟩ =
      ⟨false, data / 128 % 2 = 1, (D.fall (phase.rise (data / 128 % 2 = 1)) dev).1,
        (D.fall (phase.rise (data / 128 % 2 = 1)) dev).2⟩ := by
  simp [sendBit, iicSda, iicScl, Bus.setSda, Bus.setScl, Bus.line, hline]

/-- The last bits of a byte are clocked out. -/
theorem sendBits_taking (address : Bool) (k i data : ℕ) (bits : List Bool) (sda : Bool)
    (hk : bits.length + (k + 1) = 8) : ∃ sda',
      (Prog.forUp (sendBit D) (k + 1) i data).state ⟨false, sda, .taking address bits, dev⟩ =
        ⟨false, sda', (D.fall (.taking address (bits ++ topBits data (k + 1))) dev).1,
          (D.fall (.taking address (bits ++ topBits data (k + 1))) dev).2⟩ := by
  induction k generalizing i data bits sda with
  | zero => exact ⟨data / 128 % 2 = 1, sendBit_state D dev rfl sda i data⟩
  | succ k ih =>
      have hlen : (bits ++ [decide (data / 128 % 2 = 1)]).length + (k + 1) = 8 := by
        rw [List.length_append, List.length_singleton]; omega
      have hfall : D.fall (.taking address (bits ++ [decide (data / 128 % 2 = 1)])) dev =
          (.taking address (bits ++ [decide (data / 128 % 2 = 1)]), dev) :=
        if_neg (by omega)
      obtain ⟨sda', h⟩ := ih (i + 1) (data * 2 % 256) _ (data / 128 % 2 = 1) hlen
      rw [List.append_assoc] at h
      refine ⟨sda', ?_⟩
      rw [Prog.forUp, Prog.state_bind, sendBit_state D dev rfl, Phase.rise, hfall]
      exact h

/-- What the target makes of a byte. -/
def answerTo (address : Bool) (data : ℕ) : Link σ :=
  let answer := if address then D.select data dev else D.write data dev
  ⟨.answer answer.1 (address && data % 2 = 1), answer.2⟩

theorem iicSendByte_taking {data : ℕ} (hdata : data < 256) (address sda : Bool) :
    iicSendByte D data ⟨false, sda, .taking address [], dev⟩ =
      ((), (answerTo D dev address data).bus) := by
  obtain ⟨sda', h⟩ := sendBits_taking D dev address 7 0 data [] sda rfl
  have hlen : (byteBits data).length = 8 := length_lowBits data 8
  rw [List.nil_append, topBits_eight hdata, Device.fall, if_pos hlen, ofBits_byteBits hdata] at h
  refine Prod.ext rfl ?_
  change (iicSendByte D data).state _ = _
  rw [iicSendByte, Prog.state_bind, h]
  cases address <;> rfl

theorem iicSendByte_address {data : ℕ} (hdata : data < 256) :
    iicSendByte D data (Link.bus ⟨.address, dev⟩) = ((), (answerTo D dev true data).bus) :=
  iicSendByte_taking D dev hdata true false

theorem iicSendByte_data {data : ℕ} (hdata : data < 256) :
    iicSendByte D data (Link.bus ⟨.data, dev⟩) = ((), (answerTo D dev false data).bus) :=
  iicSendByte_taking D dev hdata false true

theorem sendBits_idle (k i data : ℕ) (sda : Bool) : ∃ sda',
    (Prog.forUp (sendBit D) k i data).state ⟨false, sda, .idle, dev⟩ =
      ⟨false, sda', .idle, dev⟩ := by
  induction k generalizing i data sda with
  | zero => exact ⟨sda, rfl⟩
  | succ k ih =>
      rw [Prog.forUp, Prog.state_bind, sendBit_state D dev rfl]
      exact ih (i + 1) _ _

/-- Nobody takes a byte that is not preceded by a start. -/
theorem iicSendByte_held (data : ℕ) :
    iicSendByte D data (Link.bus ⟨.held, dev⟩) = ((), Link.bus ⟨.held, dev⟩) := by
  obtain ⟨sda', h⟩ := sendBits_idle D dev 8 0 data true
  refine Prod.ext rfl ?_
  change (iicSendByte D data).state (Bus.mk false true .idle dev) = _
  rw [iicSendByte, Prog.state_bind, h]
  rfl

/-! ### A byte that is read -/

theorem readBit_giving (bit : Bool) (rest : List Bool) (i receive : ℕ) :
    readBit D i receive ⟨false, true, .giving (bit :: rest), dev⟩ =
      (shiftIn receive bit,
        ⟨false, true, if rest.length = 0 then .asking false else .giving rest, dev⟩) := by
  have hlook : readBit D i receive ⟨false, true, .giving (bit :: rest), dev⟩ =
      (receive * 2 % 256 + if bit = true then 1 else 0,
        (iicScl D false).state ⟨true, true, .giving (bit :: rest), dev⟩) := rfl
  rw [hlook]
  refine Prod.ext ?_ ?_
  · cases bit <;> rfl
  · cases rest <;> rfl

theorem readBits_giving (bit : Bool) (rest : List Bool) (i receive : ℕ) :
    Prog.forUp (readBit D) (rest.length + 1) i receive
        ⟨false, true, .giving (bit :: rest), dev⟩ =
      ((bit :: rest).foldl shiftIn receive, ⟨false, true, .asking false, dev⟩) := by
  induction rest generalizing bit i receive with
  | nil =>
      rw [List.length_nil, Prog.forUp, Prog.bind_apply, Prog.val, Prog.state, readBit_giving]
      rfl
  | cons next rest ih =>
      rw [List.length_cons, Prog.forUp, Prog.bind_apply, Prog.val, Prog.state, readBit_giving]
      exact ih next (i + 1) (shiftIn receive bit)

theorem readByte_bits {b : ℕ} (hb : b < 256) :
    Prog.forUp (readBit D) 8 0 0 (Link.bus ⟨.byte b, dev⟩) =
      (b, ⟨false, true, .asking false, dev⟩) := by
  have h := readBits_giving D dev (b / 2 ^ 7 % 2 = 1) (lowBits b 7) 0 0
  rw [length_lowBits] at h
  exact h.trans (congrArg (Prod.mk · _) (ofBits_byteBits hb))

/-- A byte is read, and the next one is asked for. -/
theorem iicReadByte_ack {b : ℕ} (hb : b < 256) :
    iicReadByte D true (Link.bus ⟨.byte b, dev⟩) =
      (b, Link.bus ⟨.byte (D.read dev).1, (D.read dev).2⟩) := by
  rw [iicReadByte, Prog.bind_apply, Prog.val, Prog.state, readByte_bits D dev hb]
  rfl

/-- The last byte is read. -/
theorem iicReadByte_nack {b : ℕ} (hb : b < 256) :
    iicReadByte D false (Link.bus ⟨.byte b, dev⟩) = (b, Link.bus ⟨.held, dev⟩) := by
  rw [iicReadByte, Prog.bind_apply, Prog.val, Prog.state, readByte_bits D dev hb]
  rfl

theorem readBits_idle (k i receive : ℕ) :
    Prog.forUp (readBit D) k i receive (Link.bus ⟨.held, dev⟩) =
      ((fun r => r * 2 % 256 + 1)^[k] receive, Link.bus ⟨.held, dev⟩) := by
  induction k generalizing i receive with
  | zero => rfl
  | succ k ih => exact ih (i + 1) (receive * 2 % 256 + 1)

/-- Nobody pulls the line low. -/
theorem iicReadByte_held (ack : Bool) :
    iicReadByte D ack (Link.bus ⟨.held, dev⟩) = (255, Link.bus ⟨.held, dev⟩) := by
  rw [iicReadByte, Prog.bind_apply, Prog.val, Prog.state, readBits_idle]
  cases ack <;> rfl

end Calls

/-! ## Runs of calls -/

/-- A call of the driver. -/
inductive Call where
  | start
  | stop
  | sendByte (data : ℕ)
  | waitAck
  | readByte (ack : Bool)

section Runs
variable {σ : Type} (D : Device σ)

/-- The call, on the wires.  What returns nothing gives 0. -/
def Call.onBus : Call → Prog (Bus σ) ℕ
  | start => do iicStart D; pure 0
  | stop => do iicStop D; pure 0
  | sendByte data => do iicSendByte D data; pure 0
  | waitAck => iicWaitAck D
  | readByte ack => iicReadByte D ack

/-- The next byte of the target is ready. -/
def Device.nextByte (dev : σ) : Link σ := ⟨.byte (D.read dev).1, (D.read dev).2⟩

/-- The call between two bytes, where the bus is ready for it. -/
def Call.onLink : Call → Link σ → Option (ℕ × Link σ)
  | start, ⟨.free, dev⟩ => some (0, ⟨.address, dev⟩)
  | start, ⟨.held, dev⟩ => some (0, ⟨.address, dev⟩)
  | start, ⟨.data, dev⟩ => some (0, ⟨.address, dev⟩)
  | stop, ⟨.held, dev⟩ => some (0, ⟨.free, D.stop dev⟩)
  | stop, ⟨.data, dev⟩ => some (0, ⟨.free, D.stop dev⟩)
  | sendByte data, ⟨.address, dev⟩ =>
      if data < 256 then some (0, answerTo D dev true data) else none
  | sendByte data, ⟨.data, dev⟩ =>
      if data < 256 then some (0, answerTo D dev false data) else none
  | sendByte _, ⟨.held, dev⟩ => some (0, ⟨.held, dev⟩)
  | waitAck, ⟨.answer true false, dev⟩ => some (0, ⟨.data, dev⟩)
  | waitAck, ⟨.answer true true, dev⟩ => some (0, Device.nextByte D dev)
  | waitAck, ⟨.answer false _, dev⟩ => some (1, ⟨.held, D.stop dev⟩)
  | waitAck, ⟨.held, dev⟩ => some (1, ⟨.held, D.stop dev⟩)
  | readByte true, ⟨.byte b, dev⟩ => some (b, Device.nextByte D dev)
  | readByte false, ⟨.byte b, dev⟩ => some (b, ⟨.held, dev⟩)
  | readByte _, ⟨.held, dev⟩ => some (255, ⟨.held, dev⟩)
  | _, _ => none

/-- The calls in their order, on the wires. -/
def runOnBus : List Call → Prog (Bus σ) (List ℕ)
  | [] => pure []
  | call :: calls => do
      let r ← call.onBus D
      let rs ← runOnBus calls
      pure (r :: rs)

/-- The calls in their order, between two bytes. -/
def runOnLink : List Call → Link σ → Option (List ℕ × Link σ)
  | [], l => some ([], l)
  | call :: calls, l => do
      let (r, l₁) ← call.onLink D l
      let (rs, l₂) ← runOnLink calls l₁
      pure (r :: rs, l₂)

/-- `iic_wait_ack` looks at the data line `n` times: the loop goes on after fewer looks, and is
left with the last of them. -/
def Looks (b : Bus σ) (n : ℕ) : Prop :=
  let d := (iicScl D true).state ((iicSda D true).state b)
  (∀ k < n, ∃ waittime, (Prog.loop (ackRound D) k 0 0).val d = .next waittime) ∧
    ∃ rack, (Prog.loop (ackRound D) n 0 0).val d = .exit rack

/-- How often the controller has to look for an acknowledge. -/
def Link.looks (l : Link σ) : ℕ :=
  match l.mode with
  | .answer true _ => 1
  | _ => 251

/-- What is about to be read is a byte. -/
def Link.Bounded (l : Link σ) : Prop := ∀ b, l.mode = .byte b → b < 256

/-- The target sends bytes. -/
def Device.Bounded : Prop := ∀ dev, (D.read dev).1 < 256

variable {D}

theorem then_zero {τ : Type} {p : Prog τ Unit} {s s' : τ} (h : p s = ((), s')) :
    (do p; pure 0 : Prog τ ℕ) s = (0, s') :=
  congrArg (fun t => (0, t.2)) h

/-- A call does on the wires what it does between two bytes. -/
theorem Call.onBus_eq {call : Call} {l l' : Link σ} {r : ℕ} (hl : Link.Bounded l)
    (h : call.onLink D l = some (r, l')) : call.onBus D l.bus = (r, l'.bus) := by
  obtain ⟨mode, dev⟩ := l
  cases call with
  | start => cases mode <;> cases h <;> rfl
  | stop => cases mode <;> cases h <;> rfl
  | sendByte data =>
      cases mode with
      | address =>
          rw [Call.onLink, Option.ite_none_right_eq_some] at h
          obtain ⟨hdata, ⟨⟩⟩ := h
          exact then_zero (iicSendByte_address D dev hdata)
      | data =>
          rw [Call.onLink, Option.ite_none_right_eq_some] at h
          obtain ⟨hdata, ⟨⟩⟩ := h
          exact then_zero (iicSendByte_data D dev hdata)
      | held =>
          cases h
          exact then_zero (iicSendByte_held D dev data)
      | _ => cases h
  | waitAck =>
      cases mode with
      | answer ack reads =>
          cases ack with
          | true => cases reads <;> cases h <;> rfl
          | false =>
              cases h
              exact iicWaitAck_silent D dev reads
      | held =>
          cases h
          exact iicWaitAck_held D dev
      | _ => cases h
  | readByte ack =>
      cases mode with
      | byte b =>
          have hb : b < 256 := hl b rfl
          cases ack <;> cases h
          · exact iicReadByte_nack D dev hb
          · exact iicReadByte_ack D dev hb
      | held =>
          cases ack <;> cases h <;> exact iicReadByte_held D dev _
      | _ => cases ack <;> cases h

/-- What a call makes ready to be read is a byte. -/
theorem Call.bounded (hD : Device.Bounded D) {call : Call} {l l' : Link σ} {r : ℕ}
    (h : call.onLink D l = some (r, l')) : Link.Bounded l' := by
  obtain ⟨mode, dev⟩ := l
  intro b hb
  cases call with
  | start => cases mode <;> cases h <;> cases hb
  | stop => cases mode <;> cases h <;> cases hb
  | sendByte data =>
      cases mode with
      | held => cases h; cases hb
      | address =>
          rw [Call.onLink, Option.ite_none_right_eq_some] at h
          obtain ⟨-, ⟨⟩⟩ := h
          cases hb
      | data =>
          rw [Call.onLink, Option.ite_none_right_eq_some] at h
          obtain ⟨-, ⟨⟩⟩ := h
          cases hb
      | _ => cases h
  | waitAck =>
      cases mode with
      | answer ack reads => cases ack <;> cases reads <;> cases h <;> cases hb; exact hD dev
      | held => cases h; cases hb
      | _ => cases h
  | readByte ack =>
      cases mode with
      | byte b => cases ack <;> cases h <;> cases hb; exact hD dev
      | held => cases ack <;> cases h <;> cases hb
      | _ => cases ack <;> cases h

/-- A target that acknowledges does so at the first look; one that does not is given up after
251. -/
theorem Call.looks_of {l l' : Link σ} {r : ℕ} (h : Call.onLink D .waitAck l = some (r, l')) :
    Looks D l.bus (Link.looks l) := by
  have hsilent {b : Bus σ} (hline : b.line = true) :
      (∀ k < 251, ∃ waittime, (Prog.loop (ackRound D) k 0 0).val b = .next waittime) ∧
        ∃ rack, (Prog.loop (ackRound D) 251 0 0).val b = .exit rack := by
    refine ⟨fun k hk => ⟨0 + k, ?_⟩, 1, congrArg Prod.fst (ackRounds_high D hline)⟩
    exact congrArg Prod.fst (ackRounds_next D hline k 0 0 (by omega))
  obtain ⟨mode, dev⟩ := l
  cases mode with
  | answer ack reads =>
      cases ack with
      | true =>
          refine ⟨fun k hk => ?_, 0, rfl⟩
          obtain rfl : k = 0 := Nat.lt_one_iff.mp hk
          exact ⟨0, rfl⟩
      | false =>
          refine hsilent ?_
          rfl
  | held =>
      refine hsilent ?_
      rfl
  | _ => cases h

/-- Any run of the driver's calls, in any order the bus is ready for, gives on the wires what it
gives between two bytes.  For an acknowledge that does not come it looks 251 times. -/
theorem calls_simulate (hD : Device.Bounded D) {calls : List Call} {l l' : Link σ}
    {rs : List ℕ} (hl : Link.Bounded l) (h : runOnLink D calls l = some (rs, l')) :
    runOnBus D calls l.bus = (rs, l'.bus) ∧
      ∀ before after rs₁ l₁, calls = before ++ .waitAck :: after →
        runOnLink D before l = some (rs₁, l₁) → Looks D l₁.bus (Link.looks l₁) := by
  induction calls generalizing l rs with
  | nil =>
      cases h
      exact ⟨rfl, fun before after _ _ heq => by cases before <;> cases heq⟩
  | cons call calls ih =>
      rw [runOnLink, Option.bind_eq_bind, Option.bind_eq_some_iff] at h
      obtain ⟨⟨r, l₁⟩, hcall, h⟩ := h
      rw [Option.bind_eq_bind, Option.bind_eq_some_iff] at h
      obtain ⟨⟨rs', l₂⟩, hrest, ⟨⟩⟩ := h
      have hone := Call.onBus_eq hl hcall
      obtain ⟨hmany, hlooks⟩ := ih (Call.bounded hD hcall) hrest
      constructor
      · rw [runOnBus, Prog.bind_apply, Prog.val, Prog.state, hone, Prog.bind_apply, Prog.val,
          Prog.state, hmany]
        rfl
      · intro before after rs₁ l₃ heq hbefore
        cases before with
        | nil =>
            cases heq
            cases hbefore
            exact Call.looks_of hcall
        | cons first before =>
            cases heq
            rw [runOnLink, hcall, Option.bind_eq_bind, Option.bind_some, Option.bind_eq_bind,
              Option.bind_eq_some_iff] at hbefore
            obtain ⟨⟨rs₂, l₄⟩, hbefore, ⟨⟩⟩ := hbefore
            exact hlooks before after rs₂ _ rfl hbefore

/-- A target with one byte, which it gives and takes at its address. -/
def oneByte : Device ℕ :=
  ⟨fun b s => (b / 2 = 32, s), fun b _ => (true, b), fun s => (s % 256, s), id⟩

/-- The byte is written and read back, after an address at which nobody is. -/
def writeAndRead : List Call :=
  [.start, .sendByte 66, .waitAck, .start, .sendByte 64, .waitAck, .sendByte 90, .waitAck, .start,
    .sendByte 65, .waitAck, .readByte false, .stop]

theorem calls_simulate_oneByte :
    runOnBus oneByte writeAndRead (Link.bus ⟨.free, 7⟩) =
        ([0, 0, 1, 0, 0, 0, 0, 0, 0, 0, 0, 90, 0], Link.bus ⟨.free, 90⟩) ∧
      ∀ before after rs₁ l₁, writeAndRead = before ++ .waitAck :: after →
        runOnLink oneByte before ⟨.free, 7⟩ = some (rs₁, l₁) →
          Looks oneByte l₁.bus (Link.looks l₁) :=
  calls_simulate (fun s => Nat.mod_lt s (by decide)) (fun _ h => by cases h) rfl

end Runs

end Apollo.Iic
