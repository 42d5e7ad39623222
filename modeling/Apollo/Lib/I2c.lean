import Apollo.Lib.Prog
import Mathlib.Algebra.GroupWithZero.Nat
import Mathlib.Tactic.Common

/-!
# A two-wire bus

A controller drives the clock, and the data line together with a target: the line is high if
neither of the two pulls it low.  The target sees the edges only.  While the clock is high, an
edge of the data line is a start or a stop; at a rising edge of the clock it takes a bit, and at
a falling edge it puts one on the line.

What the edges mean is a byte at a time: a target is a `Device` with the bytes it is given and
asked for, and a `Link` is a bus between two bytes.

## Main definitions

* `Device` — a target, byte by byte; `Device.beside` — two of them; `Phase` — what its end of the
  line is doing.
* `Bus` — the wires and the target; `Bus.setScl`, `Bus.setSda` — what the controller can do.
* `Link`, `Link.bus` — the bus between two bytes.
* `shiftIn`, `byteBits` — a byte as bits; `ofBits_byteBits` — the one from the other.
-/

namespace Apollo.Lib

/-! ## Bytes and bits -/

/-- The byte with this bit behind the others. -/
def shiftIn (byte : ℕ) (bit : Bool) : ℕ := byte * 2 % 256 + bit.toNat

/-- The byte of some bits, the highest first. -/
def ofBits (bits : List Bool) : ℕ := bits.foldl shiftIn 0

/-- The lower `n` bits of a byte, the highest first. -/
def lowBits (byte : ℕ) : ℕ → List Bool
  | 0 => []
  | n + 1 => (byte / 2 ^ n % 2 = 1) :: lowBits byte n

/-- The bits of a byte. -/
def byteBits (byte : ℕ) : List Bool := lowBits byte 8

@[simp] theorem length_lowBits (byte n : ℕ) : (lowBits byte n).length = n := by
  induction n with
  | zero => rfl
  | succ n ih => rw [lowBits, List.length_cons, ih]

theorem foldl_lowBits {byte : ℕ} (hbyte : byte < 256) {n : ℕ} (hn : n ≤ 8) :
    (lowBits byte n).foldl shiftIn (byte / 2 ^ n) = byte := by
  induction n with
  | zero => rw [Nat.pow_zero, Nat.div_one]; rfl
  | succ n ih =>
      have hhalf : byte / 2 ^ (n + 1) = byte / 2 ^ n / 2 := by
        rw [Nat.pow_succ, Nat.div_div_eq_div_mul]
      have hlt : byte / 2 ^ n < 256 := Nat.lt_of_le_of_lt (Nat.div_le_self _ _) hbyte
      have hshift : shiftIn (byte / 2 ^ (n + 1)) (decide (byte / 2 ^ n % 2 = 1)) =
          byte / 2 ^ n := by
        rw [hhalf, shiftIn]
        rcases Nat.mod_two_eq_zero_or_one (byte / 2 ^ n) with h | h <;> simp [h] <;> omega
      rw [lowBits, List.foldl_cons, hshift, ih (by omega)]

/-- A byte is made of its bits. -/
theorem ofBits_byteBits {byte : ℕ} (hbyte : byte < 256) : ofBits (byteBits byte) = byte := by
  have h := foldl_lowBits hbyte (Nat.le_refl 8)
  have htop : byte / 2 ^ 8 = 0 := Nat.div_eq_of_lt hbyte
  rwa [htop] at h

/-! ## The target -/

/-- A target: what it makes of the address byte behind a start and of each data byte (`true` for
an acknowledge), which byte it sends, and what a stop does to it. -/
structure Device (σ : Type) where
  select : ℕ → σ → Bool × σ
  write : ℕ → σ → Bool × σ
  read : σ → ℕ × σ
  stop : σ → σ

/-- Two targets side by side, and whether the left one is spoken to. -/
structure Beside (σ τ : Type) where
  left : σ
  right : τ
  first : Bool

/-- Two targets on one bus.  Both see the address byte and the stop. -/
def Device.beside {σ τ : Type} (A : Device σ) (B : Device τ) : Device (Beside σ τ) where
  select b s :=
    ((A.select b s.left).1 || (B.select b s.right).1,
      ⟨(A.select b s.left).2, (B.select b s.right).2, (A.select b s.left).1⟩)
  write b s :=
    if s.first then ((A.write b s.left).1, { s with left := (A.write b s.left).2 })
    else ((B.write b s.right).1, { s with right := (B.write b s.right).2 })
  read s :=
    if s.first then ((A.read s.left).1, { s with left := (A.read s.left).2 })
    else ((B.read s.right).1, { s with right := (B.read s.right).2 })
  stop s := { s with left := A.stop s.left, right := B.stop s.right }

/-- What the target's end of the data line is doing. -/
inductive Phase where
  | idle
  /-- It takes an address or a data byte, of which it has these bits. -/
  | taking (address : Bool) (bits : List Bool)
  /-- It acknowledges a byte, or does not. -/
  | answering (ack reads : Bool)
  /-- It sends these bits, the first of which is on the line. -/
  | giving (bits : List Bool)
  /-- It waits for the controller to acknowledge its byte. -/
  | asking (ack : Bool)

/-- Whether the target lets the line go up. -/
def Phase.line : Phase → Bool
  | answering ack _ => !ack
  | giving (bit :: _) => bit
  | _ => true

/-- The clock goes up. -/
def Phase.rise (sda : Bool) : Phase → Phase
  | taking address bits => taking address (bits ++ [sda])
  | asking _ => asking !sda
  | p => p

/-- The wires as the controller drives them, and the target. -/
structure Bus (σ : Type) where
  scl : Bool
  sda : Bool
  phase : Phase
  dev : σ

section
variable {σ : Type} (D : Device σ)

/-- The next byte is sent. -/
def Device.giveNext (s : σ) : Phase × σ := (.giving (byteBits (D.read s).1), (D.read s).2)

/-- The clock goes down. -/
def Device.fall : Phase → σ → Phase × σ
  | .taking address bits, s =>
      if bits.length = 8 then
        let answer := if address then D.select (ofBits bits) s else D.write (ofBits bits) s
        (.answering answer.1 (address && ofBits bits % 2 = 1), answer.2)
      else (.taking address bits, s)
  | .answering ack reads, s =>
      if ack then if reads then D.giveNext s else (.taking false [], s) else (.idle, s)
  | .giving bits, s => (if bits.length ≤ 1 then .asking false else .giving bits.tail, s)
  | .asking ack, s => if ack then D.giveNext s else (.idle, s)
  | .idle, s => (.idle, s)

/-- The level of the data line. -/
def Bus.line (b : Bus σ) : Bool := b.sda && b.phase.line

/-- The controller drives the clock. -/
def Bus.setScl (scl : Bool) (b : Bus σ) : Bus σ :=
  if scl && !b.scl then { b with scl := true, phase := b.phase.rise b.line }
  else if !scl && b.scl then
    { b with scl := false, phase := (D.fall b.phase b.dev).1, dev := (D.fall b.phase b.dev).2 }
  else b

/-- The controller drives the data line. -/
def Bus.setSda (sda : Bool) (b : Bus σ) : Bus σ :=
  let after := { b with sda := sda }
  if b.scl && b.line && !after.line then { after with phase := .taking true [] }
  else if b.scl && !b.line && after.line then { after with phase := .idle, dev := D.stop b.dev }
  else after

end

/-! ## Between two bytes -/

/-- What the bus is ready for. -/
inductive Mode where
  /-- For a start, with both wires high. -/
  | free
  /-- For a start or a stop, with the clock held. -/
  | held
  | address
  | data
  /-- For the controller to look for an acknowledge. -/
  | answer (ack reads : Bool)
  /-- For this byte to be read. -/
  | byte (b : ℕ)
  deriving DecidableEq

/-- The bus between two bytes. -/
structure Link (σ : Type) where
  mode : Mode
  dev : σ

/-- The target in this mode. -/
def Mode.phase : Mode → Phase
  | free => .idle
  | held => .idle
  | address => .taking true []
  | data => .taking false []
  | answer ack reads => .answering ack reads
  | byte b => .giving (byteBits b)

/-- The wires. -/
def Link.bus {σ : Type} (l : Link σ) : Bus σ :=
  ⟨l.mode = .free, l.mode ≠ .address, l.mode.phase, l.dev⟩

end Apollo.Lib
