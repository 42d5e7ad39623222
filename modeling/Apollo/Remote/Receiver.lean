import Mathlib.Data.BitVec
import Mathlib.Data.Nat.Notation
import Mathlib.Tactic.Common

/-!
# The infrared receiver

Three parties share a status byte and a shift register.  The capture interrupt measures
high pulses: a leader opens a frame, and every data pulse after it is shifted in.  The
overflow interrupt publishes the register at the first overflow after the leader and
closes the frame at the fifteenth.  `remote_scan` polls, decodes what is published and
withdraws it when it is no key.

## Main definitions

* `State` — `g_remote_sta`, `g_remote_data`, `g_remote_cnt`.
* `Event`, `step`, `run` — the interrupts and the polls, one at a time.
* `keyOf`, `remoteScan` — what a poll makes of the register.
* `frame`, `spell`, `keyOf_eq_iff` — the register that decodes to a key.
* `Register` — the register holds the latest bits; `Register.shift`.
-/

namespace Apollo.Remote

def remoteId : BitVec 8 := 0

structure State where
  /-- Bit 7: a leader has come.  Bit 6: a key is published.  Bit 4: a rising edge has been
  captured.  Bits 3 to 0 count overflows. -/
  sta : BitVec 8
  data : BitVec 32
  cnt : BitVec 8
  deriving DecidableEq, Repr

/-- A leader has come. -/
def leader (sta : BitVec 8) : Bool := sta &&& 0x80 ≠ 0

/-- A key is published. -/
def published (sta : BitVec 8) : Bool := sta &&& 0x40 ≠ 0

/-- A rising edge has been captured. -/
def risen (sta : BitVec 8) : Bool := sta &&& 0x10 ≠ 0

/-- The overflow counter. -/
def count (sta : BitVec 8) : BitVec 8 := sta &&& 0x0F

/-! ## The interrupts -/

/-- The status byte after a timer overflow. -/
def elapsedSta (sta : BitVec 8) : BitVec 8 :=
  if leader sta then
    let sta := sta &&& ~~~0x10
    let sta := if count sta = 0 then sta ||| 0x40 else sta
    if count sta < 14 then sta + 1
    else sta &&& ~~~0x80 &&& 0xF0
  else sta

def periodElapsedCallback (s : State) : State := { s with sta := elapsedSta s.sta }

/-- The capture interrupt at a rising edge. -/
def captureRise (s : State) : State := { s with sta := s.sta ||| 0x10 }

/-- What a pulse says as a data bit: 560 us for `0`, 1680 us for `1`. -/
def bitOf (dval : ℕ) : Option Bool :=
  if 300 < dval ∧ dval < 800 then some false
  else if 1400 < dval ∧ dval < 1800 then some true
  else none

/-- The width of a leader pulse. -/
def IsLeader (dval : ℕ) : Prop := 4200 < dval ∧ dval < 4700

instance (dval : ℕ) : Decidable (IsLeader dval) := inferInstanceAs (Decidable (_ ∧ _))

/-- The register after one more bit. -/
def shiftIn (data : BitVec 32) (b : Bool) : BitVec 32 :=
  if b then data >>> 1 ||| 0x80000000 else data >>> 1 &&& ~~~0x80000000

/-- The capture interrupt at a falling edge, `dval` after the rising one. -/
def captureFall (dval : ℕ) (s : State) : State :=
  let t :=
    if risen s.sta then
      if leader s.sta then
        match bitOf dval with
        | some b => { s with data := shiftIn s.data b }
        | none =>
            if 2000 < dval ∧ dval < 3000 then { s with cnt := s.cnt + 1, sta := s.sta &&& 0xF0 }
            else s
      else if IsLeader dval then { s with sta := s.sta ||| 0x80, cnt := 0 }
      else s
    else s
  { t with sta := t.sta &&& ~~~0x10 }

/-! ## The poll -/

/-- The key that a register spells, `0` if it spells none. -/
def keyOf (data : BitVec 32) : BitVec 8 :=
  let t1 := data.setWidth 8
  let t2 := (data >>> 8).setWidth 8
  if t1 = ~~~t2 ∧ t1 = remoteId then
    let t1 := (data >>> 16).setWidth 8
    let t2 := (data >>> 24).setWidth 8
    if t1 = ~~~t2 then t1 else 0
  else 0

/-- `remote_scan`: the key, and the state it leaves. -/
def remoteScan (s : State) : BitVec 8 × State :=
  if published s.sta then
    let key := keyOf s.data
    (key, if key = 0 ∨ leader s.sta = false then { s with sta := s.sta &&& ~~~0x40, cnt := 0 }
      else s)
  else (0, s)

inductive Event where
  | rise
  | fall (dval : ℕ)
  | overflow
  | scan
  deriving DecidableEq, Repr

def step (s : State) : Event → State
  | .rise => captureRise s
  | .fall dval => captureFall dval s
  | .overflow => periodElapsedCallback s
  | .scan => (remoteScan s).2

/-- The state after some events. -/
def run (s : State) (evs : List Event) : State := evs.foldl step s

/-! ## What the register spells -/

/-- The register after the identification, its complement, the key and its complement. -/
def frame (key : BitVec 8) : BitVec 32 := ~~~key ++ key ++ ~~~remoteId ++ remoteId

/-- The bits of a byte, lowest first. -/
def byteBits (v : BitVec 8) : List Bool := (List.range 8).map v.getLsbD

/-- The 32 bits that send a key, in the order in which they come. -/
def spell (key : BitVec 8) : List Bool :=
  byteBits remoteId ++ byteBits (~~~remoteId) ++ byteBits key ++ byteBits (~~~key)

theorem length_spell (key : BitVec 8) : (spell key).length = 32 := by
  simp [spell, byteBits]

theorem spell_eq (key : BitVec 8) : spell key = (List.range 32).map (frame key).getLsbD := by
  simp only [spell, byteBits, frame, List.range, List.range.loop, List.map_cons, List.map_nil,
    List.cons_append, List.nil_append, BitVec.getLsbD_append]
  simp

/-- A register is its four bytes. -/
theorem split_bytes (data : BitVec 32) :
    ((data >>> 24).setWidth 8 ++ (data >>> 16).setWidth 8 ++ (data >>> 8).setWidth 8 ++
      data.setWidth 8 : BitVec 32) = data := by
  refine BitVec.eq_of_getLsbD_eq fun i hi => ?_
  simp only [BitVec.getLsbD_append, BitVec.getLsbD_setWidth, BitVec.getLsbD_ushiftRight]
  grind

theorem bytes_append (a b c e : BitVec 8) (data : BitVec 32) (h : data = a ++ b ++ c ++ e) :
    data.setWidth 8 = e ∧ (data >>> 8).setWidth 8 = c ∧ (data >>> 16).setWidth 8 = b ∧
      (data >>> 24).setWidth 8 = a := by
  subst h
  refine ⟨?_, ?_, ?_, ?_⟩ <;>
  · refine BitVec.eq_of_getLsbD_eq fun i hi => ?_
    simp only [BitVec.getLsbD_append, BitVec.getLsbD_setWidth, BitVec.getLsbD_ushiftRight]
    grind

/-- A register decodes to a key exactly when it is the frame of the key. -/
theorem keyOf_eq_iff {data : BitVec 32} {key : BitVec 8} (hkey : key ≠ 0) :
    keyOf data = key ↔ data = frame key := by
  constructor
  · intro h
    simp only [keyOf] at h
    split_ifs at h with hid hkeys
    · have hnot : (data >>> 8).setWidth 8 = ~~~remoteId := by
        rw [← hid.2, hid.1, BitVec.not_not]
      have hnotkey : (data >>> 24).setWidth 8 = ~~~key := by
        rw [← h, hkeys, BitVec.not_not]
      rw [← split_bytes data, hnotkey, h, hnot, hid.2, frame]
    · exact absurd h.symm hkey
    · exact absurd h.symm hkey
  · intro h
    obtain ⟨h₀, h₁, h₂, h₃⟩ := bytes_append _ _ _ _ data h
    simp only [keyOf, h₀, h₁, h₂, h₃, BitVec.not_not, and_self, if_true]

/-! ## What the register holds -/

theorem getLsbD_shiftIn (data : BitVec 32) (b : Bool) {i : ℕ} (hi : i < 32) :
    (shiftIn data b).getLsbD i = if i = 31 then b else data.getLsbD (i + 1) := by
  have hbit : (0x80000000 : BitVec 32) = BitVec.twoPow 32 31 := rfl
  have htop : data.getLsbD 32 = false := BitVec.getLsbD_of_ge _ _ le_rfl
  rw [shiftIn, hbit]
  cases b <;>
    simp only [if_true, Bool.false_eq_true, if_false, BitVec.getLsbD_and, BitVec.getLsbD_or,
      BitVec.getLsbD_not, BitVec.getLsbD_ushiftRight, BitVec.getLsbD_twoPow] <;>
    grind

/-- The register holds the latest bits: the last one on top. -/
def Register (data : BitVec 32) (bits : List Bool) : Prop :=
  ∀ j < 32, ∀ b, bits.reverse[j]? = some b → data.getLsbD (31 - j) = b

theorem register_nil (data : BitVec 32) : Register data [] := fun j _ b h => by
  simp at h

theorem Register.shift {data : BitVec 32} {bits : List Bool} (h : Register data bits) (b : Bool) :
    Register (shiftIn data b) (bits ++ [b]) := by
  intro j hj b' hb'
  rw [getLsbD_shiftIn data b (by omega)]
  rw [List.reverse_append, List.reverse_singleton, List.singleton_append] at hb'
  cases j with
  | zero => simpa using hb'
  | succ j =>
      rw [if_neg (by omega), show 31 - (j + 1) + 1 = 31 - j by omega]
      exact h j (by omega) b' (by simpa using hb')

theorem Register.foldl {data : BitVec 32} {bits : List Bool} (h : Register data bits)
    (more : List Bool) : Register (more.foldl shiftIn data) (bits ++ more) := by
  induction more generalizing data bits with
  | nil => simpa using h
  | cons b more ih =>
      have := ih (h.shift b)
      rwa [List.append_assoc, List.singleton_append] at this

/-- Of 32 bits or more, the register holds the last 32. -/
theorem Register.last {data : BitVec 32} {bits : List Bool} (h : Register data bits)
    (hlen : 32 ≤ bits.length) :
    (List.range 32).map data.getLsbD = bits.drop (bits.length - 32) := by
  refine List.ext_getElem (by simp; omega) fun i h₁ h₂ => ?_
  have hi : i < 32 := by simpa using h₁
  have hbit := h (31 - i) (by omega) (bits.get ⟨bits.length - 32 + i, by omega⟩) ?_
  · rw [show 31 - (31 - i) = i by omega] at hbit
    simpa using hbit
  · rw [List.getElem?_reverse (by omega), List.getElem?_eq_getElem (by omega)]
    congr 2
    omega

/-- Of 32 bits or more, the register is a frame exactly when the last 32 spell it. -/
theorem Register.eq_frame_iff {data : BitVec 32} {bits : List Bool} (h : Register data bits)
    (hlen : 32 ≤ bits.length) (key : BitVec 8) : data = frame key ↔ spell key <:+ bits := by
  have hlast := h.last hlen
  constructor
  · rintro rfl
    rw [spell_eq, hlast]
    exact List.drop_suffix _ _
  · intro hsuffix
    have hdrop : spell key = bits.drop (bits.length - 32) := by
      rw [← length_spell key]
      exact List.suffix_iff_eq_drop.mp hsuffix
    rw [← hlast, spell_eq] at hdrop
    refine BitVec.eq_of_getLsbD_eq fun i hi => ?_
    exact (List.map_inj_left.mp hdrop i (List.mem_range.mpr hi)).symm

end Apollo.Remote
