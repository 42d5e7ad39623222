import Apollo.Usb.Range
import Mathlib.Tactic.IntervalCases

/-!
# A host with a disk

What a host sends to learn the capacity of a unit, to read blocks of it and to write them, what it
is to get for that, and what is in the units afterwards.  The blocks of a command are moved in
parts of the size of the buffer.

## Main definitions

* `HostOp`, `HostOp.events`, `HostOp.answers`, `HostOp.effect` — what the host asks for, how, and
  what it is to get.
* `decoded_sendCbw` — the class finds in a CBW what the host has put there.
* `Gives` — what the host gets for its events.
-/

namespace Apollo.Usb
open Lib

/-! ## What the host asks for -/

/-- What is in the units after a write. -/
def stored (c : ℕ → ℕ → UInt8) (lun blk n : ℕ) (bytes : ℕ → UInt8) : ℕ → ℕ → UInt8 :=
  Function.update c lun (overlay (c lun) (blk * 512) bytes (n * 512))

/-- Four bytes, the lowest first. -/
def leList (n : ℕ) : List UInt8 :=
  [UInt8.ofNat n, UInt8.ofNat (n / 256), UInt8.ofNat (n / 65536), UInt8.ofNat (n / 16777216)]

/-- Four bytes, the highest first. -/
def beList (n : ℕ) : List UInt8 := (leList n).reverse

/-- A CBW. -/
def cbwList (tag len flags lun : ℕ) (cmd : List UInt8) : List UInt8 :=
  leList 0x43425355 ++ leList tag ++ leList len ++
    [UInt8.ofNat flags, UInt8.ofNat lun, UInt8.ofNat cmd.length] ++ cmd

def sendCbw (tag len flags lun : ℕ) (cmd : List UInt8) : HostEvent :=
  .out 31 fun j => (cbwList tag len flags lun cmd).getD j 0

/-- A command block that moves blocks: its short form, or its long form. -/
def moveCmd (short long : UInt8) (wide : Bool) (blk n : ℕ) : List UInt8 :=
  if wide = true then [long, 0] ++ beList blk ++ beList n ++ [0, 0]
  else [short, 0] ++ beList blk ++ [0, UInt8.ofNat (n / 256), UInt8.ofNat n, 0]

/-- The host asks for the capacity of a unit, or reads blocks, or writes them. -/
inductive HostOp where
  | capacity (lun : ℕ)
  | read (wide : Bool) (lun blk n : ℕ)
  | write (wide : Bool) (lun blk n : ℕ) (bytes : ℕ → UInt8)

/-- The parts that so many blocks are moved in. -/
def partsOf (n : ℕ) : ℕ := (n + 63) / 64

/-- The blocks that the host sends, part by part. -/
def writeParts : ℕ → ℕ → (ℕ → UInt8) → List HostEvent
  | 0, _, _ => []
  | k + 1, n, bytes => .out (min n 64 * 512) bytes :: writeParts k (n - 64) (shift bytes (64 * 512))

/-- The blocks that the host gets, part by part. -/
def readParts (m : ℕ → UInt8) : ℕ → ℕ → ℕ → List Answer
  | 0, _, _ => []
  | k + 1, blk, n => .data ((List.range (min n 64 * 512)).map fun j => m (blk * 512 + j)) ::
      readParts m k (blk + 64) (n - 64)

/-- What the host does for it. -/
def HostOp.events (tag : ℕ) : HostOp → List HostEvent
  | capacity lun => [sendCbw tag 8 0x80 lun [0x25, 0, 0, 0, 0, 0, 0, 0, 0, 0], .poll, .poll]
  | read wide lun blk n =>
      sendCbw tag (n * 512) 0x80 lun (moveCmd 0x28 0xA8 wide blk n) ::
        (List.replicate (partsOf n) .poll ++ [.poll])
  | write wide lun blk n bytes =>
      sendCbw tag (n * 512) 0 lun (moveCmd 0x2A 0xAA wide blk n) ::
        (writeParts (partsOf n) n bytes ++ [.poll])

/-- A CSW that says that the command has passed, with nothing left over. -/
def passed (tag : ℕ) : Answer := .status ⟨0x53425355, tag, 0, 0⟩

/-- The capacity of a unit, as it is sent. -/
def capacityBytes (blkNbr : ℕ) (j : ℕ) : UInt8 :=
  if j < 4 then lastBlock blkNbr j else beBytes 512 (j - 4)

/-- What the host is to get for it. -/
def HostOp.answers (cap : ℕ → ℕ) (tag : ℕ) (c : ℕ → ℕ → UInt8) : HostOp → List Answer
  | capacity lun =>
      [.ack, .data ((List.range 8).map (capacityBytes (cap lun))), passed tag]
  | read _ lun blk n => .ack :: (readParts (c lun) (partsOf n) blk n ++ [passed tag])
  | write _ _ _ n _ => .ack :: (List.replicate (partsOf n) .ack ++ [passed tag])

/-- What is in the units afterwards. -/
def HostOp.effect (c : ℕ → ℕ → UInt8) : HostOp → ℕ → ℕ → UInt8
  | write _ lun blk n bytes => stored c lun blk n bytes
  | _ => c

/-- The units whose capacity has been asked for. -/
def HostOp.noted : HostOp → List ℕ → List ℕ
  | capacity lun, noted => lun :: noted
  | _, noted => noted

/-- It is about blocks that there are on a unit whose capacity has been asked for, and fits in the
fields of the command. -/
def HostOp.Valid (cap : ℕ → ℕ) (U : ℕ → Prop) (noted : List ℕ) : HostOp → Prop
  | capacity lun => U lun
  | read wide lun blk n | write wide lun blk n _ =>
      lun ∈ noted ∧ 0 < n ∧ blk + n ≤ cap lun ∧ if wide = true then n < 2 ^ 23 else n < 2 ^ 16

/-! ## A CBW on its way -/

section Cbw
variable {σ : Type}

theorem le32_leList {p : ℕ → UInt8} {i n : ℕ} (hn : n < 2 ^ 32)
    (hp : ∀ j < 4, p (i + j) = (leList n).getD j 0) : le32 p i = n := by
  have h0 := hp 0 (by decide)
  have h1 := hp 1 (by decide)
  have h2 := hp 2 (by decide)
  have h3 := hp 3 (by decide)
  simp only [leList, Nat.add_zero, List.getD_cons_zero, List.getD_cons_succ] at h0 h1 h2 h3
  rw [le32, h0, h1, h2, h3]
  simp only [UInt8.toNat_ofNat']
  omega

theorem be32_beList {p : ℕ → UInt8} {i n : ℕ} (hn : n < 2 ^ 32)
    (hp : ∀ j < 4, p (i + j) = (beList n).getD j 0) : be32 p i = n := by
  have h0 := hp 0 (by decide)
  have h1 := hp 1 (by decide)
  have h2 := hp 2 (by decide)
  have h3 := hp 3 (by decide)
  simp only [beList, leList, List.reverse_cons, List.reverse_nil, List.nil_append, List.cons_append,
    Nat.add_zero, List.getD_cons_zero, List.getD_cons_succ] at h0 h1 h2 h3
  rw [be32, be16, be16, h0, h1, show i + 2 + 1 = i + 3 from rfl, h2, h3]
  simp only [UInt8.toNat_ofNat']
  omega

/-- The fields of the CBW in the handle, and the command block. -/
structure Decoded (tag len flags lun : ℕ) (cmd : List UInt8) (h : Msc σ) : Prop where
  good : ¬ h.badCbw
  tag : h.dTag = tag
  len : h.dDataLength = len
  flags : h.bmFlags = flags
  lun : h.bLUN = lun
  cb : ∀ j < cmd.length, h.cb j = cmd.getD j 0

/-- The class finds in a CBW what the host has put there. -/
theorem decoded_sendCbw {h : Msc σ} (hrx : h.rx = some .cbw) {tag len flags lun : ℕ}
    {cmd : List UInt8} (htag : tag < 2 ^ 32) (hlen : len < 2 ^ 32) (hflags : flags < 256)
    (hlun : lun ≤ 3) (hcmd : 1 ≤ cmd.length) (hcmd' : cmd.length ≤ 16) :
    Decoded tag len flags lun cmd
      (takePacket 31 (fun j => (cbwList tag len flags lun cmd).getD j 0) h) := by
  set t := takePacket 31 (fun j => (cbwList tag len flags lun cmd).getD j 0) h with ht
  have hsize : t.rxSize = 31 := by rw [ht, takePacket_cbw hrx]
  have hbyte (j : ℕ) (hj : j < 31) : t.cbw j = (cbwList tag len flags lun cmd).getD j 0 := by
    rw [ht, takePacket_cbw hrx]
    dsimp only
    rw [overlay_inside (Nat.zero_le j) (by omega), Nat.sub_zero]
  have hfour {f : ℕ} {l : List UInt8} (hf : f + 4 ≤ 31)
      (hl : ∀ j < 4, (cbwList tag len flags lun cmd).getD (f + j) 0 = l.getD j 0) (j : ℕ)
      (hj : j < 4) : t.cbw (f + j) = l.getD j 0 := by
    rw [hbyte (f + j) (by omega), hl j hj]
  have hsig : t.dSignature = 0x43425355 := by
    refine le32_leList (by decide) (hfour (by decide) fun j hj => ?_)
    interval_cases j <;> rfl
  have hlun' : t.bLUN = lun := by
    rw [Msc.bLUN, hbyte 13 (by decide)]
    change (UInt8.ofNat lun).toNat = lun
    rw [UInt8.toNat_ofNat', Nat.mod_eq_of_lt (by omega)]
  have hcb : t.bCBLength = cmd.length := by
    rw [Msc.bCBLength, hbyte 14 (by decide)]
    change (UInt8.ofNat cmd.length).toNat = cmd.length
    rw [UInt8.toNat_ofNat', Nat.mod_eq_of_lt (by omega)]
  refine ⟨?_, ?_, ?_, ?_, hlun', fun j hj => ?_⟩
  · rw [Msc.badCbw, hsize, hsig, hlun', hcb]
    omega
  · refine le32_leList htag (hfour (by decide) fun j hj => ?_)
    interval_cases j <;> rfl
  · refine le32_leList hlen (hfour (by decide) fun j hj => ?_)
    interval_cases j <;> rfl
  · rw [Msc.bmFlags, hbyte 12 (by decide)]
    change (UInt8.ofNat flags).toNat = flags
    rw [UInt8.toNat_ofNat', Nat.mod_eq_of_lt hflags]
  · rw [Msc.cb, shift_apply, hbyte (15 + j) (by omega), cbwList, List.getD_eq_getElem?_getD,
      List.getD_eq_getElem?_getD, List.getElem?_append_right (Nat.le_add_right 15 j)]
    change (cmd[15 + j - 15]?).getD 0 = _
    rw [Nat.add_sub_cancel_left]

end Cbw

/-! ## What the host gets -/

section Gives
variable {σ : Type} {F : Fops σ}

variable (F) in
/-- For these events the host gets these answers, and `Q` holds in the end. -/
def Gives : List HostEvent → List Answer → (Msc σ → Prop) → Msc σ → Prop
  | [], [], Q, h => Q h
  | e :: es, a :: as, Q, h => (e.run F).val h = some a ∧ Gives es as Q ((e.run F).state h)
  | _, _, _, _ => False

theorem Gives.append {es es' : List HostEvent} {as as' : List Answer} {P Q : Msc σ → Prop}
    {h : Msc σ} (hes : Gives F es as P h) (hes' : ∀ t, P t → Gives F es' as' Q t) :
    Gives F (es ++ es') (as ++ as') Q h := by
  induction es generalizing as h with
  | nil =>
      cases as with
      | nil => exact hes' h hes
      | cons a as => exact hes.elim
  | cons e es ih =>
      cases as with
      | nil => exact hes.elim
      | cons a as => exact ⟨hes.1, ih hes.2⟩

theorem gives_one {e : HostEvent} {a : Answer} {Q : Msc σ → Prop} {h t : Msc σ}
    (he : e.run F h = (some a, t)) (hQ : Q t) : Gives F [e] [a] Q h := by
  rw [Gives, Prog.val, Prog.state, he]
  exact ⟨rfl, hQ⟩

/-- A run gets them. -/
theorem Gives.runHost {es : List HostEvent} {as : List Answer} {Q : Msc σ → Prop} {h : Msc σ}
    (hes : Gives F es as Q h) : (runHost F es).val h = as ∧ Q ((runHost F es).state h) := by
  induction es generalizing as h with
  | nil =>
      cases as with
      | nil => exact ⟨rfl, hes⟩
      | cons a as => exact hes.elim
  | cons e es ih =>
      cases as with
      | nil => exact hes.elim
      | cons a as =>
          obtain ⟨ha, hrest⟩ := hes
          obtain ⟨has, hQ⟩ := ih hrest
          rw [Usb.runHost, Prog.val_bind, Prog.state_bind, ha]
          exact ⟨congrArg (a :: ·) has, hQ⟩

/-- What the IN endpoint has is sent, and the class is told. -/
theorem poll_run {h t : Msc σ} {tx : Tx} (hstall : h.stallIn = false) (htx : h.tx = some tx)
    (hin : mscBotDataIn F { h with tx := none } = (some (), t)) :
    HostEvent.poll.run F h = (some (h.sends tx), t) := by
  have hgo : ¬ (id h).stallIn = true := by rw [id, hstall]; exact Bool.false_ne_true
  rw [HostEvent.run, Prog.bind_apply, Prog.val_get, Prog.state_get, if_neg hgo]
  have htx' : (id h).tx = some tx := htx
  simp only [htx']
  change (((mscBotDataIn F { h with tx := none }).1.map fun _ => h.sends tx),
    (mscBotDataIn F { h with tx := none }).2) = _
  rw [hin]
  rfl

theorem dataIn_idle {h : Msc σ} (hidle : h.botState = .idle) : mscBotDataIn F h = (some (), h) := by
  rw [mscBotDataIn, Prog.bind_apply, Prog.val_get, Prog.state_get]
  simp only [id, hidle]
  rfl

/-- The last part has been sent. -/
theorem dataIn_last {h : Msc σ} (hstate : h.botState = .lastDataIn ∨ h.botState = .sendData) :
    mscBotDataIn F h = (some (), (mscBotSendCSW 0x00).state h) := by
  rw [mscBotDataIn, Prog.bind_apply, Prog.val_get, Prog.state_get]
  rcases hstate with hstate | hstate
  · simp only [id, hstate]
    rfl
  · simp only [id, hstate]
    rfl

/-- A transfer goes on, and nothing is the matter. -/
theorem goOn_ok {h t : Msc σ} (hrun : scsiProcessCmd F h.bLUN h.cb h = (some 0, t)) :
    goOn F h = (some (), t) := by
  rw [goOn, Prog.bind_apply, Prog.val_get, Prog.state_get]
  change (scsiProcessCmd F h.bLUN h.cb >>= _) h = _
  rw [Prog.bind_of hrun]
  rfl

theorem dataIn_more {h t : Msc σ} (hstate : h.botState = .dataIn)
    (hrun : scsiProcessCmd F h.bLUN h.cb h = (some 0, t)) : mscBotDataIn F h = (some (), t) := by
  rw [mscBotDataIn, Prog.bind_apply, Prog.val_get, Prog.state_get]
  simp only [id, hstate]
  exact goOn_ok hrun

/-- A packet is taken, and the class is told. -/
theorem out_run {h t : Msc σ} {size room : ℕ} {bytes : ℕ → UInt8} (hstall : h.stallOut = false)
    (hroom : h.room = some room) (hsize : size ≤ room)
    (hout : mscBotDataOut F (takePacket size bytes h) = (some (), t)) :
    (HostEvent.out size bytes).run F h = (some .ack, t) := by
  have hgo : ¬ (id h).stallOut = true := by rw [id, hstall]; exact Bool.false_ne_true
  have hroom' : (id h).room = some room := hroom
  rw [HostEvent.run, Prog.bind_apply, Prog.val_get, Prog.state_get, if_neg hgo]
  simp only [hroom']
  rw [if_neg (by omega)]
  change (((mscBotDataOut F (takePacket size bytes h)).1.map fun _ => Answer.ack),
    (mscBotDataOut F (takePacket size bytes h)).2) = _
  rw [hout]
  rfl

theorem dataOut_more {h t : Msc σ} (hstate : h.botState = .dataOut)
    (hrun : scsiProcessCmd F h.bLUN h.cb h = (some 0, t)) : mscBotDataOut F h = (some (), t) := by
  rw [mscBotDataOut, Prog.bind_apply, Prog.val_get, Prog.state_get]
  simp only [id, hstate]
  exact goOn_ok hrun

end Gives

end Apollo.Usb
