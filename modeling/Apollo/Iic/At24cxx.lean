import Apollo.Iic.Master
import Apollo.Lib.Overlay

/-!
# The EEPROM

`24cxx.c` reads and writes the EEPROM a byte at a time over the bit-banged bus.  The chip takes
one or two bytes of an address, then the bytes of a page, which it starts to write at the stop;
until it is done it does not answer.  `at24cxx_write_one_byte` waits that long.

The chips from the 24C04 to the 24C16, which take a part of the address with their own, are left
out of the results.

## Main definitions

* `Eeprom`, `eeprom` — the chip.
* `at24cxxReadOneByte`, `at24cxxWriteOneByte`, `at24cxxCheck`, `at24cxxRead`, `at24cxxWrite` —
  the code, for every `EE_TYPE`.
* `Fits` — the chips whose address is one or two bytes; `Kept` — a bus with a chip that has
  this memory.
* `at24cxxWrite_kept`, `at24cxxRead_eq`, `at24cxxCheck_eq` — what the calls do to the memory.
-/

namespace Apollo.Iic
open Lib

/-! ## The chip -/

/-- An EEPROM: its memory, the address counter, how many bytes of an address are to come, the
bytes of the page since the last stop, and whether it is writing. -/
structure Eeprom where
  mem : ℕ → ℕ
  counter : ℕ
  due : ℕ
  page : List (ℕ × ℕ)
  busy : Bool

/-- How many bytes an address has on a chip with this last address. -/
def addressBytes (eeType : ℕ) : ℕ := if 2047 < eeType then 2 else 1

/-- A page is written. -/
def commit (mem : ℕ → ℕ) (page : List (ℕ × ℕ)) : ℕ → ℕ :=
  page.foldl (fun m x => Function.update m x.1 x.2) mem

/-- The chip with this last address and pages of `row` bytes, the address pins of which are
tied to 0. -/
def eeprom (eeType row : ℕ) : Device Eeprom where
  select b s :=
    if b / 2 = 80 ∧ s.busy = false then
      (true, { s with due := if b % 2 = 0 then addressBytes eeType else 0, page := [] })
    else (false, { s with page := [] })
  write b s :=
    if 0 < s.due then
      (true, { s with counter := (s.counter * 256 + b) % (eeType + 1), due := s.due - 1 })
    else
      (true, { s with
        page := s.page ++ [(s.counter, b)]
        counter := s.counter / row * row + (s.counter + 1) % row })
  read s := (s.mem s.counter, { s with counter := (s.counter + 1) % (eeType + 1) })
  stop s :=
    if s.page = [] then s
    else { s with mem := commit s.mem s.page, page := [], busy := true }

section Code
variable {σ : Type} (D : Device σ) (settle : σ → σ)

/-- `delay_ms(10)`: whatever the targets were at, they are done. -/
def delayTen : Prog (Bus σ) Unit := Prog.modify fun b => { b with dev := settle b.dev }

/-- The beginning of both transfers: the address of the chip and the address in it. -/
def sendAddress (eeType addr : ℕ) : Prog (Bus σ) Unit := do
  if 2047 < eeType then do
    iicSendByte D 0xA0
    let _ ← iicWaitAck D
    iicSendByte D (addr / 256 % 256)
  else iicSendByte D ((0xA0 + addr / 256 * 2) % 256)
  let _ ← iicWaitAck D
  iicSendByte D (addr % 256)
  let _ ← iicWaitAck D

/-- `at24cxx_read_one_byte`. -/
def at24cxxReadOneByte (eeType addr : ℕ) : Prog (Bus σ) ℕ := do
  iicStart D
  sendAddress D eeType addr
  iicStart D
  iicSendByte D 0xA1
  let _ ← iicWaitAck D
  let temp ← iicReadByte D false
  iicStop D
  pure temp

/-- `at24cxx_write_one_byte`. -/
def at24cxxWriteOneByte (eeType addr data : ℕ) : Prog (Bus σ) Unit := do
  iicStart D
  sendAddress D eeType addr
  iicSendByte D data
  let _ ← iicWaitAck D
  iicStop D
  delayTen settle

/-- `at24cxx_check`. -/
def at24cxxCheck (eeType : ℕ) : Prog (Bus σ) ℕ := do
  let addr := eeType % 65536
  let temp ← at24cxxReadOneByte D eeType addr
  if temp = 0x55 then pure 0
  else do
    at24cxxWriteOneByte D settle eeType addr 0x55
    let temp ← at24cxxReadOneByte D eeType 255
    if temp = 0x55 then pure 0 else pure 1

/-- One byte of `at24cxx_read`.  The address is a 16-bit number. -/
def readRound (eeType _i : ℕ) (x : ℕ × List ℕ) : Prog (Bus σ) (ℕ × List ℕ) := do
  let b ← at24cxxReadOneByte D eeType x.1
  pure ((x.1 + 1) % 65536, x.2 ++ [b])

/-- `at24cxx_read`.  It returns the buffer. -/
def at24cxxRead (eeType addr datalen : ℕ) : Prog (Bus σ) (List ℕ) := do
  let x ← Prog.forUp (readRound D eeType) datalen 0 (addr, [])
  pure x.2

/-- One byte of `at24cxx_write`. -/
def writeRound (eeType : ℕ) (pbuf : ℕ → ℕ) (i addr : ℕ) : Prog (Bus σ) ℕ := do
  at24cxxWriteOneByte D settle eeType addr (pbuf i)
  pure ((addr + 1) % 65536)

/-- `at24cxx_write`. -/
def at24cxxWrite (eeType addr : ℕ) (pbuf : ℕ → ℕ) (datalen : ℕ) : Prog (Bus σ) Unit := do
  let _ ← Prog.forUp (writeRound D settle eeType pbuf) datalen 0 addr
  pure ()

end Code

/-! ## One transfer

Another target hangs on the bus.  It does not answer to the address of the chip, and a stop means
nothing to it. -/

/-- The chips whose address is one byte, or two. -/
def Fits (eeType : ℕ) : Prop :=
  eeType < 256 ∧ eeType + 1 ∣ 256 ∨ 2047 < eeType ∧ eeType + 1 ∣ 65536

theorem Fits.lt {eeType : ℕ} (h : Fits eeType) : eeType < 65536 := by
  rcases h with ⟨hsmall, -⟩ | ⟨-, hdvd⟩
  · omega
  · have := Nat.le_of_dvd (by decide) hdvd
    omega

section Transfer
variable {τ : Type} (eeType row : ℕ) (B : Device τ)

/-- The chip beside the other target. -/
def chipAnd : Device (Beside Eeprom τ) := (eeprom eeType row).beside B

/-- The chip has written its page. -/
def settled (s : Beside Eeprom τ) : Beside Eeprom τ :=
  { s with left := { s.left with busy := false } }

/-- The bus is free, and the chip at rest with this memory. -/
def Kept (mem : ℕ → ℕ) (t : τ) (b : Bus (Beside Eeprom τ)) : Prop :=
  ∃ counter due first, b = Link.bus ⟨.free, ⟨⟨mem, counter, due, [], false⟩, t, first⟩⟩

variable {eeType row : ℕ} {B : Device τ} (hdeaf : ∀ b t, b / 2 = 80 → B.select b t = (false, t))
  (mem : ℕ → ℕ) (counter due : ℕ) (t : τ) (first : Bool)

include hdeaf in
theorem answerTo_write :
    answerTo (chipAnd eeType row B) ⟨⟨mem, counter, due, [], false⟩, t, first⟩ true 0xA0 =
      ⟨.answer true false, ⟨⟨mem, counter, addressBytes eeType, [], false⟩, t, true⟩⟩ := by
  simp [answerTo, chipAnd, Device.beside, eeprom, hdeaf]

include hdeaf in
theorem answerTo_read :
    answerTo (chipAnd eeType row B) ⟨⟨mem, counter, due, [], false⟩, t, first⟩ true 0xA1 =
      ⟨.answer true true, ⟨⟨mem, counter, 0, [], false⟩, t, true⟩⟩ := by
  simp [answerTo, chipAnd, Device.beside, eeprom, hdeaf]

theorem answerTo_address (b : ℕ) :
    answerTo (chipAnd eeType row B) ⟨⟨mem, counter, due + 1, [], false⟩, t, true⟩ false b =
      ⟨.answer true false,
        ⟨⟨mem, (counter * 256 + b) % (eeType + 1), due, [], false⟩, t, true⟩⟩ := by
  simp [answerTo, chipAnd, Device.beside, eeprom]

variable (eeType row B) in
theorem answerTo_data (b : ℕ) : ∃ counter',
    answerTo (chipAnd eeType row B) ⟨⟨mem, counter, 0, [], false⟩, t, true⟩ false b =
      ⟨.answer true false, ⟨⟨mem, counter', 0, [(counter, b)], false⟩, t, true⟩⟩ := by
  simp [answerTo, chipAnd, Device.beside, eeprom]

theorem mod_of_two_bytes {n addr : ℕ} (c : ℕ) (hn : n ∣ 65536) (haddr : addr < n) :
    (((c * 256 + addr / 256) % n) * 256 + addr % 256) % n = addr := by
  obtain ⟨k, hk⟩ := hn
  rw [Nat.add_mod, Nat.mod_mul_mod, ← Nat.add_mod]
  have hsum : (c * 256 + addr / 256) * 256 + addr % 256 = addr + n * (k * c) := by
    rw [← Nat.mul_assoc, ← hk]; omega
  rw [hsum, Nat.add_mul_mod_self_left, Nat.mod_eq_of_lt haddr]

theorem mod_of_byte {n addr : ℕ} (c : ℕ) (hn : n ∣ 256) (haddr : addr < n) :
    (c * 256 + addr) % n = addr := by
  obtain ⟨k, hk⟩ := hn
  rw [hk, Nat.mul_left_comm, Nat.mul_add_mod, Nat.mod_eq_of_lt haddr]

include hdeaf in
/-- The address counter is set. -/
theorem sendAddress_eq (hfits : Fits eeType) {addr : ℕ} (haddr : addr ≤ eeType) :
    sendAddress (chipAnd eeType row B) eeType addr
        (Link.bus ⟨.address, ⟨⟨mem, counter, due, [], false⟩, t, first⟩⟩) =
      ((), Link.bus ⟨.data, ⟨⟨mem, addr, 0, [], false⟩, t, true⟩⟩) := by
  have hlow : addr % 256 < 256 := Nat.mod_lt _ (by decide)
  rw [sendAddress]
  rcases hfits with ⟨hsmall, hdvd⟩ | ⟨hlarge, hdvd⟩
  · have hfirst : (0xA0 + addr / 256 * 2) % 256 = 0xA0 := by omega
    have hbytes : addressBytes eeType = 0 + 1 := if_neg (by omega)
    rw [if_neg (by omega), hfirst, Prog.bind_of (iicSendByte_address _ _ (by decide)),
      answerTo_write hdeaf, hbytes]
    beta_reduce
    rw [Prog.bind_of (iicWaitAck_data ..), Prog.bind_of (iicSendByte_data _ _ hlow),
      answerTo_address, Prog.bind_of (iicWaitAck_data ..),
      Nat.mod_eq_of_lt (show addr < 256 by omega),
      mod_of_byte counter hdvd (by omega)]
    rfl
  · have hhigh : addr / 256 % 256 < 256 := Nat.mod_lt _ (by decide)
    have hbytes : addressBytes eeType = 0 + 1 + 1 := if_pos hlarge
    have hle := Nat.le_of_dvd (by decide) hdvd
    rw [if_pos hlarge, Prog.bind_of (iicSendByte_address _ _ (by decide)),
      answerTo_write hdeaf, hbytes, Prog.bind_of (iicWaitAck_data ..),
      Prog.bind_of (iicSendByte_data _ _ hhigh), answerTo_address]
    beta_reduce
    rw [Prog.bind_of (iicWaitAck_data ..), Prog.bind_of (iicSendByte_data _ _ hlow),
      answerTo_address, Prog.bind_of (iicWaitAck_data ..),
      Nat.mod_eq_of_lt (show addr / 256 < 256 by omega),
      mod_of_two_bytes counter hdvd (by omega)]
    rfl

variable {mem}

/-- A byte is read. -/
theorem at24cxxReadOneByte_eq (hdeaf : ∀ b t, b / 2 = 80 → B.select b t = (false, t))
    (hstop : ∀ t, B.stop t = t) (hfits : Fits eeType) (hmem : ∀ a, mem a < 256) {t : τ} {addr : ℕ}
    (haddr : addr ≤ eeType) {b : Bus (Beside Eeprom τ)} (h : Kept mem t b) : ∃ b',
      at24cxxReadOneByte (chipAnd eeType row B) eeType addr b = (mem addr, b') ∧
        Kept mem t b' := by
  obtain ⟨counter, due, first, rfl⟩ := h
  refine ⟨_, ?_, (addr + 1) % (eeType + 1), 0, true, rfl⟩
  rw [at24cxxReadOneByte, Prog.bind_of (iicStart_free ..),
    Prog.bind_of (sendAddress_eq hdeaf mem _ _ _ _ hfits haddr), Prog.bind_of (iicStart_data ..),
    Prog.bind_of (iicSendByte_address _ _ (by decide)), answerTo_read hdeaf,
    Prog.bind_of (iicWaitAck_byte ..)]
  have hread : (chipAnd eeType row B).read ⟨⟨mem, addr, 0, [], false⟩, t, true⟩ =
      (mem addr, ⟨⟨mem, (addr + 1) % (eeType + 1), 0, [], false⟩, t, true⟩) := rfl
  rw [hread, Prog.bind_of (iicReadByte_nack _ _ (hmem addr)), Prog.bind_of (iicStop_held ..)]
  have hkept : (chipAnd eeType row B).stop
      ⟨⟨mem, (addr + 1) % (eeType + 1), 0, [], false⟩, t, true⟩ =
      ⟨⟨mem, (addr + 1) % (eeType + 1), 0, [], false⟩, t, true⟩ := by
    simp [chipAnd, Device.beside, eeprom, hstop]
  rw [hkept]
  rfl

/-- A byte is written. -/
theorem at24cxxWriteOneByte_eq (hdeaf : ∀ b t, b / 2 = 80 → B.select b t = (false, t))
    (hstop : ∀ t, B.stop t = t) (hfits : Fits eeType) {t : τ} {addr data : ℕ}
    (haddr : addr ≤ eeType) (hdata : data < 256) {b : Bus (Beside Eeprom τ)} (h : Kept mem t b) :
    ∃ b', at24cxxWriteOneByte (chipAnd eeType row B) settled eeType addr data b = ((), b') ∧
      Kept (Function.update mem addr data) t b' := by
  obtain ⟨counter, due, first, rfl⟩ := h
  obtain ⟨counter', htaken⟩ := answerTo_data eeType row B mem addr t data
  refine ⟨_, ?_, counter', 0, true, rfl⟩
  rw [at24cxxWriteOneByte, Prog.bind_of (iicStart_free ..),
    Prog.bind_of (sendAddress_eq hdeaf mem _ _ _ _ hfits haddr),
    Prog.bind_of (iicSendByte_data _ _ hdata), htaken, Prog.bind_of (iicWaitAck_data ..),
    Prog.bind_of (iicStop_data ..)]
  have hwritten : (chipAnd eeType row B).stop
      ⟨⟨mem, counter', 0, [(addr, data)], false⟩, t, true⟩ =
      ⟨⟨Function.update mem addr data, counter', 0, [], true⟩, t, true⟩ := by
    simp [chipAnd, Device.beside, eeprom, hstop, commit]
  rw [hwritten]
  rfl

/-! ## Many bytes -/

section Many
variable (hdeaf : ∀ b t, b / 2 = 80 → B.select b t = (false, t)) (hstop : ∀ t, B.stop t = t)
  (hfits : Fits eeType)
include hdeaf hstop hfits

theorem readRounds_eq (hmem : ∀ a, mem a < 256) {t : τ} (n i addr x : ℕ) (read : List ℕ)
    (hn : addr + n ≤ eeType + 1) (hx : 0 < n → x = addr) {b : Bus (Beside Eeprom τ)}
    (h : Kept mem t b) : ∃ x' b',
      Prog.forUp (readRound (chipAnd eeType row B) eeType) n i (x, read) b =
          ((x', read ++ (List.range' addr n).map mem), b') ∧ Kept mem t b' := by
  induction n generalizing i addr x read b with
  | zero => exact ⟨x, b, by rw [List.range'_zero, List.map_nil, List.append_nil]; rfl, h⟩
  | succ n ih =>
      have htop := hfits.lt
      obtain rfl : x = addr := hx n.succ_pos
      obtain ⟨b₁, hone, h₁⟩ := at24cxxReadOneByte_eq hdeaf hstop hfits hmem
        (show x ≤ eeType by omega) h
      have hround : readRound (chipAnd eeType row B) eeType i (x, read) b =
          (((x + 1) % 65536, read ++ [mem x]), b₁) := by
        rw [readRound, Prog.bind_of hone]; rfl
      obtain ⟨x', b', hrest, h'⟩ := ih (i + 1) (x + 1) ((x + 1) % 65536) (read ++ [mem x])
        (by omega) (fun hpos => Nat.mod_eq_of_lt (by omega)) h₁
      refine ⟨x', b', ?_, h'⟩
      rw [Prog.forUp, Prog.bind_of hround, hrest, List.append_assoc, List.range'_succ,
        List.map_cons]
      rfl

/-- `at24cxx_read` reads the bytes of the memory in their order. -/
theorem at24cxxRead_eq (hmem : ∀ a, mem a < 256) {t : τ} {addr n : ℕ}
    (hn : addr + n ≤ eeType + 1) {b : Bus (Beside Eeprom τ)} (h : Kept mem t b) : ∃ b',
      at24cxxRead (chipAnd eeType row B) eeType addr n b =
        ((List.range' addr n).map mem, b') ∧ Kept mem t b' := by
  obtain ⟨x', b', hrounds, h'⟩ :=
    readRounds_eq hdeaf hstop hfits hmem n 0 addr addr [] hn (fun _ => rfl) h
  exact ⟨b', by rw [at24cxxRead, Prog.bind_of hrounds]; rfl, h'⟩

variable (row) in
theorem writeRounds_kept {pbuf : ℕ → ℕ} (hpbuf : ∀ j, pbuf j < 256) {t : τ} {addr : ℕ}
    (k i x : ℕ) (hk : addr + (i + k) ≤ eeType + 1) (hx : 0 < k → x = addr + i)
    {b : Bus (Beside Eeprom τ)} (h : Kept (overlay mem addr pbuf i) t b) :
    Kept (overlay mem addr pbuf (i + k)) t
      ((Prog.forUp (writeRound (chipAnd eeType row B) settled eeType pbuf) k i x).state b) := by
  induction k generalizing i x b with
  | zero => exact h
  | succ k ih =>
      have htop := hfits.lt
      obtain rfl : x = addr + i := hx k.succ_pos
      obtain ⟨b₁, hone, h₁⟩ := at24cxxWriteOneByte_eq hdeaf hstop hfits
        (show addr + i ≤ eeType by omega) (hpbuf i) h
      have hround : writeRound (chipAnd eeType row B) settled eeType pbuf i (addr + i) b =
          ((addr + i + 1) % 65536, b₁) := by
        rw [writeRound, Prog.bind_of hone]; rfl
      rw [update_overlay] at h₁
      rw [Prog.forUp, Prog.state, Prog.bind_of hround, show i + (k + 1) = i + 1 + k by omega]
      exact ih (i + 1) _ (by omega) (fun hpos => Nat.mod_eq_of_lt (by omega)) h₁

/-- `at24cxx_write` changes the bytes of its window and no other. -/
theorem at24cxxWrite_kept {pbuf : ℕ → ℕ} (hpbuf : ∀ j, pbuf j < 256) {t : τ} {addr n : ℕ}
    (hn : addr + n ≤ eeType + 1) {b : Bus (Beside Eeprom τ)} (h : Kept mem t b) :
    Kept (overlay mem addr pbuf n) t
      ((at24cxxWrite (chipAnd eeType row B) settled eeType addr pbuf n).state b) := by
  rw [at24cxxWrite, Prog.state_bind, Prog.state_pure]
  have hstart : Kept (overlay mem addr pbuf 0) t b := by rwa [overlay_zero]
  have hrun := writeRounds_kept row hdeaf hstop hfits hpbuf n 0 addr (by omega) (fun _ => rfl)
    hstart
  rwa [Nat.zero_add] at hrun

variable (row) in
/-- A chip of 256 bytes passes the check.  One with more bytes passes it for the first time only
if byte 255, which is not the one written, has the mark.  From then on the last byte has it. -/
theorem at24cxxCheck_eq (hmem : ∀ a, mem a < 256) (hbytes : 255 ≤ eeType) {t : τ}
    {b : Bus (Beside Eeprom τ)} (h : Kept mem t b) : ∃ b',
      at24cxxCheck (chipAnd eeType row B) settled eeType b =
        (if mem eeType = 0x55 ∨ eeType = 255 ∨ mem 255 = 0x55 then 0 else 1, b') ∧
      Kept (Function.update mem eeType 0x55) t b' := by
  have haddr : eeType % 65536 = eeType := Nat.mod_eq_of_lt hfits.lt
  obtain ⟨b₁, hread, h₁⟩ := at24cxxReadOneByte_eq hdeaf hstop hfits hmem (Nat.le_refl eeType) h
  rw [at24cxxCheck]
  simp only [haddr]
  rw [Prog.bind_of hread]
  by_cases hmark : mem eeType = 0x55
  · refine ⟨b₁, ?_, ?_⟩
    · rw [if_pos hmark, if_pos (Or.inl hmark)]
      rfl
    · rwa [← hmark, Function.update_eq_self]
  · obtain ⟨b₂, hwrite, h₂⟩ := at24cxxWriteOneByte_eq hdeaf hstop hfits
      (Nat.le_refl eeType) (show 0x55 < 256 by decide) h₁
    have hmem' : ∀ a, Function.update mem eeType 0x55 a < 256 := by
      intro a
      rw [Function.update_apply]
      split
      · decide
      · exact hmem a
    obtain ⟨b₃, hagain, h₃⟩ := at24cxxReadOneByte_eq hdeaf hstop hfits hmem' hbytes h₂
    have hseen : Function.update mem eeType 0x55 255 = 0x55 ↔ eeType = 255 ∨ mem 255 = 0x55 := by
      rw [Function.update_apply]
      split
      · rename_i heq; simp [← heq]
      · rename_i hne; simp [Ne.symm hne]
    refine ⟨b₃, ?_, h₃⟩
    rw [if_neg hmark, Prog.bind_of hwrite, Prog.bind_of hagain]
    by_cases hpass : eeType = 255 ∨ mem 255 = 0x55
    · rw [if_pos (hseen.2 hpass), if_pos (Or.inr hpass)]
      rfl
    · rw [if_neg (mt hseen.1 hpass), if_neg (by tauto)]
      rfl

end Many

end Transfer

end Apollo.Iic
