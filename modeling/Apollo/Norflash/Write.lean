import Apollo.Norflash.Driver

/-!
# Writing the NOR flash

A write is an overlay: the bytes of its window become those of the buffer and every
other byte of the chip stays.  On the way every page program stays inside its page and
meets blank bytes only.

## Main definitions

* `PageProgram.Clean`, `Programs` — what holds of every page program issued.
* `programFrom_blank` — a program into blank bytes is an overlay.
* `Wrote` — what has been done to the chip overlays a window, cleanly.
* `wrote_page`, `wrote_pages`, `wrote_sector`, `wrote_sectors` — for each function.
* `norflashWrite_exact` — `norflash_write` is a byte-exact overwrite.
-/

namespace Apollo.Norflash
open Lib

/-! ## Addresses -/

theorem bigEndian_four (n : ℕ) (h : n < 2 ^ 32) :
    bigEndian [UInt8.ofNat (n / 2 ^ 24), UInt8.ofNat (n / 2 ^ 16), UInt8.ofNat (n / 2 ^ 8),
      UInt8.ofNat n] = n := by
  simp only [bigEndian, List.foldl_cons, List.foldl_nil, UInt8.toNat_ofNat']
  omega

theorem bigEndian_three (n : ℕ) (h : n < 2 ^ 24) :
    bigEndian [UInt8.ofNat (n / 2 ^ 16), UInt8.ofNat (n / 2 ^ 8), UInt8.ofNat n] = n := by
  simp only [bigEndian, List.foldl_cons, List.foldl_nil, UInt8.toNat_ofNat']
  omega

/-- The chip reads back the address that the driver sent. -/
theorem address_sendAddress (P : Part) {addr : ℕ} (h : addr < P.size) (data : List UInt8) :
    P.address (sendAddress P addr ++ data) = (addr, data) := by
  have hfits := P.fits
  by_cases hwide : Wide P.type
  · rw [if_pos hwide] at hfits
    simp only [Part.address, sendAddress, if_pos hwide, List.cons_append, List.nil_append,
      List.take_succ_cons, List.take_zero, List.drop_succ_cons, List.drop_zero,
      bigEndian_four addr (by omega)]
  · rw [if_neg hwide] at hfits
    simp only [Part.address, sendAddress, if_neg hwide, List.cons_append, List.nil_append,
      List.take_succ_cons, List.take_zero, List.drop_succ_cons, List.drop_zero,
      bigEndian_three addr (by omega)]

theorem Part.size_le (P : Part) : P.size ≤ 2 ^ 32 := by
  have h := P.fits
  split at h <;> omega

/-! ## Page programs -/

/-- The program stays inside its page, and every byte it programs was blank. -/
structure PageProgram.Clean (p : PageProgram) : Prop where
  inPage : p.addr % 256 + p.len ≤ 256
  blank : ∀ i < p.len, p.before (p.addr + i) = 0xFF

/-- The page programs issued between two states are clean. -/
def Programs (c t : Nor) : Prop :=
  ∃ new, t.programs = c.programs ++ new ∧ ∀ p ∈ new, p.Clean

theorem Programs.refl (c : Nor) : Programs c c := ⟨[], by simp, by simp⟩

theorem Programs.trans {c t u : Nor} (h₁ : Programs c t) (h₂ : Programs t u) : Programs c u := by
  obtain ⟨new₁, heq₁, hclean₁⟩ := h₁
  obtain ⟨new₂, heq₂, hclean₂⟩ := h₂
  refine ⟨new₁ ++ new₂, by rw [heq₂, heq₁, List.append_assoc], fun p hp => ?_⟩
  rcases List.mem_append.mp hp with hp | hp
  · exact hclean₁ p hp
  · exact hclean₂ p hp

theorem pageAddr_eq {addr i : ℕ} (h : addr % 256 + i < 256) : pageAddr addr i = addr + i := by
  rw [pageAddr]
  omega

theorem ff_and (b : UInt8) : 0xFF &&& b = b := by
  rw [UInt8.and_comm]
  exact UInt8.and_neg_one

/-- A program into blank bytes of one page writes them. -/
theorem programFrom_blank {addr : ℕ} (data : List UInt8) {i : ℕ} {mem : ℕ → UInt8}
    (hpage : addr % 256 + i + data.length ≤ 256)
    (hblank : ∀ j < data.length, mem (addr + i + j) = 0xFF) :
    programFrom addr i data mem = overlay mem (addr + i) (fun j => data.getD j 0) data.length := by
  induction data generalizing i mem with
  | nil => rw [programFrom, List.length_nil, overlay_zero]
  | cons b data ih =>
      rw [List.length_cons] at hpage hblank
      have hfirst : mem (addr + i) = 0xFF := hblank 0 (Nat.succ_pos _)
      rw [programFrom, pageAddr_eq (by omega), hfirst, ff_and, ih (by omega)]
      · funext a
        rcases Nat.lt_trichotomy a (addr + i) with hlt | rfl | hgt
        · rw [overlay_before (by omega), overlay_before hlt, Function.update_of_ne (by omega)]
        · rw [overlay_before (by omega), Function.update_self, overlay_inside le_rfl (by simp)]
          simp
        · by_cases hin : a < addr + i + (data.length + 1)
          · rw [overlay_inside (by omega) (by omega),
              overlay_inside (by omega) (by simpa using hin),
              show a - (addr + i) = a - (addr + (i + 1)) + 1 by omega]
            rfl
          · rw [overlay_after (by omega), overlay_after (by simpa using hin),
              Function.update_of_ne (by omega)]
      · intro j hj
        rw [Function.update_of_ne (by omega)]
        simpa [Nat.add_assoc, Nat.add_comm, Nat.add_left_comm] using hblank (j + 1) (by omega)

theorem overlay_map_range (mem : ℕ → UInt8) (a : ℕ) (f : ℕ → UInt8) (n : ℕ) :
    overlay mem a (fun j => ((List.range n).map f).getD j 0) n = overlay mem a f n := by
  funext i
  refine overlay_congr_at (fun _ => rfl) fun h₁ h₂ => ?_
  have hi : i - a < n := by omega
  simp [List.getD_eq_getElem?_getD, hi]

/-! ## Clean writes -/

/-- From `c` to `t` the window at `addr` has been written, by clean page programs. -/
structure Wrote (c t : Nor) (addr : ℕ) (pbuf : ℕ → UInt8) (n : ℕ) : Prop where
  mem : t.mem = overlay c.mem addr pbuf n
  programs : Programs c t

theorem Wrote.zero (c : Nor) (addr : ℕ) (pbuf : ℕ → UInt8) : Wrote c c addr pbuf 0 :=
  ⟨(overlay_zero ..).symm, .refl c⟩

/-- Two adjacent writes from one buffer are one. -/
theorem Wrote.append {c t u : Nor} {addr n m : ℕ} {pbuf : ℕ → UInt8} (h₁ : Wrote c t addr pbuf n)
    (h₂ : Wrote t u (addr + n) (shift pbuf n) m) : Wrote c u addr pbuf (n + m) :=
  ⟨by rw [h₂.mem, h₁.mem, overlay_append], h₁.programs.trans h₂.programs⟩

section
variable (P : Part) {pbuf : ℕ → UInt8} {addr n : ℕ} {c : Nor}

theorem wrote_page (hpage : addr % 256 + n ≤ 256) (hsize : addr < P.size)
    (hblank : ∀ i < n, c.mem (addr + i) = 0xFF) :
    Wrote c ((norflashWritePage P pbuf addr n).state c) addr pbuf n := by
  have hlen : ((List.range n).map pbuf).length = n := by simp
  constructor
  · simp only [norflashWritePage, norflashWriteEnable, frame, Prog.state_bind, Prog.state_modify,
      address_sendAddress P hsize]
    simp only [if_true, reduceCtorEq, if_false, show (0x02 : UInt8) ≠ 0x06 by decide]
    rw [programFrom_blank _ (by rw [hlen]; omega) (by simpa [hlen] using hblank), hlen,
      Nat.add_zero, overlay_map_range]
  · refine ⟨[⟨addr, n, c.mem⟩], ?_, ?_⟩
    · simp only [norflashWritePage, norflashWriteEnable, frame, Prog.state_bind, Prog.state_modify,
        address_sendAddress P hsize]
      simp
    · intro p hp
      obtain rfl := List.mem_singleton.mp hp
      exact ⟨hpage, hblank⟩

/-! ## Page after page -/

/-- `k ≥ i` bytes have been written when the `i`-th round of the page loop begins. -/
def PagesDone (pbuf : ℕ → UInt8) (addr datalen : ℕ) (c : Nor) (i : ℕ) (a : PageLoop) (t : Nor) :
    Prop :=
  ∃ k, i ≤ k ∧ k < datalen ∧ Wrote c t addr pbuf k ∧
    a = ⟨shift pbuf k, addr + k, datalen - k, min (datalen - k) (256 - (addr + k) % 256)⟩

theorem pagesDone_round {datalen i : ℕ} {a : PageLoop} {t : Nor} (hlen : datalen < 2 ^ 16)
    (hsize : addr + datalen ≤ P.size) (hblank : ∀ j < datalen, c.mem (addr + j) = 0xFF)
    (h : PagesDone pbuf addr datalen c i a t) :
    ((writePageRound P i a).val t).Holds
      (fun b => PagesDone pbuf addr datalen c (i + 1) b ((writePageRound P i a).state t))
      (fun _ => Wrote c ((writePageRound P i a).state t) addr pbuf datalen) := by
  obtain ⟨k, hik, hk, hwrote, rfl⟩ := h
  have hsize32 := P.size_le
  obtain ⟨r, hr⟩ : ∃ r, r = min (datalen - k) (256 - (addr + k) % 256) := ⟨_, rfl⟩
  rw [← hr]
  have hpage : Wrote t ((norflashWritePage P (shift pbuf k) (addr + k) r).state t) (addr + k)
      (shift pbuf k) r := by
    refine wrote_page P (by omega) (by omega) fun j hj => ?_
    rw [hwrote.mem, overlay_after (by omega), Nat.add_assoc]
    exact hblank (k + j) (by omega)
  have hdone := hwrote.append hpage
  by_cases hlast : datalen - k = r
  · simp only [writePageRound, Prog.val_bind, Prog.state_bind, if_pos hlast, Prog.val_pure,
      Prog.state_pure, Flow.holds_exit]
    rwa [show k + r = datalen by omega] at hdone
  · simp only [writePageRound, Prog.val_bind, Prog.state_bind, if_neg hlast, Prog.val_pure,
      Prog.state_pure, Flow.holds_next]
    refine ⟨k + r, by omega, by omega, hdone, ?_⟩
    -- The round went to the end of its page.
    have hend : (addr + k + r) % 256 = 0 := by omega
    have hrest : (datalen - k + 2 ^ 16 - r) % 2 ^ 16 = datalen - (k + r) := by omega
    have haddr : (addr + k + r) % 2 ^ 32 = addr + (k + r) := by omega
    rw [hrest, haddr, shift_shift, ← Nat.add_assoc, hend]
    congr 1
    split <;> omega

/-- `norflash_write_nocheck` writes blank bytes, and its loop ends. -/
theorem wrote_pages (c : Nor) (pbuf : ℕ → UInt8) (addr : ℕ) {datalen : ℕ} (hpos : 0 < datalen)
    (hlen : datalen < 2 ^ 16) (hsize : addr + datalen ≤ P.size)
    (hblank : ∀ j < datalen, c.mem (addr + j) = 0xFF) :
    (writePages P pbuf addr datalen).val c = .exit () ∧
      Wrote c ((norflashWriteNocheck P pbuf addr datalen).state c) addr pbuf datalen := by
  have hinit : PagesDone pbuf addr datalen c 0 ⟨pbuf, addr, datalen,
      if datalen ≤ 256 - addr % 256 then datalen else 256 - addr % 256⟩ c := by
    refine ⟨0, le_rfl, hpos, .zero .., ?_⟩
    rw [shift_zero, Nat.add_zero, Nat.sub_zero, Nat.min_def]
  have hrun := Prog.loop_inv (I := PagesDone pbuf addr datalen c)
    (Q := fun _ t => Wrote c t addr pbuf datalen)
    (fun j _ a t h => pagesDone_round P hlen hsize hblank h) (Nat.zero_add (datalen + 1)) hinit
  change Flow.Holds _ _ ((writePages P pbuf addr datalen).val c) at hrun
  cases hv : (writePages P pbuf addr datalen).val c with
  | next b =>
      rw [hv] at hrun
      obtain ⟨k, hik, hk, -⟩ := hrun
      omega
  | exit b =>
      rw [hv] at hrun
      exact ⟨rfl, hrun⟩

/-! ## One sector -/

theorem address_eq (h : addr < P.size) : P.address (sendAddress P addr) = (addr, []) := by
  simpa using address_sendAddress P h []

theorem val_norflashRead (h : addr < P.size) (datalen : ℕ) :
    (norflashRead P pbuf addr datalen).val c = overlay pbuf 0 (shift c.mem addr) datalen := by
  simp only [norflashRead, readFrame, Prog.val_bind, Prog.val_get, Prog.val_pure, address_eq P h]

theorem state_norflashReadBuf (h : addr < P.size) (datalen : ℕ) :
    (norflashReadBuf P addr datalen).state c =
      { c with norflashBuf := overlay c.norflashBuf 0 (shift c.mem addr) datalen } := by
  simp only [norflashReadBuf, readFrame, Prog.state_bind, Prog.state_modify, Prog.val_get,
    Prog.state_get, address_eq P h]

theorem state_norflashEraseSector {saddr : ℕ} (h : saddr * 4096 < P.size) :
    (norflashEraseSector P saddr).state c =
      { c with mem := eraseSector (saddr * 4096) c.mem, wel := false } := by
  have hsize := P.size_le
  rw [norflashEraseSector, Nat.mod_eq_of_lt (by omega)]
  simp only [norflashWriteEnable, frame, Prog.state_bind, Prog.state_modify, address_eq P h]
  simp

/-- The loop that copies the data into the sector buffer. -/
theorem state_copy (pbuf : ℕ → UInt8) (secoff secremain : ℕ) (c : Nor) :
    (Prog.forUp (fun i _ => Prog.modify fun c =>
      { c with norflashBuf := Function.update c.norflashBuf (i + secoff) (pbuf i) })
      secremain 0 ()).state c =
        { c with norflashBuf := overlay c.norflashBuf secoff pbuf secremain } := by
  refine Prog.forUp_inv (n := secremain)
    (I := fun i _ t => t = { c with norflashBuf := overlay c.norflashBuf secoff pbuf i })
    (fun i _ _ t ht => ?_) (Nat.zero_add _) (by rw [overlay_zero])
  subst ht
  rw [Prog.state_modify, Nat.add_comm i, update_overlay]

/-- What the loop of `norflash_write` carries is about one sector of the chip. -/
structure SectorLoop.OnChip (a : SectorLoop) : Prop where
  addr : a.addr = a.secpos * 4096 + a.secoff
  pos : 0 < a.secremain
  inSector : a.secoff + a.secremain ≤ 4096
  size : a.addr < P.size

variable {P} in
theorem SectorLoop.OnChip.sector_le {a : SectorLoop} (h : a.OnChip P) :
    a.secpos * 4096 + 4096 ≤ P.size := by
  obtain ⟨sectors, hsectors⟩ := P.sectors
  have haddr := h.addr
  have hsize := h.size
  omega

theorem wrote_sector {a : SectorLoop} (h : a.OnChip P) :
    Wrote c ((writeSector P a).state c) a.addr a.pbuf a.secremain := by
  have hsector := h.sector_le
  have haddr := h.addr
  have hin := h.inSector
  have hpos := h.pos
  have hsize := P.size_le
  have hpos32 : a.secpos * 4096 % 2 ^ 32 = a.secpos * 4096 := Nat.mod_eq_of_lt (by omega)
  obtain ⟨read, hread⟩ : ∃ read, read =
    overlay c.norflashBuf 0 (shift c.mem (a.secpos * 4096)) 4096 := ⟨_, rfl⟩
  have hstate : (norflashReadBuf P (a.secpos * 4096) 4096).state c =
      { c with norflashBuf := read } := by
    rw [hread]
    exact state_norflashReadBuf P (by omega) 4096
  have hreadAt (i : ℕ) (hi : i < 4096) : read i = c.mem (a.secpos * 4096 + i) := by
    rw [hread, overlay_inside (by omega) (by omega), shift_apply, Nat.sub_zero]
  simp only [writeSector, hpos32, Prog.state_bind, hstate, Prog.val_get, Prog.state_get,
    Prog.state_ite]
  split
  · rw [state_norflashEraseSector P (by omega), state_copy]
    obtain ⟨buf, hbuf⟩ : ∃ buf, buf = overlay read a.secoff a.pbuf a.secremain := ⟨_, rfl⟩
    have hwrote := (wrote_pages P { c with
        mem := eraseSector (a.secpos * 4096) c.mem, wel := false, norflashBuf := buf }
      buf (a.secpos * 4096) (by decide) (by decide) hsector fun j hj => if_pos (by omega)).2
    rw [← hbuf]
    refine ⟨hwrote.mem.trans ?_, hwrote.programs⟩
    -- What the sector held is in the buffer, under the data.
    funext j
    by_cases hj : a.secpos * 4096 ≤ j ∧ j < a.secpos * 4096 + 4096
    · rw [overlay_inside hj.1 hj.2, hbuf]
      by_cases hdata : a.addr ≤ j ∧ j < a.addr + a.secremain
      · rw [overlay_inside hdata.1 hdata.2, overlay_inside (by omega) (by omega), haddr,
          Nat.sub_sub]
      · rw [overlay_outside hdata, overlay_outside (by omega), hreadAt _ (by omega),
          Nat.add_sub_cancel' hj.1]
    · rw [overlay_outside hj, overlay_outside (by omega)]
      exact if_neg (by omega)
  · rename_i hclean
    have hnone := Option.not_isSome_iff_eq_none.mp hclean
    have hblank (i : ℕ) (hi : i < a.secremain) : c.mem (a.addr + i) = 0xFF := by
      have := firstEntry_eq_none.mp hnone i hi
      rw [hreadAt _ (by omega), ← Nat.add_assoc, ← haddr] at this
      exact not_not.mp this
    have hwrote := (wrote_pages P { c with norflashBuf := read } a.pbuf a.addr
      hpos (by omega) (by have := h.size; omega) hblank).2
    exact ⟨hwrote.mem, hwrote.programs⟩

/-! ## Sector after sector -/

/-- `k ≥ i` bytes have been written when the `i`-th round of the sector loop begins. -/
def SectorsDone (pbuf : ℕ → UInt8) (addr datalen : ℕ) (c : Nor) (i : ℕ) (a : SectorLoop) (t : Nor) :
    Prop :=
  ∃ k, i ≤ k ∧ k < datalen ∧ Wrote c t addr pbuf k ∧
    a = ⟨shift pbuf k, addr + k, datalen - k, (addr + k) / 4096, (addr + k) % 4096,
      min (datalen - k) (4096 - (addr + k) % 4096)⟩

theorem sectorsDone_round {datalen i : ℕ} {a : SectorLoop} {t : Nor} (hlen : datalen < 2 ^ 16)
    (hsize : addr + datalen ≤ P.size) (h : SectorsDone pbuf addr datalen c i a t) :
    ((writeSectorRound P i a).val t).Holds
      (fun b => SectorsDone pbuf addr datalen c (i + 1) b ((writeSectorRound P i a).state t))
      (fun _ => Wrote c ((writeSectorRound P i a).state t) addr pbuf datalen) := by
  obtain ⟨k, hik, hk, hwrote, rfl⟩ := h
  have hsize32 := P.size_le
  obtain ⟨r, hr⟩ : ∃ r, r = min (datalen - k) (4096 - (addr + k) % 4096) := ⟨_, rfl⟩
  rw [← hr]
  have hsector := wrote_sector P (c := t) (a := ⟨shift pbuf k, addr + k, datalen - k,
    (addr + k) / 4096, (addr + k) % 4096, r⟩) ⟨by simp only; omega, by simp only; omega,
      by simp only; omega, by simp only; omega⟩
  have hdone := hwrote.append hsector
  by_cases hlast : datalen - k = r
  · simp only [writeSectorRound, Prog.val_bind, Prog.state_bind, if_pos hlast, Prog.val_pure,
      Prog.state_pure, Flow.holds_exit]
    rwa [show k + r = datalen by omega] at hdone
  · simp only [writeSectorRound, Prog.val_bind, Prog.state_bind, if_neg hlast, Prog.val_pure,
      Prog.state_pure, Flow.holds_next]
    refine ⟨k + r, by omega, by omega, hdone, ?_⟩
    -- The round went to the end of its sector.
    have hend : (addr + (k + r)) % 4096 = 0 := by omega
    have hnext : (addr + (k + r)) / 4096 = (addr + k) / 4096 + 1 := by omega
    have hrest : (datalen - k + 2 ^ 16 - r) % 2 ^ 16 = datalen - (k + r) := by omega
    have haddr : (addr + k + r) % 2 ^ 32 = addr + (k + r) := by omega
    rw [hrest, haddr, shift_shift, hend, hnext]
    congr 1
    split <;> omega

/-- `norflash_write` writes a window of the chip, and its loop ends. -/
theorem wrote_sectors (c : Nor) (pbuf : ℕ → UInt8) (addr : ℕ) {datalen : ℕ} (hpos : 0 < datalen)
    (hlen : datalen < 2 ^ 16) (hsize : addr + datalen ≤ P.size) :
    (writeSectors P pbuf addr datalen).val c = .exit () ∧
      Wrote c ((norflashWrite P pbuf addr datalen).state c) addr pbuf datalen := by
  have hinit : SectorsDone pbuf addr datalen c 0 ⟨pbuf, addr, datalen, addr / 4096, addr % 4096,
      if datalen ≤ 4096 - addr % 4096 then datalen else 4096 - addr % 4096⟩ c := by
    refine ⟨0, le_rfl, hpos, .zero .., ?_⟩
    rw [shift_zero, Nat.add_zero, Nat.sub_zero, Nat.min_def]
  have hrun := Prog.loop_inv (I := SectorsDone pbuf addr datalen c)
    (Q := fun _ t => Wrote c t addr pbuf datalen)
    (fun j _ a t h => sectorsDone_round P hlen hsize h) (Nat.zero_add (datalen + 1)) hinit
  change Flow.Holds _ _ ((writeSectors P pbuf addr datalen).val c) at hrun
  cases hv : (writeSectors P pbuf addr datalen).val c with
  | next b =>
      rw [hv] at hrun
      obtain ⟨k, hik, hk, -⟩ := hrun
      omega
  | exit b =>
      rw [hv] at hrun
      exact ⟨rfl, hrun⟩

/-- A frame that is neither a page program nor an erase changes no byte. -/
theorem mem_frame {opcode : UInt8} (hprogram : opcode ≠ 0x02) (herase : opcode ≠ 0x20)
    (bytes : List UInt8) (c : Nor) : ((frame P opcode bytes).state c).mem = c.mem := by
  rw [frame, Prog.state_modify]
  dsimp only
  rw [if_neg hprogram, if_neg herase]
  split_ifs <;> rfl

theorem mem_norflashInit (sr3 : UInt8) (c : Nor) : ((norflashInit P sr3).state c).mem = c.mem := by
  rw [norflashInit, Prog.state_ite]
  split
  · rw [Prog.state_bind, Prog.state_bind, mem_frame P (by decide) (by decide),
      mem_frame P (by decide) (by decide)]
    exact mem_frame P (by decide) (by decide) [] c
  · rfl

/-- For every content of the chip and every window on it, `norflash_write` ends, the window
holds the buffer, every other byte is unchanged, no page program crosses a page, and every byte
programmed was blank. -/
theorem norflashWrite_exact (pbuf : ℕ → UInt8) (addr datalen : ℕ) (hpos : 1 ≤ datalen)
    (hlen : datalen < 2 ^ 16) (hsize : addr + datalen ≤ P.size) (c : Nor) :
    (writeSectors P pbuf addr datalen).val c = .exit () ∧
      (∀ i < datalen, ((norflashWrite P pbuf addr datalen).state c).mem (addr + i) = pbuf i) ∧
      (∀ j, ¬(addr ≤ j ∧ j < addr + datalen) →
        ((norflashWrite P pbuf addr datalen).state c).mem j = c.mem j) ∧
      ∃ new, ((norflashWrite P pbuf addr datalen).state c).programs = c.programs ++ new ∧
        ∀ p ∈ new, p.addr % 256 + p.len ≤ 256 ∧ ∀ i < p.len, p.before (p.addr + i) = 0xFF := by
  have hwrote := wrote_sectors P c pbuf addr hpos hlen hsize
  obtain ⟨hexit, hmem, new, hprograms, hclean⟩ := hwrote
  refine ⟨hexit, fun i hi => ?_, fun j hj => ?_, new, hprograms, fun p hp => ?_⟩
  · rw [hmem, overlay_inside (by omega) (by omega), Nat.add_sub_cancel_left]
  · rw [hmem, overlay_outside hj]
  · exact ⟨(hclean p hp).inPage, (hclean p hp).blank⟩

/-- Ten bytes over the end of a sector. -/
theorem norflashWrite_exact_ten :
    (writeSectors part25q256 (fun _ => 0) 4090 10).val .fresh = .exit () ∧
      (∀ i < 10, ((norflashWrite part25q256 (fun _ => 0) 4090 10).state .fresh).mem
        (4090 + i) = 0) ∧
      (∀ j, ¬(4090 ≤ j ∧ j < 4090 + 10) →
        ((norflashWrite part25q256 (fun _ => 0) 4090 10).state .fresh).mem j = 0xFF) ∧
      ∃ new, ((norflashWrite part25q256 (fun _ => 0) 4090 10).state .fresh).programs = [] ++ new ∧
        ∀ p ∈ new, p.addr % 256 + p.len ≤ 256 ∧ ∀ i < p.len, p.before (p.addr + i) = 0xFF :=
  norflashWrite_exact part25q256 (fun _ => 0) 4090 10 (by decide) (by decide) (by decide) .fresh

theorem address_data (addr : ℕ) : (P.address (sendAddress P addr)).2 = [] := by
  by_cases hwide : Wide P.type
  · simp [Part.address, sendAddress, hwide]
  · simp [Part.address, sendAddress, hwide]

/-- A page program without data. -/
theorem wrote_page_nothing (pbuf : ℕ → UInt8) (addr : ℕ) (c : Nor) :
    Wrote c ((norflashWritePage P pbuf addr 0).state c) addr pbuf 0 := by
  have hdata := address_data P addr
  have hstate : (norflashWritePage P pbuf addr 0).state c =
      { c with
        wel := false
        programs := c.programs ++ [⟨(P.address (sendAddress P addr)).1, 0, c.mem⟩] } := by
    simp only [norflashWritePage, norflashWriteEnable, frame, Prog.state_bind, Prog.state_modify,
      List.range_zero, List.map_nil, List.append_nil, hdata]
    simp [programFrom]
  rw [hstate]
  refine ⟨(overlay_zero ..).symm, _, rfl, fun p hp => ?_⟩
  obtain rfl := List.mem_singleton.mp hp
  exact ⟨(Nat.mod_lt _ (by decide)).le, fun i hi => absurd hi (Nat.not_lt_zero i)⟩

/-- A write of no bytes changes nothing. -/
theorem wrote_nothing (pbuf : ℕ → UInt8) (addr : ℕ) (c : Nor) :
    Wrote c ((norflashWrite P pbuf addr 0).state c) addr pbuf 0 := by
  obtain ⟨buf, hbuf⟩ : ∃ buf, (norflashReadBuf P (addr / 4096 * 4096 % 2 ^ 32) 4096).state c =
      { c with norflashBuf := buf } := ⟨_, rfl⟩
  have hpage := wrote_page_nothing P pbuf addr { c with norflashBuf := buf }
  have hstate : (norflashWrite P pbuf addr 0).state c =
      (norflashWritePage P pbuf addr 0).state { c with norflashBuf := buf } := by
    rw [← hbuf]
    rfl
  rw [hstate]
  exact ⟨hpage.mem, hpage.programs⟩

end

end Apollo.Norflash
