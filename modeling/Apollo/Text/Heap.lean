import Apollo.Text.Show

/-!
# What showing a character does to the heap

`text_show_font` asks for `size` bytes, while the dots take
`(size / 8 + (size % 8 ? 1 : 0)) * size`: with 24 rows 72 bytes and with 32 rows 128, which is
more than the single block of 64 bytes that the allocator hands out for either.

On an RGB panel the dots go to memory besides, and those off the screen past the frame buffer: on
the largest panel, row 800 is where the external pool begins.

## Main definitions

* `LeavesHeap` — the other allocations and what lies outside the pool are as they were.
* `DotsFit`, `PixelsFit` — what the buffer and the screen have to do with it.
* `mem_textShowFont` — what a character leaves in memory.
* `leavesHeap_iff` — when the heap is left alone.
-/

namespace Apollo.Text
open Lib Norflash Malloc Lcd Panel

variable (L : Link) (P : Part) (ft : FontInfo) (D : Lcddev)

/-! ## Stores -/

/-- A store writes its bytes, up to as many as there are addresses, and nothing else. -/
theorem store_spec (mat : ℕ) (f : ℕ → UInt8) {n : ℕ} (hn : n ≤ 2 ^ 32) (d : Dev) :
    (∀ i < n, ((store mat f n).state d).mem ((mat + i) % 2 ^ 32) = (f i).toNat) ∧
      ∀ a, (∀ i < n, a ≠ (mat + i) % 2 ^ 32) → ((store mat f n).state d).mem a = d.mem a := by
  refine Prog.forUp_inv (n := n)
    (I := fun k _ (t : Dev) => (∀ i < k, t.mem ((mat + i) % 2 ^ 32) = (f i).toNat) ∧
      ∀ a, (∀ i < k, a ≠ (mat + i) % 2 ^ 32) → t.mem a = d.mem a)
    (fun k hk _ t ht => ?_) (Nat.zero_add n) ⟨fun i hi => absurd hi (Nat.not_lt_zero i),
      fun _ _ => rfl⟩
  obtain ⟨hwritten, hkept⟩ := ht
  simp only [Prog.state_modify]
  refine ⟨fun i hi => ?_, fun a ha => ?_⟩
  · by_cases hik : i = k
    · rw [hik, Function.update_self]
    · rw [Function.update_of_ne (by omega)]
      exact hwritten i (by omega)
  · rw [Function.update_of_ne (ha k (by omega))]
    exact hkept a fun i hi => ha i (by omega)

/-! ## The allocator and the memory -/

section KeepsMem
variable {memx : Memx}

theorem keepsMem_setMap (i v : ℕ) : Prog.Keeps Dev.mem (setMap memx i v) :=
  Prog.Keeps.modify fun d => by split <;> rfl

theorem keepsMem_getMap (i : ℕ) : Prog.Keeps Dev.mem (getMap memx i) := by
  intro d
  simp only [Prog.state, getMap]
  split <;> rfl

theorem keepsMem_fillMap (first count v : ℕ) : Prog.Keeps Dev.mem (fillMap memx first count v) :=
  Prog.Keeps.forUp (fun _ _ _ => keepsMem_setMap _ _) () (Nat.zero_add count)

theorem keepsMem_myMemInit : Prog.Keeps Dev.mem (myMemInit memx) :=
  .bind (keepsMem_fillMap _ _ _) fun _ => .modify fun _ => rfl

theorem keepsMem_myMemFree (offset : ℕ) : Prog.Keeps Dev.mem (myMemFree memx offset) :=
  .bind (.get _) fun _ => .ite _ (.bind keepsMem_myMemInit fun _ => .pure _) <|
    .ite _ (.bind (keepsMem_getMap _) fun _ => .bind (keepsMem_fillMap _ _ _) fun _ => .pure _)
      (.pure _)

theorem keepsMem_myfree (ptr : ℕ) : Prog.Keeps Dev.mem (myfree L memx ptr) :=
  .ite _ (.pure _) (.bind (keepsMem_myMemFree _) fun _ => .pure _)

end KeepsMem

/-- The block that an allocation of one block gets: the last one that is free. -/
def LastFree (d : Dev) (o : ℕ) : Prop :=
  Room (d.readied .sramin) .sramin 1 o ∧ ∀ o' > o, ¬ Room (d.readied .sramin) .sramin 1 o'

/-- An allocation of one block takes the last one that is free, and fails if there is none. -/
theorem mymalloc_block {size : ℕ} (hone : nmemb .sramin size = 1) (d : Dev) :
    (∃ o, LastFree d o ∧ (mymalloc L .sramin size).val d = L.membase .sramin + o * 64 ∧
        ((mymalloc L .sramin size).state d).mem = d.mem) ∨
      (∀ o, ¬ LastFree d o) ∧ (mymalloc L .sramin size).val d = 0 ∧
        ((mymalloc L .sramin size).state d).mem = d.mem := by
  have hsize : 0 < size := by
    by_contra h0
    rw [Nat.eq_zero_of_not_pos h0] at hone
    exact absurd hone (by decide)
  have hbase := L.membase_pos .sramin
  have hready := readied_memrdy d .sramin
  rcases myMemMalloc_cases hready hsize with ⟨o, hroom, hmax, hrun⟩ | ⟨hnone, hrun⟩
  · rw [hone] at hroom hmax
    rw [← myMemMalloc_readied, hone] at hrun
    have hlt : o < 800 := hroom.1
    have hval : (myMemMalloc .sramin size).val d = o * 64 := congrArg Prod.fst hrun
    have hstate : (myMemMalloc .sramin size).state d = (d.readied .sramin).fill .sramin o 1 1 :=
      congrArg Prod.snd hrun
    have hne : ¬ o * 64 = 0xFFFFFFFF := by omega
    refine Or.inl ⟨o, ⟨hroom, hmax⟩, ?_, ?_⟩
    · simp only [mymalloc, Prog.val_bind, hval, hne, if_false, Prog.val_pure]
    · simp only [mymalloc, Prog.state_bind, hval, hstate, hne, if_false, Prog.state_pure, fill_mem,
        readied_mem]
  · rw [hone] at hnone
    rw [← myMemMalloc_readied] at hrun
    have hval : (myMemMalloc .sramin size).val d = 0xFFFFFFFF := congrArg Prod.fst hrun
    have hstate : (myMemMalloc .sramin size).state d = d.readied .sramin := congrArg Prod.snd hrun
    refine Or.inr ⟨fun o ho => hnone o ho.1, ?_, ?_⟩
    · simp only [mymalloc, Prog.val_bind, hval, if_true, Prog.val_pure]
    · simp only [mymalloc, Prog.state_bind, hval, hstate, if_true, Prog.state_pure, readied_mem]

theorem LastFree.unique {d : Dev} {o o' : ℕ} (h : LastFree d o) (h' : LastFree d o') : o = o' := by
  rcases Nat.lt_trichotomy o o' with hlt | heq | hgt
  · exact absurd h'.1 (h.2 o' hlt)
  · exact heq
  · exact absurd h.1 (h'.2 o hgt)

/-! ## What is drawn into memory -/

/-- Where the board keeps what the code works on: the internal pool in internal SRAM, and the
frame buffer of an RGB panel in front of the external pool. -/
structure OnBoard (L : Link) (ltdc : Option Ltdc) : Prop where
  sram : L.membase .sramin + memsize .sramin ≤ 0x20030000
  panel : ∀ P ∈ ltdc, P.OfBoard

/-- Points have no address in internal memory. -/
theorem putPoints_of_lt {ltdc : Option Ltdc} (hpanel : ∀ P ∈ ltdc, P.OfBoard) (ps : List Point)
    (mem : ℕ → ℕ) {a : ℕ} (ha : a < 0xB0000000) : putPoints ltdc ps mem a = mem a := by
  cases ltdc with
  | none => rfl
  | some P =>
      refine foldl_putPoint_of_ne fun p _ => ?_
      have hbounds := (hpanel P rfl).pointAddr_bounds (Nat.mod_lt p.x (Nat.two_pow_pos 16))
        (Nat.mod_lt p.y (Nat.two_pow_pos 16))
      rw [Ltdc.store]
      dsimp only
      omega

theorem putPoints_append (ltdc : Option Ltdc) (ps qs : List Point) (mem : ℕ → ℕ) :
    putPoints ltdc (ps ++ qs) mem = putPoints ltdc qs (putPoints ltdc ps mem) := by
  cases ltdc with
  | none => rfl
  | some P => exact List.foldl_append

/-- The dots of a buffer in internal memory go to the screen and, on an RGB panel, to memory. -/
theorem mem_fontBytes {x y size : ℕ} (mode color : ℕ) (hsize : 0 < size) (hx : x < 2 ^ 16)
    (hy : y < 2 ^ 16) {dzk n : ℕ} {s : Panel} (hpanel : ∀ P ∈ s.ltdc, P.OfBoard)
    (hdzk : dzk + n ≤ 0xB0000000) {bytes : ℕ → ℕ}
    (hbytes : ∀ t < n, s.dev.mem ((dzk + t) % 2 ^ 32) = bytes t) :
    ((Prog.loop (fontByte D y size mode color dzk) n 0 ⟨x, y, 0⟩).state s).dev.mem =
      putPoints s.ltdc (fontDots D size mode color x y bytes n) s.dev.mem := by
  set run := Prog.loop (fontByte D y size mode color dzk) n 0 ⟨x, y, 0⟩ with hrun
  have hloop : (run.val s).Holds
      (fun a => (a.x = byteColumn size x y n ∧ a.y = byteRow size y n) ∧
        (run.state s).dev.mem =
          putPoints s.ltdc (fontDots D size mode color x y bytes n) s.dev.mem ∧
        (run.state s).ltdc = s.ltdc) fun _ => False := by
    refine Prog.loop_inv (n := n)
      (I := fun t (a : Pen) (u : Panel) => (a.x = byteColumn size x y t ∧ a.y = byteRow size y t) ∧
        u.dev.mem = putPoints s.ltdc (fontDots D size mode color x y bytes t) s.dev.mem ∧
        u.ltdc = s.ltdc)
      (Q := fun _ _ => False) (fun t ht a u hinv => ?_) (Nat.zero_add n) ⟨⟨?_, ?_⟩, ?_, rfl⟩
    · obtain ⟨⟨hax, hay⟩, hmem, hltdc⟩ := hinv
      have htemp : u.dev.mem ((dzk + t) % 2 ^ 32) = bytes t := by
        rw [hmem, putPoints_of_lt hpanel _ _ (by omega), hbytes t ht]
      have hbyte : fontByte D y size mode color dzk t a u =
          onLcd (byteRound D false y size mode color bytes t a) u := by
        rw [fontByte, Prog.bind_apply, Prog.val_get, Prog.state_get, htemp]
        rfl
      have hdraw := byteRound_draws D mode color bytes hsize hax hay u.screen
      rw [Prog.val, Prog.state, hbyte]
      refine hdraw.imp (fun b hdrawn => ⟨hdrawn.1, ?_, hltdc⟩) fun _ => id
      change putPoints u.ltdc (List.drop _ (Screen.points _)) u.dev.mem = _
      rw [hdrawn.2, Screen.withPoints, List.drop_left, hltdc, hmem, fontDots_succ, putPoints_append]
    · rw [byteColumn, Nat.zero_div, Nat.add_zero, Nat.mod_eq_of_lt hx, ite_self]
    · rw [byteRow, Nat.zero_mod, Nat.mul_zero, Nat.add_zero, Nat.mod_eq_of_lt hy, ite_self]
    · cases s.ltdc <;> rfl
  cases hv : run.val s with
  | next a =>
      rw [hv] at hloop
      exact hloop.2.1
  | exit u =>
      rw [hv] at hloop
      exact absurd hloop id

/-- The dots of a character. -/
def charDots (nor : Nor) (qh ql size mode color x y : ℕ) : List Point :=
  fontDots D size mode color x y (fun t => (dotByte P ft nor qh ql size t).toNat) (csize size)

/-- What a supported character leaves in memory: its bytes from the last free block on, and then
its dots on an RGB panel, or nothing if there is no free block. -/
theorem mem_textShowFont {size : ℕ} (hsize : Supported size) {x y : ℕ} (hx : x < 2 ^ 16)
    (hy : y < 2 ^ 16) (qh ql mode color : ℕ) {s : Panel} (hb : OnBoard L s.ltdc) :
    let d' := ((textShowFont L P ft D x y (pure (qh, ql)) size mode color).state s).dev
    (∃ o m, LastFree s.dev o ∧
      (∀ t < csize size, m ((L.membase .sramin + o * 64 + t) % 2 ^ 32) =
        (dotByte P ft s.nor qh ql size t).toNat) ∧
      (∀ a, (∀ t < csize size, a ≠ (L.membase .sramin + o * 64 + t) % 2 ^ 32) →
        m a = s.dev.mem a) ∧
      d'.mem = putPoints s.ltdc (charDots P ft D s.nor qh ql size mode color x y) m) ∨
    (∀ o, ¬ LastFree s.dev o) ∧ d'.mem = s.dev.mem := by
  intro d'
  have hbase := L.membase_pos .sramin
  have hsram := hb.sram
  have hmemsize : memsize .sramin = 51200 := rfl
  have hone : nmemb .sramin size = 1 := by
    rcases hsize with rfl | rfl | rfl | rfl <;> decide
  have hcsize : csize size < 256 := Nat.mod_lt _ (by decide)
  rcases mymalloc_block L hone s.dev with ⟨o, ho, hval, hmem⟩ | ⟨hnone, hval, hmem⟩
  · have hlt : o + 1 ≤ 800 := ho.1.1
    have hfont (s : Panel) : (pure (qh, ql) : Prog Panel (ℕ × ℕ)).state s =
        { s with reads := s.reads ++ [] } := by
      rw [List.append_nil]
      rfl
    obtain ⟨t, hstate⟩ :=
      state_textShowFont L P ft D x y hsize hfont mode color hval (by omega)
    set u := s.loaded L P ft (L.membase .sramin + o * 64) x y size
      ((pure (qh, ql) : Prog Panel (ℕ × ℕ)).val t) [] with hu
    obtain ⟨hwritten, hkept⟩ := store_spec (L.membase .sramin + o * 64)
      (dotByte P ft s.nor qh ql size) (n := csize size) (by omega)
      ((mymalloc L .sramin size).state s.dev)
    refine Or.inl ⟨o, u.dev.mem, ho, hwritten, fun a ha => (hkept a ha).trans (congrFun hmem a), ?_⟩
    have hlow : L.membase .sramin + o * 64 + csize size ≤ 0xB0000000 := by omega
    have hdrawn := mem_fontBytes D mode color hsize.le.1 hx hy (s := u) hb.panel hlow hwritten
    change ((textShowFont L P ft D x y (pure (qh, ql)) size mode color).state s).dev.mem = _
    rw [hstate, charDots]
    exact (keepsMem_myfree L _ _).trans hdrawn
  · refine Or.inr ⟨hnone, ?_⟩
    change ((textShowFont L P ft D x y (pure (qh, ql)) size mode color).state s).dev.mem = _
    rw [textShowFont, if_neg (not_not.mpr hsize)]
    simp only [Prog.state_bind, val_onDev, state_onDev, hval, if_true, Prog.state_pure]
    exact hmem

/-! ## The heap of others -/

/-- No byte of a live allocation has changed, and none outside the pool but for the frame
buffer. -/
structure LeavesHeap (ltdc : Option Ltdc) (d d' : Dev) (live : Live) : Prop where
  others : ∀ memx, ∀ g ∈ live memx, ∀ j < (g.run L memx).count * memblksize memx,
    d'.mem (g.ptr + j) = d.mem (g.ptr + j)
  outside : ∀ a, a < L.membase .sramin ∨ L.membase .sramin + memsize .sramin ≤ a →
    (∀ P ∈ ltdc, ¬ InFrame P a) → d'.mem a = d.mem a

/-- The dots that do not fit in the block are what the memory behind it holds already.  With
`12` and `16` rows all of them fit. -/
def DotsFit (s : Panel) (qh ql size : ℕ) : Prop :=
  ∀ o, LastFree s.dev o → ∀ t, 64 ≤ t → t < csize size →
    (dotByte P ft s.nor qh ql size t).toNat =
      s.dev.mem ((L.membase .sramin + o * 64 + t) % 2 ^ 32)

/-- If a character is drawn on an RGB panel, each of its dots lies on the layer, or is what the
memory at its address holds already. -/
def PixelsFit (s : Panel) (qh ql size mode color x y : ℕ) : Prop :=
  (∃ o, LastFree s.dev o) → ∀ R ∈ s.ltdc, ∀ p ∈ charDots P ft D s.nor qh ql size mode color x y,
    OnLayer R p.x p.y ∨ R.putPoint s.dev.mem p = s.dev.mem

section Heap
variable {L : Layout} {d : Dev} {live : Live} {o : ℕ}

theorem inv_readied (h : Inv L.toLink d live) : Inv L.toLink (d.readied .sramin) live := by
  by_cases hr : d.memrdy .sramin = true
  · rwa [Dev.readied, if_pos hr]
  · rw [Dev.readied, if_neg hr]
    exact h.init_unready (by simpa using hr)

/-- The block behind the last free one is in use, or behind the pool. -/
theorem LastFree.next_used (ho : LastFree d o) (h : Inv L.toLink d live) :
    o + 1 = 800 ∨ ∃ g ∈ live .sramin, o + 1 ∈ (g.run L.toLink .sramin).cells := by
  have hlt : o + 1 ≤ 800 := ho.1.1
  by_cases hlast : o + 1 = 800
  · exact Or.inl hlast
  · refine Or.inr ?_
    have halloc := ((inv_readied h).tracks .sramin (readied_memrdy d .sramin)).allocated
    by_contra hno
    push Not at hno
    refine ho.2 (o + 1) (Nat.lt_succ_self o) ⟨?_, fun j hj hj' => ?_⟩
    · change o + 1 + 1 ≤ 800
      omega
    · obtain rfl : j = o + 1 := by omega
      exact halloc.others (o + 1) (by change o + 1 < 800; omega) hno

/-- The block of the dots lies in the pool and apart from every live allocation. -/
theorem LastFree.block_apart (ho : LastFree d o) (h : Inv L.toLink d live) {memx : Memx}
    {g : Grant} (hg : g ∈ live memx) {j : ℕ}
    (hj : j < (g.run L.toLink memx).count * memblksize memx) :
    g.ptr + j < L.membase .sramin + o * 64 ∨ L.membase .sramin + o * 64 + 64 ≤ g.ptr + j := by
  have hin := inv_readied h
  have hlt : o + 1 ≤ 800 := ho.1.1
  have hsize : memsize .sramin = 51200 := rfl
  obtain ⟨hlow, hhigh⟩ := hin.grant_fits hg
  by_cases hm : memx = .sramin
  · subst hm
    have hblk : memblksize .sramin = 64 := rfl
    have htracks := hin.tracks .sramin (hin.ready hg)
    have haligned := htracks.aligned g hg
    rw [hblk] at haligned hj
    rcases htracks.room_apart hg Nat.one_pos ho.1 with hbelow | habove
    · omega
    · omega
  · have hpools := L.apart memx .sramin hm
    omega

/-- An address of the dots that lies behind their block is of a live allocation, or outside the
pool. -/
theorem LastFree.overrun (ho : LastFree d o) (h : Inv L.toLink d live) {t : ℕ} (ht : 64 ≤ t)
    (ht' : t < 128) :
    (∃ g ∈ live .sramin, ∃ j < (g.run L.toLink .sramin).count * memblksize .sramin,
      (L.membase .sramin + o * 64 + t) % 2 ^ 32 = g.ptr + j) ∨
    (L.membase .sramin + o * 64 + t) % 2 ^ 32 < L.membase .sramin ∨
      L.membase .sramin + memsize .sramin ≤ (L.membase .sramin + o * 64 + t) % 2 ^ 32 := by
  have hpool := L.membase_fits .sramin
  have hsize : memsize .sramin = 51200 := rfl
  rcases ho.next_used h with hlast | ⟨g, hg, hcell⟩
  · exact Or.inr (by omega)
  · refine Or.inl ⟨g, hg, ?_⟩
    have hin := inv_readied h
    have htracks := hin.tracks .sramin (hin.ready hg)
    have haligned := htracks.aligned g hg
    have hinside := (htracks.allocated.inside g hg).2
    have htbl : memtblsize .sramin = 800 := rfl
    have hblk : memblksize .sramin = 64 := rfl
    have hrun := Run.mem_cells.mp hcell
    have hbelow := htracks.room_apart hg Nat.one_pos ho.1
    rw [hblk] at haligned ⊢
    -- the allocation begins in the next block
    refine ⟨t - 64, by omega, ?_⟩
    rw [Nat.mod_eq_of_lt (by omega)]
    omega

end Heap

section Character
variable {L : Layout} {P : Part} {ft : FontInfo} {D : Lcddev} {s : Panel} {live : Live}
  {size x y qh ql mode color : ℕ}

/-- What leaves the heap of others alone has no dots that do not fit. -/
theorem LeavesHeap.dotsFit (hsize : Supported size) (hx : x < 2 ^ 16) (hy : y < 2 ^ 16)
    (hb : OnBoard L.toLink s.ltdc) (h : Inv L.toLink s.dev live)
    (hleaves : LeavesHeap L.toLink s.ltdc s.dev
      ((textShowFont L.toLink P ft D x y (pure (qh, ql)) size mode color).state s).dev live) :
    DotsFit L.toLink P ft s qh ql size := by
  intro o ho t ht ht'
  have hcsize : csize size ≤ 128 := by
    rcases hsize with rfl | rfl | rfl | rfl <;> decide
  have hsram := hb.sram
  have hmemsize : memsize .sramin = 51200 := rfl
  have hlt : o + 1 ≤ 800 := ho.1.1
  rcases mem_textShowFont L.toLink P ft D hsize hx hy qh ql mode color hb with
    ⟨o', m, ho', hwritten, -, hmem⟩ | ⟨hnone, -⟩
  · obtain rfl := ho.unique ho'
    have hfinal := congrFun hmem ((L.membase .sramin + o * 64 + t) % 2 ^ 32)
    rw [putPoints_of_lt hb.panel _ _ (by omega), hwritten t ht'] at hfinal
    rw [← hfinal]
    rcases ho.overrun h ht (by omega) with ⟨g, hg, j, hj, haddr⟩ | houtside
    · rw [haddr]
      exact hleaves.others .sramin g hg j hj
    · refine hleaves.outside _ houtside fun R hR hframe => ?_
      have hlow := (hb.panel R hR).framebuf
      have := hframe.1
      omega
  · exact absurd ho (hnone o)

/-- Nor has it dots off the panel that the memory does not hold. -/
theorem LeavesHeap.pixelsFit (hsize : Supported size) (hx : x < 2 ^ 16) (hy : y < 2 ^ 16)
    (hb : OnBoard L.toLink s.ltdc)
    (hleaves : LeavesHeap L.toLink s.ltdc s.dev
      ((textShowFont L.toLink P ft D x y (pure (qh, ql)) size mode color).state s).dev live) :
    PixelsFit P ft D s qh ql size mode color x y := by
  rintro ⟨o, ho⟩ R hR p hp
  by_contra hnot
  push Not at hnot
  obtain ⟨hoff, hother⟩ := hnot
  have hRb := hb.panel R hR
  have hsram := hb.sram
  have hmemsize : memsize .sramin = 51200 := rfl
  obtain ⟨hpx, hpy⟩ := fontDots_lt hx hp
  obtain ⟨hlow, hlast, heven⟩ := hRb.pointAddr_bounds hpx hpy
  obtain ⟨haddr, haddr'⟩ := hRb.store_addr hpx hpy
  rcases mem_textShowFont L.toLink P ft D hsize hx hy qh ql mode color hb with
    ⟨o', m, -, -, -, hmem⟩ | ⟨hnone, -⟩
  · have hsame : ∀ a, a = R.pointAddr p.x p.y ∨ a = R.pointAddr p.x p.y + 1 →
        putPoints s.ltdc (charDots P ft D s.nor qh ql size mode color x y) m a = s.dev.mem a := by
      intro a ha
      rw [← hmem]
      refine hleaves.outside a (Or.inr (by omega)) fun R' hR' hframe => ?_
      obtain rfl : R' = R := Option.mem_unique hR' hR
      exact hoff ((hRb.inFrame_iff hpx hpy ha).mp hframe)
    rw [Option.mem_def.mp hR] at hsame
    have heven' : ∀ q ∈ charDots P ft D s.nor qh ql size mode color x y,
        (R.store q).addr % 2 = 0 := fun q hq => by
      obtain ⟨hqx, hqy⟩ := fontDots_lt hx hq
      rw [(hRb.store_addr hqx hqy).1]
      exact (hRb.pointAddr_bounds hqx hqy).2.2
    obtain ⟨hfirst, hsecond⟩ := foldl_putPoint_mem m heven' hp fun q hq heq => by
      obtain ⟨hqx, hqy⟩ := fontDots_lt hx hq
      rw [(hRb.store_addr hqx hqy).1, haddr] at heq
      exact fontDots_unique hRb hsize hx (Nat.mod_le _ _) hq hp heq
    have hself : (R.store p).put s.dev.mem = s.dev.mem := by
      refine Store.put_eq_self ?_ ?_
      · rw [← hfirst, haddr]
        exact (hsame _ (.inl rfl)).symm
      · rw [← hsecond, haddr']
        exact (hsame _ (.inr rfl)).symm
    exact hother hself
  · exact hnone o ho

/-- Dots that fit change no byte of a live allocation or outside the pool and the frame buffer. -/
theorem PixelsFit.kept (hx : x < 2 ^ 16) (hb : OnBoard L.toLink s.ltdc) {o : ℕ}
    (ho : LastFree s.dev o) (hfit : PixelsFit P ft D s qh ql size mode color x y) {m : ℕ → ℕ}
    (hm : ∀ a, 0xB0000000 ≤ a → m a = s.dev.mem a) {a : ℕ} (ha : ∀ R ∈ s.ltdc, ¬ InFrame R a) :
    putPoints s.ltdc (charDots P ft D s.nor qh ql size mode color x y) m a = m a := by
  cases hltdc : s.ltdc with
  | none => rfl
  | some R =>
      have hR : R ∈ s.ltdc := hltdc
      have hRb := hb.panel R hR
      refine foldl_putPoint_out (fun a => ¬ InFrame R a) (fun p hp => ?_) (ha R hR)
      obtain ⟨hpx, hpy⟩ := fontDots_lt hx hp
      obtain ⟨hlow, -, -⟩ := hRb.pointAddr_bounds hpx hpy
      obtain ⟨haddr, haddr'⟩ := hRb.store_addr hpx hpy
      rcases hfit ⟨o, ho⟩ R hR p hp with hon | hself
      · rw [haddr', haddr, not_not, not_not]
        exact Or.inr ⟨(hRb.inFrame_iff hpx hpy (.inl rfl)).mpr hon,
          (hRb.inFrame_iff hpx hpy (.inr rfl)).mpr hon⟩
      · obtain ⟨hfirst, hsecond⟩ := Store.put_self s.dev.mem
          (show ((R.store p).addr + 1) % 2 ^ 32 ≠ (R.store p).addr by omega)
        rw [← R.putPoint_eq, hself] at hfirst hsecond
        have hsame : (R.store p).put m = m :=
          Store.put_eq_self (by rw [hm _ (by omega), hfirst]) (by rw [hm _ (by omega), hsecond])
        exact Or.inl hsame

/-- No live allocation has a byte in the frame buffer. -/
theorem OnBoard.grant_not_inFrame (hb : OnBoard L.toLink s.ltdc) (h : Inv L.toLink s.dev live)
    {memx : Memx} {g : Grant} (hg : g ∈ live memx) {j : ℕ}
    (hj : j < (g.run L.toLink memx).count * memblksize memx) {R : Ltdc} (hR : R ∈ s.ltdc) :
    ¬ InFrame R (g.ptr + j) := by
  rintro ⟨hlow, hhigh⟩
  have hRb := hb.panel R hR
  have hframe := hRb.framebuf
  have hend := hRb.frame_le
  obtain ⟨hfirst, hlast⟩ := h.grant_fits hg
  cases memx with
  | sramin =>
      have hsram := hb.sram
      omega
  | sramccm =>
      have hpool : L.membase .sramccm + memsize .sramccm = 0x10000000 + 60 * 1024 := rfl
      omega
  | sramex =>
      have hpool : L.membase .sramex = 0xC01F4000 := rfl
      omega

/-- A character leaves the heap of others alone exactly if the dots behind the first 64 bytes,
of the sizes `24` and `32`, are what the memory holds already, and so are those that are drawn
off an RGB panel, or no block is free. -/
theorem leavesHeap_iff (h : Reached L.toLink s.dev live) (hb : OnBoard L.toLink s.ltdc)
    (hsize : Supported size) (hx : x < 2 ^ 16) (hy : y < 2 ^ 16) (qh ql mode color : ℕ) :
    LeavesHeap L.toLink s.ltdc s.dev
      ((textShowFont L.toLink P ft D x y (pure (qh, ql)) size mode color).state s).dev live ↔
      DotsFit L.toLink P ft s qh ql size ∧ PixelsFit P ft D s qh ql size mode color x y := by
  have hinv := h.inv
  have hpool := L.membase_fits .sramin
  have hmemsize : memsize .sramin = 51200 := rfl
  have hsram := hb.sram
  constructor
  · exact fun hleaves => ⟨hleaves.dotsFit hsize hx hy hb hinv, hleaves.pixelsFit hsize hx hy hb⟩
  · rintro ⟨hfit, hpixels⟩
    have hfinal := mem_textShowFont L.toLink P ft D hsize hx hy qh ql mode color hb
    set d' := ((textShowFont L.toLink P ft D x y (pure (qh, ql)) size mode color).state s).dev
    rcases hfinal with ⟨o, m, ho, hwritten, hkept, hmem⟩ | ⟨-, hmem⟩
    · have hlt : o + 1 ≤ 800 := ho.1.1
      have hcsize : csize size < 256 := Nat.mod_lt _ (by decide)
      -- only the block of the dots has changed, and the frame buffer
      have hblock : ∀ a, a < L.membase .sramin + o * 64 ∨ L.membase .sramin + o * 64 + 64 ≤ a →
          (∀ R ∈ s.ltdc, ¬ InFrame R a) → d'.mem a = s.dev.mem a := by
        intro a ha hframe
        rw [hmem, hpixels.kept hx hb ho (fun b hlow => hkept b fun t ht => by omega) hframe]
        by_cases hdot : ∃ t < csize size, a = (L.membase .sramin + o * 64 + t) % 2 ^ 32
        · obtain ⟨t, ht, rfl⟩ := hdot
          have ht64 : 64 ≤ t := by
            by_contra hlow
            rw [Nat.mod_eq_of_lt (by omega)] at ha
            omega
          rw [hwritten t ht, hfit o ho t ht64 ht]
        · push Not at hdot
          exact hkept a hdot
      refine ⟨fun memx g hg j hj => hblock _ (ho.block_apart hinv hg hj) fun R hR hframe => ?_,
        fun a ha => hblock a (by omega)⟩
      exact hb.grant_not_inFrame hinv hg hj hR hframe
    · exact ⟨fun _ _ _ _ _ => congrFun hmem _, fun _ _ _ => congrFun hmem _⟩

/-- On the screen all the dots are on the layer. -/
theorem pixelsFit_of_onScreen (hb : OnBoard L.toLink s.ltdc) (hsize : Supported size)
    (hscreen : ∀ R ∈ s.ltdc, x + size ≤ R.width ∧ y + size ≤ R.height) :
    PixelsFit P ft D s qh ql size mode color x y := fun _ R hR _ hp =>
  Or.inl (fontDots_onLayer (hb.panel R hR) hsize (hscreen R hR).1 (hscreen R hR).2 (Nat.mod_le _ _)
    hp)

end Character

/-- A panel of 480 x 272, with one allocation in the pool. -/
def rgbPanel : Panel := { blankPanel with ltdc := some (panel4342 1) }

theorem rgbPanel_onBoard : OnBoard sramLayout.toLink rgbPanel.ltdc where
  sram := by decide
  panel _ hR := by
    obtain rfl := Option.mem_some.mp hR
    exact ⟨rfl, by decide⟩

/-- A character of 16 rows in the middle of the screen. -/
theorem leavesHeap_sixteen :
    LeavesHeap sramLayout.toLink rgbPanel.ltdc rgbPanel.dev
      ((textShowFont sramLayout.toLink part25q256 noFonts ⟨480, 272, 0xFFFF⟩ 100 50
        (pure (0xB0, 0xA1)) 16 0 0xF800).state rgbPanel).dev (oneHeld 100).2 := by
  refine (@leavesHeap_iff sramLayout part25q256 noFonts ⟨480, 272, 0xFFFF⟩ rgbPanel (oneHeld 100).2
    16 100 50 (oneHeld_reached 100) rgbPanel_onBoard (by decide) (by decide) (by decide) 0xB0 0xA1 0
    0xF800).mpr ⟨fun o _ t ht ht' => ?_, ?_⟩
  · exact absurd ht' (by rw [show csize 16 = 32 from rfl]; omega)
  · refine pixelsFit_of_onScreen (L := sramLayout) rgbPanel_onBoard (by decide) fun R hR => ?_
    obtain rfl := Option.mem_some.mp hR
    decide

theorem lastFree_oneHeld : LastFree (oneHeld 100).1 797 := by
  have hrdy : (oneHeld 100).1.memrdy .sramin = true := by
    rw [oneHeld_eq (by decide) (by decide), fill_memrdy, inited_memrdy]
  have hmap : ∀ i < 800, (oneHeld 100).1.memmap .sramin i = if 798 ≤ i then 2 else 0 := by
    intro i hi
    rw [oneHeld_eq (by decide) (by decide), fill_memmap, inited_memmap _ hi]
    exact if_congr (by change 798 ≤ i ∧ i < 800 ∧ i < 800 ↔ _; omega) rfl rfl
  rw [LastFree, Dev.readied, if_pos hrdy]
  refine ⟨⟨by decide, fun j hj hj' => ?_⟩, fun o ho hroom => ?_⟩
  · rw [hmap j (by omega), if_neg (by omega)]
  · have hlt : o < 800 := hroom.1
    have hfree := hroom.2 o le_rfl (Nat.lt_succ_self o)
    rw [hmap o hlt, if_pos (by omega)] at hfree
    cases hfree

/-- A character of 24 rows overwrites the first eight bytes of the allocation behind it. -/
theorem leavesHeap_overrun : ¬ ∀ (L : Layout) (P : Part) (ft : FontInfo) (D : Lcddev) (s : Panel)
    (live : Live) (size x y qh ql mode color : ℕ), Reached L.toLink s.dev live →
    OnBoard L.toLink s.ltdc → Supported size → x < 2 ^ 16 → y < 2 ^ 16 →
    LeavesHeap L.toLink s.ltdc s.dev
      ((textShowFont L.toLink P ft D x y (pure (qh, ql)) size mode color).state s).dev live := by
  intro hall
  have hboard : OnBoard sramLayout.toLink blankPanel.ltdc :=
    ⟨by decide, fun R hR => absurd hR (Option.not_mem_none R)⟩
  have hleaves := hall sramLayout part25q256 noFonts lcd800 blankPanel (oneHeld 100).2 24 0 0
    0xB0 0xA1 0 0 (oneHeld_reached 100) hboard (by decide) (by decide) (by decide)
  have hfit := hleaves.dotsFit (by decide) (by decide) (by decide) hboard
    (Reached.inv (L := sramLink) (oneHeld_reached 100)) 797 lastFree_oneHeld 64 le_rfl (by decide)
  rw [blankPanel, oneHeld_eq (by decide) (by decide)] at hfit
  exact absurd hfit (by decide)

end Apollo.Text
