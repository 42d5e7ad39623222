import Apollo.Malloc.Heap

/-!
# Moving an allocation

`myrealloc` takes new blocks, copies `size` bytes from the old pointer, lowest first, and
frees the old blocks.  What it writes stays in the new blocks, and the bytes that the two
allocations have in common arrive.  What it reads does not stay in the old blocks: it
copies as many bytes as the new allocation has, whatever the old pointer is.

## Main definitions

* `Layout` — the pools where the linker put them, apart from each other.
* `Reached` — the heaps of a program that uses the allocator and writes into memory.
* `myMemCopy_spec` — what a copy moves.
* `myrealloc_preserves` — what a move keeps.
* `Watched`, `watchedRealloc` — `myrealloc` with a record of the addresses it copies from.
* `readsOld_iff` — it copies from the old allocation alone unless that is too short.
-/

namespace Apollo.Malloc
open Lib

/-- The link addresses of pools that do not overlap. -/
structure Layout extends Link where
  apart : ∀ memx memx', memx ≠ memx' →
    toLink.membase memx + memsize memx ≤ toLink.membase memx' ∨
      toLink.membase memx' + memsize memx' ≤ toLink.membase memx

/-- A heap that calls of the allocator have reached, whatever the program has written into the
memory since. -/
def Reached (L : Link) (d : Dev) (live : Live) : Prop :=
  ∃ mem, Reachable L IsStart { d with mem := mem } live

theorem Reached.inv {L : Link} {d : Dev} {live : Live} (h : Reached L d live) : Inv L d live := by
  obtain ⟨mem, hmem⟩ := h
  exact (hmem.inv fun _ _ _ _ hi => hi.releasable_of_isStart).congr rfl

/-! ## Copying -/

/-- A copy moves what its destination does not meet, and writes nowhere else. -/
theorem myMemCopy_spec {des src n m : ℕ} (hdes : des + n ≤ 2 ^ 32) (hsrc : src + m ≤ 2 ^ 32)
    (hm : m ≤ n) (hapart : src + m ≤ des ∨ des + n ≤ src) (d : Dev) :
    (∀ j < m, ((myMemCopy des src n).state d).mem (des + j) = d.mem (src + j)) ∧
      ∀ a, a < des ∨ des + n ≤ a → ((myMemCopy des src n).state d).mem a = d.mem a := by
  have hloop : (∀ j, j < n → j < m →
      ((myMemCopy des src n).state d).mem (des + j) = d.mem (src + j)) ∧
      ∀ a, a < des ∨ des + n ≤ a → ((myMemCopy des src n).state d).mem a = d.mem a := by
    refine Prog.forUp_inv (n := n)
      (I := fun i _ (t : Dev) => (∀ j, j < i → j < m → t.mem (des + j) = d.mem (src + j)) ∧
        ∀ a, a < des ∨ des + i ≤ a → t.mem a = d.mem a)
      (fun i hi _ t ht => ?_) (Nat.zero_add n) ⟨fun j hj => absurd hj (Nat.not_lt_zero j),
        fun _ _ => rfl⟩
    obtain ⟨hmoved, hkept⟩ := ht
    have hmod : (des + i) % 2 ^ 32 = des + i := Nat.mod_eq_of_lt (by omega)
    simp only [Prog.state_modify, hmod]
    refine ⟨fun j hj hjm => ?_, fun a ha => ?_⟩
    · by_cases hlast : j = i
      · -- the source has not been written on yet
        rw [hlast, Function.update_self, Nat.mod_eq_of_lt (by omega), hkept _ (by omega)]
      · rw [Function.update_of_ne (by omega)]
        exact hmoved j (by omega) hjm
    · rw [Function.update_of_ne (by omega)]
      exact hkept a (by omega)
  exact ⟨fun j hj => hloop.1 j (by omega) hj, hloop.2⟩

/-! ## What a move does -/

section Move
variable {L : Link} {memx : Memx} {d : Dev} {live : Live} {g : Grant}

/-- Free blocks lie beside an allocation. -/
theorem Tracks.room_apart {now : Finset Grant} (h : Tracks L memx d now) (hg : g ∈ now) {n o : ℕ}
    (hn : 0 < n) (hroom : Room d memx n o) :
    o + n ≤ (g.run L memx).first ∨ (g.run L memx).first + (g.run L memx).count ≤ o := by
  obtain ⟨hpos, -⟩ := h.allocated.inside g hg
  by_contra hmeet
  rw [not_or] at hmeet
  have hcell : max o (g.run L memx).first ∈ (g.run L memx).cells := by
    rw [Run.mem_cells]
    omega
  have hcount := h.allocated.entries g hg _ hcell
  rw [hroom.2 _ (by omega) (by omega)] at hcount
  omega

/-- Two allocations of a pool lie beside each other. -/
theorem Allocated.apart {now : Finset Grant} (h : Allocated L memx d now) {g' : Grant}
    (hg : g ∈ now) (hg' : g' ∈ now) (hne : g' ≠ g) {i : ℕ} (hi : i ∈ (g'.run L memx).cells) :
    i ∉ (g.run L memx).cells := by
  have hdis : Disjoint (g'.run L memx).cells (g.run L memx).cells := h.disjoint hg' hg hne
  exact Finset.disjoint_left.mp hdis hi

/-- A move of a live allocation fails, with nothing changed, or takes free blocks, copies, and
clears the old entries. -/
theorem Inv.realloc_cases (h : Inv L d live) (hg : g ∈ live memx) (size : ℕ) :
    myrealloc L memx g.ptr size d = (0, d) ∨
      ∃ o, 0 < size ∧ Room d memx (nmemb memx size) o ∧
        (myrealloc L memx g.ptr size).val d = L.membase memx + o * memblksize memx ∧
        (myrealloc L memx g.ptr size).state d =
          ((myMemCopy (L.membase memx + o * memblksize memx) g.ptr size).state
            (d.fill memx o (nmemb memx size) (nmemb memx size))).fill memx
              (g.run L memx).first (g.run L memx).count 0 := by
  have hr := h.ready hg
  rcases Nat.eq_zero_or_pos size with rfl | hsize
  · refine Or.inl ?_
    rw [myrealloc, Prog.bind_apply, Prog.val, Prog.state, myMemMalloc_zero hr]
    rfl
  rcases myMemMalloc_cases hr hsize with ⟨o, hroom, -, hrun⟩ | ⟨-, hrun⟩
  · refine Or.inr ⟨o, hsize, hroom, ?_⟩
    have htracks := h.tracks memx hr
    obtain ⟨hpos, hin⟩ := htracks.allocated.inside g hg
    have hbase := L.membase_pos memx
    have haligned := htracks.aligned g hg
    have hoff := h.offset_start hg
    have hlt : o * memblksize memx < memsize memx := by
      rw [← memtblsize_mul]
      exact Nat.mul_lt_mul_of_pos_right (by have := nmemb_pos memx hsize; have := hroom.1; omega)
        (memblksize_pos memx)
    have hne : o * memblksize memx ≠ 0xFFFFFFFF := by
      have := memsize_lt memx
      omega
    have hval : (myMemMalloc memx size).val d = o * memblksize memx := congrArg Prod.fst hrun
    have hstate : (myMemMalloc memx size).state d =
        d.fill memx o (nmemb memx size) (nmemb memx size) := congrArg Prod.snd hrun
    simp only [myrealloc, Prog.val_bind, Prog.state_bind, hval, hstate, hne, if_false,
      Prog.val_pure, Prog.state_pure, true_and]
    set d₁ := (myMemCopy (L.membase memx + o * memblksize memx) g.ptr size).state
      (d.fill memx o (nmemb memx size) (nmemb memx size)) with hd₁
    obtain ⟨hmap, hrdy, -⟩ := by
      simpa only [Prod.mk.injEq] using keeps_myMemCopy (L.membase memx + o * memblksize memx) g.ptr
        size (d.fill memx o (nmemb memx size) (nmemb memx size))
    have hr₁ : d₁.memrdy memx = true := by
      rw [hd₁, hrdy, fill_memrdy, hr]
    -- the first entry of the old blocks is not one of those that have been taken
    have hentry : d₁.memmap memx (g.run L memx).first = (g.run L memx).count := by
      have hfirst := Run.first_mem_cells hpos
      have hcount := htracks.entry_first hg hfirst
      have hapart := htracks.room_apart hg (nmemb_pos memx hsize) hroom
      rw [hd₁, hmap, fill_memmap, if_neg (by omega), hcount]
    have hstart : (g.run L memx).first * memblksize memx < memsize memx := by
      rw [← memtblsize_mul]
      exact Nat.mul_lt_mul_of_pos_right (by omega) (memblksize_pos memx)
    rw [myfree, if_neg (by omega)]
    simp only [Prog.state_bind, Prog.state_pure, hoff]
    rw [state_myMemFree hr₁ hstart, Nat.mul_div_cancel _ (memblksize_pos memx), hentry]
  · refine Or.inl ?_
    rw [myrealloc, Prog.bind_apply, Prog.val, Prog.state, hrun]
    rfl

end Move

/-- The bytes and the map entries of an allocation are what they were. -/
structure Kept (L : Link) (memx : Memx) (d d' : Dev) (g : Grant) : Prop where
  bytes : ∀ j < (g.run L memx).count * memblksize memx, d'.mem (g.ptr + j) = d.mem (g.ptr + j)
  entries : ∀ i ∈ (g.run L memx).cells, d'.memmap memx i = d.memmap memx i

/-- The bytes of blocks of a pool. -/
theorem blocks_fit (memx : Memx) {first count : ℕ} (h : first + count ≤ memtblsize memx) :
    first * memblksize memx + count * memblksize memx ≤ memsize memx := by
  rw [← Nat.add_mul, ← memtblsize_mul]
  exact Nat.mul_le_mul_right _ h

/-- Blocks that lie beside each other have bytes that do. -/
theorem blocks_apart (memx : Memx) {first count first' : ℕ} (h : first + count ≤ first') :
    first * memblksize memx + count * memblksize memx ≤ first' * memblksize memx := by
  rw [← Nat.add_mul]
  exact Nat.mul_le_mul_right _ h

/-- The map after a move: the entries of the old blocks are clear, those of the new ones set. -/
theorem memmap_moved (des src n : ℕ) {memx : Memx} {o k : ℕ} {r : Run} {d : Dev} {memx' : Memx}
    {i : ℕ} (hi : i < memtblsize memx') :
    (((myMemCopy des src n).state (d.fill memx o k k)).fill memx r.first r.count 0).memmap memx' i =
      if memx' = memx ∧ i ∈ r.cells then 0
      else if memx' = memx ∧ o ≤ i ∧ i < o + k then k else d.memmap memx' i := by
  obtain ⟨hcopy, -, -⟩ := by
    simpa only [Prod.mk.injEq] using keeps_myMemCopy des src n (d.fill memx o k k)
  by_cases hm : memx' = memx
  · subst hm
    rw [fill_memmap, hcopy, fill_memmap]
    simp only [Run.mem_cells, true_and, hi, and_true]
  · rw [fill_memmap_ne _ _ _ _ hm, hcopy, fill_memmap_ne _ _ _ _ hm,
      if_neg fun hc => hm hc.1, if_neg fun hc => hm hc.1]

section Preserves
variable {L : Layout} {d : Dev} {live : Live}

/-- The bytes that are moved are not among those that have been taken. -/
theorem Inv.bytes_apart (h : Inv L.toLink d live) {memx : Memx} {g : Grant}
    (hg : g ∈ live memx) {size o : ℕ} (hsize : 0 < size)
    (hroom : Room d memx (nmemb memx size) o) :
    g.ptr + min ((g.run L.toLink memx).count * memblksize memx) size ≤
        L.membase memx + o * memblksize memx ∨
      L.membase memx + o * memblksize memx + size ≤ g.ptr := by
  have htracks := h.tracks memx (h.ready hg)
  have haligned := htracks.aligned g hg
  have hcovers := le_nmemb_mul memx size
  rcases htracks.room_apart hg (nmemb_pos memx hsize) hroom with hbelow | habove
  · have hbytes := blocks_apart memx hbelow
    omega
  · have hbytes := blocks_apart memx habove
    omega

/-- What is written into free blocks of one pool, and a clearing of the entries of one
allocation, leave every other allocation as it was. -/
theorem Inv.kept_of_moved (h : Inv L.toLink d live) {memx : Memx} {g : Grant}
    (hg : g ∈ live memx) {size o : ℕ} (hsize : 0 < size)
    (hroom : Room d memx (nmemb memx size) o) {d' : Dev}
    (hmem : ∀ a, a < L.membase memx + o * memblksize memx ∨
      L.membase memx + o * memblksize memx + size ≤ a → d'.mem a = d.mem a)
    (hmap : ∀ memx' i, i < memtblsize memx' → d'.memmap memx' i =
      if memx' = memx ∧ i ∈ (g.run L.toLink memx).cells then 0
      else if memx' = memx ∧ o ≤ i ∧ i < o + nmemb memx size then nmemb memx size
      else d.memmap memx' i)
    {memx' : Memx} {g' : Grant} (hg' : g' ∈ live memx') (hne : memx' = memx → g' ≠ g) :
    Kept L.toLink memx' d d' g' := by
  have halloc' := (h.tracks memx' (h.ready hg')).allocated
  obtain ⟨-, hin'⟩ := halloc'.inside g' hg'
  have hfit' := blocks_fit memx' hin'
  have halign' := halloc'.aligned g' hg'
  have hcovers := le_nmemb_mul memx size
  have hfit := blocks_fit memx hroom.1
  refine ⟨fun j hj => hmem _ ?_, fun i hi => ?_⟩
  · by_cases hm : memx' = memx
    · subst hm
      have hapart := (h.tracks memx' (h.ready hg')).room_apart hg' (nmemb_pos memx' hsize) hroom
      rcases hapart with hbelow | habove
      · have hbytes := blocks_apart memx' hbelow
        omega
      · have hbytes := blocks_apart memx' habove
        omega
    · have hpools := L.apart memx' memx hm
      omega
  · have hlt := (Run.mem_cells.mp hi).2
    rw [hmap memx' i (by omega)]
    by_cases hm : memx' = memx
    · subst hm
      have hold : i ∉ (g.run L.toLink memx').cells := halloc'.apart hg hg' (hne rfl) hi
      have hnew : ¬ (o ≤ i ∧ i < o + nmemb memx' size) := by
        rintro ⟨h₁, h₂⟩
        have hcount := halloc'.entries g' hg' i hi
        rw [hroom.2 i h₁ h₂] at hcount
        have hrun := Run.mem_cells.mp hi
        omega
      rw [if_neg fun hc => hold hc.2, if_neg fun hc => hnew hc.2]
    · rw [if_neg fun hc => hm hc.1, if_neg fun hc => hm hc.1]

/-- In every heap that is reached `myrealloc` of a live allocation moves the bytes that the old
and the new allocation have in common, frees the old blocks and keeps every other allocation;
or it fails, and then nothing has changed. -/
theorem myrealloc_preserves (h : Reached L.toLink d live) {memx : Memx} {g : Grant}
    (hg : g ∈ live memx) (size : ℕ) :
    let r := (myrealloc L.toLink memx g.ptr size).val d
    let d' := (myrealloc L.toLink memx g.ptr size).state d
    (r ≠ 0 →
      (∀ j < min ((g.run L.toLink memx).count * memblksize memx) size,
        d'.mem (r + j) = d.mem (g.ptr + j)) ∧
      (∀ i ∈ (g.run L.toLink memx).cells, d'.memmap memx i = 0) ∧
      ∀ memx', ∀ g' ∈ live memx', (memx' = memx → g' ≠ g) → Kept L.toLink memx' d d' g') ∧
      (r = 0 ∨ size = 0 → d' = d) := by
  intro r d'
  have hinv := h.inv
  have htracks := hinv.tracks memx (hinv.ready hg)
  obtain ⟨hpos, hin⟩ := htracks.allocated.inside g hg
  have hbase := L.membase_pos memx
  rcases hinv.realloc_cases hg size with hfail | ⟨o, hsize, hroom, hval, hstate⟩
  · have hr : r = 0 := congrArg Prod.fst hfail
    exact ⟨fun hne => absurd hr hne, fun _ => congrArg Prod.snd hfail⟩
  · refine ⟨fun _ => ?_, fun hfail => ?_⟩
    · have hcovers := le_nmemb_mul memx size
      have hfit := blocks_fit memx hroom.1
      have hfitOld := blocks_fit memx hin
      have hpool := L.membase_fits memx
      have haligned := htracks.aligned g hg
      have hr : r = L.membase memx + o * memblksize memx := hval
      obtain ⟨hmoved, hkept⟩ := myMemCopy_spec (n := size)
        (m := min ((g.run L.toLink memx).count * memblksize memx) size) (by omega) (by omega)
        (Nat.min_le_right _ _) (hinv.bytes_apart hg hsize hroom)
        (d.fill memx o (nmemb memx size) (nmemb memx size))
      have hd' : d' = _ := hstate
      have hmap : ∀ memx' i, i < memtblsize memx' → d'.memmap memx' i =
          if memx' = memx ∧ i ∈ (g.run L.toLink memx).cells then 0
          else if memx' = memx ∧ o ≤ i ∧ i < o + nmemb memx size then nmemb memx size
          else d.memmap memx' i := fun memx' i hi => by rw [hd', memmap_moved _ _ _ hi]
      refine ⟨fun j hj => ?_, fun i hi => ?_, fun memx' g' hg' hne => ?_⟩
      · rw [hr, hd', fill_mem, hmoved j hj, fill_mem]
      · have hlt := (Run.mem_cells.mp hi).2
        rw [hmap memx i (by omega), if_pos ⟨rfl, hi⟩]
      · refine hinv.kept_of_moved hg hsize hroom (fun a ha => ?_) hmap hg' hne
        rw [hd', fill_mem, hkept a ha, fill_mem]
    · have hr : r = L.membase memx + o * memblksize memx := hval
      omega

end Preserves

/-- The internal pool at the start of the SRAM. -/
def sramLayout : Layout where
  toLink := sramLink
  apart memx memx' hne := by
    cases memx <;> cases memx' <;> first | exact absurd rfl hne | decide

/-- The allocation of `size` bytes at the end of the internal pool. -/
def heldGrant (size : ℕ) : Grant := ⟨0x20000000 + (800 - nmemb .sramin size) * 64, size⟩

theorem heldGrant_mem {size : ℕ} (hsize : 0 < size) (hn : nmemb .sramin size ≤ 800) :
    heldGrant size ∈ (oneHeld size).2 .sramin := by
  rw [oneHeld_eq hsize hn]
  exact Finset.mem_singleton_self _

theorem oneHeld_reached (size : ℕ) : Reached sramLink (oneHeld size).1 (oneHeld size).2 :=
  ⟨(oneHeld size).1.mem, oneHeld_reachable IsStart size⟩

theorem myrealloc_preserves_first :
    let r := (myrealloc sramLayout.toLink .sramin (heldGrant 100).ptr 200).val (oneHeld 100).1
    let d' :=
      (myrealloc sramLayout.toLink .sramin (heldGrant 100).ptr 200).state (oneHeld 100).1
    (r ≠ 0 →
      (∀ j < min (((heldGrant 100).run sramLayout.toLink .sramin).count * memblksize .sramin)
          200,
        d'.mem (r + j) = (oneHeld 100).1.mem ((heldGrant 100).ptr + j)) ∧
      (∀ i ∈ ((heldGrant 100).run sramLayout.toLink .sramin).cells, d'.memmap .sramin i = 0) ∧
      ∀ memx', ∀ g' ∈ (oneHeld 100).2 memx', (memx' = .sramin → g' ≠ heldGrant 100) →
        Kept sramLayout.toLink memx' (oneHeld 100).1 d' g') ∧
      (r = 0 ∨ 200 = 0 → d' = (oneHeld 100).1) :=
  @myrealloc_preserves sramLayout (oneHeld 100).1 (oneHeld 100).2 (oneHeld_reached 100) .sramin
    (heldGrant 100) (heldGrant_mem (by decide) (by decide)) 200

/-! ## What a move reads -/

/-- The device, and the addresses that a copy has read from. -/
structure Watched where
  dev : Dev
  read : List ℕ

/-- A program that copies nothing. -/
def unwatched {α : Type} (p : Prog Dev α) : Prog Watched α :=
  fun w => (p.val w.dev, { w with dev := p.state w.dev })

/-- `my_mem_copy` with a record of what it reads. -/
def watchedCopy (des src n : ℕ) : Prog Watched Unit :=
  Prog.forUp (fun i _ => Prog.modify fun w =>
    { dev := { w.dev with
        mem := Function.update w.dev.mem ((des + i) % 2 ^ 32) (w.dev.mem ((src + i) % 2 ^ 32)) }
      read := w.read ++ [(src + i) % 2 ^ 32] }) n 0 ()

/-- `myrealloc` with a record of what it copies from. -/
def watchedRealloc (L : Link) (memx : Memx) (ptr size : ℕ) : Prog Watched ℕ := do
  let offset ← unwatched (myMemMalloc memx size)
  if offset = 0xFFFFFFFF then pure 0
  else do
    watchedCopy (L.membase memx + offset) ptr size
    unwatched (myfree L memx ptr)
    pure (L.membase memx + offset)

/-- The addresses that `myrealloc` copies from. -/
def copiedFrom (L : Link) (memx : Memx) (ptr size : ℕ) (d : Dev) : List ℕ :=
  ((watchedRealloc L memx ptr size).state ⟨d, []⟩).read

section Watched
variable {w : Watched}

@[simp] theorem val_unwatched {α : Type} (p : Prog Dev α) :
    (unwatched p).val w = p.val w.dev := rfl
@[simp] theorem state_unwatched {α : Type} (p : Prog Dev α) :
    (unwatched p).state w = { w with dev := p.state w.dev } := rfl

/-- The record leaves the copy as it is, and has one address for each byte. -/
theorem state_watchedCopy (des src n : ℕ) : (watchedCopy des src n).state w =
    { dev := (myMemCopy des src n).state w.dev
      read := w.read ++ (List.range n).map fun i => (src + i) % 2 ^ 32 } := by
  have hstep : ∀ k i (u : Watched), (Prog.forUp (fun i (_ : Unit) => Prog.modify fun w : Watched =>
      { dev := { w.dev with
          mem := Function.update w.dev.mem ((des + i) % 2 ^ 32) (w.dev.mem ((src + i) % 2 ^ 32)) }
        read := w.read ++ [(src + i) % 2 ^ 32] }) k i ()).state u =
      { dev := (Prog.forUp (fun i (_ : Unit) => Prog.modify fun d : Dev =>
          { d with
            mem := Function.update d.mem ((des + i) % 2 ^ 32) (d.mem ((src + i) % 2 ^ 32)) })
          k i ()).state u.dev
        read := u.read ++ (List.range' i k).map fun i => (src + i) % 2 ^ 32 } := by
    intro k
    induction k with
    | zero =>
        intro i u
        simp [Prog.forUp]
    | succ k ih =>
        intro i u
        simp only [Prog.forUp, Prog.state_bind, Prog.state_modify, ih, List.range'_succ,
          List.map_cons, List.append_assoc, List.singleton_append]
  rw [watchedCopy, hstep, List.range_eq_range']
  rfl

/-- The record changes nothing else. -/
theorem watchedRealloc_dev (L : Link) (memx : Memx) (ptr size : ℕ) :
    (watchedRealloc L memx ptr size).val w = (myrealloc L memx ptr size).val w.dev ∧
      ((watchedRealloc L memx ptr size).state w).dev =
        (myrealloc L memx ptr size).state w.dev := by
  by_cases hoff : (myMemMalloc memx size).val w.dev = 0xFFFFFFFF
  · have hwatched : (unwatched (myMemMalloc memx size)).val w = 0xFFFFFFFF := hoff
    simp only [watchedRealloc, myrealloc, Prog.val_bind, Prog.state_bind, hwatched, hoff, if_true,
      Prog.val_pure, Prog.state_pure, state_unwatched, true_and]
  · have hwatched : ¬ (unwatched (myMemMalloc memx size)).val w = 0xFFFFFFFF := hoff
    simp only [watchedRealloc, myrealloc, Prog.val_bind, Prog.state_bind, hoff, if_false,
      Prog.val_pure, Prog.state_pure, state_unwatched, state_watchedCopy, val_unwatched, true_and]

theorem copiedFrom_eq (L : Link) (memx : Memx) (ptr size : ℕ) (d : Dev) :
    copiedFrom L memx ptr size d =
      if (myMemMalloc memx size).val d = 0xFFFFFFFF then []
      else (List.range size).map fun i => (ptr + i) % 2 ^ 32 := by
  split
  · rename_i hoff
    have hwatched : (unwatched (myMemMalloc memx size)).val ⟨d, []⟩ = 0xFFFFFFFF := hoff
    simp only [copiedFrom, watchedRealloc, Prog.state_bind, hwatched, if_true, Prog.state_pure,
      state_unwatched]
  · rename_i hoff
    have hwatched : ¬ (unwatched (myMemMalloc memx size)).val ⟨d, []⟩ = 0xFFFFFFFF := hoff
    simp only [copiedFrom, watchedRealloc, Prog.state_bind, hwatched, if_false, Prog.state_pure,
      state_unwatched, state_watchedCopy, List.nil_append]

end Watched

/-! ## When a move reads the old allocation alone -/

/-- The state the search sees: a pool that is not ready is initialised first. -/
def Dev.readied (d : Dev) (memx : Memx) : Dev := if d.memrdy memx then d else d.inited memx

/-- Every byte that `myrealloc` copies comes from the allocation that starts at `ptr`. -/
def ReadsOld (L : Link) (memx : Memx) (ptr size : ℕ) (d : Dev) (live : Live) : Prop :=
  ∀ a ∈ copiedFrom L memx ptr size d, ∃ g ∈ live memx, g.ptr = ptr ∧
    g.ptr ≤ a ∧ a < g.ptr + (g.run L memx).count * memblksize memx

theorem readied_memrdy (d : Dev) (memx : Memx) : (d.readied memx).memrdy memx = true := by
  by_cases hr : d.memrdy memx = true
  · rw [Dev.readied, if_pos hr, hr]
  · rw [Dev.readied, if_neg hr, inited_memrdy]

@[simp] theorem readied_mem (d : Dev) (memx : Memx) : (d.readied memx).mem = d.mem := by
  rw [Dev.readied]
  split <;> rfl

theorem myMemMalloc_readied (memx : Memx) (size : ℕ) (d : Dev) :
    myMemMalloc memx size d = myMemMalloc memx size (d.readied memx) := by
  by_cases hr : d.memrdy memx = true
  · rw [Dev.readied, if_pos hr]
  · rw [Dev.readied, if_neg hr, myMemMalloc_inited (by simpa using hr)]

/-- The search fails exactly when nothing is asked for or there is no room. -/
theorem myMemMalloc_fails_iff (memx : Memx) (size : ℕ) (d : Dev) :
    (myMemMalloc memx size).val d = 0xFFFFFFFF ↔
      size = 0 ∨ ∀ o, ¬ Room (d.readied memx) memx (nmemb memx size) o := by
  have hready := readied_memrdy d memx
  rw [Prog.val, myMemMalloc_readied]
  rcases Nat.eq_zero_or_pos size with rfl | hsize
  · simp [myMemMalloc_zero hready]
  · rcases myMemMalloc_cases hready hsize with ⟨o, hroom, -, hfound⟩ | ⟨hnone, hfound⟩
    · have hlt : o * memblksize memx < memsize memx := by
        rw [← memtblsize_mul]
        exact Nat.mul_lt_mul_of_pos_right
          (by have := nmemb_pos memx hsize; have := hroom.1; omega) (memblksize_pos memx)
      have hlast := memsize_lt memx
      rw [hfound]
      refine iff_of_false (by dsimp only; omega) ?_
      rintro (rfl | hnone)
      · exact absurd hsize (Nat.lt_irrefl 0)
      · exact hnone o hroom
    · rw [hfound]
      exact iff_of_true rfl (Or.inr hnone)

section ReadsOld
variable {L : Link} {d : Dev} {live : Live} {memx : Memx} {g : Grant}

/-- The bytes of a live allocation lie inside its pool. -/
theorem Inv.grant_fits (h : Inv L d live) (hg : g ∈ live memx) :
    L.membase memx ≤ g.ptr ∧
      g.ptr + (g.run L memx).count * memblksize memx ≤ L.membase memx + memsize memx := by
  have htracks := h.tracks memx (h.ready hg)
  have hfit := blocks_fit memx (htracks.allocated.inside g hg).2
  have haligned := htracks.aligned g hg
  omega

/-- One live allocation starts at an address. -/
theorem Inv.start_unique (h : Inv L d live) (hg : g ∈ live memx) {g' : Grant}
    (hg' : g' ∈ live memx) (hptr : g'.ptr = g.ptr) : g' = g := by
  by_contra hne
  have halloc := (h.tracks memx (h.ready hg)).allocated
  have hfirst : (g'.run L memx).first = (g.run L memx).first := by
    simp only [Grant.run, hptr]
  have hin := Run.first_mem_cells (halloc.inside g hg).1
  have hin' := Run.first_mem_cells (halloc.inside g' hg').1
  rw [hfirst] at hin'
  exact halloc.apart hg hg' hne hin' hin

/-- `myrealloc` copies from the old allocation alone exactly when it copies nothing or the old
allocation is as long as the new size. -/
theorem readsOld_iff (h : Reached L d live) {ptr : ℕ} (hptr : IsStart memx live ptr)
    (size : ℕ) : ReadsOld L memx ptr size d live ↔
      (size = 0 ∨ ∀ o, ¬ Room (d.readied memx) memx (nmemb memx size) o) ∨
        ∃ g ∈ live memx, g.ptr = ptr ∧ size ≤ (g.run L memx).count * memblksize memx := by
  have hinv := h.inv
  have hbase := L.membase_pos memx
  have hpool := L.membase_fits memx
  rw [← myMemMalloc_fails_iff, ReadsOld, copiedFrom_eq]
  by_cases hfail : (myMemMalloc memx size).val d = 0xFFFFFFFF
  · simp [hfail]
  · have hsize : size ≠ 0 := fun h0 => hfail ((myMemMalloc_fails_iff ..).mpr (Or.inl h0))
    rw [if_neg hfail, List.forall_mem_map, or_iff_right hfail]
    constructor
    · intro hreads
      obtain ⟨g, hg, hgptr, -, -⟩ := hreads 0 (List.mem_range.mpr (by omega))
      refine ⟨g, hg, hgptr, ?_⟩
      by_contra hlong
      -- the first byte past the old allocation
      obtain ⟨g', hg', hgptr', hlow, hhigh⟩ :=
        hreads ((g.run L memx).count * memblksize memx) (List.mem_range.mpr (by omega))
      obtain rfl := hinv.start_unique hg hg' (hgptr'.trans hgptr.symm)
      have hfits := hinv.grant_fits hg
      rcases Nat.lt_or_ge (g'.ptr + (g'.run L memx).count * memblksize memx) (2 ^ 32)
        with hlt | hge
      · rw [hgptr, ← hgptr', Nat.mod_eq_of_lt hlt] at hhigh
        omega
      · rw [← hgptr', show g'.ptr + (g'.run L memx).count * memblksize memx = 2 ^ 32 by omega,
          Nat.mod_self] at hlow
        omega
    · rintro ⟨g, hg, rfl, hle⟩ i hi
      have hfits := hinv.grant_fits hg
      have hi' := List.mem_range.mp hi
      refine ⟨g, hg, rfl, ?_⟩
      rw [Nat.mod_eq_of_lt (by omega)]
      omega

end ReadsOld

/-- The allocation of 100 bytes shrinks to 50. -/
theorem readsOld_iff_shrink :
    ReadsOld sramLink .sramin (heldGrant 100).ptr 50 (oneHeld 100).1 (oneHeld 100).2 ↔
      (50 = 0 ∨ ∀ o, ¬ Room ((oneHeld 100).1.readied .sramin) .sramin (nmemb .sramin 50) o) ∨
        ∃ g ∈ (oneHeld 100).2 .sramin, g.ptr = (heldGrant 100).ptr ∧
          50 ≤ (g.run sramLink .sramin).count * memblksize .sramin :=
  readsOld_iff (oneHeld_reached 100)
    (Or.inr ⟨heldGrant 100, heldGrant_mem (by decide) (by decide), rfl⟩) 50

/-- Grown from 100 bytes to 200, the allocation at the end of the pool takes bytes from past
the pool. -/
theorem readsOld_grow : ¬ ∀ (L : Link) (d : Dev) (live : Live) (memx : Memx) (ptr size : ℕ),
    Reached L d live → IsStart memx live ptr → ReadsOld L memx ptr size d live := by
  intro hall
  have hg : heldGrant 100 ∈ (oneHeld 100).2 .sramin := heldGrant_mem (by decide) (by decide)
  have hreach := oneHeld_reached 100
  have hreads := hall sramLink (oneHeld 100).1 (oneHeld 100).2 .sramin (heldGrant 100).ptr 200
    hreach (Or.inr ⟨heldGrant 100, hg, rfl⟩)
  have hmoves : ¬ (myMemMalloc .sramin 200).val (oneHeld 100).1 = 0xFFFFFFFF := by
    rw [myMemMalloc_fails_iff]
    rintro (h0 | hnone)
    · exact absurd h0 (by decide)
    · have hrdy : (oneHeld 100).1.memrdy .sramin = true := by
        rw [oneHeld_eq (by decide) (by decide), fill_memrdy, inited_memrdy]
      refine hnone 0 ⟨by decide, fun j _ hj => ?_⟩
      have hj' : j < 4 := hj
      rw [Dev.readied, if_pos hrdy, oneHeld_eq (by decide) (by decide), fill_memmap,
        if_neg (by rw [show nmemb .sramin 100 = 2 from rfl]; omega),
        inited_memmap _ (by rw [show memtblsize .sramin = 800 from rfl]; omega)]
  rw [ReadsOld, copiedFrom_eq, if_neg hmoves, List.forall_mem_map] at hreads
  obtain ⟨g, hlive, -, -, hpast⟩ := hreads 128 (by decide)
  rw [oneHeld_eq (by decide) (by decide)] at hlive
  obtain rfl : g = heldGrant 100 := Finset.mem_singleton.mp hlive
  exact absurd hpast (by decide)

end Apollo.Malloc
