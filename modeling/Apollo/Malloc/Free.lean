import Apollo.Malloc.Heap

/-!
# Freeing at an arbitrary offset

`my_mem_free` checks that the offset lies in the pool and nothing more.  The entry it
reads is the length of the whole allocation at each of its blocks, so an offset past the
first block clears as many entries too many as blocks lie before it: those of whatever
follows, or words behind the map.

## Main definitions

* `FreesSafely` — one whole allocation is released, or nothing changes.
* `Inv.freesSafely`, `Inv.not_freesSafely` — the two cases.
* `freesSafely_iff` — safe exactly for a free block or the first of an allocation.
-/

namespace Apollo.Malloc
open Lib

variable {L : Link} {d : Dev} {live : Live} {memx : Memx}

/-- Freeing at `offset` releases exactly one whole live allocation or changes nothing, and
does not index past the map. -/
structure FreesSafely (L : Link) (memx : Memx) (d : Dev) (live : Finset Grant) (offset : ℕ) :
    Prop where
  inMap : ((myMemFree memx offset).state d).past = false
  whole : (∀ i < memtblsize memx,
      ((myMemFree memx offset).state d).memmap memx i = d.memmap memx i) ∨
    ∃ g ∈ live, ∀ i < memtblsize memx, ((myMemFree memx offset).state d).memmap memx i =
      if i ∈ (g.run L memx).cells then 0 else d.memmap memx i

/-- The block at `offset` is free, or is the first of a live allocation. -/
def FirstOrFree (L : Link) (memx : Memx) (live : Finset Grant) (offset : ℕ) : Prop :=
  (∀ g ∈ live, offset / memblksize memx ∉ (g.run L memx).cells) ∨
    ∃ g ∈ live, (g.run L memx).first = offset / memblksize memx

theorem index_lt {offset : ℕ} (hoff : offset < memsize memx) :
    offset / memblksize memx < memtblsize memx := by
  rw [Nat.div_lt_iff_lt_mul (memblksize_pos memx), memtblsize_mul]
  exact hoff

theorem Inv.freesSafely (h : Inv L d live) (hr : d.memrdy memx = true) {offset : ℕ}
    (hoff : offset < memsize memx) (hok : FirstOrFree L memx (live memx) offset) :
    FreesSafely L memx d (live memx) offset := by
  have htracks := h.tracks memx hr
  have halloc := htracks.allocated
  rcases hok with hfree | ⟨g, hg, hfirst⟩
  · have hzero := halloc.others _ (index_lt hoff) hfree
    have hstate : (myMemFree memx offset).state d = d := by
      rw [state_myMemFree hr hoff, hzero, fill_zero]
    refine ⟨?_, Or.inl fun i _ => ?_⟩
    · rw [hstate, h.inMap]
    · rw [hstate]
  · obtain ⟨hpos, hin⟩ := halloc.inside g hg
    have hcount := halloc.entries g hg _ (Run.first_mem_cells hpos)
    have hstate : (myMemFree memx offset).state d =
        d.fill memx (g.run L memx).first (g.run L memx).count 0 := by
      rw [state_myMemFree hr hoff, ← hfirst, hcount]
    refine ⟨?_, Or.inr ⟨g, hg, fun i hi => ?_⟩⟩
    · rw [hstate, fill_past, h.inMap, decide_eq_false (by omega)]
      rfl
    · rw [hstate, fill_memmap]
      refine if_congr ?_ rfl rfl
      simp only [Run.mem_cells]
      exact ⟨fun h => ⟨h.1, h.2.1⟩, fun h => ⟨h.1, h.2, hi⟩⟩

/-- An offset in a later block of an allocation clears the tail of the allocation and as
many entries behind it as blocks lie before. -/
theorem Inv.state_myMemFree_inner (h : Inv L d live) (hr : d.memrdy memx = true) {offset : ℕ}
    (hoff : offset < memsize memx) {g : Grant} (hg : g ∈ live memx)
    (hcell : offset / memblksize memx ∈ (g.run L memx).cells) :
    (myMemFree memx offset).state d =
      d.fill memx (offset / memblksize memx) (g.run L memx).count 0 := by
  rw [state_myMemFree hr hoff, (h.tracks memx hr).entry_first hg hcell]

theorem Inv.not_freesSafely (h : Inv L d live) (hr : d.memrdy memx = true) {offset : ℕ}
    (hoff : offset < memsize memx) {g : Grant} (hg : g ∈ live memx)
    (hcell : offset / memblksize memx ∈ (g.run L memx).cells)
    (hinner : (g.run L memx).first ≠ offset / memblksize memx) :
    ¬ FreesSafely L memx d (live memx) offset := by
  have htracks := h.tracks memx hr
  have halloc := htracks.allocated
  have hstate := h.state_myMemFree_inner hr hoff hg hcell
  obtain ⟨hpos, hin⟩ := halloc.inside g hg
  obtain ⟨hle, hlt⟩ := Run.mem_cells.mp hcell
  have hidx := index_lt hoff
  -- the block at the offset is cleared, the first block is not
  have hcleared : ((myMemFree memx offset).state d).memmap memx (offset / memblksize memx) = 0 := by
    rw [hstate, fill_memmap, if_pos (by omega)]
  have hkept : ((myMemFree memx offset).state d).memmap memx (g.run L memx).first =
      (g.run L memx).count := by
    rw [hstate, fill_memmap, if_neg (by omega), halloc.entries g hg _ (Run.first_mem_cells hpos)]
  have hentry := halloc.entries g hg _ hcell
  intro hsafe
  rcases hsafe.whole with hsame | ⟨g', hg', hone⟩
  · rw [hsame _ hidx, hentry] at hcleared
    omega
  · have hmem : offset / memblksize memx ∈ (g'.run L memx).cells := by
      by_contra hno
      rw [hone _ hidx, if_neg hno, hentry] at hcleared
      omega
    obtain ⟨P, hP, -⟩ := htracks.packed
    have heq : g' = g := Packing.owner_unique (hP ▸ hg') (hP ▸ hg) hmem hcell
    rw [hone _ (by omega), heq, if_pos (Run.first_mem_cells hpos)] at hkept
    omega

/-- The frees of a run that are given pointers to free blocks or first blocks, or pointers
outside the pool. -/
def FreesFirst (L : Link) (memx : Memx) (live : Live) (ptr : ℕ) : Prop :=
  memsize memx ≤ L.offset memx ptr ∨ FirstOrFree L memx (live memx) (L.offset memx ptr)

/-- In every state of a run whose frees meet the condition, freeing at an offset of the pool
is safe exactly when the block there is free or the first of a live allocation. -/
theorem freesSafely_iff (h : Reachable L (FreesFirst L) d live) (hr : d.memrdy memx = true)
    {offset : ℕ} (hoff : offset < memsize memx) :
    FreesSafely L memx d (live memx) offset ↔ FirstOrFree L memx (live memx) offset := by
  have hinv : Inv L d live := h.inv fun _ _ _ _ _ hok => hok
  refine ⟨fun hsafe => ?_, hinv.freesSafely hr hoff⟩
  by_contra hno
  simp only [FirstOrFree, not_or, not_forall, not_not, not_exists, not_and] at hno
  obtain ⟨⟨g, hg, hcell⟩, hinner⟩ := hno
  exact hinv.not_freesSafely hr hoff hg hcell (hinner g hg) hsafe

theorem oneHeld_ready {size : ℕ} (hsize : 0 < size) (hn : nmemb .sramin size ≤ 800) :
    (oneHeld size).1.memrdy .sramin = true := by
  rw [oneHeld_eq hsize hn]
  exact inited_memrdy powerOn .sramin

theorem freesSafely_oneHeld :
    FreesSafely sramLink .sramin (oneHeld 128).1 ((oneHeld 128).2 .sramin) (798 * 64) ↔
      FirstOrFree sramLink .sramin ((oneHeld 128).2 .sramin) (798 * 64) :=
  freesSafely_iff (oneHeld_reachable _ 128) (oneHeld_ready (by decide) (by decide)) (by decide)

/-- A free at the second of the two blocks of an allocation at the end of the pool writes
behind the map. -/
theorem myMemFree_past_map :
    ∃ d live, Reachable sramLink IsStart d live ∧ d.memrdy .sramin = true ∧
      799 * 64 < memsize .sramin ∧ ((myMemFree .sramin (799 * 64)).state d).past = true ∧
      ¬ FreesSafely sramLink .sramin d (live .sramin) (799 * 64) := by
  have hreach := oneHeld_reachable IsStart 128
  have hr := @oneHeld_ready 128 (by decide) (by decide)
  have hinv : Inv sramLink (oneHeld 128).1 (oneHeld 128).2 :=
    hreach.inv fun _ _ _ _ hi => hi.releasable_of_isStart
  have hmem : (⟨0x20000000 + 798 * 64, 128⟩ : Grant) ∈ (oneHeld 128).2 .sramin := by
    rw [oneHeld_eq (by decide) (by decide)]
    exact Finset.mem_singleton_self _
  have hcell : 799 * 64 / memblksize .sramin ∈
      ((⟨0x20000000 + 798 * 64, 128⟩ : Grant).run sramLink .sramin).cells := by decide
  refine ⟨_, _, hreach, hr, ?_, ?_, ?_⟩
  · decide
  · rw [hinv.state_myMemFree_inner hr (by decide) hmem hcell, fill_past,
      decide_eq_true (by decide), Bool.or_true]
  · exact hinv.not_freesSafely hr (by decide) hmem hcell (by decide)

end Apollo.Malloc
