import Apollo.Lib.Runs
import Apollo.Malloc.Search

/-!
# The heap over any run

A run is a sequence of calls, and its history says which allocations are live: the
pointers handed out and not given back.  In every state of a run the map of a ready
pool is the table of a packing, whose owners are the live allocations.

## Main definitions

* `Grant`, `Grant.run` — a live allocation and the blocks it covers.
* `Reachable Ok` — a state and its live allocations; `Ok` says which pointers are freed.
* `Tracks`, `Inv` — the map of a pool is the table of a packing.
* `Reachable.inv` — every reachable state keeps it.
* `allocator_invariant` — what this says about the pools.
-/

namespace Apollo.Malloc
open Lib

/-- An allocation that has been handed out: where, and how many bytes were asked for. -/
structure Grant where
  ptr : ℕ
  size : ℕ
  deriving DecidableEq

/-- The blocks of an allocation. -/
def Grant.run (L : Link) (memx : Memx) (g : Grant) : Run where
  first := L.offset memx g.ptr / memblksize memx
  count := nmemb memx g.size

/-- The live allocations of each pool. -/
abbrev Live := Memx → Finset Grant

namespace Live

/-- An allocation of `size` bytes was answered with `ptr`; `NULL` means there is none. -/
def grant (live : Live) (memx : Memx) (ptr size : ℕ) : Live :=
  if ptr = 0 then live else Function.update live memx (insert ⟨ptr, size⟩ (live memx))

/-- The allocation whose first block `ptr` points into is given back. -/
def release (L : Link) (live : Live) (memx : Memx) (ptr : ℕ) : Live :=
  Function.update live memx
    ((live memx).filter fun g => (g.run L memx).first ≠ L.offset memx ptr / memblksize memx)

end Live

/-- `NULL`, or the start of a live allocation. -/
def IsStart (memx : Memx) (live : Live) (ptr : ℕ) : Prop := ptr = 0 ∨ ∃ g ∈ live memx, g.ptr = ptr

/-- The states of a run whose frees are given pointers that are `Ok`, with the live
allocations.  The run begins before any pool is ready. -/
inductive Reachable (L : Link) (Ok : Memx → Live → ℕ → Prop) : Dev → Live → Prop
  | start {d : Dev} (hrdy : ∀ memx, d.memrdy memx = false) (hpast : d.past = false) :
      Reachable L Ok d fun _ => ∅
  | init {d : Dev} {live : Live} (memx : Memx) (h : Reachable L Ok d live) :
      Reachable L Ok ((myMemInit memx).state d) (Function.update live memx ∅)
  | malloc {d : Dev} {live : Live} (memx : Memx) (size : ℕ) (h : Reachable L Ok d live) :
      Reachable L Ok ((mymalloc L memx size).state d)
        (live.grant memx ((mymalloc L memx size).val d) size)
  | free {d : Dev} {live : Live} (memx : Memx) (ptr : ℕ) (h : Reachable L Ok d live)
      (hok : Ok memx live ptr) :
      Reachable L Ok ((myfree L memx ptr).state d) (live.release L memx ptr)
  | realloc {d : Dev} {live : Live} (memx : Memx) (ptr size : ℕ) (h : Reachable L Ok d live)
      (hptr : IsStart memx live ptr) :
      Reachable L Ok ((myrealloc L memx ptr size).state d)
        (if (myrealloc L memx ptr size).val d = 0 then live
          else (live.grant memx ((myrealloc L memx ptr size).val d) size).release L memx ptr)

/-! ## The invariant -/

/-- The map of a pool is the table of a packing of the live allocations. -/
structure Tracks (L : Link) (memx : Memx) (d : Dev) (live : Finset Grant) : Prop where
  packed : ∃ P : Packing (Grant.run L memx) (memtblsize memx),
    P.live = live ∧ ∀ i < memtblsize memx, d.memmap memx i = P.entry i
  aligned : ∀ g ∈ live, g.ptr = L.membase memx + (g.run L memx).first * memblksize memx

/-- Every ready pool tracks its live allocations. -/
structure Inv (L : Link) (d : Dev) (live : Live) : Prop where
  inMap : d.past = false
  tracks : ∀ memx, d.memrdy memx = true → Tracks L memx d (live memx)
  unready : ∀ memx, d.memrdy memx = false → live memx = ∅

/-- The pointer may be freed: it is outside the pool, or in a free block, or in the first
block of a live allocation. -/
def Releasable (L : Link) (memx : Memx) (live : Live) (ptr : ℕ) : Prop :=
  memsize memx ≤ L.offset memx ptr ∨
    (∀ g ∈ live memx, L.offset memx ptr / memblksize memx ∉ (g.run L memx).cells) ∨
    ∃ g ∈ live memx, (g.run L memx).first = L.offset memx ptr / memblksize memx

section Tracks
variable {L : Link} {memx : Memx} {d d' : Dev} {live : Finset Grant}

theorem Tracks.congr (h : Tracks L memx d live) (hmap : d'.memmap memx = d.memmap memx) :
    Tracks L memx d' live := by
  obtain ⟨P, hP, hentry⟩ := h.packed
  exact ⟨⟨P, hP, fun i hi => by rw [hmap, hentry i hi]⟩, h.aligned⟩

theorem tracks_inited (d : Dev) : Tracks L memx (d.inited memx) ∅ where
  packed := ⟨Packing.empty _ _, rfl, fun i hi => by
    rw [inited_memmap d hi, Packing.entry_of_free (by simp [Packing.empty])]⟩
  aligned := by simp

/-- The blocks of an allocation the search has placed. -/
theorem run_of_room {n o size : ℕ} (hn : n = nmemb memx size) (hpos : 0 < n)
    (hroom : o + n ≤ memtblsize memx) :
    (⟨L.membase memx + o * memblksize memx, size⟩ : Grant).run L memx = ⟨o, n⟩ := by
  have hlt : o * memblksize memx < memsize memx := by
    rw [← memtblsize_mul]
    exact Nat.mul_lt_mul_of_pos_right (by omega) (memblksize_pos memx)
  rw [Grant.run, L.offset_membase_add memx hlt, Nat.mul_div_cancel _ (memblksize_pos memx), hn]

theorem Tracks.malloc (h : Tracks L memx d live) {n o size : ℕ} (hn : n = nmemb memx size)
    (hpos : 0 < n) (hroom : Room d memx n o) :
    Tracks L memx (d.fill memx o n n)
      (insert ⟨L.membase memx + o * memblksize memx, size⟩ live) := by
  obtain ⟨P, rfl, hentry⟩ := h.packed
  set g : Grant := ⟨L.membase memx + o * memblksize memx, size⟩ with hg
  have hrun : g.run L memx = ⟨o, n⟩ := run_of_room hn hpos hroom.1
  have hfree : ∀ i ∈ (g.run L memx).cells, P.entry i = 0 := fun i hi => by
    obtain ⟨h₁, h₂⟩ : o ≤ i ∧ i < o + n := by simpa [hrun] using hi
    have hin := hroom.1
    rw [← hentry i (by omega)]
    exact hroom.2 i h₁ h₂
  have hin : (g.run L memx).first + (g.run L memx).count ≤ memtblsize memx := by
    rw [hrun]
    exact hroom.1
  have hcount : 0 < (g.run L memx).count := by
    rw [hrun]
    exact hpos
  refine ⟨⟨P.insert g hcount hin (Packing.disjoint_of_entry hfree), rfl, fun i hi => ?_⟩, ?_⟩
  · rw [fill_memmap, Packing.entry_insert, hrun, hentry i hi]
    refine if_congr ?_ rfl rfl
    simp only [Run.mem_cells]
    exact ⟨fun h => ⟨h.1, h.2.1⟩, fun h => ⟨h.1, h.2, hi⟩⟩
  · intro g' hg'
    rcases Finset.mem_insert.mp hg' with rfl | hg'
    · rw [hrun]
    · exact h.aligned g' hg'

/-- The owner of a first block is unique, so that giving it back is an erasure. -/
theorem Tracks.filter_first (h : Tracks L memx d live) {g : Grant} (hg : g ∈ live) :
    (live.filter fun g' => (g'.run L memx).first ≠ (g.run L memx).first) = live.erase g := by
  obtain ⟨P, rfl, -⟩ := h.packed
  ext g'
  simp only [Finset.mem_filter, Finset.mem_erase, ne_eq]
  refine ⟨fun h' => ⟨?_, h'.1⟩, fun h' => ⟨h'.2, fun heq => h'.1 ?_⟩⟩
  · rintro rfl
    exact h'.2 rfl
  · have hfirst := Run.first_mem_cells (P.pos g' h'.2)
    refine Packing.owner_unique h'.2 hg hfirst ?_
    rw [heq]
    exact Run.first_mem_cells (P.pos g hg)

theorem Tracks.entry_first (h : Tracks L memx d live) {g : Grant} (hg : g ∈ live) {i : ℕ}
    (hi : i ∈ (g.run L memx).cells) : d.memmap memx i = (g.run L memx).count := by
  obtain ⟨P, rfl, hentry⟩ := h.packed
  have hin := P.inside g hg
  have hlt := (Run.mem_cells.mp hi).2
  rw [hentry i (by omega), Packing.entry_of_mem hg hi]

theorem Tracks.free (h : Tracks L memx d live) {g : Grant} (hg : g ∈ live) :
    Tracks L memx (d.fill memx (g.run L memx).first (g.run L memx).count 0) (live.erase g) := by
  obtain ⟨P, rfl, hentry⟩ := h.packed
  refine ⟨⟨P.erase g, rfl, fun i hi => ?_⟩,
    fun g' hg' => h.aligned g' (Finset.mem_of_mem_erase hg')⟩
  rw [fill_memmap, Packing.entry_erase hg, hentry i hi]
  refine if_congr ?_ rfl rfl
  simp only [Run.mem_cells]
  exact ⟨fun h => ⟨h.1, h.2.1⟩, fun h => ⟨h.1, h.2, hi⟩⟩

end Tracks

/-! ## Every call keeps it -/

section Calls
variable {L : Link} {d : Dev} {live : Live}

/-- A change to one pool, by a fill, leaves the other pools as they were. -/
theorem Inv.fill (h : Inv L d live) {memx : Memx} {first count v : ℕ} {now : Finset Grant}
    (hin : first + count ≤ memtblsize memx) (hrdy : d.memrdy memx = true)
    (hnow : Tracks L memx (d.fill memx first count v) now) :
    Inv L (d.fill memx first count v) (Function.update live memx now) where
  inMap := by
    rw [fill_past, h.inMap, decide_eq_false (by omega)]
    rfl
  tracks memx' hr := by
    by_cases hm : memx' = memx
    · subst hm
      rw [Function.update_self]
      exact hnow
    · rw [Function.update_of_ne hm]
      exact (h.tracks memx' hr).congr (fill_memmap_ne d _ _ _ hm)
  unready memx' hr := by
    have hm : memx' ≠ memx := by
      rintro rfl
      rw [fill_memrdy, hrdy] at hr
      cases hr
    rw [Function.update_of_ne hm]
    exact h.unready memx' hr

theorem Inv.init (h : Inv L d live) (memx : Memx) :
    Inv L (d.inited memx) (Function.update live memx ∅) where
  inMap := (inited_past d).trans h.inMap
  tracks memx' hr := by
    by_cases hm : memx' = memx
    · subst hm
      rw [Function.update_self]
      exact tracks_inited d
    · rw [Function.update_of_ne hm]
      rw [inited_memrdy_ne d hm] at hr
      exact (h.tracks memx' hr).congr (fill_memmap_ne d _ _ _ hm)
  unready memx' hr := by
    by_cases hm : memx' = memx
    · subst hm
      rw [Function.update_self]
    · rw [Function.update_of_ne hm]
      rw [inited_memrdy_ne d hm] at hr
      exact h.unready memx' hr

/-- A pool that is not ready has no allocations to lose. -/
theorem Inv.init_unready (h : Inv L d live) {memx : Memx} (hr : d.memrdy memx = false) :
    Inv L (d.inited memx) live := by
  have hinit := h.init memx
  rwa [← h.unready memx hr, Function.update_eq_self] at hinit

/-- `my_mem_malloc` places the allocation in free blocks, or fails and changes nothing else. -/
theorem Inv.search (h : Inv L d live) (memx : Memx) (size : ℕ) :
    ((myMemMalloc memx size).val d = 0xFFFFFFFF ∧ Inv L ((myMemMalloc memx size).state d) live ∧
      ((myMemMalloc memx size).state d).mem = d.mem) ∨
    ∃ off < memsize memx, (myMemMalloc memx size).val d = off ∧
      Inv L ((myMemMalloc memx size).state d)
        (Function.update live memx (insert ⟨L.membase memx + off, size⟩ (live memx))) ∧
      (∀ g ∈ live memx, off / memblksize memx ∉ (g.run L memx).cells) ∧
      ((myMemMalloc memx size).state d).mem = d.mem ∧
      ((myMemMalloc memx size).state d).memrdy memx = true := by
  -- a pool that is not ready is initialised first
  wlog hr : d.memrdy memx = true generalizing d
  · have hr' : d.memrdy memx = false := by simpa using hr
    have hrun := myMemMalloc_inited hr' size
    have hval : (myMemMalloc memx size).val d =
        (myMemMalloc memx size).val (d.inited memx) := congrArg Prod.fst hrun
    have hstate : (myMemMalloc memx size).state d =
        (myMemMalloc memx size).state (d.inited memx) := congrArg Prod.snd hrun
    rw [hval, hstate]
    exact this (h.init_unready hr') (inited_memrdy d memx)
  rcases Nat.eq_zero_or_pos size with rfl | hsize
  · have hrun := myMemMalloc_zero hr
    have hstate : (myMemMalloc memx 0).state d = d := congrArg Prod.snd hrun
    rw [hstate]
    exact Or.inl ⟨congrArg Prod.fst hrun, h, rfl⟩
  · rcases myMemMalloc_cases hr hsize with ⟨o, hroom, -, hrun⟩ | ⟨-, hrun⟩
    · have hval : (myMemMalloc memx size).val d = o * memblksize memx := congrArg Prod.fst hrun
      have hstate : (myMemMalloc memx size).state d =
          d.fill memx o (nmemb memx size) (nmemb memx size) := congrArg Prod.snd hrun
      have hpos := nmemb_pos memx hsize
      have hlt : o * memblksize memx < memsize memx := by
        rw [← memtblsize_mul]
        exact Nat.mul_lt_mul_of_pos_right (by have := hroom.1; omega) (memblksize_pos memx)
      rw [hstate]
      refine Or.inr ⟨_, hlt, hval, ?_, fun g hg hcell => ?_, rfl, hr⟩
      · exact h.fill hroom.1 hr ((h.tracks memx hr).malloc rfl hpos hroom)
      · rw [Nat.mul_div_cancel _ (memblksize_pos memx)] at hcell
        have hused := (h.tracks memx hr).entry_first hg hcell
        rw [hroom.2 o le_rfl (by omega)] at hused
        have hcount := Run.mem_cells.mp hcell
        omega
    · have hstate : (myMemMalloc memx size).state d = d := congrArg Prod.snd hrun
      rw [hstate]
      exact Or.inl ⟨congrArg Prod.fst hrun, h, rfl⟩

theorem Inv.release_of_not_first (h : Inv L d live) {memx : Memx} {ptr : ℕ}
    (hno : ∀ g ∈ live memx, (g.run L memx).first ≠ L.offset memx ptr / memblksize memx) :
    Inv L d (live.release L memx ptr) := by
  rw [Live.release, Finset.filter_true_of_mem hno, Function.update_eq_self]
  exact h

/-- A free of a releasable pointer gives back one whole allocation, or nothing. -/
theorem Inv.free_offset (h : Inv L d live) {memx : Memx} {ptr : ℕ}
    (hok : Releasable L memx live ptr) :
    Inv L ((myMemFree memx (L.offset memx ptr)).state d) (live.release L memx ptr) := by
  cases hr : d.memrdy memx with
  | false =>
      rw [state_myMemFree_inited hr]
      refine (h.init_unready hr).release_of_not_first fun g hg => ?_
      rw [h.unready memx hr] at hg
      exact absurd hg (Finset.notMem_empty g)
  | true =>
      have htracks := h.tracks memx hr
      have hfirst_lt : ∀ g ∈ live memx, (g.run L memx).first < memtblsize memx ∧
          0 < (g.run L memx).count := by
        obtain ⟨P, hP, -⟩ := htracks.packed
        intro g hg
        rw [← hP] at hg
        have hin := P.inside g hg
        have hpos := P.pos g hg
        exact ⟨by omega, hpos⟩
      rcases Nat.lt_or_ge (L.offset memx ptr) (memsize memx) with hoff | hoff
      · rw [state_myMemFree hr hoff]
        rcases hok with hout | hfree | ⟨g, hg, hfirst⟩
        · omega
        · -- a free block: its entry is `0`
          have hzero : d.memmap memx (L.offset memx ptr / memblksize memx) = 0 := by
            obtain ⟨P, hP, hentry⟩ := htracks.packed
            rw [hentry _ ?_, Packing.entry_of_free (hP ▸ hfree)]
            rw [Nat.div_lt_iff_lt_mul (memblksize_pos memx), memtblsize_mul]
            exact hoff
          rw [hzero, fill_zero]
          refine h.release_of_not_first fun g hg heq => hfree g hg ?_
          rw [← heq]
          exact Run.first_mem_cells (hfirst_lt g hg).2
        · have hcount := htracks.entry_first hg (Run.first_mem_cells (hfirst_lt g hg).2)
          rw [← hfirst, hcount, Live.release, ← hfirst, htracks.filter_first hg]
          refine h.fill ?_ hr (htracks.free hg)
          obtain ⟨P, hP, -⟩ := htracks.packed
          rw [← hP] at hg
          exact P.inside g hg
      · rw [state_myMemFree_outside hr hoff]
        refine h.release_of_not_first fun g hg heq => ?_
        have hlt := (hfirst_lt g hg).1
        rw [heq, Nat.div_lt_iff_lt_mul (memblksize_pos memx), memtblsize_mul] at hlt
        omega

theorem offset_zero (memx : Memx) : memsize memx ≤ L.offset memx 0 := by
  have hpos := L.membase_pos memx
  have hfits := L.membase_fits memx
  rw [Link.offset, Nat.mod_eq_of_lt (by omega)]
  omega

theorem Inv.free (h : Inv L d live) {memx : Memx} {ptr : ℕ} (hok : Releasable L memx live ptr) :
    Inv L ((myfree L memx ptr).state d) (live.release L memx ptr) := by
  have hfree := h.free_offset hok
  by_cases hptr : ptr = 0
  · subst hptr
    refine h.release_of_not_first fun g hg heq => ?_
    have hr : d.memrdy memx = true := by
      by_contra hr
      rw [h.unready memx (by simpa using hr)] at hg
      exact Finset.notMem_empty g hg
    obtain ⟨P, hP, -⟩ := (h.tracks memx hr).packed
    rw [← hP] at hg
    have hin := P.inside g hg
    have hpos := P.pos g hg
    have hoff := offset_zero (L := L) memx
    have hlt : (g.run L memx).first < memtblsize memx := by omega
    rw [heq, Nat.div_lt_iff_lt_mul (memblksize_pos memx), memtblsize_mul] at hlt
    omega
  · rw [myfree, if_neg hptr]
    exact hfree

/-- The invariant is about the maps, not about the bytes in the pools. -/
theorem Inv.congr {d' : Dev} (h : Inv L d live)
    (hd : (d'.memmap, d'.memrdy, d'.past) = (d.memmap, d.memrdy, d.past)) : Inv L d' live := by
  obtain ⟨hmap, hrdy, hpast⟩ := by simpa only [Prod.mk.injEq] using hd
  refine ⟨hpast.trans h.inMap, fun memx hr => ?_, fun memx hr => ?_⟩
  · rw [hrdy] at hr
    exact (h.tracks memx hr).congr (congrFun hmap memx)
  · rw [hrdy] at hr
    exact h.unready memx hr

theorem keeps_myMemCopy (des src n : ℕ) :
    Prog.Keeps (fun d : Dev => (d.memmap, d.memrdy, d.past)) (myMemCopy des src n) := by
  refine Prog.Keeps.forUp (fun i _ _ => ?_) () (Nat.zero_add n)
  exact Prog.Keeps.modify fun _ => rfl

theorem Inv.ready (h : Inv L d live) {memx : Memx} {g : Grant} (hg : g ∈ live memx) :
    d.memrdy memx = true := by
  by_contra hr
  rw [h.unready memx (by simpa using hr)] at hg
  exact Finset.notMem_empty g hg

/-- A start pointer points into the first block. -/
theorem Inv.offset_start (h : Inv L d live) {memx : Memx} {g : Grant} (hg : g ∈ live memx) :
    L.offset memx g.ptr = (g.run L memx).first * memblksize memx := by
  have htracks := h.tracks memx (h.ready hg)
  obtain ⟨P, hP, -⟩ := htracks.packed
  have hin := P.inside g (hP ▸ hg)
  have hpos := P.pos g (hP ▸ hg)
  have hlt : (g.run L memx).first * memblksize memx < memsize memx := by
    rw [← memtblsize_mul]
    exact Nat.mul_lt_mul_of_pos_right (by omega) (memblksize_pos memx)
  conv_lhs => rw [htracks.aligned g hg]
  exact L.offset_membase_add memx hlt

theorem Inv.releasable_of_isStart (h : Inv L d live) {memx : Memx} {ptr : ℕ}
    (hptr : IsStart memx live ptr) : Releasable L memx live ptr := by
  rcases hptr with rfl | ⟨g, hg, rfl⟩
  · exact Or.inl (offset_zero memx)
  · refine Or.inr (Or.inr ⟨g, hg, ?_⟩)
    rw [h.offset_start hg, Nat.mul_div_cancel _ (memblksize_pos memx)]

theorem Inv.malloc (h : Inv L d live) (memx : Memx) (size : ℕ) :
    Inv L ((mymalloc L memx size).state d)
      (live.grant memx ((mymalloc L memx size).val d) size) := by
  have hbase := L.membase_pos memx
  have hlt := memsize_lt memx
  rcases h.search memx size with ⟨hval, hinv, -⟩ | ⟨off, hoff, hval, hinv, -, -, -⟩
  · simp only [mymalloc, Prog.val_bind, Prog.state_bind, hval, if_true, Prog.val_pure,
      Prog.state_pure, Live.grant]
    exact hinv
  · have hne : off ≠ 0xFFFFFFFF := by omega
    simp only [mymalloc, Prog.val_bind, Prog.state_bind, hval, hne, if_false, Prog.val_pure,
      Prog.state_pure]
    rw [Live.grant, if_neg (by omega)]
    exact hinv

theorem Inv.realloc (h : Inv L d live) {memx : Memx} {ptr : ℕ} (size : ℕ)
    (hptr : IsStart memx live ptr) :
    Inv L ((myrealloc L memx ptr size).state d)
      (if (myrealloc L memx ptr size).val d = 0 then live
        else (live.grant memx ((myrealloc L memx ptr size).val d) size).release L memx ptr) := by
  have hbase := L.membase_pos memx
  have hlt := memsize_lt memx
  rcases h.search memx size with ⟨hval, hinv, -⟩ | ⟨off, hoff, hval, hinv, -, -, -⟩
  · simp only [myrealloc, Prog.val_bind, Prog.state_bind, hval, if_true, Prog.val_pure,
      Prog.state_pure]
    exact hinv
  · have hne : off ≠ 0xFFFFFFFF := by omega
    have hvalr : (myrealloc L memx ptr size).val d = L.membase memx + off := by
      simp only [myrealloc, Prog.val_bind, hval, hne, if_false, Prog.val_pure]
    rw [hvalr, if_neg (by omega), Live.grant, if_neg (by omega)]
    simp only [myrealloc, Prog.state_bind, hval, hne, if_false, Prog.state_pure]
    -- the copy moves bytes, and the old start is still the start of a live allocation
    refine (hinv.congr (keeps_myMemCopy _ _ _ _)).free (Inv.releasable_of_isStart hinv ?_)
    refine hptr.imp_right fun ⟨g, hg, hgptr⟩ => ⟨g, ?_, hgptr⟩
    rw [Function.update_self]
    exact Finset.mem_insert_of_mem hg

end Calls

/-- Every state of a run whose frees are releasable keeps the invariant. -/
theorem Reachable.inv {L : Link} {Ok : Memx → Live → ℕ → Prop} {d : Dev} {live : Live}
    (h : Reachable L Ok d live)
    (hok : ∀ d live memx ptr, Inv L d live → Ok memx live ptr → Releasable L memx live ptr) :
    Inv L d live := by
  induction h with
  | start hrdy hpast =>
      refine ⟨hpast, fun memx hr => ?_, fun _ _ => rfl⟩
      rw [hrdy memx] at hr
      cases hr
  | init memx _ ih =>
      rw [state_myMemInit]
      exact ih.init memx
  | malloc memx size _ ih => exact ih.malloc memx size
  | free memx ptr _ hptr ih => exact ih.free (hok _ _ memx ptr ih hptr)
  | realloc memx ptr size _ hptr ih => exact ih.realloc size hptr

/-! ## What the map says -/

theorem val_myMemPerused (memx : Memx) (d : Dev) : (myMemPerused memx).val d =
    1000 * ((Finset.range (memtblsize memx)).filter fun i => d.memmap memx i ≠ 0).card /
      memtblsize memx := by
  set used : ℕ → ℕ := fun i =>
    ((Finset.range i).filter fun j => d.memmap memx j ≠ 0).card with hused
  set count := Prog.forUp (fun i used => do
    let e ← getMap memx i
    pure (if e ≠ 0 then used + 1 else used)) (memtblsize memx) 0 0 with hcount
  have hval : count.val d = used (memtblsize memx) := by
    refine (Prog.forUp_inv (I := fun i a t => t = d ∧ a = used i) ?_ (Nat.zero_add _) ?_).2
    · rintro i hi a t ⟨rfl, rfl⟩
      refine ⟨state_getMap t hi, ?_⟩
      change (if t.memmap memx i ≠ 0 then used i + 1 else used i) = used (i + 1)
      simp only [hused, Finset.range_add_one, Finset.filter_insert]
      split
      · rw [Finset.card_insert_of_notMem (by simp)]
      · rfl
    · exact ⟨rfl, by simp [hused]⟩
  have hle : used (memtblsize memx) ≤ memtblsize memx :=
    (Finset.card_filter_le _ _).trans_eq (Finset.card_range _)
  have hscaled := memtblsize_lt memx
  have hquot : 1000 * used (memtblsize memx) / memtblsize memx ≤ 1000 :=
    Nat.div_le_of_le_mul (by rw [Nat.mul_comm (memtblsize memx)]; omega)
  have hfits : 1000 * used (memtblsize memx) < 2 ^ 32 := by omega
  rw [myMemPerused, ← hcount, Prog.val_bind, Prog.val_pure, hval, Nat.mul_comm _ 1000,
    Nat.mod_eq_of_lt hfits, Nat.mod_eq_of_lt (Nat.lt_of_le_of_lt hquot (by omega))]

/-- The live allocations of a pool and what its map holds for them. -/
structure Allocated (L : Link) (memx : Memx) (d : Dev) (live : Finset Grant) : Prop where
  /-- No two allocations share a block. -/
  disjoint : (live : Set Grant).PairwiseDisjoint fun g => (g.run L memx).cells
  /-- Every allocation starts at a block of the pool. -/
  aligned : ∀ g ∈ live, g.ptr = L.membase memx + (g.run L memx).first * memblksize memx
  /-- Every allocation has a block and lies in the pool. -/
  inside : ∀ g ∈ live, 0 < (g.run L memx).count ∧
    (g.run L memx).first + (g.run L memx).count ≤ memtblsize memx
  /-- Every allocation covers the bytes asked for. -/
  covers : ∀ g ∈ live, g.size ≤ (g.run L memx).count * memblksize memx
  /-- The entry of every block of an allocation is its number of blocks. -/
  entries : ∀ g ∈ live, ∀ i ∈ (g.run L memx).cells, d.memmap memx i = (g.run L memx).count
  /-- Every other entry is `0`. -/
  others : ∀ i < memtblsize memx, (∀ g ∈ live, i ∉ (g.run L memx).cells) → d.memmap memx i = 0

theorem Tracks.allocated {L : Link} {memx : Memx} {d : Dev} {live : Finset Grant}
    (h : Tracks L memx d live) : Allocated L memx d live := by
  have hentries := fun g hg i hi => h.entry_first (g := g) hg (i := i) hi
  obtain ⟨P, rfl, hentry⟩ := h.packed
  exact {
    disjoint := P.disjoint
    aligned := h.aligned
    inside := fun g hg => ⟨P.pos g hg, P.inside g hg⟩
    covers := fun g _ => le_nmemb_mul memx g.size
    entries := hentries
    others := fun i hi hno => (hentry i hi).trans (Packing.entry_of_free hno) }

/-- In every reachable state of a ready pool the live allocations are disjoint runs of
whole blocks which the map describes, a free clears the blocks of its allocation, and
`my_mem_perused` counts the blocks in use. -/
theorem allocator_invariant {L : Link} {d : Dev} {live : Live} (h : Reachable L IsStart d live)
    {memx : Memx} (hr : d.memrdy memx = true) :
    Allocated L memx d (live memx) ∧
      (∀ g ∈ live memx, ∀ memx' i, i < memtblsize memx' →
        ((myfree L memx g.ptr).state d).memmap memx' i =
          if memx' = memx ∧ i ∈ (g.run L memx).cells then 0 else d.memmap memx' i) ∧
      (myMemPerused memx).val d =
        1000 * (∑ g ∈ live memx, (g.run L memx).count) / memtblsize memx ∧
      d.past = false := by
  have hinv : Inv L d live := h.inv fun _ _ _ _ hi => hi.releasable_of_isStart
  have htracks := hinv.tracks memx hr
  have halloc := htracks.allocated
  refine ⟨halloc, fun g hg memx' i hi => ?_, ?_, hinv.inMap⟩
  · have hin := halloc.inside g hg
    have hpos := L.membase_pos memx
    have hptr : g.ptr ≠ 0 := by
      have := halloc.aligned g hg
      omega
    have hoff := hinv.offset_start hg
    have hlt : L.offset memx g.ptr < memsize memx := by
      rw [hoff, ← memtblsize_mul]
      exact Nat.mul_lt_mul_of_pos_right (by omega) (memblksize_pos memx)
    have hidx : L.offset memx g.ptr / memblksize memx = (g.run L memx).first := by
      rw [hoff, Nat.mul_div_cancel _ (memblksize_pos memx)]
    have hcount := halloc.entries g hg _ (Run.first_mem_cells hin.1)
    have hstate : (myfree L memx g.ptr).state d =
        d.fill memx (g.run L memx).first (g.run L memx).count 0 := by
      rw [myfree, if_neg hptr]
      simp only [Prog.state_bind, Prog.state_pure, state_myMemFree hr hlt, hidx, hcount]
    rw [hstate]
    by_cases hm : memx' = memx
    · subst hm
      rw [fill_memmap]
      refine if_congr ?_ rfl rfl
      simp only [Run.mem_cells, true_and]
      exact ⟨fun h => ⟨h.1, h.2.1⟩, fun h => ⟨h.1, h.2, hi⟩⟩
    · rw [fill_memmap_ne d _ _ _ hm, if_neg fun h => hm h.1]
  · rw [val_myMemPerused]
    obtain ⟨P, hP, hentry⟩ := htracks.packed
    rw [← hP, ← Packing.card_used]
    congr 3
    refine Finset.filter_congr fun i hi => ?_
    rw [hentry i (Finset.mem_range.mp hi)]

/-! ## A first allocation -/

/-- An empty pool gives out its last blocks. -/
theorem myMemMalloc_empty {memx : Memx} {d : Dev} (hr : d.memrdy memx = true)
    (hfree : ∀ i < memtblsize memx, d.memmap memx i = 0) {size : ℕ} (hsize : 0 < size)
    (hn : nmemb memx size ≤ memtblsize memx) :
    myMemMalloc memx size d = ((memtblsize memx - nmemb memx size) * memblksize memx,
      d.fill memx (memtblsize memx - nmemb memx size) (nmemb memx size) (nmemb memx size)) := by
  have hlast : Room d memx (nmemb memx size) (memtblsize memx - nmemb memx size) :=
    ⟨by omega, fun j _ hj => hfree j (by omega)⟩
  rcases myMemMalloc_cases hr hsize with ⟨o, hroom, hmax, hrun⟩ | ⟨hnone, -⟩
  · have hge : memtblsize memx - nmemb memx size ≤ o := by
      by_contra hlt
      exact hmax _ (by omega) hlast
    have hle := hroom.1
    rw [hrun, show o = memtblsize memx - nmemb memx size by omega]
  · exact absurd hlast (hnone _)

/-- Power on, with the internal pool at the start of the SRAM. -/
def powerOn : Dev := ⟨fun _ _ => 0, fun _ => false, fun _ => 0, false⟩

def sramLink : Link := ⟨0x20000000, by decide, by decide⟩

/-- The internal pool after one allocation of `size` bytes. -/
def oneHeld (size : ℕ) : Dev × Live :=
  ((mymalloc sramLink .sramin size).state (powerOn.inited .sramin),
    Live.grant (fun _ => ∅) .sramin
      ((mymalloc sramLink .sramin size).val (powerOn.inited .sramin)) size)

theorem oneHeld_reachable (Ok : Memx → Live → ℕ → Prop) (size : ℕ) :
    Reachable sramLink Ok (oneHeld size).1 (oneHeld size).2 := by
  have hstart : Reachable sramLink Ok powerOn fun _ => ∅ := .start (fun _ => rfl) rfl
  have hinit := hstart.init .sramin
  rw [state_myMemInit, Function.update_eq_self_iff.mpr rfl] at hinit
  exact hinit.malloc .sramin size

theorem oneHeld_eq {size : ℕ} (hsize : 0 < size) (hn : nmemb .sramin size ≤ 800) :
    oneHeld size = ((powerOn.inited .sramin).fill .sramin (800 - nmemb .sramin size)
        (nmemb .sramin size) (nmemb .sramin size),
      Function.update (fun _ => ∅) .sramin
        {⟨0x20000000 + (800 - nmemb .sramin size) * 64, size⟩}) := by
  have hpos := nmemb_pos .sramin hsize
  have hrun := myMemMalloc_empty (inited_memrdy powerOn .sramin)
    (fun i hi => inited_memmap powerOn hi) hsize hn
  have hval : (myMemMalloc .sramin size).val (powerOn.inited .sramin) =
      (800 - nmemb .sramin size) * 64 := congrArg Prod.fst hrun
  have hstate : (myMemMalloc .sramin size).state (powerOn.inited .sramin) =
      (powerOn.inited .sramin).fill .sramin (800 - nmemb .sramin size) (nmemb .sramin size)
        (nmemb .sramin size) := congrArg Prod.snd hrun
  have hne : (800 - nmemb .sramin size) * 64 ≠ 0xFFFFFFFF := by omega
  simp only [oneHeld, mymalloc, Prog.val_bind, Prog.state_bind, hval, hstate, hne, if_false,
    Prog.val_pure, Prog.state_pure]
  rw [Live.grant, if_neg (by have := sramLink.membase_pos .sramin; omega)]
  rfl

theorem allocator_invariant_first :
    Allocated sramLink .sramin (oneHeld 100).1 ((oneHeld 100).2 .sramin) ∧
      (∀ g ∈ (oneHeld 100).2 .sramin, ∀ memx' i, i < memtblsize memx' →
        ((myfree sramLink .sramin g.ptr).state (oneHeld 100).1).memmap memx' i =
          if memx' = .sramin ∧ i ∈ (g.run sramLink .sramin).cells then 0
          else (oneHeld 100).1.memmap memx' i) ∧
      (myMemPerused .sramin).val (oneHeld 100).1 =
        1000 * (∑ g ∈ (oneHeld 100).2 .sramin, (g.run sramLink .sramin).count) /
          memtblsize .sramin ∧
      (oneHeld 100).1.past = false := by
  have hready : (oneHeld 100).1.memrdy .sramin = true := by
    rw [oneHeld_eq (by decide) (by decide)]
    exact inited_memrdy powerOn .sramin
  exact allocator_invariant (oneHeld_reachable IsStart 100) hready

end Apollo.Malloc
