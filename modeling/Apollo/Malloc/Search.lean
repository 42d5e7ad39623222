import Apollo.Malloc.Pool

/-!
# What each operation does to a pool

One specification for each function of the allocator: which entries a fill changes,
which run the downward search takes, and what a free clears.

## Main definitions

* `Dev.fill` — the state a fill leaves; `state_fillMap`.
* `Room` — a run of free blocks; `Searched` — the invariant of the search.
* `myMemMalloc_cases`, `myMemMalloc_highest` — the highest room is taken, or there is none.
* `state_myMemFree` — a free clears as many entries as the first of them says.
-/

namespace Apollo.Malloc
open Lib

variable {memx : Memx}

/-- The state after `v` has been written into `count` entries from `first` on. -/
def Dev.fill (d : Dev) (memx : Memx) (first count v : ℕ) : Dev where
  memmap := Function.update d.memmap memx fun j =>
    if first ≤ j ∧ j < first + count ∧ j < memtblsize memx then v else d.memmap memx j
  memrdy := d.memrdy
  mem := d.mem
  past := d.past || decide (0 < count ∧ memtblsize memx < first + count)

section Fill
variable (d : Dev) (first count v : ℕ)

@[simp] theorem fill_memrdy : (d.fill memx first count v).memrdy = d.memrdy := rfl

@[simp] theorem fill_mem : (d.fill memx first count v).mem = d.mem := rfl

theorem fill_memmap (j : ℕ) : (d.fill memx first count v).memmap memx j =
    if first ≤ j ∧ j < first + count ∧ j < memtblsize memx then v else d.memmap memx j := by
  simp only [Dev.fill, Function.update_self]

theorem fill_memmap_ne {memx' : Memx} (h : memx' ≠ memx) :
    (d.fill memx first count v).memmap memx' = d.memmap memx' := Function.update_of_ne h _ _

theorem fill_past : (d.fill memx first count v).past =
    (d.past || decide (0 < count ∧ memtblsize memx < first + count)) := rfl

@[simp] theorem fill_zero : d.fill memx first 0 v = d := by
  have hmap : (d.fill memx first 0 v).memmap = d.memmap := by
    funext m
    by_cases hm : m = memx
    · subst hm
      funext j
      rw [fill_memmap, if_neg (by omega)]
    · exact fill_memmap_ne d first 0 v hm
  have hpast : (d.fill memx first 0 v).past = d.past := by
    rw [fill_past, decide_eq_false (by omega), Bool.or_false]
  exact congrArg₂ (fun m p => ({ d with memmap := m, past := p } : Dev)) hmap hpast

/-- One entry more. -/
theorem state_setMap_fill (hfirst : first ≤ memtblsize memx) :
    (setMap memx (first + count) v).state (d.fill memx first count v) =
      d.fill memx first (count + 1) v := by
  by_cases hin : first + count < memtblsize memx
  · have hmap : Function.update (d.fill memx first count v).memmap memx
        (Function.update ((d.fill memx first count v).memmap memx) (first + count) v) =
        (d.fill memx first (count + 1) v).memmap := by
      funext m
      by_cases hm : m = memx
      · subst hm
        rw [Function.update_self]
        funext j
        by_cases hj : j = first + count
        · rw [hj, Function.update_self, fill_memmap, if_pos (by omega)]
        · rw [Function.update_of_ne hj, fill_memmap, fill_memmap]
          exact if_congr (by omega) rfl rfl
      · rw [Function.update_of_ne hm, fill_memmap_ne d _ _ _ hm, fill_memmap_ne d _ _ _ hm]
    have hpast : (d.fill memx first count v).past = (d.fill memx first (count + 1) v).past := by
      rw [fill_past, fill_past]
      congr 2
      exact propext (by omega)
    simp only [setMap, Prog.state_modify, if_pos hin]
    exact congrArg₂ (fun m p => ({ d with memmap := m, past := p } : Dev)) hmap hpast
  · have hmap : (d.fill memx first count v).memmap = (d.fill memx first (count + 1) v).memmap := by
      funext m
      by_cases hm : m = memx
      · subst hm
        funext j
        rw [fill_memmap, fill_memmap]
        exact if_congr (by omega) rfl rfl
      · rw [fill_memmap_ne d _ _ _ hm, fill_memmap_ne d _ _ _ hm]
    have hpast : true = (d.fill memx first (count + 1) v).past := by
      rw [fill_past, decide_eq_true (by omega), Bool.or_true]
    simp only [setMap, Prog.state_modify, if_neg hin]
    exact congrArg₂ (fun m p => ({ d with memmap := m, past := p } : Dev)) hmap hpast

theorem state_fillMap (hfirst : first ≤ memtblsize memx) :
    (fillMap memx first count v).state d = d.fill memx first count v := by
  refine Prog.forUp_inv (n := count) (I := fun i _ t => t = d.fill memx first i v) ?_
    (Nat.zero_add _) (fill_zero d first v).symm
  rintro j - _ t rfl
  exact state_setMap_fill d first j v hfirst

end Fill

theorem val_getMap (d : Dev) (i : ℕ) : (getMap memx i).val d = d.memmap memx i := rfl

theorem state_getMap (d : Dev) {i : ℕ} (h : i < memtblsize memx) : (getMap memx i).state d = d :=
  if_pos h

/-! ## Initialising -/

/-- The state `my_mem_init` leaves. -/
def Dev.inited (d : Dev) (memx : Memx) : Dev :=
  { d.fill memx 0 (memtblsize memx) 0 with memrdy := Function.update d.memrdy memx true }

theorem state_myMemInit (d : Dev) : (myMemInit memx).state d = d.inited memx := by
  simp only [myMemInit, Prog.state_bind, Prog.state_modify, state_fillMap _ _ _ _ (Nat.zero_le _)]
  rfl

theorem inited_memmap (d : Dev) {i : ℕ} (h : i < memtblsize memx) :
    (d.inited memx).memmap memx i = 0 := by
  rw [Dev.inited, fill_memmap, if_pos (by omega)]

theorem inited_memrdy (d : Dev) (memx : Memx) : (d.inited memx).memrdy memx = true :=
  Function.update_self ..

theorem inited_memrdy_ne (d : Dev) {memx' : Memx} (h : memx' ≠ memx) :
    (d.inited memx).memrdy memx' = d.memrdy memx' := Function.update_of_ne h _ _

theorem inited_past (d : Dev) : (d.inited memx).past = d.past := by
  rw [Dev.inited, fill_past, decide_eq_false (by omega), Bool.or_false]

/-! ## The search for free blocks -/

/-- The `n` blocks from `o` on are free. -/
def Room (d : Dev) (memx : Memx) (n o : ℕ) : Prop :=
  o + n ≤ memtblsize memx ∧ ∀ j, o ≤ j → j < o + n → d.memmap memx j = 0

/-- The search has looked at the last `i` blocks: the lowest `cmemb` of them are free, the
one after is not, and there is no room yet. -/
structure Searched (d : Dev) (memx : Memx) (n i cmemb : ℕ) : Prop where
  lt : cmemb < n
  le : cmemb ≤ i
  free : ∀ j, memtblsize memx - i ≤ j → j < memtblsize memx - i + cmemb → d.memmap memx j = 0
  stop : cmemb < i → d.memmap memx (memtblsize memx - i + cmemb) ≠ 0
  none : ∀ o, memtblsize memx - i ≤ o → ¬ Room d memx n o

section Search
variable {d : Dev} {n i cmemb : ℕ}

theorem searched_zero (hn : 0 < n) : Searched d memx n 0 0 where
  lt := hn
  le := le_rfl
  free j h₁ h₂ := by omega
  stop h := absurd h (lt_irrefl _)
  none o ho hroom := by
    have := hroom.1
    omega

/-- The next block is in use. -/
theorem Searched.used (h : Searched d memx n i cmemb) (hi : i < memtblsize memx)
    (hused : d.memmap memx (memtblsize memx - 1 - i) ≠ 0) : Searched d memx n (i + 1) 0 := by
  have hpos : memtblsize memx - (i + 1) = memtblsize memx - 1 - i := by omega
  refine ⟨Nat.zero_lt_of_lt h.lt, Nat.zero_le _, fun j h₁ h₂ => by omega, fun _ => ?_, ?_⟩
  · rw [hpos, Nat.add_zero]
    exact hused
  · intro o ho hroom
    rcases Nat.lt_or_ge o (memtblsize memx - i) with hlt | hge
    · -- the run would begin at the block in use
      refine hused (hroom.2 _ (by omega) ?_)
      have := h.lt
      omega
    · exact h.none o hge hroom

/-- The next block is free, and the run is still too short. -/
theorem Searched.longer (h : Searched d memx n i cmemb) (hi : i < memtblsize memx)
    (hfree : d.memmap memx (memtblsize memx - 1 - i) = 0) (hne : cmemb + 1 ≠ n) :
    Searched d memx n (i + 1) (cmemb + 1) := by
  have hlt := h.lt
  have hle := h.le
  have hfree' : ∀ j, memtblsize memx - (i + 1) ≤ j →
      j < memtblsize memx - (i + 1) + (cmemb + 1) → d.memmap memx j = 0 := by
    intro j h₁ h₂
    by_cases hj : j = memtblsize memx - 1 - i
    · rw [hj]
      exact hfree
    · exact h.free j (by omega) (by omega)
  have hstop : cmemb + 1 < i + 1 →
      d.memmap memx (memtblsize memx - (i + 1) + (cmemb + 1)) ≠ 0 := fun hc => by
    have hs := h.stop (by omega)
    rwa [show memtblsize memx - i + cmemb = memtblsize memx - (i + 1) + (cmemb + 1) by omega] at hs
  refine ⟨by omega, by omega, hfree', hstop, ?_⟩
  intro o ho hroom
  have hin := hroom.1
  rcases Nat.lt_or_ge o (memtblsize memx - i) with hlow | hge
  · -- the run would go on past the block that stopped the count
    exact hstop (by omega) (hroom.2 _ (by omega) (by omega))
  · exact h.none o hge hroom

/-- The next block completes the run. -/
theorem Searched.room (h : Searched d memx n i cmemb) (hi : i < memtblsize memx)
    (hfree : d.memmap memx (memtblsize memx - 1 - i) = 0) (hn : cmemb + 1 = n) :
    Room d memx n (memtblsize memx - 1 - i) := by
  have hle := h.le
  refine ⟨by omega, fun j h₁ h₂ => ?_⟩
  by_cases hj : j = memtblsize memx - 1 - i
  · rw [hj]
    exact hfree
  · exact h.free j (by omega) (by omega)

/-- One round of the search: it goes on, or takes the highest room there is. -/
theorem mallocRound_spec (h : Searched d memx n i cmemb) (hi : i < memtblsize memx) :
    ((mallocRound memx n i cmemb).val d).Holds
      (fun c => Searched d memx n (i + 1) c ∧ (mallocRound memx n i cmemb).state d = d)
      (fun off => ∃ o, Room d memx n o ∧ (∀ o' > o, ¬ Room d memx n o') ∧
        off = o * memblksize memx ∧ (mallocRound memx n i cmemb).state d = d.fill memx o n n) := by
  set o := memtblsize memx - 1 - i with ho
  have hget : (getMap memx o).state d = d := state_getMap d (by omega)
  have hn : n ≠ 0 := Nat.ne_of_gt (Nat.zero_lt_of_lt h.lt)
  by_cases hused : d.memmap memx o = 0
  · by_cases hlast : cmemb + 1 = n
    · have hval : (mallocRound memx n i cmemb).val d = .exit (o * memblksize memx) := by
        simp only [mallocRound, Prog.val_bind, Prog.val_pure, val_getMap, ← ho, hused, if_true,
          hlast]
      rw [hval, Flow.holds_exit]
      refine ⟨o, h.room hi hused hlast, fun o' ho' => h.none o' (by omega), rfl, ?_⟩
      simp only [mallocRound, Prog.state_bind, Prog.state_pure, val_getMap, ← ho, hused, if_true,
        hlast, hget]
      exact state_fillMap d o n n (by omega)
    · have hval : (mallocRound memx n i cmemb).val d = .next (cmemb + 1) := by
        simp only [mallocRound, Prog.val_bind, Prog.val_pure, val_getMap, ← ho, hused, if_true,
          hlast, if_false]
      rw [hval, Flow.holds_next]
      refine ⟨h.longer hi hused hlast, ?_⟩
      simp only [mallocRound, Prog.state_bind, Prog.state_pure, val_getMap, ← ho, hused, if_true,
        hlast, if_false, hget]
  · have hval : (mallocRound memx n i cmemb).val d = .next 0 := by
      simp only [mallocRound, Prog.val_bind, Prog.val_pure, val_getMap, ← ho, hused, if_false,
        hn.symm]
    rw [hval, Flow.holds_next]
    refine ⟨h.used hi hused, ?_⟩
    simp only [mallocRound, Prog.state_bind, Prog.state_pure, val_getMap, ← ho, hused, if_false,
      hn.symm, hget]

end Search

/-! ## Allocating and freeing -/

theorem nmemb_pos (memx : Memx) {size : ℕ} (h : 0 < size) : 0 < nmemb memx size := by
  have hblk := memblksize_pos memx
  rw [nmemb]
  split
  · exact Nat.succ_pos _
  · rename_i hmod
    have hdiv := Nat.div_add_mod size (memblksize memx)
    rcases Nat.eq_zero_or_pos (size / memblksize memx) with hz | hp
    · rw [hz] at hdiv
      omega
    · exact hp

/-- The blocks cover the bytes asked for. -/
theorem le_nmemb_mul (memx : Memx) (size : ℕ) : size ≤ nmemb memx size * memblksize memx := by
  have hdiv := Nat.div_add_mod' size (memblksize memx)
  have hlt := Nat.mod_lt size (memblksize_pos memx)
  rw [nmemb, Nat.add_mul]
  split <;> omega

/-- The blocks needed are the size over that of a block, rounded up. -/
theorem nmemb_eq_ceil (memx : Memx) (size : ℕ) :
    nmemb memx size = (size + memblksize memx - 1) / memblksize memx := by
  have hblk := memblksize_pos memx
  have hdiv := Nat.div_add_mod' size (memblksize memx)
  have hlt := Nat.mod_lt size hblk
  rw [nmemb]
  split
  · rw [eq_comm, Nat.div_eq_iff hblk, Nat.add_mul, Nat.one_mul]
    omega
  · rw [eq_comm, Nat.div_eq_iff hblk, Nat.add_zero]
    omega

/-- A pool that is not ready is initialised before it is searched. -/
theorem myMemMalloc_inited {d : Dev} (h : d.memrdy memx = false) (size : ℕ) :
    myMemMalloc memx size d = myMemMalloc memx size (d.inited memx) := by
  have hr := inited_memrdy d memx
  simp only [myMemMalloc, Prog.bind_apply, Prog.val_get, Prog.state_get, h, hr, if_true,
    Bool.true_eq_false, if_false]
  rw [state_myMemInit]

theorem myMemMalloc_zero {d : Dev} (h : d.memrdy memx = true) :
    myMemMalloc memx 0 d = (0xFFFFFFFF, d) := by
  simp only [myMemMalloc, Prog.bind_apply, Prog.val_get, Prog.state_get, h]
  rfl

/-- The search takes the highest room there is, and fails only where there is none. -/
theorem myMemMalloc_cases {d : Dev} (h : d.memrdy memx = true) {size : ℕ} (hsize : 0 < size) :
    (∃ o, Room d memx (nmemb memx size) o ∧ (∀ o' > o, ¬ Room d memx (nmemb memx size) o') ∧
      myMemMalloc memx size d =
        (o * memblksize memx, d.fill memx o (nmemb memx size) (nmemb memx size))) ∨
    ((∀ o, ¬ Room d memx (nmemb memx size) o) ∧ myMemMalloc memx size d = (0xFFFFFFFF, d)) := by
  set n := nmemb memx size
  set search := Prog.loop (mallocRound memx n) (memtblsize memx) 0 0 with hsearch
  have hexit (offset : ℕ) (hv : (Prog.loop (mallocRound memx (nmemb memx size))
      (memtblsize memx) 0 0).val d = .exit offset) :
      myMemMalloc memx size d = (offset, search.state d) := by
    simp only [myMemMalloc, Prog.bind_apply, Prog.val_get, Prog.state_get, h, Bool.true_eq_false,
      if_false, Nat.ne_of_gt hsize, hv]
    rfl
  have hnext (c : ℕ) (hv : (Prog.loop (mallocRound memx (nmemb memx size))
      (memtblsize memx) 0 0).val d = .next c) :
      myMemMalloc memx size d = (0xFFFFFFFF, search.state d) := by
    simp only [myMemMalloc, Prog.bind_apply, Prog.val_get, Prog.state_get, h, Bool.true_eq_false,
      if_false, Nat.ne_of_gt hsize, hv]
    rfl
  have hspec : (search.val d).Holds
      (fun c => search.state d = d ∧ Searched d memx n (memtblsize memx) c)
      (fun off => ∃ o, Room d memx n o ∧ (∀ o' > o, ¬ Room d memx n o') ∧
        off = o * memblksize memx ∧ search.state d = d.fill memx o n n) := by
    refine Prog.loop_inv (I := fun i c t => t = d ∧ Searched d memx n i c)
      (Q := fun off t => ∃ o, Room d memx n o ∧ (∀ o' > o, ¬ Room d memx n o') ∧
        off = o * memblksize memx ∧ t = d.fill memx o n n)
      ?_ (Nat.zero_add _) ⟨rfl, searched_zero (nmemb_pos memx hsize)⟩
    rintro i hi c t ⟨rfl, hs⟩
    have hround := mallocRound_spec hs hi
    cases hv : (mallocRound memx n i c).val t with
    | next c' =>
        rw [hv] at hround
        exact ⟨hround.2, hround.1⟩
    | exit off =>
        rw [hv] at hround
        exact hround
  cases hv : search.val d with
  | exit off =>
      rw [hv] at hspec
      obtain ⟨o, hroom, hmax, hoff, hstate⟩ := hspec
      refine Or.inl ⟨o, hroom, hmax, ?_⟩
      rw [hexit off hv]
      exact Prod.ext hoff hstate
  | next c =>
      rw [hv] at hspec
      refine Or.inr ⟨fun o => hspec.2.none o (by omega), ?_⟩
      rw [hnext c hv]
      exact Prod.ext rfl hspec.1

/-- `my_mem_malloc` fails exactly when nothing is asked for or no run of free blocks is long
enough, and then changes nothing; otherwise it takes the highest such run, and sets the entries
of that run and no others. -/
theorem myMemMalloc_highest {d : Dev} (h : d.memrdy memx = true) (size : ℕ) :
    let n := (size + memblksize memx - 1) / memblksize memx
    let r := (myMemMalloc memx size).val d
    let d' := (myMemMalloc memx size).state d
    (r = 0xFFFFFFFF ↔ size = 0 ∨ ∀ o, ¬ Room d memx n o) ∧
      (r = 0xFFFFFFFF → d' = d) ∧
      (r ≠ 0xFFFFFFFF → ∃ o, Room d memx n o ∧ (∀ o' > o, ¬ Room d memx n o') ∧
        r = o * memblksize memx ∧ d'.past = d.past ∧
        ∀ memx' i, i < memtblsize memx' → d'.memmap memx' i =
          if memx' = memx ∧ o ≤ i ∧ i < o + n then n else d.memmap memx' i) := by
  intro n r d'
  have hceil : nmemb memx size = n := nmemb_eq_ceil memx size
  rcases Nat.eq_zero_or_pos size with rfl | hsize
  · have hrun := myMemMalloc_zero h
    have hr : r = 0xFFFFFFFF := congrArg Prod.fst hrun
    exact ⟨⟨fun _ => Or.inl rfl, fun _ => hr⟩, fun _ => congrArg Prod.snd hrun,
      fun hne => absurd hr hne⟩
  · have hpos := nmemb_pos memx hsize
    rw [hceil] at hpos
    rcases myMemMalloc_cases h hsize with ⟨o, hroom, hmax, hrun⟩ | ⟨hnone, hrun⟩
    · rw [hceil] at hroom hmax hrun
      have hr : r = o * memblksize memx := congrArg Prod.fst hrun
      have hstate : d' = d.fill memx o n n := congrArg Prod.snd hrun
      have hin := hroom.1
      have hlt : o * memblksize memx < memsize memx := by
        rw [← memtblsize_mul]
        exact Nat.mul_lt_mul_of_pos_right (by omega) (memblksize_pos memx)
      have hne : r ≠ 0xFFFFFFFF := by
        have := memsize_lt memx
        omega
      refine ⟨⟨fun hr' => absurd hr' hne, ?_⟩, fun hr' => absurd hr' hne, fun _ => ?_⟩
      · rintro (h0 | hnone)
        · omega
        · exact absurd hroom (hnone o)
      · refine ⟨o, hroom, hmax, hr, ?_, fun memx' i hi => ?_⟩
        · rw [hstate, fill_past, decide_eq_false (by omega), Bool.or_false]
        · rw [hstate]
          by_cases hm : memx' = memx
          · subst hm
            rw [fill_memmap]
            simp only [true_and]
            exact if_congr (by omega) rfl rfl
          · rw [fill_memmap_ne d _ _ _ hm, if_neg fun h' => hm h'.1]
    · rw [hceil] at hnone
      have hr : r = 0xFFFFFFFF := congrArg Prod.fst hrun
      exact ⟨⟨fun _ => Or.inr hnone, fun _ => hr⟩, fun _ => congrArg Prod.snd hrun,
        fun hne => absurd hr hne⟩

/-- In an empty pool of 800 blocks 100 bytes get the last two. -/
theorem myMemMalloc_highest_empty :
    let d : Dev := ⟨fun _ _ => 0, fun _ => true, fun _ => 0, false⟩
    let n := (100 + memblksize .sramin - 1) / memblksize .sramin
    let r := (myMemMalloc .sramin 100).val d
    let d' := (myMemMalloc .sramin 100).state d
    (r = 0xFFFFFFFF ↔ 100 = 0 ∨ ∀ o, ¬ Room d .sramin n o) ∧
      (r = 0xFFFFFFFF → d' = d) ∧
      (r ≠ 0xFFFFFFFF → ∃ o, Room d .sramin n o ∧ (∀ o' > o, ¬ Room d .sramin n o') ∧
        r = o * memblksize .sramin ∧ d'.past = d.past ∧
        ∀ memx' i, i < memtblsize memx' → d'.memmap memx' i =
          if memx' = .sramin ∧ o ≤ i ∧ i < o + n then n else d.memmap memx' i) :=
  myMemMalloc_highest rfl 100

/-- A free clears as many entries as the first of them says. -/
theorem state_myMemFree {d : Dev} (h : d.memrdy memx = true) {offset : ℕ}
    (hoff : offset < memsize memx) : (myMemFree memx offset).state d =
      d.fill memx (offset / memblksize memx) (d.memmap memx (offset / memblksize memx)) 0 := by
  have hidx : offset / memblksize memx < memtblsize memx := by
    rw [Nat.div_lt_iff_lt_mul (memblksize_pos memx), memtblsize_mul]
    exact hoff
  simp only [myMemFree, Prog.state_bind, Prog.val_get, Prog.state_get, h, Bool.true_eq_false,
    if_false, hoff, if_true, val_getMap, state_getMap d hidx, Prog.state_pure]
  exact state_fillMap d _ _ _ (Nat.le_of_lt hidx)

theorem state_myMemFree_outside {d : Dev} (h : d.memrdy memx = true) {offset : ℕ}
    (hoff : memsize memx ≤ offset) : (myMemFree memx offset).state d = d := by
  simp only [myMemFree, Prog.state_bind, Prog.val_get, Prog.state_get, h, Bool.true_eq_false,
    if_false, Nat.not_lt.mpr hoff, Prog.state_pure]

theorem state_myMemFree_inited {d : Dev} (h : d.memrdy memx = false) (offset : ℕ) :
    (myMemFree memx offset).state d = d.inited memx := by
  simp only [myMemFree, Prog.state_bind, Prog.val_get, Prog.state_get, h, if_true,
    state_myMemInit, Prog.state_pure]

end Apollo.Malloc
