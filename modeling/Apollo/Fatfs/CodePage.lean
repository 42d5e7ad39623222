import Apollo.Lib.Bisect
import Apollo.Norflash.Write
import Apollo.Text.Fonts
import Mathlib.Data.List.GetD

/-!
# Conversions between the code page and Unicode

FatFs converts characters with two tables that stand in the NOR flash one behind the other:
from Unicode to the code page, and back.  Both are searched by halving, with sixteen probes;
codes below 0x80 are not looked up, they are the same in both.

## Main definitions

* `ffUni2oem`, `ffOem2uni` — the code, with the reads of the chip on record.
* `CodeTable` — a table; `CodeTable.Finds` — what a search of it has to answer.
* `Ugbk` — two tables as the font library holds them.
* `search_absent`, `search_finds` — the search answers so, and reads nothing but the table.
* `conversions_right` — what follows for the conversions, there and back.
-/

namespace Apollo.Fatfs
open Lib Norflash Text

/-- The chip, and the reads of it so far: where, and how many bytes. -/
structure Flash where
  nor : Nor
  reads : List (ℕ × ℕ)

/-- The `WCHAR` at `i`. -/
def wchar (buf : ℕ → UInt8) (i : ℕ) : ℕ := (buf i).toNat + 2 ^ 8 * (buf (i + 1)).toNat

section Code
variable (P : Part) (ftinfo : FontInfo)

/-- `norflash_read((uint8_t *)&t, addr, 4)`: `t[0]` and `t[1]`. -/
def readPair (addr : ℕ) : Prog Flash (ℕ × ℕ) := do
  Prog.modify fun s => { s with reads := (addr, 4) :: s.reads }
  let buf ← (norflashRead P (fun _ => 0) addr 4).within Flash.nor fun nor s => { s with nor := nor }
  pure (wchar buf 0, wchar buf 2)

/-- The bounds of a search. -/
structure Bounds where
  li : ℕ
  hi : ℕ

/-- One round of the search for `code` in the table behind `gbk2uniOffset`. -/
def probeRound (gbk2uniOffset code : ℕ) (_n : ℕ) (b : Bounds) : Prog Flash (Flow Bounds ℕ) := do
  let i := middle b.li b.hi
  let t ← readPair P ((ftinfo.ugbkaddr.toNat + i * 4 + gbk2uniOffset) % 2 ^ 32)
  if code = t.1 then pure (.exit t.2)
  else if t.1 < code then pure (.next { b with li := i })
  else pure (.next { b with hi := i })

/-- The search that `ff_uni2oem` and `ff_oem2uni` make of codes from 0x80 on. -/
def search (gbk2uniOffset code : ℕ) : Prog Flash ℕ := do
  let hi := (ftinfo.ugbksize.toNat / 2 / 4 + 2 ^ 32 - 1) % 2 ^ 32
  match ← Prog.loop (probeRound P ftinfo gbk2uniOffset code) 16 0 ⟨0, hi⟩ with
  | .next _ => pure 0
  | .exit c => pure c

def ffUni2oem (uni : ℕ) : Prog Flash ℕ :=
  if uni < 0x80 then pure uni else search P ftinfo 0 uni

def ffOem2uni (oem : ℕ) : Prog Flash ℕ :=
  if oem < 0x80 then pure oem else search P ftinfo (ftinfo.ugbksize.toNat / 2) oem

end Code

/-! ## Tables -/

/-- A conversion table: codes in increasing order, and what they are converted to. -/
structure CodeTable where
  pairs : List (UInt16 × UInt16)
  increasing : pairs.Pairwise fun p q => p.1 < q.1
  small : pairs.length < 65536

namespace CodeTable
variable (T : CodeTable)

/-- How many pairs the table has, without the terminator. -/
abbrev size : ℕ := T.pairs.length

/-- The pair at the index `i`; behind the pairs stands the terminator. -/
def pair (i : ℕ) : UInt16 × UInt16 := T.pairs.getD i (0, 0)

/-- The table stands in `mem` at `a`. -/
def Stored (mem : ℕ → UInt8) (a : ℕ) : Prop :=
  ∀ i ≤ T.size, wchar mem (a + 4 * i) = (T.pair i).1.toNat ∧
    wchar mem (a + 4 * i + 2) = (T.pair i).2.toNat

/-- `c` is the answer to `code`: what it is mapped to, and 0 when the table does not have it. -/
structure Finds (code c : ℕ) : Prop where
  present : ∀ p ∈ T.pairs, p.1.toNat = code → c = p.2.toNat
  absent : (∀ p ∈ T.pairs, p.1.toNat ≠ code) → c = 0

theorem pair_of_lt {i : ℕ} (h : i < T.size) : T.pair i = T.pairs[i] :=
  List.getD_eq_getElem _ _ h

theorem pair_terminator : T.pair T.size = (0, 0) :=
  List.getD_eq_default _ _ (Nat.le_refl _)

/-- The codes increase with the index. -/
theorem code_lt {i j : ℕ} (hij : i < j) (hj : j < T.size) :
    (T.pair i).1.toNat < (T.pair j).1.toNat := by
  rw [pair_of_lt T (hij.trans hj), pair_of_lt T hj]
  exact UInt16.lt_iff_toNat_lt.mp
    (List.pairwise_iff_getElem.mp T.increasing i j (hij.trans hj) hj hij)

/-- A code is at one index only. -/
theorem index_unique {i j : ℕ} (hi : i < T.size) (hj : j < T.size)
    (h : (T.pair i).1.toNat = (T.pair j).1.toNat) : i = j := by
  rcases Nat.lt_trichotomy i j with hlt | heq | hlt
  · have := T.code_lt hlt hj
    omega
  · exact heq
  · have := T.code_lt hlt hi
    omega

/-- What order the codes have, their indices have. -/
theorem index_lt {i j : ℕ} (hi : i < T.size) (h : (T.pair i).1.toNat < (T.pair j).1.toNat) :
    i < j := by
  by_contra hle
  rcases Nat.lt_or_eq_of_le (Nat.le_of_not_lt hle) with hlt | rfl
  · have := T.code_lt hlt hi
    omega
  · omega

end CodeTable

/-- Two tables of one length, as the font library holds them: from Unicode, and back. -/
structure Ugbk (P : Part) (ftinfo : FontInfo) (U O : CodeTable) (mem : ℕ → UInt8) : Prop where
  length : ftinfo.ugbksize.toNat = 8 * (U.size + 1)
  same : O.size = U.size
  onChip : ftinfo.ugbkaddr.toNat + ftinfo.ugbksize.toNat ≤ P.size
  uni : U.Stored mem ftinfo.ugbkaddr.toNat
  oem : O.Stored mem (ftinfo.ugbkaddr.toNat + 4 * (U.size + 1))

/-- The table `T` stands behind `gbk2uniOffset`. -/
structure Placed (P : Part) (ftinfo : FontInfo) (gbk2uniOffset : ℕ) (T : CodeTable)
    (mem : ℕ → UInt8) : Prop where
  length : ftinfo.ugbksize.toNat = 8 * (T.size + 1)
  onChip : ftinfo.ugbkaddr.toNat + gbk2uniOffset + 4 * (T.size + 1) ≤ P.size
  stored : T.Stored mem (ftinfo.ugbkaddr.toNat + gbk2uniOffset)

/-- A read of four bytes inside a table of `n` pairs at `a`, its terminator included. -/
def Inside (a n : ℕ) (r : ℕ × ℕ) : Prop := a ≤ r.1 ∧ r.1 + r.2 ≤ a + 4 * (n + 1)

section
variable {P : Part} {ftinfo : FontInfo} {U O T : CodeTable} {mem : ℕ → UInt8} {off : ℕ}

theorem Ugbk.placed_uni (h : Ugbk P ftinfo U O mem) : Placed P ftinfo 0 U mem := by
  have hlength := h.length
  have honchip := h.onChip
  exact ⟨h.length, by omega, h.uni⟩

theorem Ugbk.half (h : Ugbk P ftinfo U O mem) :
    ftinfo.ugbksize.toNat / 2 = 4 * (U.size + 1) := by
  have hlength := h.length
  omega

theorem Ugbk.placed_oem (h : Ugbk P ftinfo U O mem) :
    Placed P ftinfo (ftinfo.ugbksize.toNat / 2) O mem := by
  have hlength := h.length
  have honchip := h.onChip
  rw [h.half]
  exact ⟨by rw [h.same, h.length], by rw [h.same]; omega, h.oem⟩

/-! ## One probe -/

/-- What `readPair` answers, and that it leaves a record. -/
theorem readPair_apply {addr : ℕ} (h : addr < P.size) (s : Flash) :
    readPair P addr s = ((wchar s.nor.mem addr, wchar s.nor.mem (addr + 2)),
      { s with reads := (addr, 4) :: s.reads }) := by
  have hread : (norflashRead P (fun _ => 0) addr 4).val s.nor =
      overlay (fun _ => 0) 0 (shift s.nor.mem addr) 4 := val_norflashRead P h 4
  rw [readPair, Prog.bind_apply, Prog.bind_apply]
  simp only [Prog.state_modify, Prog.val_within, Prog.state_within, hread]
  rfl

theorem Placed.probe_addr (h : Placed P ftinfo off T mem) {i : ℕ} (hi : i ≤ T.size) :
    (ftinfo.ugbkaddr.toNat + i * 4 + off) % 2 ^ 32 = ftinfo.ugbkaddr.toNat + off + 4 * i ∧
      ftinfo.ugbkaddr.toNat + off + 4 * i < P.size := by
  have honchip := h.onChip
  have hsize := P.size_le
  omega

/-- A round of the search of a table: one probe of its middle. -/
theorem probeRound_apply (h : Placed P ftinfo off T mem) {code j : ℕ} {b : Bounds} {s : Flash}
    (hi : middle b.li b.hi ≤ T.size) (hmem : s.nor.mem = mem) :
    probeRound P ftinfo off code j b s =
      (if code = (T.pair (middle b.li b.hi)).1.toNat then
          .exit (T.pair (middle b.li b.hi)).2.toNat
        else if (T.pair (middle b.li b.hi)).1.toNat < code then
          .next { b with li := middle b.li b.hi }
        else .next { b with hi := middle b.li b.hi },
      { s with
        reads := (ftinfo.ugbkaddr.toNat + off + 4 * middle b.li b.hi, 4) :: s.reads }) := by
  obtain ⟨haddr, hlt⟩ := h.probe_addr hi
  obtain ⟨hkey, hto⟩ := h.stored _ hi
  rw [probeRound, Prog.bind_apply, Prog.val, Prog.state, haddr, readPair_apply hlt, hmem, hkey,
    hto]
  dsimp only
  split
  · rfl
  · split <;> rfl

/-! ## The search -/

/-- The state of a search that has kept to the table. -/
structure Searching (T : CodeTable) (a : ℕ) (nor : Nor) (b : Bounds) (s : Flash) : Prop where
  order : b.li ≤ b.hi
  top : b.hi ≤ T.size
  nor_eq : s.nor = nor
  reads : ∀ r ∈ s.reads, Inside a T.size r

/-- A round keeps to the table, and leaves with an answer only if the table has the code. -/
theorem searching_round (h : Placed P ftinfo off T mem) {code j : ℕ} {b : Bounds} {s : Flash}
    {nor : Nor} (hnor : nor.mem = mem)
    (I : Searching T (ftinfo.ugbkaddr.toNat + off) nor b s) :
    ((probeRound P ftinfo off code j b).val s).Holds
      (fun b' => Searching T (ftinfo.ugbkaddr.toNat + off) nor b'
        ((probeRound P ftinfo off code j b).state s))
      fun c => ((∀ p ∈ T.pairs, p.1.toNat ≠ code) → c = 0) ∧
        ∀ r ∈ ((probeRound P ftinfo off code j b).state s).reads,
          Inside (ftinfo.ugbkaddr.toNat + off) T.size r := by
  have hmiddle : middle b.li b.hi ≤ b.hi := middle_le I.order
  have hi : middle b.li b.hi ≤ T.size := hmiddle.trans I.top
  have hmem : s.nor.mem = mem := by rw [I.nor_eq, hnor]
  have hreads : ∀ r ∈ (ftinfo.ugbkaddr.toNat + off + 4 * middle b.li b.hi, 4) :: s.reads,
      Inside (ftinfo.ugbkaddr.toNat + off) T.size r := by
    intro r hr
    rcases List.mem_cons.mp hr with rfl | hr
    · unfold Inside
      omega
    · exact I.reads r hr
  rw [Prog.val, Prog.state, probeRound_apply h hi hmem]
  dsimp only
  split
  · rename_i hcode
    refine ⟨fun habsent => ?_, hreads⟩
    rcases Nat.lt_or_eq_of_le hi with hlt | heq
    · rw [T.pair_of_lt hlt] at hcode
      exact absurd hcode.symm (habsent _ (List.getElem_mem hlt))
    · rw [heq, T.pair_terminator]
      rfl
  · split
    · exact ⟨hmiddle, I.top, I.nor_eq, hreads⟩
    · exact ⟨le_middle _ _, hi, I.nor_eq, hreads⟩

/-- The state of a search for the code of the entry `j`, after `k` probes. -/
structure Narrowing (T : CodeTable) (j : ℕ) (nor : Nor) (k : ℕ) (b : Bounds) (s : Flash) :
    Prop where
  between : Between b.li b.hi j
  top : b.hi ≤ T.size
  nor_eq : s.nor = nor
  room : 2 ^ k * unprobed b.li b.hi ≤ T.size

/-- A round halves what is left, and leaves with what the entry is mapped to. -/
theorem narrowing_round (h : Placed P ftinfo off T mem) {j k : ℕ} (hj : j < T.size) {b : Bounds}
    {s : Flash} {nor : Nor} (hnor : nor.mem = mem) (I : Narrowing T j nor k b s) :
    ((probeRound P ftinfo off (T.pair j).1.toNat k b).val s).Holds
      (fun b' => Narrowing T j nor (k + 1) b'
        ((probeRound P ftinfo off (T.pair j).1.toNat k b).state s))
      fun c => c = (T.pair j).2.toNat := by
  have hlt : middle b.li b.hi < T.size := Nat.lt_of_lt_of_le I.between.middle_lt I.top
  have hmem : s.nor.mem = mem := by rw [I.nor_eq, hnor]
  have hroom {m : ℕ} (hhalf : 2 * m ≤ unprobed b.li b.hi) : 2 ^ (k + 1) * m ≤ T.size := by
    calc 2 ^ (k + 1) * m = 2 ^ k * (2 * m) := by rw [Nat.pow_succ, Nat.mul_assoc]
      _ ≤ 2 ^ k * unprobed b.li b.hi := Nat.mul_le_mul_left _ hhalf
      _ ≤ T.size := I.room
  rw [Prog.val, Prog.state, probeRound_apply h hlt.le hmem]
  dsimp only
  split
  · rename_i hcode
    rw [T.index_unique hj hlt hcode]
    rfl
  · rename_i hne
    split
    · rename_i hless
      have hbehind : middle b.li b.hi < j := T.index_lt hlt hless
      exact ⟨I.between.upper hbehind, I.top, I.nor_eq, hroom (unprobed_upper I.between hbehind)⟩
    · rename_i hless
      have hbefore : j < middle b.li b.hi := T.index_lt hj (by omega)
      exact ⟨I.between.lower hbefore, hlt.le, I.nor_eq, hroom (unprobed_lower _ _)⟩

/-- The upper bound that a search begins with. -/
theorem Placed.first_hi (h : Placed P ftinfo off T mem) :
    (ftinfo.ugbksize.toNat / 2 / 4 + 2 ^ 32 - 1) % 2 ^ 32 = T.size := by
  have hlength := h.length
  have hlt := ftinfo.ugbksize.toNat_lt
  omega

/-- The search reads nothing but its table, and answers 0 when the table lacks the code. -/
theorem search_absent (h : Placed P ftinfo off T mem) {nor : Nor} (hnor : nor.mem = mem)
    (code : ℕ) :
    ((∀ p ∈ T.pairs, p.1.toNat ≠ code) → (search P ftinfo off code).val ⟨nor, []⟩ = 0) ∧
      ∀ r ∈ ((search P ftinfo off code).state ⟨nor, []⟩).reads,
        Inside (ftinfo.ugbkaddr.toNat + off) T.size r := by
  set probes := Prog.loop (probeRound P ftinfo off code) 16 0 ⟨0, T.size⟩ with hprobes
  have hrun : (probes.val ⟨nor, []⟩).Holds
      (fun b => Searching T (ftinfo.ugbkaddr.toNat + off) nor b (probes.state ⟨nor, []⟩))
      fun c => ((∀ p ∈ T.pairs, p.1.toNat ≠ code) → c = 0) ∧
        ∀ r ∈ (probes.state ⟨nor, []⟩).reads, Inside (ftinfo.ugbkaddr.toNat + off) T.size r :=
    Prog.loop_inv (n := 16) (I := fun _ => Searching T (ftinfo.ugbkaddr.toNat + off) nor)
      (Q := fun c t => ((∀ p ∈ T.pairs, p.1.toNat ≠ code) → c = 0) ∧
        ∀ r ∈ t.reads, Inside (ftinfo.ugbkaddr.toNat + off) T.size r)
      (fun _ _ _ _ I => searching_round h hnor I) (Nat.zero_add 16)
      ⟨Nat.zero_le _, Nat.le_refl _, rfl, fun r hr => absurd hr List.not_mem_nil⟩
  rw [search, h.first_hi, Prog.val_bind, Prog.state_bind, ← hprobes]
  cases hv : probes.val ⟨nor, []⟩ with
  | next b =>
      rw [hv] at hrun
      exact ⟨fun _ => rfl, hrun.reads⟩
  | exit c =>
      rw [hv] at hrun
      exact hrun

/-- Sixteen probes find every code of the table. -/
theorem search_present (h : Placed P ftinfo off T mem) {s : Flash} (hnor : s.nor.mem = mem)
    {j : ℕ} (hj : j < T.size) :
    (search P ftinfo off (T.pair j).1.toNat).val s = (T.pair j).2.toNat := by
  set probes := Prog.loop (probeRound P ftinfo off (T.pair j).1.toNat) 16 0 ⟨0, T.size⟩
    with hprobes
  have hrun : (probes.val s).Holds (fun b => Narrowing T j s.nor 16 b (probes.state s))
      fun c => c = (T.pair j).2.toNat :=
    Prog.loop_inv (I := Narrowing T j s.nor) (Q := fun c _ => c = (T.pair j).2.toNat)
      (fun _ _ _ _ I => narrowing_round h hj hnor I) (Nat.zero_add 16)
      ⟨Between.start hj, Nat.le_refl _, rfl, by simp [unprobed]⟩
  rw [search, h.first_hi, Prog.val_bind, ← hprobes]
  cases hv : probes.val s with
  | next b =>
      -- a candidate would be left, and there is room for none
      rw [hv] at hrun
      have hpos := hrun.between.unprobed_pos
      have hroom := hrun.room
      have hsmall : T.size < 65536 := T.small
      omega
  | exit c =>
      rw [hv] at hrun
      exact hrun

theorem search_mem (h : Placed P ftinfo off T mem) {s : Flash} (hnor : s.nor.mem = mem)
    {p : UInt16 × UInt16} (hp : p ∈ T.pairs) :
    (search P ftinfo off p.1.toNat).val s = p.2.toNat := by
  obtain ⟨j, hj, rfl⟩ := List.getElem_of_mem hp
  rw [← T.pair_of_lt hj]
  exact search_present h hnor hj

/-- The search of a table finds what is to be found. -/
theorem search_finds (h : Placed P ftinfo off T mem) {nor : Nor} (hnor : nor.mem = mem)
    (code : ℕ) : T.Finds code ((search P ftinfo off code).val ⟨nor, []⟩) := by
  refine ⟨fun p hp hcode => ?_, (search_absent h hnor code).1⟩
  rw [← hcode]
  exact search_mem h hnor hp

/-! ## The conversions -/

theorem keeps_readPair (addr : ℕ) : Prog.Keeps Flash.nor (readPair P addr) :=
  .bind (fun _ => rfl) fun _ => .bind (fun _ => rfl) fun _ => .pure _

theorem keeps_search (code : ℕ) : Prog.Keeps Flash.nor (search P ftinfo off code) := by
  refine .bind (.loop (fun _ b => .bind (keeps_readPair _) fun t => ?_) 16 0 _) fun out => ?_
  · exact .ite _ (.pure _) (.ite _ (.pure _) (.pure _))
  · cases out <;> exact .pure _

theorem ffUni2oem_high {code : ℕ} (h : 0x80 ≤ code) :
    ffUni2oem P ftinfo code = search P ftinfo 0 code := if_neg (Nat.not_lt.mpr h)

theorem ffOem2uni_high {code : ℕ} (h : 0x80 ≤ code) :
    ffOem2uni P ftinfo code = search P ftinfo (ftinfo.ugbksize.toNat / 2) code :=
  if_neg (Nat.not_lt.mpr h)

/-- The two searches answer as the tables say and read nothing else; the conversions of codes
from 0x80 on are these searches; and a conversion there and back that does not pass through a
code below 0x80 ends where it began. -/
theorem conversions_right {nor : Nor} (h : Ugbk P ftinfo U O nor.mem) :
    (∀ code, U.Finds code ((search P ftinfo 0 code).val ⟨nor, []⟩) ∧
      ∀ r ∈ ((search P ftinfo 0 code).state ⟨nor, []⟩).reads,
        Inside ftinfo.ugbkaddr.toNat U.size r) ∧
    (∀ code, O.Finds code ((search P ftinfo (ftinfo.ugbksize.toNat / 2) code).val ⟨nor, []⟩) ∧
      ∀ r ∈ ((search P ftinfo (ftinfo.ugbksize.toNat / 2) code).state ⟨nor, []⟩).reads,
        Inside (ftinfo.ugbkaddr.toNat + ftinfo.ugbksize.toNat / 2) O.size r) ∧
    (∀ code, 0x80 ≤ code → ffUni2oem P ftinfo code = search P ftinfo 0 code ∧
      ffOem2uni P ftinfo code = search P ftinfo (ftinfo.ugbksize.toNat / 2) code) ∧
    ((∀ u o, (u, o) ∈ U.pairs ↔ (o, u) ∈ O.pairs) →
      ∀ u o, (u, o) ∈ U.pairs → 0x80 ≤ u.toNat → 0x80 ≤ o.toNat →
        (do let c ← ffUni2oem P ftinfo u.toNat; ffOem2uni P ftinfo c).val ⟨nor, []⟩ =
          u.toNat) := by
  refine ⟨fun code => ⟨search_finds h.placed_uni rfl code, (search_absent h.placed_uni rfl code).2⟩,
    fun code => ⟨search_finds h.placed_oem rfl code, (search_absent h.placed_oem rfl code).2⟩,
    fun code hcode => ⟨ffUni2oem_high hcode, ffOem2uni_high hcode⟩, ?_⟩
  intro hinverse u o huo hu ho
  have hthere : (search P ftinfo 0 u.toNat).val ⟨nor, []⟩ = o.toNat :=
    search_mem h.placed_uni rfl huo
  have hnor : ((search P ftinfo 0 u.toNat).state ⟨nor, []⟩).nor = nor := keeps_search _ _
  rw [Prog.val_bind, ffUni2oem_high hu, hthere, ffOem2uni_high ho]
  exact search_mem h.placed_oem (by rw [hnor]) ((hinverse u o).mp huo)

end

/-! ## Small tables -/

/-- A font library at the start of the chip, of two tables in `size` bytes. -/
def tablesOf (size : UInt32) : FontInfo where
  fontok := 0xAA
  ugbkaddr := 0
  ugbksize := size
  f12addr := 0
  gbk12size := 0
  f16addr := 0
  gbk16size := 0
  f24addr := 0
  gbk24size := 0
  f32addr := 0
  gbk32size := 0

/-- A table of one pair. -/
def CodeTable.single (p : UInt16 × UInt16) : CodeTable :=
  ⟨[p], List.pairwise_singleton _ _, by simp⟩

/-- A chip that begins with `bytes`. -/
def chipOf (bytes : List UInt8) : Nor := { Nor.fresh with mem := fun a => bytes.getD a 0xFF }

/-- Three characters and their codes in GBK. -/
def uniTable : CodeTable :=
  ⟨[(0x4E00, 0xD2BB), (0x4E01, 0xB6A1), (0x4E03, 0xC6DF)], by decide, by decide⟩

/-- The codes are in another order. -/
def oemTable : CodeTable :=
  ⟨[(0xB6A1, 0x4E01), (0xC6DF, 0x4E03), (0xD2BB, 0x4E00)], by decide, by decide⟩

/-- The two tables on the chip. -/
def threePairs : Nor :=
  chipOf [0x00, 0x4E, 0xBB, 0xD2, 0x01, 0x4E, 0xA1, 0xB6, 0x03, 0x4E, 0xDF, 0xC6, 0, 0, 0, 0,
    0xA1, 0xB6, 0x01, 0x4E, 0xDF, 0xC6, 0x03, 0x4E, 0xBB, 0xD2, 0x00, 0x4E, 0, 0, 0, 0]

theorem conversions_right_three : (∀ u o, (u, o) ∈ uniTable.pairs ↔ (o, u) ∈ oemTable.pairs) ∧
    ∀ u o, (u, o) ∈ uniTable.pairs →
      (do
        let c ← ffUni2oem part25q256 (tablesOf 32) u.toNat
        ffOem2uni part25q256 (tablesOf 32) c).val ⟨threePairs, []⟩ = u.toNat := by
  have hinverse : ∀ u o, (u, o) ∈ uniTable.pairs ↔ (o, u) ∈ oemTable.pairs := by
    intro u o
    simp only [uniTable, oemTable, List.mem_cons, Prod.mk.injEq, List.not_mem_nil]
    tauto
  have hhigh : ∀ p ∈ uniTable.pairs, 0x80 ≤ p.1.toNat ∧ 0x80 ≤ p.2.toNat := by simp [uniTable]
  refine ⟨hinverse, fun u o huo => ?_⟩
  exact (conversions_right (U := uniTable) (O := oemTable)
    ⟨by decide, by decide, by decide, by unfold CodeTable.Stored; decide,
      by unfold CodeTable.Stored; decide⟩).2.2.2 hinverse u o huo (hhigh _ huo).1 (hhigh _ huo).2

/-- Where the code page has a code below 0x80 for a character from 0x80 on, the way back is
not through the table. -/
theorem conversions_ascii :
    ¬ ∀ (P : Part) (ftinfo : FontInfo) (U O : CodeTable) (nor : Nor), Ugbk P ftinfo U O nor.mem →
      (∀ u o, (u, o) ∈ U.pairs ↔ (o, u) ∈ O.pairs) → ∀ u o, (u, o) ∈ U.pairs → 0x80 ≤ u.toNat →
        (do let c ← ffUni2oem P ftinfo u.toNat; ffOem2uni P ftinfo c).val ⟨nor, []⟩ = u.toNat := by
  intro hall
  have hback := hall part25q256 (tablesOf 16) (.single (0x80, 0x41)) (.single (0x41, 0x80))
    (chipOf [0x80, 0, 0x41, 0, 0, 0, 0, 0, 0x41, 0, 0x80, 0, 0, 0, 0, 0])
    ⟨by decide, by decide, by decide, by unfold CodeTable.Stored; decide,
      by unfold CodeTable.Stored; decide⟩
    (fun u o => by simp [CodeTable.single, and_comm]) 0x80 0x41 (by decide) (by decide)
  revert hback
  decide

end Apollo.Fatfs
