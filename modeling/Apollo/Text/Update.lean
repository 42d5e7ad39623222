import Apollo.Text.Fonts
import Apollo.Norflash.Write
import Mathlib.Tactic.IntervalCases

/-!
# What a font update leaves behind

An update reports success and marks the library.  This is true to the fonts exactly when
every file got its buffer: a file whose buffer could not be allocated is passed over, and
the update goes on as if it had been written.

## Main definitions

* `Stored`, `AllStored` — the fonts are in the flash, one behind the other.
* `Loads`, `Passes` — a file is written; a file does not stop the update.
* `fontsUpdateFontx_skip`, `fontsUpdateFontx_load` — one file.
* `ComesToMark`, `Fits`, `Buffered` — the conditions.
* `fontsUpdateFont_iff` — the update is all or error exactly under them.
-/

namespace Apollo.Text
open Lib Norflash

/-! ## Records -/

namespace FontInfo
variable (f : FontInfo) (n : UInt32)

theorem addr_record_succ {i : ℕ} (h : i < 4) :
    (f.record (i + 1) n).addr (i + 1) = (f.addr i + f.size i) % 2 ^ 32 := by
  interval_cases i <;> exact UInt32.toNat_add _ _

theorem size_record {i : ℕ} (h : i < 5) : (f.record i n).size i = n.toNat := by
  interval_cases i <;> rfl

theorem addr_record_of_ne {i j : ℕ} (h : j ≠ i) : (f.record i n).addr j = f.addr j := by
  rcases i with _ | _ | _ | _ | _ | i <;> rcases j with _ | _ | _ | _ | _ | j <;>
    first | rfl | exact absurd rfl h

theorem size_record_of_ne {i j : ℕ} (h : j ≠ i) : (f.record i n).size j = f.size j := by
  rcases i with _ | _ | _ | _ | _ | i <;> rcases j with _ | _ | _ | _ | _ | j <;>
    first | rfl | exact absurd rfl h

theorem addr_lt (i : ℕ) : f.addr i < 2 ^ 32 := by
  rcases i with _ | _ | _ | _ | _ | i
  all_goals first | exact UInt32.toNat_lt _ | exact Nat.two_pow_pos 32

end FontInfo

variable (P : Part) (E : Answers) (src : String)

/-! ## What is to be stored -/

/-- The first `n` bytes of a file have been handed to `norflash_write` for their places. -/
def Handed (writes : List FontWrite) (i addr : ℕ) (file : List UInt8) (n : ℕ) : Prop :=
  ∀ k < n, ∃ w ∈ writes, w.fx = i ∧ w.addr ≤ addr + k ∧ w.data[addr + k - w.addr]? = file[k]?

/-- A font has been written completely to the flash range recorded for it. -/
structure Stored (t : FontState) (i : ℕ) : Prop where
  onChip : t.ftinfo.addr i + t.ftinfo.size i ≤ P.size
  size : t.ftinfo.size i = (fontFile E src i).length
  written : Handed t.writes i (t.ftinfo.addr i) (fontFile E src i) (fontFile E src i).length
  held : ∀ k < t.ftinfo.size i,
    t.nor.mem (t.ftinfo.addr i + k) = (fontFile E src i).getD k 0

/-- All five fonts are stored, in consecutive and disjoint ranges behind the header. -/
structure AllStored (t : FontState) : Prop where
  stored : ∀ i < 5, Stored P E src t i
  first : t.ftinfo.addr 0 = fontInfoAddr + sizeofFtinfo
  consecutive : ∀ i < 4, t.ftinfo.addr (i + 1) = t.ftinfo.addr i + t.ftinfo.size i
  disjoint : ∀ i < 5, ∀ j < 5, i < j → t.ftinfo.addr i + t.ftinfo.size i ≤ t.ftinfo.addr j

/-- The header marks the library as complete. -/
def Marked (t : FontState) : Prop := fontInfoAddr < P.size ∧ t.nor.mem fontInfoAddr = 0xAA

/-! ## One file -/

/-- A file is opened and has its buffer: it is written. -/
def Loads (i : ℕ) : Prop :=
  E.mallocFftemp i = true ∧ E.openAgain (pname src i) = 0 ∧ E.mallocTempbuf i = true

instance (i : ℕ) : Decidable (Loads E src i) := inferInstanceAs (Decidable (_ ∧ _))

/-- Every read of a file succeeds, to its end. -/
def ReadsAll (i : ℕ) : Prop :=
  ∀ k ≤ (fontFile E src i).length / 4096, E.read (pname src i) k = 0

/-- A file does not stop the update. -/
def Passes (i : ℕ) : Prop :=
  E.mallocFftemp i = true ∧ E.openAgain (pname src i) = 0 ∧
    (E.mallocTempbuf i = true → ReadsAll E src i)

/-- What has happened to a file that goes to address `a` when the `k`-th round begins. -/
structure Reading (i a : ℕ) (s : FontState) (k : ℕ) (x : ReadLoop) (t : FontState) : Prop where
  le : 4096 * k ≤ (fontFile E src i).length
  loop : x = ⟨4096 * k, 4096 * k % 2 ^ 32⟩
  reads : ∀ j < k, E.read (pname src i) j = 0
  ftinfo : t.ftinfo = s.ftinfo
  old : s.writes ⊆ t.writes
  tags : ∀ w ∈ t.writes, w ∈ s.writes ∨ w.fx = i
  wrote : a + (fontFile E src i).length ≤ P.size →
    Wrote s.nor t.nor a (fun j => (fontFile E src i).getD j 0) (4096 * k) ∧
      Handed t.writes i a (fontFile E src i) (4096 * k)

/-- What has happened to the file when the loop is left. -/
structure ReadEnd (i a : ℕ) (s : FontState) (res : ℕ) (t : FontState) : Prop where
  success : res = 0 ↔ ReadsAll E src i
  ftinfo : t.ftinfo = s.ftinfo
  old : s.writes ⊆ t.writes
  tags : ∀ w ∈ t.writes, w ∈ s.writes ∨ w.fx = i
  wrote : res = 0 → a + (fontFile E src i).length ≤ P.size →
    Wrote s.nor t.nor a (fun j => (fontFile E src i).getD j 0) (fontFile E src i).length ∧
      Handed t.writes i a (fontFile E src i) (fontFile E src i).length

/-- A write of a chunk extends what has been written. -/
theorem wrote_chunk {i a k : ℕ} {s t : FontState} (hle : 4096 * k ≤ (fontFile E src i).length)
    (hsize : a + (fontFile E src i).length ≤ P.size)
    (h : Wrote s.nor t.nor a (fun j => (fontFile E src i).getD j 0) (4096 * k)) :
    let data := ((fontFile E src i).drop (4096 * k)).take 4096
    Wrote s.nor ((norflashWrite P (fun j => data.getD j 0) ((4096 * k % 2 ^ 32 + a) % 2 ^ 32)
      data.length).state t.nor) a (fun j => (fontFile E src i).getD j 0)
      (4096 * k + data.length) := by
  intro data
  have hlen : data.length = min 4096 ((fontFile E src i).length - 4096 * k) := by
    simp only [data, List.length_take, List.length_drop]
  refine h.append ?_
  rcases Nat.eq_zero_or_pos data.length with hzero | hpos
  · rw [hzero]
    have hnothing :=
      wrote_nothing P (fun j => data.getD j 0) ((4096 * k % 2 ^ 32 + a) % 2 ^ 32) t.nor
    exact ⟨by rw [hnothing.mem, overlay_zero, overlay_zero], hnothing.programs⟩
  · have hsize32 := P.size_le
    have haddr : (4096 * k % 2 ^ 32 + a) % 2 ^ 32 = a + 4096 * k := by omega
    rw [haddr]
    have hwrote := (wrote_sectors P t.nor (fun j => data.getD j 0) (a + 4096 * k)
      hpos (by omega) (by omega)).2
    refine ⟨hwrote.mem.trans (funext fun m => overlay_congr_at (fun _ => rfl) fun h₁ h₂ => ?_),
      hwrote.programs⟩
    simp only [data, List.getD_eq_getElem?_getD, shift_apply]
    rw [List.getElem?_take_of_lt (by omega), List.getElem?_drop]

/-- The bytes of a chunk have been handed over with it. -/
theorem handed_chunk {i a k n : ℕ} {file : List UInt8} {writes : List FontWrite} {addr : ℕ}
    (haddr : n ≠ 0 → addr = a + 4096 * k) (hn : ((file.drop (4096 * k)).take 4096).length = n)
    (h : Handed writes i a file (4096 * k)) :
    Handed (writes ++ [⟨i, addr, (file.drop (4096 * k)).take 4096⟩]) i a file (4096 * k + n) := by
  intro m hm
  by_cases hold : m < 4096 * k
  · obtain ⟨w, hw, hrest⟩ := h m hold
    exact ⟨w, List.mem_append_left _ hw, hrest⟩
  · have heq := haddr (by omega)
    rw [List.length_take] at hn
    refine ⟨_, List.mem_append_right _ (List.mem_singleton.mpr rfl), rfl, ?_, ?_⟩
    · simp only
      omega
    · simp only
      rw [List.getElem?_take_of_lt (by omega), List.getElem?_drop]
      congr 1
      omega

/-- The state when a chunk has been written. -/
def chunkWritten (i a k : ℕ) (t : FontState) : FontState :=
  let data := ((fontFile E src i).drop (4096 * k)).take 4096
  let addr := (4096 * k % 2 ^ 32 + a) % 2 ^ 32
  { nor := (norflashWrite P (fun j => data.getD j 0) addr data.length).state t.nor
    ftinfo := t.ftinfo
    writes := t.writes ++ [⟨i, addr, data⟩] }

/-- A round that reads a chunk writes it, and goes on behind a full one. -/
theorem readRound_read {i a k : ℕ} (hread : E.read (pname src i) k = 0) (t : FontState) :
    readRound P E src i a k ⟨4096 * k, 4096 * k % 2 ^ 32⟩ t =
      (if (((fontFile E src i).drop (4096 * k)).take 4096).length = 4096 then
          .next ⟨4096 * (k + 1), 4096 * (k + 1) % 2 ^ 32⟩
        else .exit 0, chunkWritten P E src i a k t) := by
  have hoffx : (4096 * k % 2 ^ 32 + 4096) % 2 ^ 32 = (4096 * k + 4096) % 2 ^ 32 :=
    Nat.mod_add_mod ..
  simp only [readRound, hread, ne_eq, not_true_eq_false, if_false, Prog.bind_apply]
  by_cases hfull : (((fontFile E src i).drop (4096 * k)).take 4096).length = 4096
  · simp only [hfull, not_true_eq_false, if_false, if_true, hoffx, ← Nat.mul_succ]
    rw [chunkWritten, hfull]
    rfl
  · simp only [hfull, not_false_eq_true, if_true, if_false]
    rfl

theorem readRound_failed {i a k : ℕ} (hread : E.read (pname src i) k ≠ 0) (x : ReadLoop)
    (t : FontState) : readRound P E src i a k x t = (.exit (E.read (pname src i) k), t) := by
  simp only [readRound, hread, ne_eq, not_false_eq_true, if_true]
  rfl

theorem reading_round {i a k : ℕ} {s t : FontState} {x : ReadLoop}
    (h : Reading P E src i a s k x t) :
    ((readRound P E src i a k x).val t).Holds
      (fun y => Reading P E src i a s (k + 1) y ((readRound P E src i a k x).state t))
      (fun res => ReadEnd P E src i a s res ((readRound P E src i a k x).state t)) := by
  obtain ⟨hle, rfl, hreads, hftinfo, hold, htags, hwrote⟩ := h
  by_cases hread : E.read (pname src i) k = 0
  · set data := ((fontFile E src i).drop (4096 * k)).take 4096 with hdata
    have hlen : data.length = min 4096 ((fontFile E src i).length - 4096 * k) := by
      simp only [data, List.length_take, List.length_drop]
    obtain ⟨t', ht'⟩ : ∃ t', t' = chunkWritten P E src i a k t := ⟨_, rfl⟩
    have hall : a + (fontFile E src i).length ≤ P.size →
        Wrote s.nor t'.nor a (fun j => (fontFile E src i).getD j 0) (4096 * k + data.length) ∧
          Handed t'.writes i a (fontFile E src i) (4096 * k + data.length) := by
      intro hsize
      have hsize32 := P.size_le
      obtain ⟨hnor, hhanded⟩ := hwrote hsize
      rw [ht']
      exact ⟨wrote_chunk P E src hle hsize hnor, handed_chunk (by omega) rfl hhanded⟩
    have hold' : s.writes ⊆ t'.writes := by
      rw [ht']
      exact List.subset_append_of_subset_left _ hold
    have htags' : ∀ w ∈ t'.writes, w ∈ s.writes ∨ w.fx = i := by
      intro w hw
      rw [ht'] at hw
      rcases List.mem_append.mp hw with hw | hw
      · exact htags w hw
      · obtain rfl := List.mem_singleton.mp hw
        exact Or.inr rfl
    have hftinfo' : t'.ftinfo = s.ftinfo := by
      rw [ht']
      exact hftinfo
    rw [Prog.val, Prog.state, readRound_read P E src hread, ← ht', ← hdata]
    by_cases hfull : data.length = 4096
    · rw [if_pos hfull, Flow.holds_next]
      refine ⟨by omega, rfl, fun j hj => ?_, hftinfo', hold', htags', ?_⟩
      · rcases Nat.lt_succ_iff_lt_or_eq.mp hj with hj | rfl
        · exact hreads j hj
        · exact hread
      · rwa [hfull] at hall
    · rw [if_neg hfull, Flow.holds_exit]
      -- A short read has come to the end of the file.
      have hend : 4096 * k + data.length = (fontFile E src i).length := by omega
      rw [hend] at hall
      refine ⟨iff_of_true rfl fun j hj => ?_, hftinfo', hold', htags', fun _ => hall⟩
      rcases Nat.lt_or_ge j k with hj' | hj'
      · exact hreads j hj'
      · obtain rfl : j = k := by omega
        exact hread
  · rw [Prog.val, Prog.state, readRound_failed P E src hread, Flow.holds_exit]
    exact ⟨iff_of_false hread fun hall => hread (hall k (by omega)), hftinfo, hold, htags,
      fun h => absurd h hread⟩

/-- The state in which the reading of a file begins. -/
def recorded (i : ℕ) (s : FontState) : FontState :=
  { s with ftinfo := s.ftinfo.record i (.ofNat (fontFile E src i).length) }

def recordedAddr (i : ℕ) (s : FontState) : ℕ :=
  (s.ftinfo.record i (.ofNat (fontFile E src i).length)).addr i

theorem readLoop_end (i a : ℕ) (s : FontState) :
    ∃ res, (Prog.loop (readRound P E src i a) ((fontFile E src i).length + 1) 0 ⟨0, 0⟩).val s =
        .exit res ∧
      ReadEnd P E src i a s res
        ((Prog.loop (readRound P E src i a) ((fontFile E src i).length + 1) 0 ⟨0, 0⟩).state s) := by
  have hinit : Reading P E src i a s 0 ⟨0, 0⟩ s := by
    refine ⟨Nat.zero_le _, rfl, fun j hj => absurd hj (Nat.not_lt_zero j), rfl, List.Subset.refl _,
      fun w hw => Or.inl hw, fun _ => ⟨.zero .., fun k hk => absurd hk (Nat.not_lt_zero k)⟩⟩
  have hrun := Prog.loop_inv (n := (fontFile E src i).length + 1) (I := Reading P E src i a s)
    (Q := ReadEnd P E src i a s) (fun k _ x t h => reading_round P E src h) (Nat.zero_add _) hinit
  cases hv : (Prog.loop (readRound P E src i a) ((fontFile E src i).length + 1) 0 ⟨0, 0⟩).val s with
  | next x =>
      rw [hv] at hrun
      have hle := hrun.le
      omega
  | exit res =>
      rw [hv] at hrun
      exact ⟨res, rfl, hrun⟩

/-- A file that is not loaded is passed over, or stops the update. -/
theorem fontsUpdateFontx_skip {i : ℕ} (h : ¬Loads E src i) (s : FontState) :
    ∃ res, fontsUpdateFontx P E src i s = (some res, s) ∧ (res = 0 ↔ Passes E src i) := by
  by_cases hfftemp : E.mallocFftemp i = true
  · by_cases hopen : E.openAgain (pname src i) = 0
    · have htempbuf : E.mallocTempbuf i = false := by
        by_contra htempbuf
        exact h ⟨hfftemp, hopen, Bool.eq_true_of_not_eq_false htempbuf⟩
      refine ⟨0, ?_, iff_of_true rfl ⟨hfftemp, hopen, fun h => ?_⟩⟩
      · simp only [fontsUpdateFontx, hfftemp, if_true, hopen, ne_eq, not_true_eq_false, if_false,
          htempbuf, or_true, Nat.one_ne_zero]
        rfl
      · rw [htempbuf] at h
        cases h
    · refine ⟨_, ?_, iff_of_false hopen fun hpass => hopen hpass.2.1⟩
      simp only [fontsUpdateFontx, hfftemp, if_true, hopen, ne_eq, not_false_eq_true,
        OfNat.ofNat_ne_zero, if_false]
      rfl
  · refine ⟨frInvalidObject, ?_, iff_of_false (by decide) fun hpass => hfftemp hpass.1⟩
    simp only [fontsUpdateFontx, hfftemp, if_false, ne_eq, OfNat.ofNat_ne_zero, not_false_eq_true,
      if_true, Bool.false_eq_true]
    rfl

/-- A file that is loaded is recorded, and written if all of its reads succeed. -/
theorem fontsUpdateFontx_load {i : ℕ} (h : Loads E src i) (s : FontState) :
    ∃ res, (fontsUpdateFontx P E src i).val s = some res ∧ (res = 0 ↔ Passes E src i) ∧
      ReadEnd P E src i (recordedAddr E src i s) (recorded E src i s) res
        ((fontsUpdateFontx P E src i).state s) := by
  obtain ⟨hfftemp, hopen, htempbuf⟩ := h
  obtain ⟨res, hval, hend⟩ :=
    readLoop_end P E src i (recordedAddr E src i s) (recorded E src i s)
  have hrun : fontsUpdateFontx P E src i s = (some res, (Prog.loop (readRound P E src i
      (recordedAddr E src i s)) ((fontFile E src i).length + 1) 0 ⟨0, 0⟩).state
        (recorded E src i s)) := by
    simp only [fontsUpdateFontx, hfftemp, if_true, hopen, ne_eq, not_true_eq_false, if_false,
      htempbuf, Bool.true_eq_false, or_self, Prog.bind_apply, Prog.val_get, Prog.state_get,
      Prog.state_modify]
    rw [← recorded, ← recordedAddr, hval]
    rfl
  have hvalx : (fontsUpdateFontx P E src i).val s = some res := congrArg Prod.fst hrun
  have hstatex := congrArg Prod.snd hrun
  change (fontsUpdateFontx P E src i).state s = _ at hstatex
  rw [hstatex]
  refine ⟨res, hvalx, hend.success.trans ⟨fun hall => ⟨hfftemp, hopen, fun _ => hall⟩, ?_⟩, hend⟩
  exact fun hpass => hpass.2.2 htempbuf

/-! ## The five files -/

/-- Where the font `i` belongs: behind the header and the fonts before it. -/
def place : ℕ → ℕ
  | 0 => fontInfoAddr + sizeofFtinfo
  | i + 1 => place i + (fontFile E src i).length

theorem place_mono : Monotone (place E src) :=
  monotone_nat_of_le_succ fun _ => Nat.le_add_right _ _

/-- The header and the five files fit on the chip, and their addresses in 32 bits. -/
def Fits : Prop := place E src 5 ≤ P.size ∧ place E src 4 < 2 ^ 32

/-- A file that may be passed over: it is empty, and recorded as such where it belongs. -/
def Vacant (f : FontInfo) (i : ℕ) : Prop :=
  fontFile E src i = [] ∧ f.addr i = place E src i ∧ f.size i = 0

/-- Every file gets its buffer, unless it may be passed over. -/
def Buffered (f : FontInfo) : Prop :=
  ∀ i < 5, E.mallocTempbuf i = true ∨ Vacant E src f i

/-- The first `i` fonts are in place, and nothing has been recorded for the others. -/
structure Filled (f : FontInfo) (i : ℕ) (t : FontState) : Prop where
  placed : ∀ j < i, t.ftinfo.addr j = place E src j ∧ t.ftinfo.size j = (fontFile E src j).length
  handed : ∀ j < i, Handed t.writes j (place E src j) (fontFile E src j) (fontFile E src j).length
  held : ∀ j < i, ∀ m < (fontFile E src j).length,
    t.nor.mem (place E src j + m) = (fontFile E src j).getD m 0
  rest : ∀ j, i ≤ j → t.ftinfo.addr j = f.addr j ∧ t.ftinfo.size j = f.size j

variable {E src} in
theorem Handed.mono {ws ws' : List FontWrite} {i addr n : ℕ} {file : List UInt8}
    (h : Handed ws i addr file n) (hsub : ws ⊆ ws') : Handed ws' i addr file n := by
  intro k hk
  obtain ⟨w, hw, hrest⟩ := h k hk
  exact ⟨w, hsub hw, hrest⟩

variable {P E src} in
/-- A font is recorded at its place. -/
theorem Filled.recordedAddr_eq {f : FontInfo} {i : ℕ} {t : FontState} (hfits : Fits P E src)
    (hi : i < 5) (h : Filled E src f i t) : recordedAddr E src i t = place E src i := by
  rw [recordedAddr]
  cases i with
  | zero => rfl
  | succ i =>
      obtain ⟨haddr, hsize⟩ := h.placed i (Nat.lt_succ_self i)
      have hmono := place_mono E src (show i + 1 ≤ 4 by omega)
      rw [FontInfo.addr_record_succ _ _ (by omega), haddr, hsize]
      exact Nat.mod_eq_of_lt (Nat.lt_of_le_of_lt hmono hfits.2)

theorem filled_round {f : FontInfo} {i : ℕ} {t : FontState} (hfits : Fits P E src)
    (hbuf : Buffered E src f) (hi : i < 5) (hpass : Passes E src i) (h : Filled E src f i t) :
    Filled E src f (i + 1) ((fontsUpdateFontx P E src i).state t) := by
  have hplace : place E src i + (fontFile E src i).length ≤ P.size :=
    (place_mono E src (show i + 1 ≤ 5 by omega)).trans hfits.1
  by_cases hloads : Loads E src i
  · obtain ⟨res, -, hres, hend⟩ := fontsUpdateFontx_load P E src hloads t
    rw [h.recordedAddr_eq hfits hi] at hend
    obtain ⟨hwrote, hhanded⟩ := hend.wrote (hres.mpr hpass) hplace
    have hlen : (UInt32.ofNat (fontFile E src i).length).toNat = (fontFile E src i).length := by
      have hsize32 := P.size_le
      have hbase : 0 < fontInfoAddr + sizeofFtinfo := by decide
      have hpos : 0 < place E src i := hbase.trans_le (place_mono E src (Nat.zero_le i))
      rw [UInt32.toNat_ofNat']
      exact Nat.mod_eq_of_lt (by omega)
    refine ⟨fun j hj => ?_, fun j hj => ?_, fun j hj m hm => ?_, fun j hj => ?_⟩
    · rw [hend.ftinfo]
      rcases Nat.lt_succ_iff_lt_or_eq.mp hj with hj | rfl
      · rw [recorded, FontInfo.addr_record_of_ne _ _ (by omega),
          FontInfo.size_record_of_ne _ _ (by omega)]
        exact h.placed j hj
      · exact ⟨h.recordedAddr_eq hfits hi, (FontInfo.size_record _ _ hi).trans hlen⟩
    · rcases Nat.lt_succ_iff_lt_or_eq.mp hj with hj | rfl
      · exact (h.handed j hj).mono hend.old
      · exact hhanded
    · rcases Nat.lt_succ_iff_lt_or_eq.mp hj with hj | rfl
      · have hbefore : place E src j + (fontFile E src j).length ≤ place E src i :=
          place_mono E src (show j + 1 ≤ i from hj)
        rw [hwrote.mem, overlay_before (by omega)]
        exact h.held j hj m hm
      · rw [hwrote.mem, overlay_inside (by omega) (by omega), Nat.add_sub_cancel_left]
    · rw [hend.ftinfo, recorded, FontInfo.addr_record_of_ne _ _ (by omega),
        FontInfo.size_record_of_ne _ _ (by omega)]
      exact h.rest j (by omega)
  · obtain ⟨res, hrun, -⟩ := fontsUpdateFontx_skip P E src hloads t
    rw [Prog.state, hrun]
    -- Without its buffer the file must be one that may be passed over.
    obtain ⟨hnil, haddr, hsize⟩ : Vacant E src f i :=
      (hbuf i hi).resolve_left fun htempbuf => hloads ⟨hpass.1, hpass.2.1, htempbuf⟩
    have hlen : (fontFile E src i).length = 0 := by rw [hnil, List.length_nil]
    refine ⟨fun j hj => ?_, fun j hj => ?_, fun j hj m hm => ?_, fun j hj => h.rest j (by omega)⟩
    · rcases Nat.lt_succ_iff_lt_or_eq.mp hj with hj | rfl
      · exact h.placed j hj
      · obtain ⟨haddr', hsize'⟩ := h.rest j le_rfl
        exact ⟨haddr'.trans haddr, by rw [hsize', hsize, hlen]⟩
    · rcases Nat.lt_succ_iff_lt_or_eq.mp hj with hj | rfl
      · exact h.handed j hj
      · intro k hk
        omega
    · rcases Nat.lt_succ_iff_lt_or_eq.mp hj with hj | rfl
      · exact h.held j hj m hm
      · omega

/-- One round of the loop over the files. -/
theorem updateRound_spec (i : ℕ) (u : Unit) (s : FontState) :
    (updateRound P E src i u).state s = (fontsUpdateFontx P E src i).state s ∧
      ((Passes E src i ∧ (updateRound P E src i u).val s = .next ()) ∨
        (¬Passes E src i ∧ ∃ res, (updateRound P E src i u).val s = .exit (some (1 + res)))) := by
  obtain ⟨res, hval, hpass⟩ : ∃ res, (fontsUpdateFontx P E src i).val s = some res ∧
      (res = 0 ↔ Passes E src i) := by
    by_cases hloads : Loads E src i
    · obtain ⟨res, hval, hpass, -⟩ := fontsUpdateFontx_load P E src hloads s
      exact ⟨res, hval, hpass⟩
    · obtain ⟨res, hrun, hpass⟩ := fontsUpdateFontx_skip P E src hloads s
      exact ⟨res, congrArg Prod.fst hrun, hpass⟩
  by_cases hres : res = 0
  · have hround : updateRound P E src i u s = (.next (), (fontsUpdateFontx P E src i).state s) := by
      rw [updateRound, Prog.bind_apply, hval, hres]
      rfl
    exact ⟨congrArg Prod.snd hround, Or.inl ⟨hpass.mp hres, congrArg Prod.fst hround⟩⟩
  · have hround : updateRound P E src i u s =
        (.exit (some (1 + i)), (fontsUpdateFontx P E src i).state s) := by
      rw [updateRound, Prog.bind_apply, hval]
      simp only [if_pos hres]
      rfl
    exact ⟨congrArg Prod.snd hround, Or.inr ⟨fun h => hres (hpass.mpr h), i,
      congrArg Prod.fst hround⟩⟩

/-- The loop over the files goes to its end exactly when no file stops it. -/
theorem files_val (s : FontState) :
    ((Prog.loop (updateRound P E src) 5 0 ()).val s).Holds (fun _ => ∀ i < 5, Passes E src i)
      (fun r => r ≠ some 0 ∧ ¬∀ i < 5, Passes E src i) := by
  refine Prog.loop_inv (n := 5) (I := fun i _ _ => ∀ j < i, Passes E src j)
    (Q := fun r _ => r ≠ some 0 ∧ ¬∀ i < 5, Passes E src i) (fun i hi u t h => ?_) rfl
    fun j hj => absurd hj (Nat.not_lt_zero j)
  obtain ⟨-, ⟨hpass, hval⟩ | ⟨hpass, res, hval⟩⟩ := updateRound_spec P E src i u t
  · rw [hval, Flow.holds_next]
    intro j hj
    rcases Nat.lt_succ_iff_lt_or_eq.mp hj with hj | rfl
    · exact h j hj
    · exact hpass
  · rw [hval, Flow.holds_exit]
    refine ⟨fun h => ?_, fun hall => hpass (hall i hi)⟩
    have := Option.some.inj h
    omega

theorem files_filled {f : FontInfo} {s : FontState} (hfits : Fits P E src) (hbuf : Buffered E src f)
    (hpass : ∀ i < 5, Passes E src i) (h : Filled E src f 0 s) :
    Filled E src f 5 ((Prog.loop (updateRound P E src) 5 0 ()).state s) := by
  have hround (i : ℕ) (hi : i < 5) (u : Unit) (t : FontState) (h : Filled E src f i t) :
      ((updateRound P E src i u).val t).Holds
        (fun _ => Filled E src f (i + 1) ((updateRound P E src i u).state t)) fun _ => False := by
    obtain ⟨hstate, ⟨-, hval⟩ | ⟨hfail, -⟩⟩ := updateRound_spec P E src i u t
    · rw [hval, Flow.holds_next, hstate]
      exact filled_round P E src hfits hbuf hi (hpass i hi) h
    · exact absurd (hpass i hi) hfail
  have hrun :=
    Prog.loop_inv (I := fun i _ t => Filled E src f i t) (Q := fun _ _ => False) (a := ())
    hround (Nat.zero_add 5) h
  cases hv : (Prog.loop (updateRound P E src) 5 0 ()).val s with
  | next u =>
      rw [hv] at hrun
      exact hrun
  | exit r =>
      rw [hv] at hrun
      exact hrun.elim

/-- A file that is not loaded is neither recorded nor written. -/
structure Untouched (s t : FontState) (i : ℕ) : Prop where
  addr : t.ftinfo.addr i = s.ftinfo.addr i
  size : t.ftinfo.size i = s.ftinfo.size i
  writes : ∀ w ∈ t.writes, w ∈ s.writes ∨ w.fx ≠ i

theorem files_untouched {i : ℕ} (h : ¬Loads E src i) (s : FontState) :
    Untouched s ((Prog.loop (updateRound P E src) 5 0 ()).state s) i := by
  refine Prog.state_loop_of_round (I := fun t => Untouched s t i) _ (fun j u t ht => ?_) 5 0 ()
    ⟨rfl, rfl, fun w hw => Or.inl hw⟩
  rw [(updateRound_spec P E src j u t).1]
  by_cases hloads : Loads E src j
  · obtain ⟨res, -, -, hend⟩ := fontsUpdateFontx_load P E src hloads t
    have hne : i ≠ j := fun heq => h (heq ▸ hloads)
    refine ⟨?_, ?_, fun w hw => ?_⟩
    · rw [hend.ftinfo, recorded, FontInfo.addr_record_of_ne _ _ hne, ht.addr]
    · rw [hend.ftinfo, recorded, FontInfo.size_record_of_ne _ _ hne, ht.size]
    · rcases hend.tags w hw with hw | hw
      · exact ht.writes w hw
      · exact Or.inr (hw.trans_ne hne.symm)
  · obtain ⟨res, hrun, -⟩ := fontsUpdateFontx_skip P E src hloads t
    rw [Prog.state, hrun]
    exact ht

/-! ## The update -/

/-- The state in which the loop over the files begins. -/
def started (s : FontState) : FontState :=
  { s with
    ftinfo := { s.ftinfo with fontok := 0xFF }
    nor := (eraseFonts P).state s.nor }

theorem state_eraseFonts (s : FontState) : (onNor (eraseFonts P)).state
    { s with ftinfo := { s.ftinfo with fontok := 0xFF } } = started P s := rfl

/-- Nothing stops the update, and the chip has the header on it. -/
structure ComesToMark : Prop where
  malloc : ∀ m, E.malloc m = true
  opens : ∀ i < 5, E.openFirst (pname src i) = 0
  passes : ∀ i < 5, Passes E src i
  header : fontInfoAddr < P.size

theorem addr_fontok (f : FontInfo) (b : UInt8) (i : ℕ) :
    { f with fontok := b }.addr i = f.addr i := by
  rcases i with _ | _ | _ | _ | _ | i <;> rfl

theorem size_fontok (f : FontInfo) (b : UInt8) (i : ℕ) :
    { f with fontok := b }.size i = f.size i := by
  rcases i with _ | _ | _ | _ | _ | i <;> rfl

/-- The header is an overlay of its own range, and begins with the mark. -/
theorem state_writeHeader (h : fontInfoAddr < P.size) (s : FontState) :
    ∃ header : ℕ → UInt8, header 0 = 0xAA ∧
      ((writeHeader P).state s).nor.mem = overlay s.nor.mem fontInfoAddr header sizeofFtinfo ∧
      ((writeHeader P).state s).ftinfo = { s.ftinfo with fontok := 0xAA } ∧
      ((writeHeader P).state s).writes = s.writes := by
  obtain ⟨sectors, hsectors⟩ := P.sectors
  have hlt : 26214400 < P.size := h
  have hsize : 26214400 + 41 ≤ P.size := by omega
  refine ⟨fun j => { s.ftinfo with fontok := 0xAA }.bytes.getD j 0, rfl, ?_, rfl, rfl⟩
  exact (wrote_sectors P s.nor _ _ (by decide) (by decide) hsize).2.mem

theorem fontsUpdateFont_run (s : FontState) (hmalloc : ∀ m, E.malloc m = true)
    (hopens : ∀ i < 5, E.openFirst (pname src i) = 0) :
    fontsUpdateFont P E src s =
      match (Prog.loop (updateRound P E src) 5 0 ()).val (started P s) with
      | .exit res => (res, (Prog.loop (updateRound P E src) 5 0 ()).state (started P s))
      | .next _ => (some 0, (writeHeader P).state
          ((Prog.loop (updateRound P E src) 5 0 ()).state (started P s))) := by
  have hopen : firstEntry 5 (fun i => E.openFirst (pname src i) ≠ 0) = none :=
    firstEntry_eq_none.mpr fun i hi => not_not.mpr (hopens i hi)
  simp only [fontsUpdateFont, hmalloc, Bool.true_eq_false, or_self, if_false, hopen,
    Option.isSome_none, Bool.false_eq_true]
  rw [Prog.bind_apply, Prog.state_modify, Prog.bind_apply, state_eraseFonts, Prog.bind_apply]
  cases (Prog.loop (updateRound P E src) 5 0 ()).val (started P s) <;> rfl

/-- An update reports success and marks the library exactly when nothing stops it. -/
theorem fontsUpdateFont_marks (s : FontState) :
    ((fontsUpdateFont P E src).val s = some 0 ∧ Marked P ((fontsUpdateFont P E src).state s)) ↔
      ComesToMark P E src := by
  by_cases hmalloc : ∀ m, E.malloc m = true
  · by_cases hopens : ∀ i < 5, E.openFirst (pname src i) = 0
    · have hrun := fontsUpdateFont_run P E src s hmalloc hopens
      have hfiles := files_val P E src (started P s)
      cases hv : (Prog.loop (updateRound P E src) 5 0 ()).val (started P s) with
      | next u =>
          rw [hv] at hrun hfiles
          have hval : (fontsUpdateFont P E src).val s = some 0 := congrArg Prod.fst hrun
          have hstate := congrArg Prod.snd hrun
          change (fontsUpdateFont P E src).state s = _ at hstate
          rw [hval, hstate]
          refine ⟨fun h => ⟨hmalloc, hopens, hfiles, h.2.1⟩, fun h => ⟨rfl, h.header, ?_⟩⟩
          obtain ⟨header, hmark, hmem, -⟩ := state_writeHeader P h.header
            ((Prog.loop (updateRound P E src) 5 0 ()).state (started P s))
          rw [hmem, overlay_inside le_rfl (by decide), Nat.sub_self, hmark]
      | exit res =>
          rw [hv] at hrun hfiles
          have hval : (fontsUpdateFont P E src).val s = res := congrArg Prod.fst hrun
          rw [hval]
          exact iff_of_false (fun h => hfiles.1 h.1) fun h => hfiles.2 h.passes
    · obtain ⟨i, hi⟩ : ∃ i, firstEntry 5 (fun i => E.openFirst (pname src i) ≠ 0) = some i := by
        by_contra hnone
        rw [← Option.isSome_iff_exists, Option.not_isSome_iff_eq_none, firstEntry_eq_none] at hnone
        exact hopens fun i hi => not_not.mp (hnone i hi)
      have hval : (fontsUpdateFont P E src).val s = some (1 <<< 7) := by
        simp only [fontsUpdateFont, hmalloc, Bool.true_eq_false, or_self, if_false, hi,
          Option.isSome_some, if_true]
        rfl
      rw [hval]
      exact iff_of_false (fun h => by simpa using h.1) fun h => hopens h.opens
  · have hsome : E.malloc 0 = false ∨ E.malloc 1 = false ∨ E.malloc 2 = false := by
      by_contra hnone
      simp only [not_or, Bool.not_eq_false] at hnone
      refine hmalloc fun m => ?_
      obtain ⟨_ | _ | _ | m, hm⟩ := m
      · exact hnone.1
      · exact hnone.2.1
      · exact hnone.2.2
      · omega
    have hval : (fontsUpdateFont P E src).val s = some 5 := by
      simp only [fontsUpdateFont, if_pos hsome]
      rfl
    rw [hval]
    exact iff_of_false (fun h => by simpa using h.1) fun h => hmalloc h.malloc

/-- What a marked update leaves: the header over what the loop over the files left. -/
theorem state_of_comesToMark (h : ComesToMark P E src) (s : FontState) :
    (fontsUpdateFont P E src).state s = (writeHeader P).state
      ((Prog.loop (updateRound P E src) 5 0 ()).state (started P s)) := by
  have hrun := fontsUpdateFont_run P E src s h.malloc h.opens
  have hfiles := files_val P E src (started P s)
  cases hv : (Prog.loop (updateRound P E src) 5 0 ()).val (started P s) with
  | next u =>
      rw [hv] at hrun
      exact congrArg Prod.snd hrun
  | exit res =>
      rw [hv] at hfiles
      exact absurd h.passes hfiles.2

/-- Fonts that are in place stay so under the header. -/
theorem allStored_of_filled {f : FontInfo} {t : FontState} (hfits : Fits P E src)
    (hheader : fontInfoAddr < P.size) (h : Filled E src f 5 t) :
    AllStored P E src ((writeHeader P).state t) := by
  obtain ⟨header, -, hmem, hftinfo, hwrites⟩ := state_writeHeader P hheader t
  have haddr (i : ℕ) (hi : i < 5) : ((writeHeader P).state t).ftinfo.addr i = place E src i := by
    rw [hftinfo, addr_fontok]
    exact (h.placed i hi).1
  have hsize (i : ℕ) (hi : i < 5) :
      ((writeHeader P).state t).ftinfo.size i = (fontFile E src i).length := by
    rw [hftinfo, size_fontok]
    exact (h.placed i hi).2
  have hmono (i j : ℕ) (hj : i + 1 ≤ j) :
      place E src i + (fontFile E src i).length ≤ place E src j := place_mono E src hj
  refine ⟨fun i hi => ⟨?_, hsize i hi, ?_, fun k hk => ?_⟩, haddr 0 (by omega), fun i hi => ?_,
    fun i hi j hj hij => ?_⟩
  · rw [haddr i hi, hsize i hi]
    exact (hmono i 5 (by omega)).trans hfits.1
  · rw [haddr i hi, hwrites]
    exact h.handed i hi
  · have hbase := place_mono E src (Nat.zero_le i)
    change fontInfoAddr + sizeofFtinfo ≤ place E src i at hbase
    rw [haddr i hi, hmem, overlay_after (by omega)]
    rw [hsize i hi] at hk
    exact h.held i hi k hk
  · rw [haddr _ (by omega), haddr _ (by omega), hsize _ (by omega)]
    rfl
  · rw [haddr i hi, haddr j hj, hsize i hi]
    exact hmono i j hij

/-- Stored fonts are in their places. -/
theorem AllStored.addr_eq {t : FontState} (h : AllStored P E src t) {i : ℕ} (hi : i < 5) :
    t.ftinfo.addr i = place E src i := by
  induction i with
  | zero => exact h.first
  | succ i ih =>
      rw [h.consecutive i (by omega), ih (by omega), (h.stored i (by omega)).size]
      rfl

theorem AllStored.fits {t : FontState} (h : AllStored P E src t) : Fits P E src := by
  have hlast := h.stored 4 (by omega)
  have haddr := h.addr_eq P E src (show 4 < 5 by omega)
  have honChip := hlast.onChip
  rw [haddr, hlast.size] at honChip
  exact ⟨honChip, haddr ▸ FontInfo.addr_lt _ _⟩

/-- A font that is stored without having been loaded may be passed over. -/
theorem Stored.vacant {s t : FontState} {i : ℕ} (h : Stored P E src t i)
    (haddr : t.ftinfo.addr i = place E src i) (hold : Untouched s t i) (hs : s.writes = []) :
    Vacant E src s.ftinfo i := by
  have hnil : fontFile E src i = [] := by
    by_contra hne
    obtain ⟨w, hw, hfx, -⟩ := h.written 0 (List.length_pos_iff.mpr hne)
    rcases hold.writes w hw with hmem | hmem
    · rw [hs] at hmem
      cases hmem
    · exact hmem hfx
  refine ⟨hnil, hold.addr.symm.trans haddr, ?_⟩
  rw [← hold.size, h.size, hnil, List.length_nil]

/-- A font update that reports success and marks the library has written all five files to
consecutive and disjoint ranges of the flash, for every answer of the allocator and of FatFs,
exactly when, in an update that nothing stops, the fonts fit on the chip and every file gets
its buffer (an empty file that is recorded as such may do without). -/
theorem fontsUpdateFont_iff (nor : Nor) (ftinfo : FontInfo) :
    ((fontsUpdateFont P E src).val ⟨nor, ftinfo, []⟩ = some 0 ∧
        Marked P ((fontsUpdateFont P E src).state ⟨nor, ftinfo, []⟩) →
      AllStored P E src ((fontsUpdateFont P E src).state ⟨nor, ftinfo, []⟩)) ↔
      (ComesToMark P E src → Fits P E src ∧ Buffered E src ftinfo) := by
  rw [fontsUpdateFont_marks]
  refine forall_congr' fun hmark => ?_
  rw [state_of_comesToMark P E src hmark]
  constructor
  · intro hall
    refine ⟨hall.fits, fun i hi => ?_⟩
    by_cases htempbuf : E.mallocTempbuf i = true
    · exact Or.inl htempbuf
    · right
      have hfiles := files_untouched P E src (i := i) (fun h => htempbuf h.2.2)
        (started P ⟨nor, ftinfo, []⟩)
      obtain ⟨header, -, -, hftinfo, hwrites⟩ := state_writeHeader P hmark.header
        ((Prog.loop (updateRound P E src) 5 0 ()).state (started P ⟨nor, ftinfo, []⟩))
      refine (hall.stored i hi).vacant P E src (s := ⟨nor, ftinfo, []⟩) (hall.addr_eq P E src hi)
        ⟨?_, ?_, ?_⟩ rfl
      · rw [hftinfo, addr_fontok, hfiles.addr]
        exact addr_fontok ..
      · rw [hftinfo, size_fontok, hfiles.size]
        exact size_fontok ..
      · rw [hwrites]
        exact hfiles.writes
  · rintro ⟨hfits, hbuf⟩
    refine allStored_of_filled P E src hfits hmark.header (files_filled P E src hfits hbuf
      hmark.passes
        ⟨fun j hj => absurd hj (Nat.not_lt_zero j), fun j hj => absurd hj (Nat.not_lt_zero j),
        fun j hj => absurd hj (Nat.not_lt_zero j), fun j _ => ⟨addr_fontok .., size_fontok ..⟩⟩)

/-- An allocator that has nothing left for the buffer of the first file. -/
def noTempbuf : Answers where
  malloc _ := true
  openFirst _ := 0
  mallocFftemp _ := true
  mallocTempbuf i := i != 0
  openAgain _ := 0
  read _ _ := 0
  content _ := [0x61]

/-- The update succeeds and marks the library, and the first font is not there. -/
theorem fontsUpdateFont_noTempbuf :
    let s : FontState := ⟨.fresh, ⟨0xFF, 0, 0, 0, 0, 0, 0, 0, 0, 0, 0⟩, []⟩
    (fontsUpdateFont part25q256 noTempbuf "0:").val s = some 0 ∧
      Marked part25q256 ((fontsUpdateFont part25q256 noTempbuf "0:").state s) ∧
      ¬AllStored part25q256 noTempbuf "0:"
        ((fontsUpdateFont part25q256 noTempbuf "0:").state s) := by
  intro s
  have hmark : ComesToMark part25q256 noTempbuf "0:" :=
    ⟨fun _ => rfl, fun _ _ => rfl, fun _ _ => ⟨rfl, rfl, fun _ _ _ => rfl⟩, by decide⟩
  obtain ⟨hval, hmarked⟩ := (fontsUpdateFont_marks part25q256 noTempbuf "0:" s).mpr hmark
  refine ⟨hval, hmarked, fun hall => ?_⟩
  rw [state_of_comesToMark part25q256 noTempbuf "0:" hmark] at hall
  have hfiles := files_untouched part25q256 noTempbuf "0:" (i := 0) (fun h => by cases h.2.2)
    (started part25q256 s)
  obtain ⟨header, -, -, hftinfo, -⟩ := state_writeHeader part25q256 hmark.header
    ((Prog.loop (updateRound part25q256 noTempbuf "0:") 5 0 ()).state (started part25q256 s))
  have hsize := (hall.stored 0 (by decide)).size
  rw [hftinfo, size_fontok, hfiles.size] at hsize
  cases hsize

end Apollo.Text
