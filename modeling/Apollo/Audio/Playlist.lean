import Apollo.Lib.Trial
import Apollo.Exfuns.FileType
import Apollo.Exfuns.Folder
import Apollo.Wav.Play
import Mathlib.Algebra.GroupWithZero.Nat
import Mathlib.Data.List.TakeWhile

/-!
# The playlist

`audio_play` counts the songs of a folder, takes a table with an entry for each of them, and goes
through the folder again to fill the table.  Either scan ends without a word where a call fails.
The keys then lead around the table by the count of the first scan, while its entries are those
of the second.

## Main definitions

* `Scan`, `Course` — what the calls answer; `Table` — the entries that have been recorded.
* `audioGetTnum`, `audioPlay` — the code; `PlayStop` — what it must not come to.
* `audioEntries` — the songs that a scan comes to.
* `tableSafe_iff` — when the table is used within its bounds.
-/

namespace Apollo.Audio
open Lib Exfuns
open Usmart (text)
open Wav (key0Pres key2Pres)

/-- The results of `f_opendir` and of each call of `f_readdir`, for one scan of a folder. -/
structure Scan where
  opendir : ℕ
  readdir : ℕ → ℕ

/-- What else the calls answer. -/
structure Course where
  /-- The calls of `f_opendir` at the start. -/
  opens : ℕ → ℕ
  /-- `mymalloc` for each of the blocks succeeds. -/
  tfileinfo : Bool
  wavfileinfo : Bool
  pname : Bool
  wavoffsettbl : Bool
  /-- The last call of `f_opendir`, and the calls of `f_readdir` behind it. -/
  opendir : ℕ
  readdir : ℕ → ℕ
  /-- What `audio_play_song` returns. -/
  song : ℕ → ℕ

/-- What ends a run without a result. -/
inductive PlayStop where
  /-- It has not come to an end. -/
  | waiting
  /-- An entry is written behind the end of the table. -/
  | outOfTable
  /-- An entry is used that has not been recorded. -/
  | unrecorded
  deriving DecidableEq

/-- `wavoffsettbl`: for each entry that has been recorded, how far the folder has been read. -/
abbrev Table := ℕ → Option ℕ

section Code
-- what `exfuns_file_type` returns for a name
variable (fileType : List UInt8 → ℕ) (disk : List Finfo)

/-- The type is one of music. -/
def IsAudio (fname : List UInt8) : Prop := fileType fname / 16 % 16 = 4

instance (fname : List UInt8) : Decidable (IsAudio fileType fname) :=
  inferInstanceAs (Decidable (_ = _))

/-- The loop of `audio_get_tnum`, from the call `k` of `f_readdir` on. -/
def tnumLoop (readdir : ℕ → ℕ) : List Finfo → ℕ → ℕ → ℕ
  | [], _, rval => rval
  | f :: rest, k, rval =>
      if readdir k ≠ 0 ∨ f.fname = [] then rval
      else if IsAudio fileType f.fname then tnumLoop readdir rest (k + 1) ((rval + 1) % 2 ^ 16)
      else tnumLoop readdir rest (k + 1) rval

/-- `audio_get_tnum`. -/
def audioGetTnum (S : Scan) (tfileinfo : Bool) : ℕ :=
  if S.opendir = 0 ∧ tfileinfo = true then tnumLoop fileType S.readdir disk 0 0 else 0

/-- `wavoffsettbl[curindex] = temp`. -/
def record (totwavnum curindex temp : ℕ) : Trial PlayStop Table Unit :=
  if curindex < totwavnum then
    Trial.modify fun t i => if i = curindex then some temp else t i
  else Trial.stop .outOfTable

/-- The loop that fills the table, from the call `k` of `f_readdir` on. -/
def indexLoop (totwavnum : ℕ) (readdir : ℕ → ℕ) :
    List Finfo → ℕ → ℕ → Trial PlayStop Table Unit
  | [], _, _ => pure ()
  | f :: rest, k, curindex =>
      if readdir k ≠ 0 ∨ f.fname = [] then pure ()
      else if IsAudio fileType f.fname then do
        record totwavnum curindex k
        indexLoop totwavnum readdir rest (k + 1) ((curindex + 1) % 2 ^ 16)
      else indexLoop totwavnum readdir rest (k + 1) curindex

/-- The name that `f_readdir` finds from where `k` entries have been read. -/
def nameAt (k : ℕ) : List UInt8 := (disk[k]?.map Finfo.fname).getD []

/-- The loop that plays the songs, for at most so many of them, from the song `j` on. -/
def playLoop (C : Course) (totwavnum : ℕ) : ℕ → ℕ → ℕ → Trial PlayStop Table Unit
  | 0, _, _ => Trial.stop .waiting
  | n + 1, j, curindex => do
      let entry ← Trial.get fun t => t curindex
      match entry with
      | none => Trial.stop .unrecorded
      | some k =>
          if C.readdir j ≠ 0 ∨ nameAt disk k = [] then pure ()
          else if C.song j = key2Pres then
            if curindex ≠ 0 then playLoop C totwavnum n (j + 1) (curindex - 1)
            else playLoop C totwavnum n (j + 1) ((totwavnum + 2 ^ 16 - 1) % 2 ^ 16)
          else if C.song j = key0Pres then
            if totwavnum ≤ (curindex + 1) % 2 ^ 16 then playLoop C totwavnum n (j + 1) 0
            else playLoop C totwavnum n (j + 1) ((curindex + 1) % 2 ^ 16)
          else pure ()

/-- The loop at the start, for at most so many calls. -/
def openLoop (C : Course) : ℕ → ℕ → Trial PlayStop Table Unit
  | 0, _ => Trial.stop .waiting
  | n + 1, i => if C.opens i ≠ 0 then openLoop C n (i + 1) else pure ()

/-- The second scan. -/
def fillTable (index : Scan) (totwavnum : ℕ) : Trial PlayStop Table Unit :=
  if index.opendir = 0 then indexLoop fileType totwavnum index.readdir disk 0 0 else pure ()

/-- The part of `audio_play` that has the table. -/
def playAll (index : Scan) (C : Course) (totwavnum n : ℕ) : Trial PlayStop Table Unit := do
  fillTable fileType disk index totwavnum
  if C.opendir = 0 then playLoop disk C totwavnum n 0 0 else pure ()

/-- `audio_play`, for at most `n` rounds of the loops that wait or play.  Without songs or without
memory it waits for ever. -/
def audioPlay (count index : Scan) (C : Course) (n : ℕ) : Trial PlayStop Table Unit := do
  openLoop C n 0
  if audioGetTnum fileType disk count C.tfileinfo = 0 then Trial.stop .waiting
  else if C.wavfileinfo = true ∧ C.pname = true ∧ C.wavoffsettbl = true then
    playAll fileType disk index C (audioGetTnum fileType disk count C.tfileinfo) n
  else Trial.stop .waiting

end Code

/-! ## What the scans come to -/

section Entries
variable (fileType : List UInt8 → ℕ) (readdir : ℕ → ℕ)

/-- The songs that a scan comes to before it ends, by how far the folder has been read. -/
def audioEntries (l : List Finfo) (k : ℕ) : List ℕ :=
  (((l.zipIdx k).takeWhile fun e => readdir e.2 = 0 ∧ e.1.fname ≠ []).filter fun e =>
    IsAudio fileType e.1.fname).map Prod.snd

variable {f : Finfo} {rest : List Finfo} {k : ℕ}

theorem audioEntries_end (h : readdir k ≠ 0 ∨ f.fname = []) :
    audioEntries fileType readdir (f :: rest) k = [] := by
  rw [audioEntries, List.zipIdx_cons, List.takeWhile_cons_of_neg]
  · rfl
  · simpa [or_iff_not_imp_left] using h

theorem audioEntries_audio (h : ¬ (readdir k ≠ 0 ∨ f.fname = []))
    (haudio : IsAudio fileType f.fname) :
    audioEntries fileType readdir (f :: rest) k =
      k :: audioEntries fileType readdir rest (k + 1) := by
  rw [audioEntries, List.zipIdx_cons, List.takeWhile_cons_of_pos, List.filter_cons_of_pos]
  · rfl
  · simpa using haudio
  · simpa [not_or] using h

theorem audioEntries_other (h : ¬ (readdir k ≠ 0 ∨ f.fname = []))
    (hother : ¬ IsAudio fileType f.fname) :
    audioEntries fileType readdir (f :: rest) k = audioEntries fileType readdir rest (k + 1) := by
  rw [audioEntries, List.zipIdx_cons, List.takeWhile_cons_of_pos, List.filter_cons_of_neg]
  · rfl
  · simpa using hother
  · simpa [not_or] using h

variable (rest k) in
/-- They are not more than there are. -/
theorem length_audioEntries_le :
    (audioEntries fileType readdir rest k).length ≤
      (rest.filter fun f => IsAudio fileType f.fname).length := by
  induction rest generalizing k with
  | nil => exact Nat.le_refl 0
  | cons f rest ih =>
      by_cases hend : readdir k ≠ 0 ∨ f.fname = []
      · rw [audioEntries_end fileType readdir hend]
        exact Nat.zero_le _
      · by_cases haudio : IsAudio fileType f.fname
        · rw [audioEntries_audio fileType readdir hend haudio,
            List.filter_cons_of_pos (by simpa using haudio)]
          exact Nat.succ_le_succ (ih (k + 1))
        · rw [audioEntries_other fileType readdir hend haudio,
            List.filter_cons_of_neg (by simpa using haudio)]
          exact ih (k + 1)

/-- What is at the entries has a name. -/
theorem nameAt_ne_nil {disk : List Finfo} (h : k ∈ audioEntries fileType readdir disk 0) :
    nameAt disk k ≠ [] := by
  obtain ⟨⟨f, k⟩, hmem, rfl⟩ := List.mem_map.mp h
  have hread := List.mem_of_mem_filter hmem
  have hname := List.mem_takeWhile_imp hread
  rw [decide_eq_true_eq] at hname
  have hat : disk[k]? = some f := List.mk_mem_zipIdx_iff_getElem?.mp (List.takeWhile_subset _ hread)
  rw [nameAt, hat]
  exact hname.2

/-- The counting scan counts them, in sixteen bits. -/
theorem tnumLoop_eq (l : List Finfo) (k rval : ℕ) :
    tnumLoop fileType readdir l k (rval % 2 ^ 16) =
      (rval + (audioEntries fileType readdir l k).length) % 2 ^ 16 := by
  induction l generalizing k rval with
  | nil => rfl
  | cons f rest ih =>
      rw [tnumLoop]
      by_cases hend : readdir k ≠ 0 ∨ f.fname = []
      · rw [if_pos hend, audioEntries_end fileType readdir hend]
        rfl
      · rw [if_neg hend]
        by_cases haudio : IsAudio fileType f.fname
        · rw [if_pos haudio, audioEntries_audio fileType readdir hend haudio, Nat.mod_add_mod, ih,
            List.length_cons, Nat.add_assoc, Nat.add_comm 1]
        · rw [if_neg haudio, audioEntries_other fileType readdir hend haudio, ih]

end Entries

/-! ## The table -/

/-- The table with entries recorded from the index `c` on. -/
def Table.fill (t : Table) (c : ℕ) (entries : List ℕ) : Table :=
  fun i => if c ≤ i ∧ i < c + entries.length then entries[i - c]? else t i

theorem Table.fill_nil (t : Table) (c : ℕ) : t.fill c [] = t := by
  funext i
  rw [fill, List.length_nil, if_neg (by omega)]

theorem Table.fill_cons (t : Table) (c k : ℕ) (entries : List ℕ) :
    Table.fill (fun i => if i = c then some k else t i) (c + 1) entries =
      t.fill c (k :: entries) := by
  funext i
  rw [fill, fill, List.length_cons]
  by_cases hi : i = c
  · rw [if_neg (by omega), if_pos hi, if_pos (by omega), hi, Nat.sub_self]
    rfl
  · by_cases hin : c + 1 ≤ i ∧ i < c + 1 + entries.length
    · rw [if_pos hin, if_pos (by omega), show i - c = i - (c + 1) + 1 by omega,
        List.getElem?_cons_succ]
    · rw [if_neg hin, if_neg hi, if_neg (by omega)]

section Index
variable (fileType : List UInt8 → ℕ) (readdir : ℕ → ℕ) {totwavnum : ℕ} (hnum : totwavnum < 2 ^ 16)
include hnum

/-- The scan records its songs, if the table has room for them. -/
theorem indexLoop_returns (l : List Finfo) (k c : ℕ)
    (hroom : c + (audioEntries fileType readdir l k).length ≤ totwavnum) (t : Table) :
    (indexLoop fileType totwavnum readdir l k c).Returns t ()
      (t.fill c (audioEntries fileType readdir l k)) := by
  induction l generalizing k c t with
  | nil => exact Trial.returns_pure.mpr ⟨rfl, (t.fill_nil c).symm⟩
  | cons f rest ih =>
      rw [indexLoop]
      by_cases hend : readdir k ≠ 0 ∨ f.fname = []
      · rw [if_pos hend, audioEntries_end fileType readdir hend, t.fill_nil]
        exact Trial.returns_pure.mpr ⟨rfl, rfl⟩
      · rw [if_neg hend]
        by_cases haudio : IsAudio fileType f.fname
        · rw [audioEntries_audio fileType readdir hend haudio, List.length_cons] at hroom
          rw [if_pos haudio, audioEntries_audio fileType readdir hend haudio, ← t.fill_cons, record,
            if_pos (by omega), Nat.mod_eq_of_lt (by omega), Trial.returns_bind]
          exact ⟨(), _, Trial.returns_modify.mpr rfl, ih (k + 1) (c + 1) (by omega) _⟩
        · rw [audioEntries_other fileType readdir hend haudio] at hroom ⊢
          rw [if_neg haudio]
          exact ih (k + 1) c hroom t

/-- Otherwise it writes behind the table. -/
theorem indexLoop_stops (l : List Finfo) (k c : ℕ) (hc : c ≤ totwavnum)
    (hroom : totwavnum < c + (audioEntries fileType readdir l k).length) (t : Table) :
    (indexLoop fileType totwavnum readdir l k c).Stops t .outOfTable := by
  induction l generalizing k c t with
  | nil => exact absurd hroom (Nat.not_lt.mpr hc)
  | cons f rest ih =>
      rw [indexLoop]
      by_cases hend : readdir k ≠ 0 ∨ f.fname = []
      · rw [audioEntries_end fileType readdir hend] at hroom
        exact absurd hroom (Nat.not_lt.mpr hc)
      · rw [if_neg hend]
        by_cases haudio : IsAudio fileType f.fname
        · rw [audioEntries_audio fileType readdir hend haudio, List.length_cons] at hroom
          rw [if_pos haudio, Trial.stops_bind, record]
          by_cases hfull : c < totwavnum
          · rw [if_pos hfull, Nat.mod_eq_of_lt (by omega)]
            exact .inr ⟨(), _, Trial.returns_modify.mpr rfl, ih (k + 1) (c + 1) hfull (by omega) _⟩
          · rw [if_neg hfull]
            exact .inl (Trial.stops_stop.mpr rfl)
        · rw [audioEntries_other fileType readdir hend haudio] at hroom
          rw [if_neg haudio]
          exact ih (k + 1) c hc hroom t

end Index

/-! ## The keys -/

section Keys
variable (disk : List Finfo) {totwavnum : ℕ} (hnum : totwavnum < 2 ^ 16) {t : Table}
include hnum

/-- The keys lead to entries that have been recorded, if all are. -/
theorem playLoop_safe (C : Course) (hall : ∀ i < totwavnum, (t i).isSome) (n j : ℕ) {c : ℕ}
    (hc : c < totwavnum) {e : PlayStop} (h : (playLoop disk C totwavnum n j c).Stops t e) :
    e = .waiting := by
  induction n generalizing j c with
  | zero => exact (Trial.stops_stop.mp h).symm
  | succ n ih =>
      obtain ⟨k, hk⟩ := Option.isSome_iff_exists.mp (hall c hc)
      simp only [playLoop, Trial.stops_bind, Trial.stops_get, Trial.returns_get, false_or] at h
      obtain ⟨_, _, ⟨rfl, rfl⟩, h⟩ := h
      rw [hk] at h
      simp only [Trial.stops_ite, Trial.stops_pure] at h
      split at h
      · exact h.elim
      · split at h
        · split at h
          · exact ih (j + 1) (by omega) h
          · exact ih (j + 1) (by omega) h
        · split at h
          · split at h
            · exact ih (j + 1) (by omega) h
            · exact ih (j + 1) (by omega) h
          · exact h.elim

/-- With one key they lead to the first entry that has not been recorded. -/
theorem playLoop_reaches {C : Course} (hread : ∀ j, C.readdir j = 0)
    (hnext : ∀ j, C.song j = key0Pres) {last : ℕ} (hlast : last < totwavnum) (hfree : t last = none)
    (hsongs : ∀ i < last, ∃ k, t i = some k ∧ nameAt disk k ≠ []) (n j : ℕ) {c : ℕ} (hc : c ≤ last)
    (hn : last < c + n) : (playLoop disk C totwavnum n j c).Stops t .unrecorded := by
  induction n generalizing j c with
  | zero => omega
  | succ n ih =>
      simp only [playLoop, Trial.stops_bind, Trial.stops_get, Trial.returns_get, false_or]
      refine ⟨_, _, ⟨rfl, rfl⟩, ?_⟩
      rcases Nat.eq_or_lt_of_le hc with rfl | hc
      · rw [hfree]
        exact Trial.stops_stop.mpr rfl
      · obtain ⟨k, hk, hname⟩ := hsongs c hc
        rw [hk]
        dsimp only
        rw [if_neg fun h => h.elim (fun h => h (hread j)) hname, hnext,
          if_neg (by decide), if_pos rfl, Nat.mod_eq_of_lt (by omega), if_neg (by omega)]
        exact ih (j + 1) hc (by omega)

end Keys

/-! ## Safety -/

section Safety
variable (fileType : List UInt8 → ℕ) (disk : List Finfo)

/-- With these answers to the two scans, whatever else the calls answer and however far the program
runs, the table is written within its size, and only entries that have been recorded are used. -/
def TableSafe (count index : Scan) : Prop :=
  ∀ C n e, (audioPlay fileType disk count index C n).Stops (fun _ => none) e → e = .waiting

/-- How many songs a scan comes to. -/
def audioCount (S : Scan) : ℕ :=
  if S.opendir = 0 then (audioEntries fileType S.readdir disk 0).length else 0

/-- All calls succeed, and the key for the next song is pressed again and again. -/
def nextCourse : Course := ⟨fun _ => 0, true, true, true, true, 0, fun _ => 0, fun _ => key0Pres⟩

theorem openLoop_stops {C : Course} {n i : ℕ} {t : Table} {e : PlayStop}
    (h : (openLoop C n i).Stops t e) : e = .waiting := by
  induction n generalizing i with
  | zero => exact (Trial.stops_stop.mp h).symm
  | succ n ih =>
      rw [openLoop, Trial.stops_ite] at h
      split at h
      · exact ih h
      · exact (Trial.stops_pure h).elim

theorem openLoop_returns {C : Course} {n i : ℕ} {t u : Table}
    (h : (openLoop C n i).Returns t () u) : t = u := by
  induction n generalizing i with
  | zero => exact (Trial.returns_stop h).elim
  | succ n ih =>
      rw [openLoop, Trial.returns_ite] at h
      split at h
      · exact ih h
      · exact (Trial.returns_pure.mp h).2

/-- What the second scan leaves in the table, when it has room. -/
theorem fillTable_returns {index : Scan} {totwavnum : ℕ} (hnum : totwavnum < 2 ^ 16)
    (hroom : audioCount fileType disk index ≤ totwavnum) :
    ∃ t : Table, (fillTable fileType disk index totwavnum).Returns (fun _ => none) () t ∧
      (∀ i < audioCount fileType disk index, ∃ k, t i = some k ∧ nameAt disk k ≠ []) ∧
      ∀ i, audioCount fileType disk index ≤ i → t i = none := by
  unfold audioCount at hroom ⊢
  unfold fillTable
  by_cases hopen : index.opendir = 0
  · simp only [if_pos hopen] at hroom ⊢
    refine ⟨_, indexLoop_returns fileType index.readdir hnum disk 0 0 (by omega) _, fun i hi => ?_,
      fun i hi => ?_⟩
    · refine ⟨_, (if_pos ⟨Nat.zero_le i, by omega⟩).trans (List.getElem?_eq_getElem hi), ?_⟩
      exact nameAt_ne_nil fileType index.readdir (List.getElem_mem hi)
    · exact if_neg (by omega)
  · simp only [if_neg hopen]
    exact ⟨_, Trial.returns_pure.mpr ⟨rfl, rfl⟩, fun i hi => absurd hi (Nat.not_lt_zero i),
      fun _ _ => rfl⟩

/-- The part that has the table is safe if the scans agree. -/
theorem playAll_safe {index : Scan} (C : Course) {totwavnum : ℕ} (hnum : totwavnum < 2 ^ 16)
    (hpos : 0 < totwavnum) (hagree : audioCount fileType disk index = totwavnum) (n : ℕ)
    {e : PlayStop} (h : (playAll fileType disk index C totwavnum n).Stops (fun _ => none) e) :
    e = .waiting := by
  obtain ⟨t, ht, hsongs, -⟩ := fillTable_returns fileType disk hnum hagree.le
  rw [playAll, Trial.stops_bind] at h
  rcases h with h | ⟨_, u, hu, h⟩
  · rw [Trial.Returns] at ht
    rw [Trial.Stops, ht] at h
    cases h
  · obtain ⟨-, rfl⟩ := ht.unique hu
    rw [Trial.stops_ite] at h
    split at h
    · refine playLoop_safe disk hnum C (fun i hi => ?_) n 0 hpos h
      obtain ⟨k, hk, -⟩ := hsongs i (by omega)
      rw [hk]
      rfl
    · exact (Trial.stops_pure h).elim

/-- If they do not agree it is not, when all calls succeed. -/
theorem playAll_fault {index : Scan} {totwavnum : ℕ} (hnum : totwavnum < 2 ^ 16)
    (hagree : audioCount fileType disk index ≠ totwavnum) {n : ℕ}
    (hn : audioCount fileType disk index < n) :
    ∃ e, (playAll fileType disk index nextCourse totwavnum n).Stops (fun _ => none) e ∧
      e ≠ .waiting := by
  rcases Nat.lt_or_gt_of_ne hagree with hless | hmore
  · -- an entry that the second scan has not come to
    obtain ⟨t, ht, hsongs, hfree⟩ := fillTable_returns fileType disk hnum hless.le
    refine ⟨.unrecorded, ?_, by decide⟩
    rw [playAll, Trial.stops_bind]
    refine .inr ⟨(), t, ht, ?_⟩
    rw [if_pos (show nextCourse.opendir = 0 from rfl)]
    exact playLoop_reaches disk hnum (fun _ => rfl) (fun _ => rfl) hless (hfree _ (Nat.le_refl _))
      hsongs n 0 (Nat.zero_le _) (by omega)
  · -- a song for which there is no entry
    refine ⟨.outOfTable, ?_, by decide⟩
    rw [playAll, Trial.stops_bind, fillTable]
    rw [audioCount] at hmore
    split at hmore
    case isTrue hopen =>
      rw [if_pos hopen]
      exact .inl (indexLoop_stops fileType index.readdir hnum disk 0 0 (Nat.zero_le _) (by omega) _)
    case isFalse => omega

variable (hfiles : (disk.filter fun f => IsAudio fileType f.fname).length < 2 ^ 16)
include hfiles

theorem audioCount_lt (S : Scan) : audioCount fileType disk S < 2 ^ 16 := by
  have hle := length_audioEntries_le fileType S.readdir disk 0
  rw [audioCount]
  split <;> omega

theorem audioGetTnum_eq (S : Scan) :
    audioGetTnum fileType disk S true = audioCount fileType disk S := by
  have hlt := audioCount_lt fileType disk hfiles S
  rw [audioCount] at hlt ⊢
  rw [audioGetTnum]
  by_cases hopen : S.opendir = 0
  · rw [if_pos hopen] at hlt ⊢
    have hcount := tnumLoop_eq fileType S.readdir disk 0 0
    rw [Nat.zero_mod, Nat.zero_add, Nat.mod_eq_of_lt hlt] at hcount
    rw [if_pos ⟨hopen, rfl⟩, hcount]
  · rw [if_neg fun h => hopen h.1, if_neg hopen]

/-- Scans that do not agree. -/
theorem not_tableSafe {count index : Scan} (hsome : audioCount fileType disk count ≠ 0)
    (hagree : audioCount fileType disk index ≠ audioCount fileType disk count) :
    ¬ TableSafe fileType disk count index := by
  intro h
  have htnum := audioGetTnum_eq fileType disk hfiles count
  obtain ⟨e, hstops, hne⟩ := playAll_fault fileType disk (audioCount_lt fileType disk hfiles count)
    hagree (Nat.lt_succ_self _)
  refine hne (h nextCourse (audioCount fileType disk index + 1) e ?_)
  rw [audioPlay, Trial.stops_bind]
  refine .inr ⟨(), fun _ => none, by simp [openLoop, nextCourse], ?_⟩
  rw [show nextCourse.tfileinfo = true from rfl, htnum, if_neg hsome, if_pos ⟨rfl, rfl, rfl⟩]
  exact hstops

/-- The table is used within its bounds exactly if the first scan finds no song, or both find the
same number. -/
theorem tableSafe_iff (count index : Scan) :
    TableSafe fileType disk count index ↔
      audioCount fileType disk count = 0 ∨
        audioCount fileType disk index = audioCount fileType disk count := by
  have htnum := audioGetTnum_eq fileType disk hfiles count
  have hlt := audioCount_lt fileType disk hfiles count
  constructor
  · intro h
    by_contra hno
    rw [not_or] at hno
    exact not_tableSafe fileType disk hfiles hno.1 hno.2 h
  · intro h C n e hstops
    rw [audioPlay, Trial.stops_bind] at hstops
    rcases hstops with hstops | ⟨_, u, hu, hstops⟩
    · exact openLoop_stops hstops
    · obtain rfl := openLoop_returns hu
      simp only [Trial.stops_ite, Trial.stops_stop] at hstops
      split at hstops
      · exact hstops.symm
      case isFalse hsome =>
        split at hstops
        · have hmem : C.tfileinfo = true := by
            by_contra hno
            exact hsome (if_neg fun h => hno h.2)
          rw [hmem, htnum] at hsome hstops
          exact playAll_safe fileType disk C hlt (Nat.pos_of_ne_zero hsome) (h.resolve_left hsome) n
            hstops
        · exact hstops.symm

end Safety

/-- The type of a name that ends with `MP3`, where nothing else is music. -/
def mp3Type (fname : List UInt8) : ℕ :=
  if (tail fname).map asciiUpper = text "MP3" then 0x41 else 0xFF

/-- A folder with one song. -/
def oneSong : List Finfo := [⟨text "A.MP3", 0x20, 1000⟩]

theorem tableSafe_iff_oneSong :
    TableSafe mp3Type oneSong ⟨0, fun _ => 0⟩ ⟨0, fun _ => 0⟩ ↔
      audioCount mp3Type oneSong ⟨0, fun _ => 0⟩ = 0 ∨
        audioCount mp3Type oneSong ⟨0, fun _ => 0⟩ = audioCount mp3Type oneSong ⟨0, fun _ => 0⟩ :=
  tableSafe_iff mp3Type oneSong (by decide) _ _

/-- When the second scan cannot open the folder, an entry is used that nobody has written. -/
theorem not_tableSafe_closed : ¬ TableSafe mp3Type oneSong ⟨0, fun _ => 0⟩ ⟨1, fun _ => 0⟩ :=
  not_tableSafe mp3Type oneSong (by decide) (by decide) (by decide)

end Apollo.Audio
