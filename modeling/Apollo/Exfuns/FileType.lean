import Apollo.Usmart.Str
import Mathlib.Data.Bool.AllAny
import Mathlib.Data.List.GetD

/-!
# The type of a file

`exfuns_file_type` goes back from the end of a name to its extension, converts that to upper case
and compares it with the entries of a table.  It goes back five bytes whatever the length of the
name, and takes the end of a row of the table for an empty string, while it is a null pointer.

## Main definitions

* `exfunsFileType` — the code; `Fault` — what it must not do.
* `IsType` — the type a name has.
* `exfunsFileType_iff` — the names whose type is reported, and without a fault.
-/

namespace Apollo.Exfuns
open Usmart (ch text)

/-- What must not happen: a read before the name, a null pointer, a write outside `tbuf`. -/
inductive TypeFault where
  | beforeName
  | nullEntry
  | tbuf
  deriving DecidableEq

/-- The rows of `FILE_TYPE_TBL`. -/
def fileTypes : List (List String) :=
  [["BIN"],
    ["LRC"],
    ["NES", "SMS"],
    ["TXT", "C", "H"],
    ["WAV", "MP3", "OGG", "FLAC", "AAC", "WMA", "MID"],
    ["BMP", "JPG", "JPEG", "GIF"],
    ["AVI"]]

/-- `FILE_MAX_TYPE_NUM`. -/
abbrev fileMaxTypeNum : ℕ := 7
/-- `FILE_MAX_SUBT_NUM`. -/
abbrev fileMaxSubtNum : ℕ := 7

/-- `FILE_TYPE_TBL[i][j]`; what a row has no string for is a null pointer. -/
def fileTypeTbl (i j : ℕ) : Option (List UInt8) := ((fileTypes.getD i [])[j]?).map text

def exfunsCharUpper (c : UInt8) : UInt8 :=
  if c < ch 'A' then c else if ch 'a' ≤ c then c - 0x20 else c

/-- The loop to the end of the name, with `k` rounds left: `i` behind it. -/
def seekEnd : ℕ → List UInt8 → ℕ → ℕ
  | 0, _, i => i
  | _ + 1, [], i => i + 1
  | k + 1, _ :: fname, i => seekEnd k fname (i + 1)

/-- The loop back to the dot, with `k` rounds left.  The bytes before `fname` are given from the
last one on; `attr` are those behind it. -/
def seekDot : ℕ → List UInt8 → List UInt8 → Except TypeFault (Option (List UInt8))
  | 0, _, _ => pure none
  | _ + 1, [], _ => throw .beforeName
  | k + 1, c :: before, attr =>
      if c = ch '.' then pure (some attr) else seekDot k before (c :: attr)

/-- The comparison with the entries of a row from `j` on, with `k` of them left. -/
def compareSub (tbuf : List UInt8) (i : ℕ) : ℕ → ℕ → Except TypeFault (Option ℕ)
  | 0, _ => pure none
  | k + 1, j =>
      match fileTypeTbl i j with
      | none => throw .nullEntry
      | some entry =>
          if entry = [] then pure none
          else if entry = tbuf then pure (some (i * 2 ^ 4 ||| j))
          else compareSub tbuf i k (j + 1)

/-- The comparison with the rows from `i` on, with `k` of them left. -/
def compareType (tbuf : List UInt8) : ℕ → ℕ → Except TypeFault ℕ
  | 0, _ => pure 0xFF
  | k + 1, i => do
      match ← compareSub tbuf i fileMaxSubtNum 0 with
      | some v => pure v
      | none => compareType tbuf k (i + 1)

/-- `exfuns_file_type`.  The bytes of `tbuf` behind the extension are not looked at. -/
def exfunsFileType (fname : List UInt8) : Except TypeFault ℕ :=
  if seekEnd 250 fname 0 = 250 then pure 0xFF
  else do
    match ← seekDot 5 fname.reverse [] with
    | none => pure 0xFF
    | some attr =>
        if 5 < attr.length + 1 then throw .tbuf
        else compareType (attr.map exfunsCharUpper) fileMaxTypeNum 0

/-! ## Extensions -/

/-- The bytes behind the last dot, or all where there is no dot. -/
def tail (fname : List UInt8) : List UInt8 := (fname.reverse.takeWhile (· ≠ ch '.')).reverse

/-- The extension: the text behind the last dot. -/
def extension (fname : List UInt8) : Option (List UInt8) :=
  if ch '.' ∈ fname then some (tail fname) else none

/-- A small letter as a capital. -/
def asciiUpper (c : UInt8) : UInt8 := if ch 'a' ≤ c ∧ c ≤ ch 'z' then c - 0x20 else c

/-- The name has the extension `e`, whatever the case. -/
def HasExtension (fname e : List UInt8) : Prop :=
  ∃ a, extension fname = some a ∧ a.map asciiUpper = e

/-- The extension of the name is in the table. -/
def Listed (fname : List UInt8) : Prop :=
  ∃ i j e, fileTypeTbl i j = some e ∧ HasExtension fname e

/-- `v` is the type of the name: the entry that its extension equals, or that there is none. -/
inductive IsType (fname : List UInt8) : ℕ → Prop where
  | entry {i j : ℕ} {e : List UInt8} (h : fileTypeTbl i j = some e) (he : HasExtension fname e) :
      IsType fname (i * 2 ^ 4 ||| j)
  | unknown (h : ¬ Listed fname) : IsType fname 0xFF

/-- The names whose type the code reports: those of at most 248 bytes that end in `.bin` or have
no dot in their last five bytes, and longer ones whose type is unknown. -/
def Reported (fname : List UInt8) : Prop :=
  if fname.length < 249 then HasExtension fname (text "BIN") ∨
    5 ≤ fname.length ∧ ch '.' ∉ fname.drop (fname.length - 5)
  else ¬ Listed fname

/-- The loop to the end counts the NUL, too, and stops at 250. -/
theorem seekEnd_eq (k : ℕ) (fname : List UInt8) (i : ℕ) :
    seekEnd k fname i = i + min k (fname.length + 1) := by
  induction k generalizing fname i with
  | zero => simp [seekEnd]
  | succ k ih =>
      cases fname with
      | nil => simp [seekEnd]
      | cons c fname =>
          rw [seekEnd, ih, List.length_cons]
          omega

/-- The loop back finds the last dot if it is near, goes before the name if there is none in a
short one, and gives up otherwise. -/
theorem seekDot_eq (k : ℕ) (before attr : List UInt8) :
    seekDot k before attr =
      if (before.takeWhile (· ≠ ch '.')).length < k then
        if ch '.' ∈ before then .ok (some ((before.takeWhile (· ≠ ch '.')).reverse ++ attr))
        else .error .beforeName
      else .ok none := by
  induction k generalizing before attr with
  | zero => rfl
  | succ k ih =>
      cases before with
      | nil => rfl
      | cons c before =>
          rw [seekDot]
          by_cases hc : c = ch '.'
          · subst hc
            simp [pure, Except.pure]
          · rw [if_neg hc, ih]
            simp [hc, Ne.symm hc]

/-- The first `k` items have the property exactly if those that begin the list with it are as
many. -/
theorem le_length_takeWhile {α : Type} (p : α → Bool) (k : ℕ) (l : List α) :
    k ≤ (l.takeWhile p).length ↔ k ≤ l.length ∧ ∀ c ∈ l.take k, p c = true := by
  induction k generalizing l with
  | zero => simp
  | succ k ih =>
      cases l with
      | nil => simp
      | cons c l =>
          cases hc : p c with
          | false => simp [hc]
          | true => simp [hc, ih]

/-- No dot is near exactly if the name is longer than the loop back and has none at its end. -/
theorem far_iff (fname : List UInt8) :
    ¬ (fname.reverse.takeWhile (· ≠ ch '.')).length < 5 ↔
      5 ≤ fname.length ∧ ch '.' ∉ fname.drop (fname.length - 5) := by
  rw [Nat.not_lt, le_length_takeWhile, List.length_reverse, List.take_reverse]
  refine and_congr_right fun _ => ⟨fun h hdot => ?_, fun h c hc => ?_⟩
  · simpa using h _ (List.mem_reverse.mpr hdot)
  · simpa using fun heq : c = ch '.' => h (heq ▸ List.mem_reverse.mp hc)

/-- Both conversions agree on what becomes a capital letter, or a character before these. -/
theorem charUpper_eq_iff {c e : UInt8} (he : e ≤ ch 'Z') :
    exfunsCharUpper c = e ↔ asciiUpper c = e := by
  have hbounds : ch 'A' = 65 ∧ ch 'Z' = 90 ∧ ch 'a' = 97 ∧ ch 'z' = 122 := by decide
  obtain ⟨hA, hZ, ha, hz⟩ := hbounds
  unfold exfunsCharUpper asciiUpper
  rw [hA, ha, hz]
  rw [hZ] at he
  grind

theorem map_charUpper_eq_iff {e : List UInt8} (he : ∀ c ∈ e, c ≤ ch 'Z') (a : List UInt8) :
    a.map exfunsCharUpper = e ↔ a.map asciiUpper = e := by
  induction e generalizing a with
  | nil => rw [List.map_eq_nil_iff, List.map_eq_nil_iff]
  | cons d e ih =>
      cases a with
      | nil => simp
      | cons c a =>
          rw [List.map_cons, List.map_cons, List.cons.injEq, List.cons.injEq,
            charUpper_eq_iff (he d List.mem_cons_self),
            ih fun c hc => he c (List.mem_cons_of_mem _ hc)]

/-- Behind `BIN` the first row ends. -/
theorem compareType_eq (tbuf : List UInt8) :
    compareType tbuf fileMaxTypeNum 0 =
      if tbuf = text "BIN" then .ok 0 else .error .nullEntry := by
  have hbin : fileTypeTbl 0 0 = some (text "BIN") := by decide
  have hnull : fileTypeTbl 0 1 = none := by decide
  have hne : text "BIN" ≠ [] := by decide
  rw [compareType, compareSub, hbin]
  dsimp only
  rw [if_neg hne]
  by_cases heq : text "BIN" = tbuf
  · rw [if_pos heq, if_pos heq.symm]
    rfl
  · rw [if_neg heq, if_neg (Ne.symm heq), compareSub, hnull]
    rfl

/-- What the code does with a name. -/
theorem exfunsFileType_eq (fname : List UInt8) :
    exfunsFileType fname =
      if 249 ≤ fname.length then .ok 0xFF
      else if (tail fname).length < 5 then
        if ch '.' ∈ fname then
          if (tail fname).map exfunsCharUpper = text "BIN" then .ok 0 else .error .nullEntry
        else .error .beforeName
      else .ok 0xFF := by
  have hend : seekEnd 250 fname 0 = 250 ↔ 249 ≤ fname.length := by
    rw [seekEnd_eq]
    omega
  have hback : seekDot 5 fname.reverse [] =
      if (tail fname).length < 5 then
        if ch '.' ∈ fname then .ok (some (tail fname)) else .error .beforeName
      else .ok none := by
    rw [seekDot_eq]
    simp only [tail, List.length_reverse, List.mem_reverse, List.append_nil]
  rw [exfunsFileType, hback]
  simp only [hend]
  by_cases hlong : 249 ≤ fname.length
  · rw [if_pos hlong, if_pos hlong]
    rfl
  · rw [if_neg hlong, if_neg hlong]
    by_cases hnear : (tail fname).length < 5
    · rw [if_pos hnear, if_pos hnear]
      by_cases hdot : ch '.' ∈ fname
      · rw [if_pos hdot, if_pos hdot, ← compareType_eq]
        exact if_neg (by omega)
      · rw [if_neg hdot, if_neg hdot]
        rfl
    · rw [if_neg hnear, if_neg hnear]
      rfl

/-! ## The table -/

/-- An entry is in one of seven rows and seven columns, and no longer than four bytes. -/
theorem fileTypeTbl_bounds {i j : ℕ} {e : List UInt8} (h : fileTypeTbl i j = some e) :
    i < 7 ∧ j < 7 ∧ e.length ≤ 4 := by
  have hrows : ∀ row ∈ fileTypes, row.length ≤ 7 ∧ ∀ t ∈ row, (text t).length ≤ 4 := by decide
  obtain ⟨t, ht, rfl⟩ := Option.map_eq_some_iff.mp h
  obtain ⟨hj, htj⟩ := List.getElem?_eq_some_iff.mp ht
  have hi : i < fileTypes.length := by
    by_contra hge
    rw [List.getD_eq_default _ _ (Nat.le_of_not_lt hge)] at hj
    exact Nat.not_lt_zero j hj
  rw [List.getD_eq_getElem _ _ hi] at hj
  have hrow := hrows _ (List.getElem_mem hi)
  refine ⟨hi, Nat.lt_of_lt_of_le hj hrow.1, hrow.2 t ?_⟩
  simp only [List.getD_eq_getElem _ _ hi] at htj
  exact htj ▸ List.getElem_mem hj

/-- The type of an entry is not the one that stands for none. -/
theorem entry_ne_unknown {i j : ℕ} {e : List UInt8} (h : fileTypeTbl i j = some e) :
    i * 2 ^ 4 ||| j ≠ 0xFF := by
  obtain ⟨hi, hj, -⟩ := fileTypeTbl_bounds h
  have hall : ∀ i < 7, ∀ j < 7, i * 2 ^ 4 ||| j ≠ 0xFF := by decide
  exact hall i hi j hj

/-! ## The types that are reported -/

theorem listed_length {fname : List UInt8} (h : Listed fname) : (tail fname).length ≤ 4 := by
  obtain ⟨i, j, e, hentry, a, ha, rfl⟩ := h
  have hlen := (fileTypeTbl_bounds hentry).2.2
  rw [List.length_map] at hlen
  unfold extension at ha
  split at ha
  · rw [Option.some.inj ha]
    exact hlen
  · cases ha

theorem hasExtension_iff {fname e : List UInt8} (he : ∀ c ∈ e, c ≤ ch 'Z') :
    HasExtension fname e ↔ ch '.' ∈ fname ∧ (tail fname).map exfunsCharUpper = e := by
  rw [map_charUpper_eq_iff he]
  unfold HasExtension extension
  by_cases hdot : ch '.' ∈ fname
  · simp [hdot]
  · simp [hdot]

theorem isType_unknown_iff {fname : List UInt8} : IsType fname 0xFF ↔ ¬ Listed fname := by
  refine ⟨fun h => ?_, .unknown⟩
  generalize hv : 0xFF = v at h
  cases h with
  | entry hentry _ => exact absurd hv.symm (entry_ne_unknown hentry)
  | unknown h => exact h

/-- The code reports the type of a name without a fault exactly for the names that are
`Reported`. -/
theorem exfunsFileType_iff (fname : List UInt8) :
    (∃ v, exfunsFileType fname = .ok v ∧ IsType fname v) ↔ Reported fname := by
  have hbin : HasExtension fname (text "BIN") ↔
      ch '.' ∈ fname ∧ (tail fname).map exfunsCharUpper = text "BIN" :=
    hasExtension_iff (List.all_iff_forall_prop.mp rfl)
  have hfar := far_iff fname
  rw [← List.length_reverse] at hfar
  change ¬ (tail fname).length < 5 ↔ _ at hfar
  have hok (v w : ℕ) : (Except.ok v : Except TypeFault ℕ) = .ok w ↔ v = w := by
    rw [Except.ok.injEq]
  rw [exfunsFileType_eq, Reported]
  by_cases hlong : 249 ≤ fname.length
  · simp only [if_pos hlong, if_neg (Nat.not_lt.mpr hlong), hok, exists_eq_left']
    exact isType_unknown_iff
  · rw [if_neg hlong, if_pos (Nat.not_le.mp hlong), ← hfar]
    by_cases hnear : (tail fname).length < 5
    · rw [if_pos hnear, hbin]
      by_cases hdot : ch '.' ∈ fname
      · rw [if_pos hdot]
        by_cases heq : (tail fname).map exfunsCharUpper = text "BIN"
        · refine iff_of_true ⟨0, if_pos heq, ?_⟩ (.inl ⟨hdot, heq⟩)
          exact .entry (i := 0) (j := 0) (by decide) (hbin.mpr ⟨hdot, heq⟩)
        · simp [heq, hnear]
      · simp [hdot, hnear]
    · simp only [if_neg hnear, hok, exists_eq_left']
      refine iff_of_true (.unknown fun hlisted => ?_) (.inr hnear)
      have := listed_length hlisted
      omega

/-- The type of a text file is not reported. -/
theorem exfunsFileType_txt :
    ¬ ∃ v, exfunsFileType (text "A.TXT") = .ok v ∧ IsType (text "A.TXT") v := by
  rintro ⟨v, hv, -⟩
  have hfault : exfunsFileType (text "A.TXT") = .error .nullEntry := by decide
  rw [hfault] at hv
  cases hv

end Apollo.Exfuns
