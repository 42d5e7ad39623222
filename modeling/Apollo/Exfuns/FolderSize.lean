import Apollo.Exfuns.Folder

/-!
# The size of a folder

`exfuns_get_folder_size` adds up the sizes of the entries of a folder, and calls itself for the
folders among them.  It returns 0 for a folder of which something has failed, and adds that to the
rest like a size.  Entries whose name begins with a dot are passed over, as `.` and `..` would
have to be.

## Main definitions

* `SizeCalls` — what the calls for a folder answer; `exfunsGetFolderSize` — the code.
* `Tree` — the tree below a folder; `Tree.total`, `Tree.hiddenBytes` — its bytes.
* `folderSize_tree` — what the code returns for a tree.
* `folderSize_iff` — when that is the total, or 0 for a failure.
-/

namespace Apollo.Exfuns
open Usmart (text)

/-- The answers of the calls that are made for a folder. -/
structure SizeCalls where
  /-- `mymalloc` for `fddir`, `finfo` and `pathname` succeeds. -/
  fddir : Bool
  finfo : Bool
  pathname : Bool
  opendir : ℕ
  /-- Each of the calls of `f_readdir`. -/
  readdir : ℕ → ℕ

/-- The loop over the entries of a folder, from the call `k` of `f_readdir` on: `res` and `fdsize`
at its end. -/
def sizeLoop (readdir : ℕ → ℕ) (folderSize : List UInt8 → Except Stop ℕ) (pathname : List UInt8) :
    List Finfo → ℕ → ℕ → Except Stop (ℕ × ℕ)
  | [], k, fdsize => pure (readdir k, fdsize)
  | f :: rest, k, fdsize =>
      if readdir k ≠ 0 then pure (readdir k, fdsize)
      else if f.fname = [] then pure (0, fdsize)
      else if f.Skipped then sizeLoop readdir folderSize pathname rest (k + 1) fdsize
      else if f.IsFolder then do
        let path ← appendName pathname f.fname
        let size ← folderSize path
        sizeLoop readdir folderSize pathname rest (k + 1) ((fdsize + size) % 2 ^ 32)
      else sizeLoop readdir folderSize pathname rest (k + 1) ((fdsize + f.fsize) % 2 ^ 32)

section Code
variable (disk : List UInt8 → List Finfo) (calls : List UInt8 → SizeCalls)

/-- `exfuns_get_folder_size`, for a recursion of at most the given depth.  What `f_readdir` finds
in a folder, and what the calls for it answer, depends on its path. -/
def exfunsGetFolderSize : ℕ → List UInt8 → Except Stop ℕ
  | 0, _ => throw .unfinished
  | n + 1, fdname =>
      let C := calls fdname
      if C.fddir = false ∨ C.finfo = false then pure 0
      else if C.pathname = false then pure 0
      else do
        let pathname ← strcat [] fdname
        if C.opendir ≠ 0 then pure 0
        else do
          let (res, fdsize) ←
            sizeLoop C.readdir (exfunsGetFolderSize n) pathname (disk fdname) 0 0
          if res ≠ 0 then pure 0 else pure fdsize

end Code

/-! ## Trees -/

/-- An entry that is a file. -/
structure FileEntry extends Finfo where
  named : fname ≠ []
  isFile : ¬ toFinfo.IsFolder

/-- An entry that is a folder. -/
structure FolderEntry extends Finfo where
  named : fname ≠ []
  isFolder : toFinfo.IsFolder

/-- The entries of a folder, with what is in the folders among them. -/
inductive Tree where
  | nil
  | file (f : FileEntry) (rest : Tree)
  | folder (f : FolderEntry) (sub rest : Tree)

namespace Tree

/-- What `f_readdir` finds. -/
def entries : Tree → List Finfo
  | nil => []
  | file f rest => f.toFinfo :: rest.entries
  | folder f _ rest => f.toFinfo :: rest.entries

/-- How deep the folders are nested. -/
def depth : Tree → ℕ
  | nil => 0
  | file _ rest => rest.depth
  | folder _ sub rest => max (sub.depth + 1) rest.depth

/-- The sizes of all files. -/
def total : Tree → ℕ
  | nil => 0
  | file f rest => f.fsize + rest.total
  | folder _ sub rest => sub.total + rest.total

/-- The sizes of the files that are passed over, or in folders that are. -/
def hiddenBytes : Tree → ℕ
  | nil => 0
  | file f rest => (if f.Skipped then f.fsize else 0) + rest.hiddenBytes
  | folder f sub rest => (if f.Skipped then sub.total else sub.hiddenBytes) + rest.hiddenBytes

/-- The folders in the tree are on the disk, below `path`. -/
def Below (disk : List UInt8 → List Finfo) (path : List UInt8) : Tree → Prop
  | nil => True
  | file _ rest => rest.Below disk path
  | folder f sub rest => disk (below path f.fname) = sub.entries ∧
      sub.Below disk (below path f.fname) ∧ rest.Below disk path

/-- The paths of the folders in the tree fit into the buffer. -/
def PathsFit (path : List UInt8) : Tree → Prop
  | nil => True
  | file _ rest => rest.PathsFit path
  | folder f sub rest => FitsPath (below path f.fname) ∧ sub.PathsFit (below path f.fname) ∧
      rest.PathsFit path

/-- The tree is on the disk at `path`, and its paths fit into the buffer. -/
structure On (disk : List UInt8 → List Finfo) (path : List UInt8) (t : Tree) : Prop where
  entries_eq : disk path = t.entries
  below : t.Below disk path
  fits : FitsPath path
  pathsFit : t.PathsFit path

end Tree

/-- One of the calls for a folder of `n` entries fails. -/
def SizeCalls.OwnFails (C : SizeCalls) (n : ℕ) : Prop :=
  (C.fddir = false ∨ C.finfo = false) ∨ C.pathname = false ∨ C.opendir ≠ 0 ∨
    ∃ k ≤ n, C.readdir k ≠ 0

instance (C : SizeCalls) (n : ℕ) : Decidable (C.OwnFails n) := by
  unfold SizeCalls.OwnFails
  infer_instance

section Walk
variable (calls : List UInt8 → SizeCalls)

/-- One of the calls for the folders in the tree fails.  No calls are made for folders that are
passed over. -/
def Tree.SubFails (path : List UInt8) : Tree → Prop
  | nil => False
  | file _ rest => rest.SubFails path
  | folder f sub rest => ¬ f.Skipped ∧ ((calls (below path f.fname)).OwnFails sub.entries.length ∨
      sub.SubFails (below path f.fname)) ∨ rest.SubFails path

/-- One of the calls for a folder or for one below it fails. -/
def Fails (path : List UInt8) (t : Tree) : Prop :=
  (calls path).OwnFails t.entries.length ∨ t.SubFails calls path

/-- The sizes of the files that are neither passed over nor in a folder that is, nor in one that
a call fails for. -/
def Tree.counted (path : List UInt8) : Tree → ℕ
  | nil => 0
  | file f rest => (if f.Skipped then 0 else f.fsize) + rest.counted path
  | folder f sub rest =>
      (if f.Skipped ∨ (calls (below path f.fname)).OwnFails sub.entries.length then 0
        else sub.counted (below path f.fname)) + rest.counted path

/-- What the bytes counted miss, where nothing fails. -/
theorem Tree.counted_add_hidden {calls : List UInt8 → SizeCalls} {path : List UInt8} {t : Tree}
    (h : ¬ t.SubFails calls path) : t.counted calls path + t.hiddenBytes = t.total := by
  induction t generalizing path with
  | nil => rfl
  | file f rest ih =>
      have hrest := ih h
      simp only [counted, hiddenBytes, total]
      split <;> omega
  | folder f sub rest ihsub ihrest =>
      simp only [SubFails, not_or, not_and] at h
      have hrest := ihrest h.2
      simp only [counted, hiddenBytes, total]
      by_cases hskip : f.Skipped
      · rw [if_pos (.inl hskip), if_pos hskip]
        omega
      · obtain ⟨hown, hfails⟩ := h.1 hskip
        have hsub := ihsub hfails
        rw [if_neg (not_or.mpr ⟨hskip, hown⟩), if_neg hskip]
        omega

end Walk

/-! ## The code on a tree -/

section Run
variable (calls : List UInt8 → SizeCalls)

/-- What the code returns for the tree at `path`. -/
def treeSize (path : List UInt8) (t : Tree) : ℕ :=
  if (calls path).OwnFails t.entries.length then 0 else t.counted calls path % 2 ^ 32

theorem treeSize_of_ownFails {calls : List UInt8 → SizeCalls} {path : List UInt8} {t : Tree}
    (h : (calls path).OwnFails t.entries.length) : treeSize calls path t = 0 := if_pos h

theorem treeSize_of_not_ownFails {calls : List UInt8 → SizeCalls} {path : List UInt8} {t : Tree}
    (h : ¬ (calls path).OwnFails t.entries.length) :
    treeSize calls path t = t.counted calls path % 2 ^ 32 := if_neg h

/-- The end of a loop over `m` entries that sum up to `c`: an error exactly if a call of
`f_readdir` fails, and otherwise the sum. -/
structure LoopEnd (readdir : ℕ → ℕ) (k s m c : ℕ) (r : ℕ × ℕ) : Prop where
  res_iff : r.1 = 0 ↔ ∀ j ≤ m, readdir (k + j) = 0
  fdsize : r.1 = 0 → r.2 = (s + c) % 2 ^ 32

theorem LoopEnd.failed {readdir : ℕ → ℕ} {k : ℕ} (h0 : readdir k ≠ 0) (s s' m c : ℕ) :
    LoopEnd readdir k s m c (readdir k, s') :=
  ⟨iff_of_false h0 fun h => h0 (h 0 (Nat.zero_le _)), fun h => absurd h h0⟩

/-- One entry more, in front of the others. -/
theorem LoopEnd.cons {readdir : ℕ → ℕ} {k s x m c : ℕ} {r : ℕ × ℕ} (h0 : readdir k = 0)
    (h : LoopEnd readdir (k + 1) ((s + x) % 2 ^ 32) m c r) :
    LoopEnd readdir k s (m + 1) (x + c) r := by
  refine ⟨h.res_iff.trans ⟨fun h j hj => ?_, fun h j hj => ?_⟩, fun hres => ?_⟩
  · cases j with
    | zero => exact h0
    | succ j =>
        have hj' := h j (by omega)
        rwa [Nat.add_assoc, Nat.add_comm 1] at hj'
  · rw [Nat.add_assoc, Nat.add_comm 1]
    exact h (j + 1) (by omega)
  · rw [h.fdsize hres]
    omega

/-- The loop over the entries of a tree, where the calls for the folders in it return what they
have to. -/
theorem sizeLoop_tree (readdir : ℕ → ℕ) {disk : List UInt8 → List Finfo}
    {folderSize : List UInt8 → Except Stop ℕ} {path : List UInt8} {n : ℕ}
    (hrec : ∀ p (t : Tree), t.depth < n → t.On disk p → folderSize p = .ok (treeSize calls p t))
    {t : Tree} (hdepth : t.depth ≤ n) (hbelow : t.Below disk path) (hfit : t.PathsFit path)
    (k : ℕ) {s : ℕ} (hs : s < 2 ^ 32) :
    ∃ r, sizeLoop readdir folderSize path t.entries k s = .ok r ∧
      LoopEnd readdir k s t.entries.length (t.counted calls path) r := by
  have hmod : (s + 0) % 2 ^ 32 = s := Nat.mod_eq_of_lt hs
  induction t generalizing k s with
  | nil =>
      refine ⟨(readdir k, s), rfl, ?_, fun _ => hmod.symm⟩
      simp [Tree.entries]
  | file f rest ih =>
      simp only [Tree.entries, Tree.counted, List.length_cons, sizeLoop]
      by_cases h0 : readdir k = 0
      · rw [if_neg (not_not.mpr h0), if_neg f.named]
        by_cases hskip : f.Skipped
        · obtain ⟨r, hr, hend⟩ := ih hdepth hbelow hfit (k + 1) hs hmod
          rw [if_pos hskip, if_pos hskip]
          exact ⟨r, hr, .cons h0 (hmod.symm ▸ hend)⟩
        · obtain ⟨r, hr, hend⟩ := ih hdepth hbelow hfit (k + 1)
            (Nat.mod_lt (s + f.fsize) (by decide)) (Nat.mod_mod _ _)
          rw [if_neg hskip, if_neg hskip, if_neg f.isFile]
          exact ⟨r, hr, .cons h0 hend⟩
      · rw [if_pos h0]
        exact ⟨_, rfl, .failed h0 _ _ _ _⟩
  | folder f sub rest _ ih =>
      obtain ⟨hentries, hsubBelow, hbelow⟩ := hbelow
      obtain ⟨hfitPath, hsubFit, hfit⟩ := hfit
      rw [Tree.depth] at hdepth
      simp only [Tree.entries, Tree.counted, List.length_cons, sizeLoop]
      by_cases h0 : readdir k = 0
      · rw [if_neg (not_not.mpr h0), if_neg f.named]
        by_cases hskip : f.Skipped
        · obtain ⟨r, hr, hend⟩ := ih (by omega) hbelow hfit (k + 1) hs hmod
          rw [if_pos hskip, if_pos (.inl hskip)]
          exact ⟨r, hr, .cons h0 (hmod.symm ▸ hend)⟩
        · have hsub := hrec (below path f.fname) sub (by omega)
            ⟨hentries, hsubBelow, hfitPath, hsubFit⟩
          obtain ⟨r, hr, hend⟩ := ih (by omega) hbelow hfit (k + 1)
            (Nat.mod_lt (s + treeSize calls (below path f.fname) sub) (by decide))
            (Nat.mod_mod _ _)
          rw [if_neg hskip, if_pos f.isFolder, appendName_fits hfitPath]
          refine ⟨r, ?_, ?_⟩
          · change (do let size ← folderSize (below path f.fname); _) = _
            rw [hsub]
            exact hr
          · -- the code adds what is left of the bytes counted
            have hcounted := LoopEnd.cons h0 hend
            refine ⟨hcounted.res_iff, fun hres => ?_⟩
            rw [hcounted.fdsize hres, treeSize]
            simp only [hskip, false_or]
            split <;> omega
      · rw [if_pos h0]
        exact ⟨_, rfl, .failed h0 _ _ _ _⟩

/-- The size of a tree, from a recursion that is deep enough. -/
theorem folderSize_tree (disk : List UInt8 → List Finfo) (n : ℕ) (path : List UInt8) (t : Tree)
    (hdepth : t.depth < n) (hon : t.On disk path) :
    exfunsGetFolderSize disk calls n path = .ok (treeSize calls path t) := by
  induction n generalizing path t with
  | zero => omega
  | succ n ih =>
      rw [exfunsGetFolderSize]
      by_cases hmalloc : (calls path).fddir = false ∨ (calls path).finfo = false
      · rw [if_pos hmalloc, treeSize_of_ownFails (.inl hmalloc)]
        rfl
      rw [if_neg hmalloc]
      by_cases hpathname : (calls path).pathname = false
      · rw [if_pos hpathname, treeSize_of_ownFails (.inr (.inl hpathname))]
        rfl
      rw [if_neg hpathname, strcat_nil hon.fits]
      change (if _ then _ else _) = _
      by_cases hopen : (calls path).opendir ≠ 0
      · rw [if_pos hopen, treeSize_of_ownFails (.inr (.inr (.inl hopen)))]
        rfl
      rw [if_neg hopen, hon.entries_eq]
      obtain ⟨r, hr, hend⟩ := sizeLoop_tree calls (calls path).readdir ih
        (Nat.le_of_lt_succ hdepth) hon.below hon.pathsFit 0 (s := 0) (by decide)
      rw [hr]
      change (if r.1 ≠ 0 then _ else _) = _
      by_cases hres : r.1 = 0
      · have hall := hend.res_iff.mp hres
        have hok : ¬ (calls path).OwnFails t.entries.length := by
          rintro (h | h | h | ⟨k, hk, h⟩)
          · exact hmalloc h
          · exact hpathname h
          · exact hopen h
          · exact h (by simpa using hall k hk)
        rw [if_neg (not_not.mpr hres), hend.fdsize hres, treeSize_of_not_ownFails hok,
          Nat.zero_add]
        rfl
      · have hsome := mt hend.res_iff.mpr hres
        push Not at hsome
        obtain ⟨k, hk, hfails⟩ := hsome
        rw [if_pos hres, treeSize_of_ownFails (.inr (.inr (.inr ⟨k, hk, by simpa using hfails⟩)))]
        rfl

end Run

/-! ## Totals -/

/-- What the code should return for the tree at `path`: the total, and 0 where a call fails. -/
def SizeRight (calls : List UInt8 → SizeCalls) (path : List UInt8) (t : Tree) (r : ℕ) : Prop :=
  (¬ Fails calls path t → r = t.total % 2 ^ 32) ∧ (Fails calls path t → r = 0)

/-- The code returns what it should exactly if, where no call fails, the bytes that are passed
over do not count, and, where one does, it is a call for the folder itself, or the bytes counted
in spite of it do not count. -/
theorem folderSize_iff (disk : List UInt8 → List Finfo) (calls : List UInt8 → SizeCalls)
    {path : List UInt8} {t : Tree} (hon : t.On disk path) {n : ℕ} (hn : t.depth < n) :
    (∃ r, exfunsGetFolderSize disk calls n path = .ok r ∧ SizeRight calls path t r) ↔
      (¬ Fails calls path t → t.hiddenBytes % 2 ^ 32 = 0) ∧
      (Fails calls path t → (calls path).OwnFails t.entries.length ∨
        t.counted calls path % 2 ^ 32 = 0) := by
  rw [folderSize_tree calls disk n path t hn hon]
  have hvalue (P : ℕ → Prop) : (∃ r, (Except.ok (treeSize calls path t) : Except Stop ℕ) = .ok r ∧
      P r) ↔ P (treeSize calls path t) := by
    simp only [Except.ok.injEq, exists_eq_left']
  rw [hvalue, SizeRight]
  refine and_congr (imp_congr_right fun hok => ?_) (imp_congr_right fun _ => ?_)
  · rw [Fails, not_or] at hok
    have htotal := Tree.counted_add_hidden hok.2
    rw [treeSize_of_not_ownFails hok.1]
    omega
  · by_cases hown : (calls path).OwnFails t.entries.length
    · exact iff_of_true (treeSize_of_ownFails hown) (.inl hown)
    · rw [treeSize_of_not_ownFails hown, or_iff_right hown]

/-- Calls that all succeed. -/
def allWell : SizeCalls := ⟨true, true, true, 0, fun _ => 0⟩

/-- A file of 5 bytes. -/
def readmeTxt : FileEntry := ⟨⟨text "README.TXT", 0x20, 5⟩, by decide, by decide⟩

/-- A file of 5 bytes whose name begins with a dot. -/
def dotConfig : FileEntry := ⟨⟨text ".config", 0x20, 5⟩, by decide, by decide⟩

/-- A folder. -/
def folderSrc : FolderEntry := ⟨⟨text "SRC", 0x10, 0⟩, by decide, by decide⟩

/-- A folder in it. -/
def folderInc : FolderEntry := ⟨⟨text "INC", 0x10, 0⟩, by decide, by decide⟩

/-- A file beside a folder of a file and a folder, which has a file. -/
def projectTree : Tree :=
  .file readmeTxt (.folder folderSrc (.file readmeTxt
    (.folder folderInc (.file readmeTxt .nil) .nil)) .nil)

def projectDisk (path : List UInt8) : List Finfo :=
  if path = text "0:/SRC/INC" then [readmeTxt.toFinfo]
  else if path = text "0:/SRC" then [readmeTxt.toFinfo, folderInc.toFinfo]
  else [readmeTxt.toFinfo, folderSrc.toFinfo]

theorem folderSize_iff_project :
    ∃ r, exfunsGetFolderSize projectDisk (fun _ => allWell) 3 (text "0:") = .ok r ∧
      SizeRight (fun _ => allWell) (text "0:") projectTree r := by
  have hon : projectTree.On projectDisk (text "0:") :=
    ⟨rfl, ⟨rfl, ⟨rfl, trivial, trivial⟩, trivial⟩, by decide,
      by decide, ⟨by decide, trivial, trivial⟩, trivial⟩
  refine (folderSize_iff projectDisk _ hon (by decide)).mpr ⟨fun _ => by decide, ?_⟩
  rintro (h | h)
  · exact .inl h
  · obtain ⟨-, h | ⟨-, h | h⟩ | h⟩ | h := h
    · exact absurd h (by decide)
    · exact absurd h (by decide)
    · exact h.elim
    · exact h.elim
    · exact h.elim

/-- A file whose name begins with a dot is not counted, and a folder that cannot be opened below
another one is no failure. -/
theorem folderSize_wrong :
    (¬ ∀ (disk : List UInt8 → List Finfo) (calls : List UInt8 → SizeCalls) (path : List UInt8)
        (t : Tree) (n : ℕ), t.On disk path → t.depth < n → ¬ Fails calls path t →
          exfunsGetFolderSize disk calls n path = .ok (t.total % 2 ^ 32)) ∧
    ¬ ∀ (disk : List UInt8 → List Finfo) (calls : List UInt8 → SizeCalls) (path : List UInt8)
        (t : Tree) (n : ℕ), t.On disk path → t.depth < n → Fails calls path t →
          exfunsGetFolderSize disk calls n path = .ok 0 := by
  constructor
  · intro hall
    have hrun := hall (fun _ => [dotConfig.toFinfo]) (fun _ => allWell) (text "0:")
      (.file dotConfig .nil) 1 ⟨rfl, trivial, by decide, trivial⟩ (by decide)
      (by rintro (h | h); exacts [absurd h (by decide), h])
    revert hrun
    decide
  · intro hall
    have hrun := hall
      (fun p => if p = text "0:" then [readmeTxt.toFinfo, folderSrc.toFinfo] else [])
      (fun p => if p = text "0:" then allWell else { allWell with opendir := 1 }) (text "0:")
      (.file readmeTxt (.folder folderSrc .nil .nil)) 2
      ⟨rfl, ⟨if_neg (by decide), trivial, trivial⟩, by decide, by decide, trivial, trivial⟩
      (by decide)
      (.inr (.inl ⟨by decide, .inl (by decide)⟩))
    revert hrun
    decide

end Apollo.Exfuns
