import Apollo.Lib.Trial
import Apollo.Exfuns.FileCopy
import Apollo.Exfuns.Folder

/-!
# Copying a folder

`exfuns_folder_copy` makes a folder of the source's name in the destination and copies the
entries of the source into it, and calls itself for the folders among them.  Both paths are put
together in buffers of `MAX_PATHNAME_DEPTH` bytes with no check of their lengths.

The code is given with what it holds: the memory it has taken and the files and folders it has
open.  What `f_readdir` finds in a folder is found when the copy comes to it, so that it may
well have been made by the copy.

## Main definitions

* `Held` — what a copy holds; `FolderCalls`, `Volume` — what the calls answer.
* `exfunsFileCopyHeld`, `exfunsGetSrcDname`, `folderLoop`, `exfunsFolderCopy` — the code.
* `Comes` — the folders a copy comes to; `PathsFit` — the condition on them.
* `folderCopy_bounded_iff` — when the copy ends and its paths stay in their buffers.
-/

namespace Apollo.Exfuns
open Lib
open Usmart (ch text)

/-! ## Memory, files and folders -/

/-- What a copy holds, and the bytes that it has counted. -/
structure Held where
  /-- The number of the next block. -/
  next : ℕ
  /-- The blocks that have been taken and not freed. -/
  live : List ℕ
  /-- The blocks whose `FIL`, or whose `DIR`, is open. -/
  files : List ℕ
  dirs : List ℕ
  /-- A block has been freed that was not taken, or while what is in it was open; or something
  has been closed that was not open. -/
  misused : Bool
  cpdsize : ℕ

namespace Held
variable (h : Held) (b : ℕ)

/-- A block is taken. -/
def take : Held := { h with next := h.next + 1, live := h.next :: h.live }

/-- A block is freed. -/
def free : Held :=
  { h with
    live := h.live.erase b
    misused := h.misused || !(b ∈ h.live) || b ∈ h.files || b ∈ h.dirs }

end Held

/-- A program that takes memory and opens files. -/
abbrev Copying := Trial Stop Held

/-- `mymalloc`, which may fail. -/
def mymalloc (ok : Bool) : Copying (Option ℕ) := do
  let block ← Trial.get fun h => if ok then some h.next else none
  Trial.modify fun h => if ok then h.take else h
  pure block

/-- `myfree`, for which NULL is nothing to do. -/
def myfree : Option ℕ → Copying Unit
  | none => pure ()
  | some b => Trial.modify (Held.free · b)

/-- `f_open` and `f_opendir` with a block for the object: the result, and with success the object
is open.  Only objects that have been obtained are passed. -/
def fOpen (block : Option ℕ) (res : ℕ) : Copying ℕ := do
  Trial.modify fun h => if res = 0 then { h with files := block.toList ++ h.files } else h
  pure res

def fOpendir (block : Option ℕ) (res : ℕ) : Copying ℕ := do
  Trial.modify fun h => if res = 0 then { h with dirs := block.toList ++ h.dirs } else h
  pure res

/-- `f_close`: a file that cannot be written back stays open.  No caller looks at the result. -/
def fClose (res : ℕ) : Option ℕ → Copying Unit
  | none => pure ()
  | some b => Trial.modify fun h =>
      { h with
        files := if res = 0 then h.files.erase b else h.files
        misused := h.misused || !(b ∈ h.files) }

section
variable {h t : Held} {block : Option ℕ} {res r : ℕ}

@[simp] theorem returns_mymalloc_true :
    (mymalloc true).Returns h block t ↔ some h.next = block ∧ h.take = t := by
  simp [mymalloc]

@[simp] theorem returns_mymalloc_false :
    (mymalloc false).Returns h block t ↔ none = block ∧ h = t := by
  simp [mymalloc]

@[simp] theorem returns_myfree_some {b : ℕ} {u : Unit} :
    (myfree (some b)).Returns h u t ↔ h.free b = t := by
  rw [myfree, Trial.returns_modify]

@[simp] theorem returns_fOpen : (fOpen block r).Returns h res t ↔
    r = res ∧ (if r = 0 then { h with files := block.toList ++ h.files } else h) = t := by
  simp [fOpen, and_comm]

@[simp] theorem returns_fOpendir : (fOpendir block r).Returns h res t ↔
    r = res ∧ (if r = 0 then { h with dirs := block.toList ++ h.dirs } else h) = t := by
  simp [fOpendir, and_comm]

end

/-! ## The copy of a file -/

/-- The result of a loop, which has to have ended. -/
def result {α β : Type} : Flow α β → Except Stop β
  | .next _ => .error .unfinished
  | .exit b => .ok b

/-- The copying loop of `exfuns_file_copy`, with the two files open. -/
def fileLoop (E : Outcomes) (src : List ℕ) (totsize cpdsize : ℕ) : Except Stop ℕ :=
  result ((Prog.loop (copyRound E src (copyTotal src totsize)) (src.length + 1) 0
    (copyStart totsize cpdsize)).val opened)

/-- The source is opened, and then the destination. -/
def openFiles (E : Outcomes) (fwmode : ℕ) (fsrc fdst : Option ℕ) : Copying ℕ := do
  let res ← fOpen fsrc E.openSrc
  if res = 0 then fOpen fdst (E.openDst (dstMode fwmode)) else pure res

/-- The part of `exfuns_file_copy` that has all its memory. -/
def copyFiles (E : Outcomes) (src : List ℕ) (totsize cpdsize fwmode : ℕ)
    (fsrc fdst : Option ℕ) : Copying ℕ := do
  let res ← openFiles E fwmode fsrc fdst
  if res = 0 then do
    let res ← Trial.lift (fileLoop E src totsize cpdsize)
    fClose E.closeSrc fsrc
    fClose E.closeDst fdst
    pure res
  else pure res

/-- `exfuns_file_copy` with what it holds. -/
def exfunsFileCopyHeld (E : Outcomes) (src : List ℕ) (totsize cpdsize fwmode : ℕ) :
    Copying ℕ := do
  let fsrc ← mymalloc E.fsrc
  let fdst ← mymalloc E.fdst
  let fbuf ← mymalloc E.fbuf
  let res ← (if fsrc = none ∨ fdst = none ∨ fbuf = none then pure 100
    else copyFiles E src totsize cpdsize fwmode fsrc fdst)
  myfree fsrc
  myfree fdst
  myfree fbuf
  pure res

/-! ## The copy of a folder -/

/-- The answers of the calls that are made for a folder. -/
structure FolderCalls where
  /-- `mymalloc` for each of the five blocks succeeds. -/
  srcdir : Bool
  dstdir : Bool
  finfo : Bool
  dstpathname : Bool
  srcpathname : Bool
  opendir : ℕ
  mkdir : ℕ
  /-- Each of the calls of `f_readdir`. -/
  readdir : ℕ → ℕ

/-- What the calls answer for a folder or file, by its path and that of the destination, and what
the files hold. -/
structure Volume where
  calls : List UInt8 → List UInt8 → FolderCalls
  file : List UInt8 → List UInt8 → Outcomes
  content : List UInt8 → List ℕ

/-- `exfuns_get_src_dname`: `none` for a volume, else what stands behind the last slash.  The scan
goes back into `before`, the bytes in memory before the path, when the path has no slash, and its
result ends at the first NUL. -/
def exfunsGetSrcDname (before pname : List UInt8) : Option (List UInt8) :=
  if pname.length < 4 then none
  else
    let back := (before ++ pname).reverse.takeWhile fun c => c ≠ 0x5c ∧ c ≠ 0x2f
    some (back.reverse.takeWhile (· ≠ 0))

/-- The name of the folder at the destination: of a volume, its first character. -/
def dstName (before psrc : List UInt8) : List UInt8 :=
  (exfunsGetSrcDname before psrc).getD (psrc.take 1)

/-- The path of the folder at the destination. -/
def dstFolder (before psrc pdst : List UInt8) : List UInt8 := below pdst (dstName before psrc)

/-- The slash and the name are added to the destination path.  For a volume two bytes are written
behind the slash, `psrc[0]` and the terminator. -/
def appendDname (before psrc dstpathname : List UInt8) : Except Stop (List UInt8) := do
  let dst ← strcat dstpathname [ch '/']
  match exfunsGetSrcDname before psrc with
  | none =>
      if dst.length + 1 < maxPathnameDepth then pure (dst ++ psrc.take 1) else throw .overflow
  | some fn => strcat dst fn

/-- `FR_EXIST`. -/
abbrev frExist : ℕ := 8

section Loop
variable (V : Volume) (totsize fwmode : ℕ)
variable (folderCopy : List UInt8 → List UInt8 → Copying ℕ)

/-- What the loop does for an entry that is not passed over. -/
def copyEntry (srcpathname dstpathname : List UInt8) (f : Finfo) : Copying ℕ :=
  if f.IsFolder then do
    let src ← Trial.lift (appendName srcpathname f.fname)
    folderCopy src dstpathname
  else do
    let dst ← Trial.lift (appendName dstpathname f.fname)
    let src ← Trial.lift (appendName srcpathname f.fname)
    let cpdsize ← Trial.get Held.cpdsize
    let res ← exfunsFileCopyHeld (V.file src dst) (V.content src) totsize cpdsize fwmode
    Trial.modify fun h => { h with cpdsize := (h.cpdsize + f.fsize) % 2 ^ 32 }
    pure res

/-- The loop over the entries of a folder, from the call `k` of `f_readdir` on. -/
def folderLoop (readdir : ℕ → ℕ) (srcpathname dstpathname : List UInt8) :
    List Finfo → ℕ → Copying ℕ
  | [], k => pure (readdir k)
  | f :: rest, k =>
      if readdir k ≠ 0 then pure (readdir k)
      else if f.fname = [] then pure 0
      else if f.Skipped then folderLoop readdir srcpathname dstpathname rest (k + 1)
      else do
        let res ← copyEntry V totsize fwmode folderCopy srcpathname dstpathname f
        if res ≠ 0 then pure res
        else folderLoop readdir srcpathname dstpathname rest (k + 1)

end Loop

section Code
variable (before : List UInt8) (disk : List UInt8 → List Finfo) (V : Volume) (totsize fwmode : ℕ)

/-- The part of `exfuns_folder_copy` that has all its memory. -/
def copyInto (folderCopy : List UInt8 → List UInt8 → Copying ℕ) (srcdir : Option ℕ)
    (psrc pdst : List UInt8) : Copying ℕ := do
  let C := V.calls psrc pdst
  let srcpathname ← Trial.lift (strcat [] psrc)
  let dstpathname ← Trial.lift (strcat [] pdst)
  let res ← fOpendir srcdir C.opendir
  if res ≠ 0 then pure res
  else do
    let dstpathname ← Trial.lift (appendDname before psrc dstpathname)
    if C.mkdir ≠ 0 ∧ C.mkdir ≠ frExist then pure C.mkdir
    else folderLoop V totsize fwmode folderCopy C.readdir srcpathname dstpathname (disk psrc) 0

/-- The part that has the memory for the folder. -/
def copyBuffers (folderCopy : List UInt8 → List UInt8 → Copying ℕ) (srcdir : Option ℕ)
    (psrc pdst : List UInt8) : Copying ℕ := do
  let dstpathname ← mymalloc (V.calls psrc pdst).dstpathname
  let srcpathname ← mymalloc (V.calls psrc pdst).srcpathname
  if dstpathname = none ∨ srcpathname = none then pure 101
  else do
    let res ← copyInto before disk V totsize fwmode folderCopy srcdir psrc pdst
    myfree dstpathname
    myfree srcpathname
    pure res

/-- `exfuns_folder_copy`, for a recursion of at most the given depth.  The paths that it passes to
itself have a slash, and `before` is not read for them. -/
def exfunsFolderCopy : ℕ → List UInt8 → List UInt8 → Copying ℕ
  | 0, _, _ => Trial.stop .unfinished
  | n + 1, psrc, pdst => do
      let srcdir ← mymalloc (V.calls psrc pdst).srcdir
      let dstdir ← mymalloc (V.calls psrc pdst).dstdir
      let finfo ← mymalloc (V.calls psrc pdst).finfo
      let res ← (if srcdir = none ∨ dstdir = none ∨ finfo = none then pure 100
        else copyBuffers before disk V totsize fwmode (exfunsFolderCopy n) srcdir psrc pdst)
      myfree srcdir
      myfree dstdir
      myfree finfo
      pure res

end Code

/-! ## Copies that have their memory -/

/-- The memory for a file has been obtained. -/
def Outcomes.HasMemory (E : Outcomes) : Prop := E.fsrc = true ∧ E.fdst = true ∧ E.fbuf = true

/-- The memory for a folder has been obtained, and that for the path buffers. -/
def FolderCalls.HasFolders (C : FolderCalls) : Prop :=
  C.srcdir = true ∧ C.dstdir = true ∧ C.finfo = true

def FolderCalls.HasBuffers (C : FolderCalls) : Prop := C.dstpathname = true ∧ C.srcpathname = true

section Memory
variable {h t : Held} {res : ℕ}

theorem file_refused (h : Held) {E : Outcomes} (hmem : ¬ E.HasMemory) {src : List ℕ}
    {totsize cpdsize fwmode : ℕ} :
    ∃ t, (exfunsFileCopyHeld E src totsize cpdsize fwmode).Returns h 100 t := by
  obtain ⟨fsrc, fdst, fbuf, openSrc, openDst, read, write, msg, closeSrc, closeDst, left⟩ := E
  cases fsrc <;> cases fdst <;> cases fbuf <;>
    first | exact ⟨_, rfl⟩ | exact absurd ⟨rfl, rfl, rfl⟩ hmem

/-- The loop has brought the result. -/
theorem result_ok {α : Type} {x : Flow α ℕ} (hok : result x = .ok res) : x = .exit res := by
  cases x with
  | next a => cases hok
  | exit b => exact congrArg _ (Except.ok.inj hok)

theorem returns_file {E : Outcomes} (hmem : E.HasMemory) {src : List ℕ}
    {totsize cpdsize fwmode : ℕ} :
    (exfunsFileCopyHeld E src totsize cpdsize fwmode).Returns h res t ↔
      ∃ u, (copyFiles E src totsize cpdsize fwmode (some h.next) (some (h.next + 1))).Returns
        h.take.take.take res u ∧ ((u.free h.next).free (h.next + 1)).free (h.next + 2) = t := by
  obtain ⟨hsrc, hdst, hbuf⟩ := hmem
  rw [exfunsFileCopyHeld, hsrc, hdst, hbuf]
  simp [Held.take]

/-- Memory and open files aside, the copy of a file is the one that brings its content. -/
theorem exfunsFileCopyHeld_result {E : Outcomes} {src : List ℕ} {totsize cpdsize fwmode : ℕ}
    (hrun : (exfunsFileCopyHeld E src totsize cpdsize fwmode).Returns h res t) :
    (exfunsFileCopy E src (src.length + 1) totsize cpdsize fwmode).val opened = .exit res := by
  by_cases hmem : E.HasMemory
  · obtain ⟨u, hcopy, -⟩ := (returns_file hmem).mp hrun
    have hnone : ¬ (E.fsrc = false ∨ E.fdst = false ∨ E.fbuf = false) := by
      rw [hmem.1, hmem.2.1, hmem.2.2]
      decide
    simp only [copyFiles, openFiles, Trial.returns_bind, Trial.returns_ite, returns_fOpen] at hcopy
    obtain ⟨r, h₁, ⟨r₁, h₂, ⟨rfl, -⟩, hopen⟩, hcopy⟩ := hcopy
    rw [exfunsFileCopy, if_neg hnone]
    by_cases hsrc : E.openSrc = 0
    · rw [if_pos hsrc] at hopen
      obtain ⟨rfl, -⟩ := hopen
      rw [if_neg (not_not.mpr hsrc)]
      by_cases hdst : E.openDst (dstMode fwmode) = 0
      · rw [if_pos hdst] at hcopy
        simp only [Trial.returns_lift, Trial.returns_pure] at hcopy
        obtain ⟨r, h₃, ⟨hloop, -⟩, _, _, -, _, _, -, rfl, -⟩ := hcopy
        rw [if_neg (not_not.mpr hdst), val_copyOpened]
        exact result_ok hloop
      · rw [if_neg hdst] at hcopy
        rw [if_pos hdst]
        exact congrArg _ (Trial.returns_pure.mp hcopy).1
    · rw [if_neg hsrc] at hopen
      obtain ⟨rfl, -⟩ := Trial.returns_pure.mp hopen
      rw [if_neg hsrc] at hcopy
      rw [if_pos hsrc]
      exact congrArg _ (Trial.returns_pure.mp hcopy).1
  · obtain ⟨t', hrun'⟩ := file_refused h hmem
    obtain ⟨rfl, -⟩ := hrun.unique hrun'
    have hsome : E.fsrc = false ∨ E.fdst = false ∨ E.fbuf = false := by
      simpa only [Outcomes.HasMemory, not_and_or, Bool.not_eq_true] using hmem
    rw [exfunsFileCopy, if_pos hsome]
    rfl

variable {before : List UInt8} {disk : List UInt8 → List Finfo} {V : Volume}
variable {totsize fwmode n : ℕ} {s d : List UInt8}

theorem returns_folder (hmem : (V.calls s d).HasFolders) :
    (exfunsFolderCopy before disk V totsize fwmode (n + 1) s d).Returns h res t ↔
      ∃ u, (copyBuffers before disk V totsize fwmode
        (exfunsFolderCopy before disk V totsize fwmode n) (some h.next) s d).Returns
          h.take.take.take res u ∧ ((u.free h.next).free (h.next + 1)).free (h.next + 2) = t := by
  obtain ⟨hsrc, hdst, hinfo⟩ := hmem
  rw [exfunsFolderCopy, hsrc, hdst, hinfo]
  simp [Held.take]

theorem returns_buffers (hmem : (V.calls s d).HasBuffers)
    {folderCopy : List UInt8 → List UInt8 → Copying ℕ} {srcdir : Option ℕ} :
    (copyBuffers before disk V totsize fwmode folderCopy srcdir s d).Returns h res t ↔
      ∃ u, (copyInto before disk V totsize fwmode folderCopy srcdir s d).Returns h.take.take res u ∧
        (u.free h.next).free (h.next + 1) = t := by
  obtain ⟨hdst, hsrc⟩ := hmem
  rw [copyBuffers, hdst, hsrc]
  simp [Held.take]

end Memory

/-! ## The folders a copy comes to -/

/-- The entries that `f_readdir` finds before the end, less those that are passed over. -/
def listed (l : List Finfo) : List Finfo :=
  (l.takeWhile fun f => f.fname ≠ []).filter fun f => ¬ f.Skipped

section Condition
variable (before : List UInt8) (disk : List UInt8 → List Finfo)

/-- The folders that the copy of `src` into `dst` comes to when no call fails, each with the path
it is copied into. -/
inductive Comes (src dst : List UInt8) : List UInt8 → List UInt8 → Prop
  | top : Comes src dst src dst
  | sub {s d : List UInt8} {f : Finfo} (h : Comes src dst s d) (hf : f ∈ listed (disk s))
      (hfolder : f.IsFolder) : Comes src dst (below s f.fname) (dstFolder before s d)

/-- The paths for one folder fit into the buffers: its own and the one it is copied into, that of
the folder made for it, and those of its entries. -/
structure FolderFits (s d : List UInt8) : Prop where
  src : FitsPath s
  dst : FitsPath d
  /-- A volume has one character behind the slash, if only the NUL of an empty path. -/
  made : FitsPath (below d ((exfunsGetSrcDname before s).getD [s.headD 0]))
  entry : ∀ f ∈ listed (disk s), FitsPath (below s f.fname)
  file : ∀ f ∈ listed (disk s), ¬ f.IsFolder → FitsPath (below (dstFolder before s d) f.fname)

/-- All paths of a copy fit into the buffers. -/
def CopyFits (src dst : List UInt8) : Prop :=
  ∀ s d, Comes before disk src dst s d → FolderFits before disk s d

/-- Whatever the calls answer, the copy ends, and has written nothing behind its buffers. -/
def CopyEnds (src dst : List UInt8) : Prop :=
  ∀ (V : Volume) (totsize fwmode : ℕ) (h : Held), ∃ n res t,
    (exfunsFolderCopy before disk V totsize fwmode n src dst).Returns h res t

end Condition

section Listed
variable {f : Finfo} {rest : List Finfo}

theorem listed_end (h : f.fname = []) : listed (f :: rest) = [] := by
  rw [listed, List.takeWhile_cons_of_neg (by simpa using h)]
  rfl

theorem listed_skipped (h : f.fname ≠ []) (hskip : f.Skipped) :
    listed (f :: rest) = listed rest := by
  rw [listed, List.takeWhile_cons_of_pos (by simpa using h),
    List.filter_cons_of_neg (by simpa using hskip), listed]

theorem listed_cons (h : f.fname ≠ []) (hskip : ¬ f.Skipped) :
    listed (f :: rest) = f :: listed rest := by
  rw [listed, List.takeWhile_cons_of_pos (by simpa using h),
    List.filter_cons_of_pos (by simpa using hskip), listed]

theorem fname_of_mem_listed {l : List Finfo} (h : f ∈ listed l) : f.fname ≠ [] := by
  simpa using List.all_eq_true.mp List.all_takeWhile f (List.mem_of_mem_filter h)

end Listed

/-! ## Paths that fit are enough -/

section Total

theorem mymalloc_total (ok : Bool) : (mymalloc ok).Total :=
  Trial.total_bind (Trial.total_get _) fun _ =>
    Trial.total_bind (Trial.total_modify _) fun _ => Trial.total_pure _

theorem myfree_total (block : Option ℕ) : (myfree block).Total := by
  cases block with
  | none => exact Trial.total_pure ()
  | some b => exact Trial.total_modify _

theorem fOpen_total (block : Option ℕ) (res : ℕ) : (fOpen block res).Total :=
  Trial.total_bind (Trial.total_modify _) fun _ => Trial.total_pure _

theorem fOpendir_total (block : Option ℕ) (res : ℕ) : (fOpendir block res).Total :=
  Trial.total_bind (Trial.total_modify _) fun _ => Trial.total_pure _

theorem fClose_total (res : ℕ) (block : Option ℕ) : (fClose res block).Total := by
  cases block with
  | none => exact Trial.total_pure ()
  | some b => exact Trial.total_modify _

/-- The loop brings a result. -/
theorem fileLoop_ok (E : Outcomes) (src : List ℕ) (totsize cpdsize : ℕ) :
    ∃ res, fileLoop E src totsize cpdsize = .ok res := by
  have hfuel : src.length - opened.fptr < src.length + 1 := by
    rw [opened]
    omega
  obtain ⟨res, hres⟩ := loop_exits E src (copyTotal src totsize) 0 (copyStart totsize cpdsize)
    (copied_opened src) hfuel
  exact ⟨res, by rw [fileLoop, hres, result]⟩

theorem openFiles_total (E : Outcomes) (fwmode : ℕ) (fsrc fdst : Option ℕ) :
    (openFiles E fwmode fsrc fdst).Total :=
  Trial.total_bind (fOpen_total _ _) fun _ =>
    Trial.total_ite (fun _ => fOpen_total _ _) fun _ => Trial.total_pure _

theorem copyFiles_total (E : Outcomes) (src : List ℕ) (totsize cpdsize fwmode : ℕ)
    (fsrc fdst : Option ℕ) : (copyFiles E src totsize cpdsize fwmode fsrc fdst).Total := by
  obtain ⟨res, hloop⟩ := fileLoop_ok E src totsize cpdsize
  rw [copyFiles, hloop, Trial.lift_ok_bind]
  refine Trial.total_bind (openFiles_total E fwmode fsrc fdst) fun _ => ?_
  refine Trial.total_ite (fun _ => ?_) fun _ => Trial.total_pure _
  exact Trial.total_bind (fClose_total _ _) fun _ => Trial.total_bind (fClose_total _ _) fun _ =>
    Trial.total_pure _

theorem exfunsFileCopyHeld_total (E : Outcomes) (src : List ℕ) (totsize cpdsize fwmode : ℕ) :
    (exfunsFileCopyHeld E src totsize cpdsize fwmode).Total := by
  refine Trial.total_bind (mymalloc_total _) fun fsrc => ?_
  refine Trial.total_bind (mymalloc_total _) fun fdst => ?_
  refine Trial.total_bind (mymalloc_total _) fun fbuf => ?_
  refine Trial.total_bind (Trial.total_ite (fun _ => Trial.total_pure _) fun _ =>
    copyFiles_total _ _ _ _ _ _ _) fun _ => ?_
  exact Trial.total_bind (myfree_total _) fun _ => Trial.total_bind (myfree_total _) fun _ =>
    Trial.total_bind (myfree_total _) fun _ => Trial.total_pure _

section
variable {V : Volume} {totsize fwmode : ℕ} {folderCopy : List UInt8 → List UInt8 → Copying ℕ}
variable {s d : List UInt8}

theorem copyEntry_total {f : Finfo} (hsrc : FitsPath (below s f.fname))
    (hdst : ¬ f.IsFolder → FitsPath (below d f.fname))
    (hsub : f.IsFolder → (folderCopy (below s f.fname) d).Total) :
    (copyEntry V totsize fwmode folderCopy s d f).Total := by
  rw [copyEntry, appendName_fits hsrc, Trial.lift_ok_bind]
  refine Trial.total_ite hsub fun hfile => ?_
  rw [appendName_fits (hdst hfile), Trial.lift_ok_bind, Trial.lift_ok_bind]
  refine Trial.total_bind (Trial.total_get _) fun _ => ?_
  refine Trial.total_bind (exfunsFileCopyHeld_total _ _ _ _ _) fun _ => ?_
  exact Trial.total_bind (Trial.total_modify _) fun _ => Trial.total_pure _

theorem folderLoop_total {readdir : ℕ → ℕ} {l : List Finfo}
    (hentry : ∀ f ∈ listed l, (copyEntry V totsize fwmode folderCopy s d f).Total) (k : ℕ) :
    (folderLoop V totsize fwmode folderCopy readdir s d l k).Total := by
  induction l generalizing k with
  | nil => exact Trial.total_pure _
  | cons f rest ih =>
      rw [folderLoop]
      refine Trial.total_ite (fun _ => Trial.total_pure _) fun _ => ?_
      refine Trial.total_ite (fun _ => Trial.total_pure _) fun hname => ?_
      refine Trial.total_ite (fun hskip => ?_) fun hskip => ?_
      · exact ih (fun g hg => hentry g (by rwa [listed_skipped hname hskip])) _
      · rw [listed_cons hname hskip] at hentry
        refine Trial.total_bind (hentry f List.mem_cons_self) fun _ => ?_
        refine Trial.total_ite (fun _ => Trial.total_pure _) fun _ => ?_
        exact ih (fun g hg => hentry g (List.mem_cons_of_mem f hg)) _

end

section
variable {before : List UInt8} {disk : List UInt8 → List Finfo}

/-- The destination path is put together where there is room for it. -/
theorem appendDname_fits {s d : List UInt8}
    (hmade : FitsPath (below d ((exfunsGetSrcDname before s).getD [s.headD 0]))) :
    appendDname before s d = .ok (dstFolder before s d) := by
  rw [appendDname, strcat_fits hmade.slash, dstFolder, dstName]
  cases hname : exfunsGetSrcDname before s with
  | none =>
      rw [hname] at hmade
      have hroom : (d ++ [ch '/']).length + 1 < maxPathnameDepth := by
        unfold FitsPath at hmade
        rw [length_below] at hmade
        rw [List.length_append, List.length_singleton]
        exact hmade
      exact (if_pos hroom).trans (congrArg _ (slash_append d _))
  | some fn =>
      rw [hname] at hmade
      exact (strcat_fits (by rwa [slash_append])).trans (congrArg _ (slash_append d fn))

theorem appendDname_overflow {s d : List UInt8}
    (hmade : ¬ FitsPath (below d ((exfunsGetSrcDname before s).getD [s.headD 0]))) :
    appendDname before s d = .error .overflow := by
  rw [appendDname]
  by_cases hslash : FitsPath (d ++ [ch '/'])
  · rw [strcat_fits hslash]
    cases hname : exfunsGetSrcDname before s with
    | none =>
        rw [hname, FitsPath, length_below] at hmade
        have hroom : ¬ (d ++ [ch '/']).length + 1 < maxPathnameDepth := by
          rw [List.length_append, List.length_singleton]
          exact hmade
        exact if_neg hroom
    | some fn =>
        rw [hname] at hmade
        exact strcat_overflow (by rwa [slash_append])
  · rw [strcat_overflow hslash]
    rfl

variable {V : Volume} {totsize fwmode : ℕ}

theorem copyInto_total {folderCopy : List UInt8 → List UInt8 → Copying ℕ} {s d : List UInt8}
    (hfits : FolderFits before disk s d)
    (hsub : ∀ f ∈ listed (disk s), f.IsFolder →
      (folderCopy (below s f.fname) (dstFolder before s d)).Total) (srcdir : Option ℕ) :
    (copyInto before disk V totsize fwmode folderCopy srcdir s d).Total := by
  rw [copyInto, strcat_nil hfits.src, strcat_nil hfits.dst, Trial.lift_ok_bind, Trial.lift_ok_bind]
  refine Trial.total_bind (fOpendir_total _ _) fun _ => ?_
  refine Trial.total_ite (fun _ => Trial.total_pure _) fun _ => ?_
  rw [appendDname_fits hfits.made, Trial.lift_ok_bind]
  refine Trial.total_ite (fun _ => Trial.total_pure _) fun _ => ?_
  exact folderLoop_total
    (fun f hf => copyEntry_total (hfits.entry f hf) (hfits.file f hf) (hsub f hf)) 0

/-- Every folder further down has a path that is longer by two bytes or more, so that the paths run
out of the buffer before the recursion runs out of its depth. -/
theorem exfunsFolderCopy_total {src dst : List UInt8} (hfits : CopyFits before disk src dst)
    {n : ℕ} {s d : List UInt8} (hcomes : Comes before disk src dst s d)
    (hn : maxPathnameDepth ≤ s.length + n) :
    (exfunsFolderCopy before disk V totsize fwmode n s d).Total := by
  induction n generalizing s d with
  | zero => exact absurd (hfits s d hcomes).src (Nat.not_lt.mpr hn)
  | succ n ih =>
      have hsub : ∀ f ∈ listed (disk s), f.IsFolder → (exfunsFolderCopy before disk V totsize
          fwmode n (below s f.fname) (dstFolder before s d)).Total := by
        intro f hf hfolder
        refine ih (.sub hcomes hf hfolder) ?_
        have hname := List.length_pos_of_ne_nil (fname_of_mem_listed hf)
        rw [length_below]
        omega
      rw [exfunsFolderCopy]
      refine Trial.total_bind (mymalloc_total _) fun srcdir => ?_
      refine Trial.total_bind (mymalloc_total _) fun dstdir => ?_
      refine Trial.total_bind (mymalloc_total _) fun finfo => ?_
      refine Trial.total_bind (Trial.total_ite (fun _ => Trial.total_pure _) fun _ => ?_) fun _ =>
        Trial.total_bind (myfree_total _) fun _ => Trial.total_bind (myfree_total _) fun _ =>
          Trial.total_bind (myfree_total _) fun _ => Trial.total_pure _
      refine Trial.total_bind (mymalloc_total _) fun dstpathname => ?_
      refine Trial.total_bind (mymalloc_total _) fun srcpathname => ?_
      refine Trial.total_ite (fun _ => Trial.total_pure _) fun _ => ?_
      refine Trial.total_bind (copyInto_total (hfits s d hcomes) hsub srcdir) fun _ => ?_
      exact Trial.total_bind (myfree_total _) fun _ => Trial.total_bind (myfree_total _) fun _ =>
        Trial.total_pure _

theorem CopyFits.copyEnds {src dst : List UInt8} (hfits : CopyFits before disk src dst) :
    CopyEnds before disk src dst := fun _ _ _ h =>
  ⟨maxPathnameDepth, exfunsFolderCopy_total hfits .top (Nat.le_add_left _ _) h⟩

end
end Total

/-! ## Paths that fit are needed -/

/-- No call fails, and all files are empty. -/
def allWellVolume : Volume where
  calls _ _ := ⟨true, true, true, true, true, 0, 0, fun _ => 0⟩
  file _ _ := ⟨true, true, true, 0, fun _ => 0, fun _ => 0, fun _ => (0, 0), fun _ => 0, 0, 0, []⟩
  content _ := []

section AllWell
variable {totsize fwmode : ℕ} {h t : Held} {res : ℕ}

/-- A file that is empty is copied. -/
theorem file_allWell {src dst : List UInt8} {cpdsize : ℕ}
    (hrun : (exfunsFileCopyHeld (allWellVolume.file src dst) (allWellVolume.content src) totsize
      cpdsize fwmode).Returns h res t) : res = 0 := by
  obtain ⟨u, hcopy, -⟩ := (returns_file ⟨rfl, rfl, rfl⟩).mp hrun
  simp only [copyFiles, openFiles, Trial.returns_bind, Trial.returns_ite, returns_fOpen] at hcopy
  obtain ⟨r, h₁, ⟨r₁, h₂, ⟨rfl, -⟩, hsecond⟩, hcopy⟩ := hcopy
  have hsrc : (allWellVolume.file src dst).openSrc = 0 := rfl
  rw [if_pos hsrc] at hsecond
  obtain ⟨rfl, -⟩ := hsecond
  have hdst : (allWellVolume.file src dst).openDst (dstMode fwmode) = 0 := rfl
  rw [if_pos hdst] at hcopy
  simp only [Trial.returns_lift, Trial.returns_pure] at hcopy
  obtain ⟨r₂, h₃, ⟨hloop, -⟩, _, _, -, _, _, -, rfl, -⟩ := hcopy
  exact (Except.ok.inj hloop).symm

variable {before : List UInt8} {disk : List UInt8 → List Finfo}
variable {folderCopy : List UInt8 → List UInt8 → Copying ℕ} {s d : List UInt8}

/-- What an entry comes to when no call fails. -/
theorem entry_allWell {f : Finfo}
    (hcopy : ∀ {s d h r t}, (folderCopy s d).Returns h r t → r = 0)
    (hrun : (copyEntry allWellVolume totsize fwmode folderCopy s d f).Returns h res t) :
    res = 0 ∧ FitsPath (below s f.fname) ∧ (¬ f.IsFolder → FitsPath (below d f.fname)) ∧
      (f.IsFolder → ∃ h t r, (folderCopy (below s f.fname) d).Returns h r t) := by
  by_cases hfolder : f.IsFolder
  · rw [copyEntry, if_pos hfolder] at hrun
    simp only [Trial.returns_bind, Trial.returns_lift] at hrun
    obtain ⟨src, h', ⟨hsrc, rfl⟩, hsub⟩ := hrun
    obtain ⟨hfits, rfl⟩ := appendName_ok hsrc
    exact ⟨hcopy hsub, hfits, fun hfile => absurd hfolder hfile, fun _ => ⟨_, _, _, hsub⟩⟩
  · rw [copyEntry, if_neg hfolder] at hrun
    simp only [Trial.returns_bind, Trial.returns_lift, Trial.returns_pure] at hrun
    obtain ⟨dst, _, ⟨hdst, -⟩, src, _, ⟨hsrc, -⟩, cpdsize, _, -, r, _, hfile, _, _, -, rfl, -⟩ :=
      hrun
    exact ⟨file_allWell hfile, (appendName_ok hsrc).1, fun _ => (appendName_ok hdst).1,
      fun hf => absurd hf hfolder⟩

/-- The loop comes to all entries when no call fails. -/
theorem folderLoop_allWell {l : List Finfo} {k : ℕ}
    (hcopy : ∀ {s d h r t}, (folderCopy s d).Returns h r t → r = 0)
    (hrun : (folderLoop allWellVolume totsize fwmode folderCopy (fun _ => 0) s d l k).Returns h res
      t) :
    res = 0 ∧ ∀ f ∈ listed l, FitsPath (below s f.fname) ∧
      (¬ f.IsFolder → FitsPath (below d f.fname)) ∧
      (f.IsFolder → ∃ h t r, (folderCopy (below s f.fname) d).Returns h r t) := by
  induction l generalizing k h with
  | nil => exact ⟨(Trial.returns_pure.mp hrun).1.symm, fun f hf => absurd hf List.not_mem_nil⟩
  | cons f rest ih =>
      rw [folderLoop, if_neg (not_not.mpr rfl)] at hrun
      by_cases hname : f.fname = []
      · rw [if_pos hname] at hrun
        rw [listed_end hname]
        exact ⟨(Trial.returns_pure.mp hrun).1.symm, fun f hf => absurd hf List.not_mem_nil⟩
      · rw [if_neg hname] at hrun
        by_cases hskip : f.Skipped
        · rw [if_pos hskip] at hrun
          rw [listed_skipped hname hskip]
          exact ih hrun
        · rw [if_neg hskip, Trial.returns_bind] at hrun
          obtain ⟨r, u, hentry, hrun⟩ := hrun
          obtain ⟨rfl, hf⟩ := entry_allWell hcopy hentry
          rw [if_neg (not_not.mpr rfl)] at hrun
          obtain ⟨hres, hrest⟩ := ih hrun
          rw [listed_cons hname hskip]
          exact ⟨hres, List.forall_mem_cons.mpr ⟨hf, hrest⟩⟩

/-- The destination path has been put together, and so there was room for it. -/
theorem appendDname_ok {b : List UInt8} (hok : appendDname before s d = .ok b) :
    FitsPath (below d ((exfunsGetSrcDname before s).getD [s.headD 0])) ∧
      b = dstFolder before s d := by
  by_cases hfits : FitsPath (below d ((exfunsGetSrcDname before s).getD [s.headD 0]))
  · rw [appendDname_fits hfits] at hok
    exact ⟨hfits, (Except.ok.inj hok).symm⟩
  · rw [appendDname_overflow hfits] at hok
    cases hok

/-- What the part with all its memory comes to when no call fails. -/
theorem copyInto_allWell {srcdir : Option ℕ}
    (hcopy : ∀ {s d h r t}, (folderCopy s d).Returns h r t → r = 0)
    (hrun : (copyInto before disk allWellVolume totsize fwmode folderCopy srcdir s d).Returns h res
      t) :
    res = 0 ∧ FolderFits before disk s d ∧ ∀ f ∈ listed (disk s), f.IsFolder →
      ∃ h t r, (folderCopy (below s f.fname) (dstFolder before s d)).Returns h r t := by
  simp only [copyInto, Trial.returns_bind, Trial.returns_lift] at hrun
  obtain ⟨src, h₁, ⟨hsrc, -⟩, dst, h₂, ⟨hdst, -⟩, r, h₃, hopen, hrun⟩ := hrun
  obtain ⟨hsrcFits, rfl⟩ := strcat_ok hsrc
  obtain ⟨hdstFits, rfl⟩ := strcat_ok hdst
  obtain ⟨rfl, -⟩ := returns_fOpendir.mp hopen
  have hopendir : (allWellVolume.calls src dst).opendir = 0 := rfl
  rw [if_neg (not_not.mpr hopendir)] at hrun
  simp only [Trial.returns_bind, Trial.returns_lift] at hrun
  obtain ⟨buf, h₄, ⟨hname, -⟩, hloop⟩ := hrun
  obtain ⟨hmade, rfl⟩ := appendDname_ok hname
  rw [if_neg fun hmkdir => hmkdir.1 rfl] at hloop
  obtain ⟨hres, hentries⟩ := folderLoop_allWell hcopy hloop
  exact ⟨hres, ⟨hsrcFits, hdstFits, hmade, fun f hf => (hentries f hf).1,
    fun f hf => (hentries f hf).2.1⟩, fun f hf => (hentries f hf).2.2⟩

/-- A copy for which no call fails has come to its part with all its memory. -/
theorem exfunsFolderCopy_allWell {n : ℕ}
    (hrun : (exfunsFolderCopy before disk allWellVolume totsize fwmode (n + 1) s d).Returns h res
      t) :
    ∃ srcdir h t, (copyInto before disk allWellVolume totsize fwmode (exfunsFolderCopy before disk
      allWellVolume totsize fwmode n) srcdir s d).Returns h res t := by
  obtain ⟨u, hbuf, -⟩ := (returns_folder ⟨rfl, rfl, rfl⟩).mp hrun
  obtain ⟨u', hinto, -⟩ := (returns_buffers ⟨rfl, rfl⟩).mp hbuf
  exact ⟨_, _, u', hinto⟩

theorem exfunsFolderCopy_result {n : ℕ}
    (hrun : (exfunsFolderCopy before disk allWellVolume totsize fwmode n s d).Returns h res t) :
    res = 0 := by
  induction n generalizing s d h res t with
  | zero => exact absurd hrun Trial.returns_stop
  | succ n ih =>
      obtain ⟨srcdir, h', t', hinto⟩ := exfunsFolderCopy_allWell hrun
      exact (copyInto_allWell ih hinto).1

/-- When no call fails, a copy that ends has come to every folder below, and has had room for its
paths. -/
theorem comes_allWell {src dst : List UInt8} {n : ℕ}
    (hrun : (exfunsFolderCopy before disk allWellVolume totsize fwmode n src dst).Returns h res t)
    (hcomes : Comes before disk src dst s d) :
    ∃ m h r t, (exfunsFolderCopy before disk allWellVolume totsize fwmode m s d).Returns h r t := by
  induction hcomes with
  | top => exact ⟨n, h, res, t, hrun⟩
  | sub _ hf hfolder ih =>
      obtain ⟨m, h', r, t', hm⟩ := ih
      cases m with
      | zero => exact absurd hm Trial.returns_stop
      | succ m =>
          obtain ⟨srcdir, h', t', hinto⟩ := exfunsFolderCopy_allWell hm
          obtain ⟨-, -, hsub⟩ := copyInto_allWell exfunsFolderCopy_result hinto
          obtain ⟨h', t', r, hcopy⟩ := hsub _ hf hfolder
          exact ⟨m, h', r, t', hcopy⟩

theorem CopyEnds.copyFits {src dst : List UInt8} (hends : CopyEnds before disk src dst) :
    CopyFits before disk src dst := by
  intro s d hcomes
  obtain ⟨n, res, t, hrun⟩ := hends allWellVolume 0 0 ⟨0, [], [], [], false, 0⟩
  obtain ⟨m, h, r, t', hm⟩ := comes_allWell hrun hcomes
  cases m with
  | zero => exact absurd hm Trial.returns_stop
  | succ m =>
      obtain ⟨srcdir, h, t, hinto⟩ := exfunsFolderCopy_allWell hm
      exact (copyInto_allWell exfunsFolderCopy_result hinto).2.1

end AllWell

/-! ## When a copy is bounded -/

/-- For every tree of folders, whether it is there from the start or grows under the copy, and for
every destination, the copy of a folder ends and writes within its path buffers, whatever the
calls answer, exactly when the paths of all folders and files that it comes to fit into them. -/
theorem folderCopy_bounded_iff (before : List UInt8) (disk : List UInt8 → List Finfo)
    (src dst : List UInt8) : CopyEnds before disk src dst ↔ CopyFits before disk src dst :=
  ⟨CopyEnds.copyFits, CopyFits.copyEnds⟩

/-- A folder. -/
def folderA : Finfo := ⟨text "A", 0x10, 0⟩

/-- The folders of a copy into itself have paths of any length. -/
theorem comes_itself (k : ℕ) : ∃ s d, Comes [] (fun _ => [folderA]) (text "0:/A") (text "0:/A") s
    d ∧ k ≤ s.length := by
  induction k with
  | zero => exact ⟨_, _, .top, Nat.zero_le _⟩
  | succ k ih =>
      obtain ⟨s, d, hcomes, hk⟩ := ih
      have hmem : folderA ∈ listed [folderA] := List.mem_singleton.mpr rfl
      refine ⟨_, _, .sub hcomes hmem (by decide), ?_⟩
      rw [length_below]
      omega

/-- An empty folder is copied into one whose path nearly fills the buffer; and a folder is copied
into itself, where every folder that is made is found again.  All allocations are taken to
succeed: of five blocks for each level the pool has no room for this many levels. -/
theorem folderCopy_unbounded :
    ¬ CopyEnds [] (fun _ => []) (text "0:/A") (text "0:/" ++ List.replicate 508 (ch 'B')) ∧
      ¬ CopyEnds [] (fun _ => [folderA]) (text "0:/A") (text "0:/A") := by
  constructor
  · intro hends
    have hmade := (hends.copyFits _ _ .top).made
    rw [FitsPath, length_below, List.length_append, List.length_replicate] at hmade
    exact absurd hmade (by decide)
  · intro hends
    obtain ⟨s, d, hcomes, hlong⟩ := comes_itself maxPathnameDepth
    exact absurd (hends.copyFits s d hcomes).src (Nat.not_lt.mpr hlong)

end Apollo.Exfuns
