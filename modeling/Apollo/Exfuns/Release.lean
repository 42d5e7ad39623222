import Apollo.Exfuns.FolderCopy

/-!
# What a copy gives back

`exfuns_file_copy` closes its files when both are open, and so leaves the source open when the
destination is refused; and it frees the memory of a file that could not be closed.
`exfuns_folder_copy` never closes the folder it has opened, and when it
has obtained one of its two path buffers and not the other it frees neither.

## Main definitions

* `nothing`, `Held.Released` — the state before a copy, and when all has been given back.
* `DestinationRefused`, `CloseRefused`, `FolderOpened`, `OneBuffer` — where something is kept.
* `copies_released_iff` — that nothing is kept anywhere else.
-/

namespace Apollo.Exfuns
open Lib
open Usmart (text)

/-- Nothing is held. -/
def nothing (cpdsize : ℕ) : Held := ⟨0, [], [], [], false, cpdsize⟩

/-- All blocks have been freed once, and all files and folders closed, each while its memory was
still there. -/
structure Held.Released (h : Held) : Prop where
  live : h.live = []
  files : h.files = []
  dirs : h.dirs = []
  misused : h.misused = false

/-- The source is open and the destination cannot be opened. -/
def DestinationRefused (E : Outcomes) (fwmode : ℕ) : Prop :=
  E.HasMemory ∧ E.openSrc = 0 ∧ E.openDst (dstMode fwmode) ≠ 0

/-- Both files are open, and one of them cannot be closed. -/
def CloseRefused (E : Outcomes) (fwmode : ℕ) : Prop :=
  E.HasMemory ∧ E.openSrc = 0 ∧ E.openDst (dstMode fwmode) = 0 ∧ ¬(E.closeSrc = 0 ∧ E.closeDst = 0)

/-- One of the path buffers has been obtained, and the other one has not. -/
def OneBuffer (C : FolderCalls) : Prop := C.HasFolders ∧ C.dstpathname ≠ C.srcpathname

/-- The source folder is opened. -/
def FolderOpened (C : FolderCalls) : Prop := C.HasFolders ∧ C.HasBuffers ∧ C.opendir = 0

/-! ## A file -/

section File
variable {E : Outcomes} {src : List ℕ} {totsize cpdsize fwmode c : ℕ}

theorem file_noMemory (h : ¬ E.HasMemory) :
    ∃ res t, (exfunsFileCopyHeld E src totsize cpdsize fwmode).Returns (nothing c) res t ∧
      t.Released := by
  obtain ⟨fsrc, fdst, fbuf, openSrc, openDst, read, write, msg, closeSrc, closeDst, left⟩ := E
  cases fsrc <;> cases fdst <;> cases fbuf <;>
    first | exact ⟨_, _, rfl, rfl, rfl, rfl, rfl⟩ | exact absurd ⟨rfl, rfl, rfl⟩ h

/-- With its memory, the copy has in the end what the part in the middle leaves. -/
theorem file_taken (h : E.HasMemory) {res : ℕ} {files : List ℕ}
    {misused : Bool}
    (hcopy : (copyFiles E src totsize cpdsize fwmode (some 0) (some 1)).Returns
      ⟨3, [2, 1, 0], [], [], false, c⟩ res ⟨3, [2, 1, 0], files, [], misused, c⟩) :
    ∃ t, (exfunsFileCopyHeld E src totsize cpdsize fwmode).Returns (nothing c) res t ∧
      (t.Released ↔ files = [] ∧ misused = false) := by
  refine ⟨_, (returns_file h).mpr ⟨_, hcopy, rfl⟩, ?_, ?_⟩
  · intro ht
    refine ⟨ht.files, ?_⟩
    cases misused with
    | false => rfl
    | true => cases ht.misused
  · rintro ⟨rfl, rfl⟩
    exact ⟨rfl, rfl, rfl, rfl⟩

variable (src totsize cpdsize c)

theorem copyFiles_sourceRefused (h : Held) (hopen : E.openSrc ≠ 0) (fsrc fdst : Option ℕ) :
    (copyFiles E src totsize cpdsize fwmode fsrc fdst).Returns h E.openSrc h := by
  simp [copyFiles, openFiles, fOpen, hopen]

theorem copyFiles_destinationRefused (hsrc : E.openSrc = 0) (hdst : E.openDst (dstMode fwmode) ≠ 0)
    (live : List ℕ) :
    (copyFiles E src totsize cpdsize fwmode (some 0) (some 1)).Returns
      ⟨3, live, [], [], false, c⟩ (E.openDst (dstMode fwmode)) ⟨3, live, [0], [], false, c⟩ := by
  simp [copyFiles, openFiles, fOpen, hsrc, hdst]

/-- Of the two files those stay open that cannot be closed. -/
theorem copyFiles_opened (hsrc : E.openSrc = 0) (hdst : E.openDst (dstMode fwmode) = 0)
    (live : List ℕ) :
    ∃ res files, (copyFiles E src totsize cpdsize fwmode (some 0) (some 1)).Returns
      ⟨3, live, [], [], false, c⟩ res ⟨3, live, files, [], false, c⟩ ∧
      (files = [] ↔ E.closeSrc = 0 ∧ E.closeDst = 0) := by
  obtain ⟨res, hloop⟩ := fileLoop_ok E src totsize cpdsize
  by_cases hsrc' : E.closeSrc = 0 <;> by_cases hdst' : E.closeDst = 0
  · exact ⟨res, [], by
      simp [copyFiles, openFiles, fOpen, fClose, hsrc, hdst, hloop, hsrc', hdst']⟩
  · exact ⟨res, [1], by
      simp [copyFiles, openFiles, fOpen, fClose, hsrc, hdst, hloop, hsrc', hdst']⟩
  · exact ⟨res, [0], by
      simp [copyFiles, openFiles, fOpen, fClose, hsrc, hdst, hloop, hsrc', hdst']⟩
  · exact ⟨res, [1, 0], by
      simp [copyFiles, openFiles, fOpen, fClose, hsrc, hdst, hloop, hsrc', hdst']⟩

/-- A file copy keeps something exactly when its destination is refused or one of its files cannot
be closed. -/
theorem fileCopy_released (E : Outcomes) (fwmode : ℕ) :
    ∃ res t, (exfunsFileCopyHeld E src totsize cpdsize fwmode).Returns (nothing c) res t ∧
      (t.Released ↔ ¬ DestinationRefused E fwmode ∧ ¬ CloseRefused E fwmode) := by
  by_cases hmem : E.HasMemory
  · by_cases hsrc : E.openSrc = 0
    · by_cases hdst : E.openDst (dstMode fwmode) = 0
      · obtain ⟨res, files, hcopy, hfiles⟩ :=
          copyFiles_opened src totsize cpdsize c hsrc hdst [2, 1, 0]
        obtain ⟨t, hrun, ht⟩ := file_taken hmem hcopy
        refine ⟨_, t, hrun, ht.trans ?_⟩
        rw [hfiles, and_iff_left rfl]
        exact ⟨fun h => ⟨fun hr => hr.2.2 hdst, fun hr => hr.2.2.2 h⟩,
          fun h => by_contra fun hne => h.2 ⟨hmem, hsrc, hdst, hne⟩⟩
      · obtain ⟨t, hrun, ht⟩ :=
          file_taken hmem (copyFiles_destinationRefused src totsize cpdsize c hsrc hdst [2, 1, 0])
        refine ⟨_, t, hrun, iff_of_false (fun h => ?_) fun h => h.1 ⟨hmem, hsrc, hdst⟩⟩
        cases (ht.mp h).1
    · obtain ⟨t, hrun, ht⟩ := file_taken hmem (copyFiles_sourceRefused src totsize cpdsize
        ⟨3, [2, 1, 0], [], [], false, c⟩ hsrc (some 0) (some 1))
      exact ⟨_, t, hrun, iff_of_true (ht.mpr ⟨rfl, rfl⟩)
        ⟨fun h => hsrc h.2.1, fun h => hsrc h.2.1⟩⟩
  · obtain ⟨res, t, hrun, ht⟩ := file_noMemory hmem
    exact ⟨res, t, hrun, iff_of_true ht ⟨fun h => hmem h.1, fun h => hmem h.1⟩⟩

end File

/-! ## Folders stay open -/

/-- The folders that are open stay so. -/
def StayOpen (s t : Held) : Prop := s.dirs ⊆ t.dirs

theorem StayOpen.rfl (s : Held) : StayOpen s s := List.Subset.refl _

theorem StayOpen.trans {s t u : Held} (h : StayOpen s t) (h' : StayOpen t u) : StayOpen s u :=
  List.Subset.trans h h'

section Folders

theorem stayOpen_pure {α : Type} (a : α) : Trial.Keeps StayOpen (pure a : Copying α) :=
  Trial.keeps_pure StayOpen.rfl a

theorem stayOpen_bind {α β : Type} {x : Copying α} {f : α → Copying β}
    (hx : Trial.Keeps StayOpen x) (hf : ∀ a, Trial.Keeps StayOpen (f a)) :
    Trial.Keeps StayOpen (x >>= f) := Trial.keeps_bind StayOpen.trans hx hf

theorem mymalloc_stayOpen (ok : Bool) : Trial.Keeps StayOpen (mymalloc ok) := by
  refine stayOpen_bind (Trial.keeps_get StayOpen.rfl _) fun _ => ?_
  refine stayOpen_bind (Trial.keeps_modify fun h => ?_) fun _ =>
    stayOpen_pure _
  cases ok <;> exact StayOpen.rfl h

theorem myfree_stayOpen (block : Option ℕ) : Trial.Keeps StayOpen (myfree block) := by
  cases block with
  | none => exact stayOpen_pure _
  | some b => exact Trial.keeps_modify StayOpen.rfl

theorem fOpen_stayOpen (block : Option ℕ) (res : ℕ) : Trial.Keeps StayOpen (fOpen block res) := by
  refine stayOpen_bind (Trial.keeps_modify fun h => ?_) fun _ =>
    stayOpen_pure _
  split
  · exact StayOpen.rfl h
  · exact StayOpen.rfl h

theorem fOpendir_stayOpen (block : Option ℕ) (res : ℕ) :
    Trial.Keeps StayOpen (fOpendir block res) := by
  refine stayOpen_bind (Trial.keeps_modify fun h => ?_) fun _ =>
    stayOpen_pure _
  split
  · exact List.subset_append_right _ _
  · exact StayOpen.rfl h

theorem fClose_stayOpen (res : ℕ) (block : Option ℕ) :
    Trial.Keeps StayOpen (fClose res block) := by
  cases block with
  | none => exact stayOpen_pure _
  | some b => exact Trial.keeps_modify StayOpen.rfl

theorem fileCopy_stayOpen (E : Outcomes) (src : List ℕ) (totsize cpdsize fwmode : ℕ) :
    Trial.Keeps StayOpen (exfunsFileCopyHeld E src totsize cpdsize fwmode) := by
  have hopen (fsrc fdst : Option ℕ) : Trial.Keeps StayOpen (openFiles E fwmode fsrc fdst) :=
    stayOpen_bind (fOpen_stayOpen _ _) fun _ =>
      Trial.keeps_ite (fOpen_stayOpen _ _) (stayOpen_pure _)
  have hcopy (fsrc fdst : Option ℕ) :
      Trial.Keeps StayOpen (copyFiles E src totsize cpdsize fwmode fsrc fdst) := by
    refine stayOpen_bind (hopen _ _) fun _ => Trial.keeps_ite ?_ (stayOpen_pure _)
    refine stayOpen_bind (Trial.keeps_lift StayOpen.rfl _) fun _ => ?_
    exact stayOpen_bind (fClose_stayOpen _ _) fun _ =>
      stayOpen_bind (fClose_stayOpen _ _) fun _ => stayOpen_pure _
  refine stayOpen_bind (mymalloc_stayOpen _) fun fsrc => ?_
  refine stayOpen_bind (mymalloc_stayOpen _) fun fdst => ?_
  refine stayOpen_bind (mymalloc_stayOpen _) fun fbuf => ?_
  refine stayOpen_bind (Trial.keeps_ite (stayOpen_pure _) (hcopy _ _)) fun _ => ?_
  exact stayOpen_bind (myfree_stayOpen _) fun _ => stayOpen_bind (myfree_stayOpen _) fun _ =>
    stayOpen_bind (myfree_stayOpen _) fun _ => stayOpen_pure _

variable {V : Volume} {totsize fwmode : ℕ} {folderCopy : List UInt8 → List UInt8 → Copying ℕ}

theorem copyEntry_stayOpen (hcopy : ∀ s d, Trial.Keeps StayOpen (folderCopy s d))
    (s d : List UInt8) (f : Finfo) :
    Trial.Keeps StayOpen (copyEntry V totsize fwmode folderCopy s d f) := by
  refine Trial.keeps_ite ?_ ?_
  · exact stayOpen_bind (Trial.keeps_lift StayOpen.rfl _) fun _ => hcopy _ _
  · refine stayOpen_bind (Trial.keeps_lift StayOpen.rfl _) fun _ => ?_
    refine stayOpen_bind (Trial.keeps_lift StayOpen.rfl _) fun _ => ?_
    refine stayOpen_bind (Trial.keeps_get StayOpen.rfl _) fun _ => ?_
    refine stayOpen_bind (fileCopy_stayOpen _ _ _ _ _) fun _ => ?_
    exact stayOpen_bind (Trial.keeps_modify StayOpen.rfl) fun _ => stayOpen_pure _

theorem folderLoop_stayOpen (hcopy : ∀ s d, Trial.Keeps StayOpen (folderCopy s d))
    (readdir : ℕ → ℕ) (s d : List UInt8) (l : List Finfo) (k : ℕ) :
    Trial.Keeps StayOpen (folderLoop V totsize fwmode folderCopy readdir s d l k) := by
  induction l generalizing k with
  | nil => exact stayOpen_pure _
  | cons f rest ih =>
      rw [folderLoop]
      refine Trial.keeps_ite (stayOpen_pure _) (Trial.keeps_ite (stayOpen_pure _) ?_)
      refine Trial.keeps_ite (ih _) ?_
      exact stayOpen_bind (copyEntry_stayOpen hcopy s d f) fun _ =>
        Trial.keeps_ite (stayOpen_pure _) (ih _)

variable {before : List UInt8} {disk : List UInt8 → List Finfo}

theorem copyInto_stayOpen (hcopy : ∀ s d, Trial.Keeps StayOpen (folderCopy s d))
    (srcdir : Option ℕ) (s d : List UInt8) :
    Trial.Keeps StayOpen (copyInto before disk V totsize fwmode folderCopy srcdir s d) := by
  refine stayOpen_bind (Trial.keeps_lift StayOpen.rfl _) fun _ => ?_
  refine stayOpen_bind (Trial.keeps_lift StayOpen.rfl _) fun _ => ?_
  refine stayOpen_bind (fOpendir_stayOpen _ _) fun _ => Trial.keeps_ite (stayOpen_pure _) ?_
  refine stayOpen_bind (Trial.keeps_lift StayOpen.rfl _) fun _ => ?_
  exact Trial.keeps_ite (stayOpen_pure _) (folderLoop_stayOpen hcopy _ _ _ _ _)

theorem folderCopy_stayOpen (n : ℕ) (s d : List UInt8) :
    Trial.Keeps StayOpen (exfunsFolderCopy before disk V totsize fwmode n s d) := by
  induction n generalizing s d with
  | zero => exact Trial.keeps_stop _
  | succ n ih =>
      rw [exfunsFolderCopy]
      refine stayOpen_bind (mymalloc_stayOpen _) fun srcdir => ?_
      refine stayOpen_bind (mymalloc_stayOpen _) fun _ => ?_
      refine stayOpen_bind (mymalloc_stayOpen _) fun _ => ?_
      refine stayOpen_bind (Trial.keeps_ite (stayOpen_pure _) ?_) fun _ =>
        stayOpen_bind (myfree_stayOpen _) fun _ => stayOpen_bind (myfree_stayOpen _) fun _ =>
          stayOpen_bind (myfree_stayOpen _) fun _ => stayOpen_pure _
      refine stayOpen_bind (mymalloc_stayOpen _) fun _ => ?_
      refine stayOpen_bind (mymalloc_stayOpen _) fun _ => Trial.keeps_ite (stayOpen_pure _) ?_
      exact stayOpen_bind (copyInto_stayOpen ih srcdir s d) fun _ =>
        stayOpen_bind (myfree_stayOpen _) fun _ => stayOpen_bind (myfree_stayOpen _) fun _ =>
          stayOpen_pure _

end Folders

/-! ## A folder -/

section Folder
variable {before : List UInt8} {disk : List UInt8 → List Finfo} {V : Volume}
variable {totsize fwmode n c : ℕ} {s d : List UInt8}

theorem folder_noMemory (h : ¬ (V.calls s d).HasFolders) :
    ∃ res t, (exfunsFolderCopy before disk V totsize fwmode (n + 1) s d).Returns (nothing c) res
      t ∧ t.Released := by
  rw [exfunsFolderCopy]
  cases hsrc : (V.calls s d).srcdir <;> cases hdst : (V.calls s d).dstdir <;>
    cases hinfo : (V.calls s d).finfo <;>
    first | exact ⟨_, _, rfl, rfl, rfl, rfl, rfl⟩ | exact absurd ⟨hsrc, hdst, hinfo⟩ h

/-- What is held when the memory for the folder has been obtained. -/
def foldersTaken (c : ℕ) : Held := ⟨3, [2, 1, 0], [], [], false, c⟩

variable {folderCopy : List UInt8 → List UInt8 → Copying ℕ} {srcdir : Option ℕ}

/-- With one path buffer and not the other, block 3 is that buffer. -/
theorem buffers_one (h : (V.calls s d).dstpathname ≠ (V.calls s d).srcpathname) :
    (copyBuffers before disk V totsize fwmode folderCopy srcdir s d).Returns (foldersTaken c) 101
      ⟨4, [3, 2, 1, 0], [], [], false, c⟩ := by
  rw [copyBuffers]
  cases hdst : (V.calls s d).dstpathname <;> cases hsrc : (V.calls s d).srcpathname <;>
    first | rfl | exact absurd (hdst.trans hsrc.symm) h

theorem buffers_none (hdst : (V.calls s d).dstpathname = false)
    (hsrc : (V.calls s d).srcpathname = false) :
    (copyBuffers before disk V totsize fwmode folderCopy srcdir s d).Returns (foldersTaken c) 101
      (foldersTaken c) := by
  rw [copyBuffers, hdst, hsrc]
  rfl

/-- A folder that cannot be opened leaves nothing behind. -/
theorem copyInto_refused {h t : Held} {res : ℕ} (hopen : (V.calls s d).opendir ≠ 0)
    (hrun : (copyInto before disk V totsize fwmode folderCopy srcdir s d).Returns h res t) :
    t = h := by
  simp only [copyInto, Trial.returns_bind, Trial.returns_lift, returns_fOpendir] at hrun
  obtain ⟨_, _, ⟨-, rfl⟩, _, _, ⟨-, rfl⟩, _, _, ⟨rfl, rfl⟩, hrun⟩ := hrun
  rw [if_pos hopen, if_neg hopen] at hrun
  exact (Trial.returns_pure.mp hrun).2.symm

/-- A folder that has been opened is open at the end. -/
theorem copyInto_opened {h t : Held} {res b : ℕ} (hopen : (V.calls s d).opendir = 0)
    (hcopy : ∀ s d, Trial.Keeps StayOpen (folderCopy s d))
    (hrun : (copyInto before disk V totsize fwmode folderCopy (some b) s d).Returns h res t) :
    b ∈ t.dirs := by
  simp only [copyInto, Trial.returns_bind, Trial.returns_lift, returns_fOpendir] at hrun
  obtain ⟨_, _, ⟨-, rfl⟩, _, _, ⟨-, rfl⟩, _, _, ⟨rfl, rfl⟩, hrun⟩ := hrun
  rw [if_neg (not_not.mpr hopen), if_pos hopen] at hrun
  obtain ⟨dst, u, hname, hrun⟩ := Trial.returns_bind.mp hrun
  have hlift := Trial.keeps_lift StayOpen.rfl _ hname
  have hloop : StayOpen u t :=
    Trial.keeps_ite (stayOpen_pure _) (folderLoop_stayOpen hcopy _ _ _ _ _) hrun
  exact hloop (hlift List.mem_cons_self)

/-- A folder copy keeps something exactly when it has one path buffer and not the other, or has
opened its source. -/
theorem folderCopy_released {res : ℕ} {t : Held}
    (hrun : (exfunsFolderCopy before disk V totsize fwmode n s d).Returns (nothing c) res t) :
    t.Released ↔ ¬ OneBuffer (V.calls s d) ∧ ¬ FolderOpened (V.calls s d) := by
  cases n with
  | zero => exact absurd hrun Trial.returns_stop
  | succ n =>
      by_cases hmem : (V.calls s d).HasFolders
      · obtain ⟨u, hbuf, rfl⟩ := (returns_folder hmem).mp hrun
        by_cases hone : (V.calls s d).dstpathname ≠ (V.calls s d).srcpathname
        · obtain ⟨-, rfl⟩ := hbuf.unique (buffers_one hone)
          refine iff_of_false (fun ht => ?_) fun h => h.1 ⟨hmem, hone⟩
          cases ht.live
        · by_cases hboth : (V.calls s d).HasBuffers
          · obtain ⟨v, hinto, rfl⟩ := (returns_buffers hboth).mp hbuf
            by_cases hopen : (V.calls s d).opendir = 0
            · have hdirs := copyInto_opened hopen (folderCopy_stayOpen n) hinto
              refine iff_of_false (fun ht => ?_) fun h => h.2 ⟨hmem, hboth, hopen⟩
              exact List.not_mem_nil (ht.dirs ▸ hdirs)
            · obtain rfl := copyInto_refused hopen hinto
              exact iff_of_true ⟨rfl, rfl, rfl, rfl⟩ ⟨fun h => hone h.2, fun h => hopen h.2.2⟩
          · have hnone : (V.calls s d).dstpathname = false := by
              rw [Bool.eq_false_iff]
              exact fun h => hboth ⟨h, (not_not.mp hone).symm.trans h⟩
            obtain ⟨-, rfl⟩ := hbuf.unique (buffers_none hnone ((not_not.mp hone).symm.trans hnone))
            exact iff_of_true ⟨rfl, rfl, rfl, rfl⟩ ⟨fun h => hone h.2, fun h => hboth h.2.1⟩
      · obtain ⟨res', t', hrun', ht⟩ := folder_noMemory (c := c) hmem
        obtain ⟨-, rfl⟩ := hrun.unique hrun'
        exact iff_of_true ht ⟨fun h => hmem h.1, fun h => hmem h.1⟩

end Folder

/-! ## When a copy gives everything back -/

/-- Whatever the allocator and FatFs answer, a file copy closes what it has opened and frees what
it has taken exactly when its destination is not refused after the source was opened, and both
files can be closed if both have been opened; and the copy of a folder with any tree in it does so
exactly when it has not opened that folder, and has both or neither of its path buffers. -/
theorem copies_released_iff (E : Outcomes) (src : List ℕ) (before : List UInt8)
    (disk : List UInt8 → List Finfo) (V : Volume) (totsize cpdsize fwmode n c : ℕ)
    (s d : List UInt8) :
    (∃ res t, (exfunsFileCopyHeld E src totsize cpdsize fwmode).Returns (nothing c) res t ∧
      (t.Released ↔ ¬ DestinationRefused E fwmode ∧ ¬ CloseRefused E fwmode)) ∧
    ∀ res t, (exfunsFolderCopy before disk V totsize fwmode n s d).Returns (nothing c) res t →
      (t.Released ↔ ¬ OneBuffer (V.calls s d) ∧ ¬ FolderOpened (V.calls s d)) :=
  ⟨fileCopy_released src totsize cpdsize c E fwmode, fun _ _ hrun => folderCopy_released hrun⟩

/-- A destination that is there already and is not to be overwritten: `FR_EXIST`. -/
def existing : Outcomes where
  fsrc := true
  fdst := true
  fbuf := true
  openSrc := 0
  openDst _ := frExist
  read _ := 0
  write _ := (0, 0)
  msg _ := 0
  closeSrc := 0
  closeDst := 0
  left := []

/-- No call fails, and there is room for every byte. -/
def allCopied : Outcomes := { existing with
  openDst _ := 0
  write _ := (0, 8192) }

/-- A volume on which no call fails and every file has two bytes. -/
def twoBytes : Volume := { allWellVolume with
  file _ _ := allCopied
  content _ := [0x61, 0x62] }

/-- A file beside a folder with a file. -/
def projectA (path : List UInt8) : List Finfo :=
  if path = text "0:/A" then [⟨text "B.C", 0x20, 2⟩, ⟨text "SUB", 0x10, 0⟩]
  else if path = text "0:/A/SUB" then [⟨text "D.C", 0x20, 2⟩]
  else []

/-- The copy of a file gives everything back, and that of a folder leaves two folders open in memory
that it has freed. -/
theorem copies_released_project :
    (∃ res t, (exfunsFileCopyHeld allCopied [0x61, 0x62] 4 0 1).Returns (nothing 0) res t ∧
      t.Released) ∧
    ∃ t, (exfunsFolderCopy [] projectA twoBytes 4 1 2 (text "0:/A") (text "0:/E")).Returns
      (nothing 0) 0 t ∧ t.dirs = [8, 0] ∧ ¬ t.Released := by
  have hrun : (exfunsFolderCopy [] projectA twoBytes 4 1 2 (text "0:/A") (text "0:/E")).Returns
      (nothing 0) 0 ⟨16, [], [], [8, 0], true, 4⟩ := rfl
  obtain ⟨⟨res, t, hfile, ht⟩, hfolder⟩ := copies_released_iff allCopied [0x61, 0x62] [] projectA
    twoBytes 4 0 1 2 0 (text "0:/A") (text "0:/E")
  have hreleased : t.Released := ht.mpr ⟨fun h => h.2.2 rfl, fun h => h.2.2.2 ⟨rfl, rfl⟩⟩
  refine ⟨⟨res, t, hfile, hreleased⟩, _, hrun, rfl, ?_⟩
  exact fun h => ((hfolder _ _ hrun).mp h).2 ⟨⟨rfl, rfl, rfl⟩, ⟨rfl, rfl⟩, rfl⟩

/-- A file whose destination exists already, and an empty folder for which no call fails. -/
theorem copies_kept :
    (¬ ∀ (E : Outcomes) (src : List ℕ) (totsize cpdsize fwmode res : ℕ) (t : Held),
      (exfunsFileCopyHeld E src totsize cpdsize fwmode).Returns (nothing 0) res t →
        t.Released) ∧
    ¬ ∀ (disk : List UInt8 → List Finfo) (V : Volume) (totsize fwmode n : ℕ) (s d : List UInt8)
      (res : ℕ) (t : Held),
      (exfunsFolderCopy [] disk V totsize fwmode n s d).Returns (nothing 0) res t →
        t.Released := by
  constructor
  · intro hall
    cases (hall existing [] 0 0 0 _ _ rfl).files
  · intro hall
    cases (hall (fun _ => []) allWellVolume 0 0 1 (text "0:/A") (text "0:/B") _ _ rfl).dirs

end Apollo.Exfuns
