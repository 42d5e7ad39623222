import Apollo.Lib.Prog
import Mathlib.Algebra.Group.Nat.Defs
import Mathlib.Data.List.Basic
import Mathlib.Tactic.Common

/-!
# Copying a file

`exfuns_file_copy` reads 8192 bytes, writes them and shows the percentage, until a read
brings nothing, a call fails, a write is short or the callback asks to stop.  All of these
leave through one result.

FatFs, the allocator and the callback answer as an `Outcomes` says: any answer at all,
but that a read which succeeds is short only at the end of the file, and that a write
adds to the destination as many bytes as it reports.  The last sector and the size of the
destination are written when it is closed; where that fails it may hold anything afterwards.

## Main definitions

* `Outcomes` — what every call answers; `Files` — the two open files.
* `fRead`, `fWrite`, `copyRound`, `exfunsFileCopy` — the code.
* `SafeRound` — the condition on a round.
* `copyRound_cases` — what a round does; `exfunsFileCopy_exits` — some result comes.
* `file_copy_iff` — success means an identical copy exactly under the condition.
-/

namespace Apollo.Exfuns
open Lib

/-- The answers of the calls.  The transfers are numbered from `0`. -/
structure Outcomes where
  /-- `mymalloc` for `fsrc`, `fdst` and `fbuf` succeeds. -/
  fsrc : Bool
  fdst : Bool
  fbuf : Bool
  /-- `f_open` of the source, and of the destination in a mode. -/
  openSrc : ℕ
  openDst : ℕ → ℕ
  /-- `f_read` of each transfer. -/
  read : ℕ → ℕ
  /-- `f_write` of each transfer: its result, and how many bytes there is room for. -/
  write : ℕ → ℕ × ℕ
  /-- What the callback returns after each transfer. -/
  msg : ℕ → ℕ
  /-- `f_close` of the source and of the destination. -/
  closeSrc : ℕ
  closeDst : ℕ
  /-- What the destination holds when it could not be closed. -/
  left : List ℕ

/-- The open files: how far the source has been read, what the destination holds, and how
many transfers are complete. -/
structure Files where
  fptr : ℕ
  dst : List ℕ
  transfer : ℕ

variable (E : Outcomes) (src : List ℕ)

/-- `f_read(fsrc, fbuf, 8192, &br)`: the result, and the bytes that have been read. -/
def fRead : Prog Files (ℕ × List ℕ) := do
  let res ← Prog.get fun f => E.read f.transfer
  if res ≠ 0 then pure (res, [])
  else do
    let buf ← Prog.get fun f => (src.drop f.fptr).take 8192
    Prog.modify fun f => { f with fptr := f.fptr + buf.length }
    pure (0, buf)

/-- `f_write(fdst, fbuf, br, &bw)`: the result and `bw`. -/
def fWrite (buf : List ℕ) : Prog Files (ℕ × ℕ) := do
  let answer ← Prog.get fun f => E.write f.transfer
  let bw := min answer.2 buf.length
  Prog.modify fun f => { f with dst := f.dst ++ buf.take bw }
  pure (answer.1, bw)

/-- What the loop carries: the bytes copied so far and the percentage shown. -/
structure Progress where
  lcpdsize : ℕ
  curpct : ℕ

/-- The percentage after `lcpdsize` bytes. -/
def percent (totsize lcpdsize : ℕ) : ℕ := lcpdsize * 100 % 2 ^ 64 / totsize

/-- One round of the copying loop. -/
def copyRound (totsize _i : ℕ) (a : Progress) : Prog Files (Flow Progress ℕ) := do
  let (res, buf) ← fRead E src
  if res ≠ 0 ∨ buf.length = 0 then pure (.exit res)
  else do
    let (res, bw) ← fWrite E buf
    let lcpdsize := (a.lcpdsize + bw) % 2 ^ 64
    let asked := a.curpct ≠ percent totsize lcpdsize
    let curpct := if asked then percent totsize lcpdsize % 2 ^ 8 else a.curpct
    let stop ← Prog.get fun f => E.msg f.transfer
    if asked ∧ stop ≠ 0 then pure (.exit 0xFF)
    else if res ≠ 0 ∨ bw < buf.length then pure (.exit res)
    else do
      Prog.modify fun f => { f with transfer := f.transfer + 1 }
      pure (.next ⟨lcpdsize, curpct⟩)

/-- `FA_WRITE | FA_CREATE_NEW` or `FA_WRITE | FA_CREATE_ALWAYS`. -/
def dstMode (fwmode : ℕ) : ℕ := if fwmode = 0 then 0x02 ||| 0x04 else 0x02 ||| 0x08

/-- The size that counts as 100 percent: that of the file, when a single file is copied. -/
def copyTotal (totsize : ℕ) : ℕ := if totsize = 0 then src.length % 2 ^ 32 else totsize

/-- What the loop starts with. -/
def copyStart (totsize cpdsize : ℕ) : Progress :=
  if totsize = 0 then ⟨0, 0⟩ else ⟨cpdsize, percent totsize cpdsize % 2 ^ 8⟩

/-- `f_close(fsrc)` and `f_close(fdst)`, of whose results none is looked at. -/
def closeFiles : Prog Files Unit :=
  Prog.modify fun f => { f with dst := if E.closeDst = 0 then f.dst else E.left }

/-- What stands between the opening of the files and the freeing of the memory. -/
def copyOpened (fuel totsize cpdsize : ℕ) : Prog Files (Flow Progress ℕ) := do
  match ← Prog.loop (copyRound E src (copyTotal src totsize)) fuel 0
      (copyStart totsize cpdsize) with
  | .next a => pure (.next a)
  | .exit res => do
      closeFiles E
      pure (.exit res)

/-- `exfuns_file_copy`, with as many rounds as `fuel`; a result that is `next` has not
come yet.  Freeing the memory changes no content. -/
def exfunsFileCopy (fuel totsize cpdsize fwmode : ℕ) : Prog Files (Flow Progress ℕ) :=
  if E.fsrc = false ∨ E.fdst = false ∨ E.fbuf = false then pure (.exit 100)
  else if E.openSrc ≠ 0 then pure (.exit E.openSrc)
  else if E.openDst (dstMode fwmode) ≠ 0 then pure (.exit (E.openDst (dstMode fwmode)))
  else copyOpened E src fuel totsize cpdsize

/-- The files as `f_open` leaves them: the destination is new or has been truncated. -/
def opened : Files := ⟨0, [], 0⟩

/-! ## The condition -/

/-- A complete copy is still there when the destination has been closed. -/
def CloseKeeps : Prop := E.closeDst = 0 ∨ E.left = src

/-- The destination cannot be closed, and holds a complete copy all the same. -/
def CloseMends : Prop := E.closeDst ≠ 0 ∧ E.left = src

/-- The condition on a round: if it reads the end of the source, closing the destination keeps the
copy; and a write that reports success for fewer bytes than it was given is followed by the
callback, which asks to stop, or closing the destination mends the copy. -/
def SafeRound (totsize : ℕ) (a : Progress) (f : Files) : Prop :=
  let br := min 8192 (src.length - f.fptr)
  let bw := min (E.write f.transfer).2 br
  E.read f.transfer = 0 →
    (br = 0 → CloseKeeps E src) ∧
    ((E.write f.transfer).1 = 0 → bw < br →
      (a.curpct ≠ percent totsize ((a.lcpdsize + bw) % 2 ^ 64) ∧ E.msg f.transfer ≠ 0) ∨
        CloseMends E src)

/-- The call opens both files and comes to copy. -/
def ComesToCopy (fwmode : ℕ) : Prop :=
  ¬(E.fsrc = false ∨ E.fdst = false ∨ E.fbuf = false) ∧ E.openSrc = 0 ∧
    E.openDst (dstMode fwmode) = 0

/-- Every round of a call meets the condition. -/
def SafeCopy (fuel totsize cpdsize fwmode : ℕ) : Prop :=
  ComesToCopy E fwmode →
    Prog.Rounds (SafeRound E src (copyTotal src totsize))
      (copyRound E src (copyTotal src totsize)) fuel 0 (copyStart totsize cpdsize) opened

/-! ## One round -/

/-- The copy so far. -/
structure Copied (f : Files) : Prop where
  le : f.fptr ≤ src.length
  dst : f.dst = src.take f.fptr

section Round
variable {E src} (totsize i : ℕ) (a : Progress) {f : Files}

theorem round_read_fails (h : E.read f.transfer ≠ 0) :
    (copyRound E src totsize i a).val f = .exit (E.read f.transfer) := by
  simp only [copyRound, fRead, Prog.val_bind, Prog.val_get, Prog.state_get, h, ne_eq,
    not_false_eq_true, if_true, true_or, Prog.val_pure]

theorem round_end (h : E.read f.transfer = 0) (hend : src.length ≤ f.fptr) :
    (copyRound E src totsize i a).val f = .exit 0 ∧
      ((copyRound E src totsize i a).state f).dst = f.dst := by
  have hnil : (src.drop f.fptr).take 8192 = [] := by rw [List.drop_of_length_le hend, List.take_nil]
  constructor
  · simp only [copyRound, fRead, Prog.val_bind, Prog.state_bind, Prog.val_get, Prog.state_get, h,
      ne_eq, not_true_eq_false, if_false, hnil, List.length_nil, Prog.state_modify, Prog.val_pure,
      Prog.state_pure, or_true, if_true]
  · simp only [copyRound, fRead, Prog.val_bind, Prog.state_bind, Prog.val_get, Prog.state_get, h,
      ne_eq, not_true_eq_false, if_false, hnil, List.length_nil, Prog.state_modify, Prog.val_pure,
      Prog.state_pure, or_true, if_true]

/-- What a round does once it has read something: `br` bytes read, `bw` of them written. -/
theorem round_write (h : E.read f.transfer = 0) (hmore : f.fptr < src.length) :
    let br := min 8192 (src.length - f.fptr)
    let bw := min (E.write f.transfer).2 br
    let lcpdsize := (a.lcpdsize + bw) % 2 ^ 64
    let asked := a.curpct ≠ percent totsize lcpdsize
    (copyRound E src totsize i a).val f =
      (if asked ∧ E.msg f.transfer ≠ 0 then .exit 0xFF
      else if (E.write f.transfer).1 ≠ 0 ∨ bw < br then .exit (E.write f.transfer).1
      else .next ⟨lcpdsize, if asked then percent totsize lcpdsize % 2 ^ 8 else a.curpct⟩) ∧
    ((copyRound E src totsize i a).state f).fptr = f.fptr + br ∧
    ((copyRound E src totsize i a).state f).dst = f.dst ++ (src.drop f.fptr).take bw := by
  intro br bw lcpdsize asked
  set buf := (src.drop f.fptr).take 8192 with hbuf
  have hlen : buf.length = br := by rw [hbuf, List.length_take, List.length_drop]
  have hne : br ≠ 0 := by omega
  have htake : buf.take bw = (src.drop f.fptr).take bw := by
    rw [hbuf, List.take_take, Nat.min_eq_left (by omega)]
  refine ⟨?_, ?_, ?_⟩
  · simp only [copyRound, fRead, fWrite, Prog.val_bind, Prog.state_bind, Prog.val_get,
      Prog.state_get, h, ne_eq, not_true_eq_false, if_false, ← hbuf, hlen, hne, or_self,
      Prog.state_modify, Prog.val_pure, Prog.state_pure, Prog.val_ite]
    rfl
  · simp only [copyRound, fRead, fWrite, Prog.val_bind, Prog.state_bind, Prog.val_get,
      Prog.state_get, h, ne_eq, not_true_eq_false, if_false, ← hbuf, hlen, hne, or_self,
      Prog.state_modify, Prog.val_pure, Prog.state_pure, Prog.state_ite]
    split_ifs <;> rfl
  · simp only [copyRound, fRead, fWrite, Prog.val_bind, Prog.state_bind, Prog.val_get,
      Prog.state_get, h, ne_eq, not_true_eq_false, if_false, ← hbuf, hlen, hne, or_self,
      Prog.state_modify, Prog.val_pure, Prog.state_pure, Prog.state_ite]
    split_ifs <;> exact congrArg _ htake

/-- What the destination holds once it has been closed. -/
def closed (E : Outcomes) (dst : List ℕ) : List ℕ := if E.closeDst = 0 then dst else E.left

theorem closed_src_iff : closed E src = src ↔ CloseKeeps E src := by
  rw [closed, CloseKeeps]
  split_ifs with h
  · exact iff_of_true rfl (Or.inl h)
  · exact (or_iff_right h).symm

theorem closed_short_iff {dst : List ℕ} (hshort : dst.length < src.length) :
    closed E dst = src ↔ CloseMends E src := by
  rw [closed, CloseMends]
  split_ifs with h
  · exact iff_of_false (fun heq => Nat.ne_of_lt hshort (congrArg List.length heq)) fun hm => hm.1 h
  · exact (and_iff_right h).symm

/-- A round goes on with a longer copy, or leaves: with success exactly when the copy will be
complete, unless a short write has gone unnoticed or closing fails. -/
theorem copyRound_cases (hcopy : Copied src f) :
    ((copyRound E src totsize i a).val f).Holds
      (fun _ => Copied src ((copyRound E src totsize i a).state f) ∧
        f.fptr < ((copyRound E src totsize i a).state f).fptr ∧ SafeRound E src totsize a f)
      (fun res => (res = 0 → closed E ((copyRound E src totsize i a).state f).dst = src) ↔
        SafeRound E src totsize a f) := by
  have hle := hcopy.le
  by_cases hread : E.read f.transfer = 0
  · rcases Nat.lt_or_ge f.fptr src.length with hmore | hend
    · obtain ⟨hval, hptr, hdst⟩ := round_write totsize i a hread hmore
      rw [hcopy.dst, ← List.take_add] at hdst
      have hbr : min 8192 (src.length - f.fptr) ≠ 0 := by omega
      by_cases hstop : a.curpct ≠ percent totsize ((a.lcpdsize + min (E.write f.transfer).2
          (min 8192 (src.length - f.fptr))) % 2 ^ 64) ∧ E.msg f.transfer ≠ 0
      · -- the callback asks to stop
        rw [hval, if_pos hstop, Flow.holds_exit]
        exact iff_of_true (fun h => by cases h) fun _ =>
          ⟨fun h => absurd h hbr, fun _ _ => Or.inl hstop⟩
      · rw [if_neg hstop] at hval
        by_cases hres : (E.write f.transfer).1 = 0
        · by_cases hshort : min (E.write f.transfer).2 (min 8192 (src.length - f.fptr)) <
              min 8192 (src.length - f.fptr)
          · -- the write is short, and success is reported
            rw [hval, if_pos (Or.inr hshort), Flow.holds_exit, imp_iff_right hres, closed_short_iff]
            · exact ⟨fun h _ => ⟨fun hz => absurd hz hbr, fun _ _ => Or.inr h⟩,
                fun h => ((h hread).2 hres hshort).resolve_left hstop⟩
            · rw [hdst, List.length_take]
              omega
          · rw [hval, if_neg (not_or.mpr ⟨not_not.mpr hres, hshort⟩), Flow.holds_next]
            refine ⟨⟨by omega, ?_⟩, by omega, fun _ =>
              ⟨fun h => absurd h hbr, fun _ h => absurd h hshort⟩⟩
            rw [hdst, hptr]
            congr 2
            omega
        · rw [hval, if_pos (Or.inl hres), Flow.holds_exit]
          exact iff_of_true (fun h => absurd h hres) fun _ =>
            ⟨fun h => absurd h hbr, fun h => absurd h hres⟩
    · -- the end of the source
      obtain ⟨hval, hdst⟩ := round_end totsize i a hread hend
      rw [hval, Flow.holds_exit, hdst, imp_iff_right rfl, hcopy.dst, List.take_of_length_le hend,
        closed_src_iff]
      refine ⟨fun h _ => ⟨fun _ => h, fun _ hshort => ?_⟩, fun h => (h hread).1 (by omega)⟩
      omega
  · rw [round_read_fails totsize i a hread, Flow.holds_exit]
    exact iff_of_true (fun h => absurd h hread) fun h => absurd h hread

/-- The loop and the closing: success means a complete copy exactly when every round meets the
condition. -/
theorem loop_iff (fuel : ℕ) (hcopy : Copied src f) :
    ((Prog.loop (copyRound E src totsize) fuel i a).val f = .exit 0 →
        closed E ((Prog.loop (copyRound E src totsize) fuel i a).state f).dst = src) ↔
      Prog.Rounds (SafeRound E src totsize) (copyRound E src totsize) fuel i a f := by
  induction fuel generalizing i a f with
  | zero => exact iff_of_true (fun h => by cases h) trivial
  | succ fuel ih =>
      have hround := copyRound_cases (E := E) totsize i a hcopy
      rw [Prog.Rounds]
      cases hv : (copyRound E src totsize i a).val f with
      | next a' =>
          rw [hv, Flow.holds_next] at hround
          rw [Prog.val_loop_next _ hv, Prog.state_loop_next _ hv, ih (i + 1) a' hround.1]
          exact (and_iff_right hround.2.2).symm
      | exit res =>
          rw [hv, Flow.holds_exit] at hround
          rw [Prog.val_loop_exit _ hv, Prog.state_loop_exit _ hv, Flow.exit.injEq, hround]
          exact (and_iff_left trivial).symm

end Round

theorem val_copyOpened (fuel totsize cpdsize : ℕ) (f : Files) :
    (copyOpened E src fuel totsize cpdsize).val f =
      (Prog.loop (copyRound E src (copyTotal src totsize)) fuel 0
        (copyStart totsize cpdsize)).val f := by
  rw [copyOpened, Prog.val_bind]
  split <;> rename_i heq <;> exact heq.symm

theorem dst_copyOpened {fuel totsize cpdsize res : ℕ} {f : Files}
    (hval : (copyOpened E src fuel totsize cpdsize).val f = .exit res) :
    ((copyOpened E src fuel totsize cpdsize).state f).dst =
      closed E ((Prog.loop (copyRound E src (copyTotal src totsize)) fuel 0
        (copyStart totsize cpdsize)).state f).dst := by
  rw [val_copyOpened] at hval
  simp only [copyOpened, Prog.state_bind, hval]
  rfl

theorem copied_opened : Copied src opened := ⟨Nat.zero_le _, rfl⟩

theorem loop_exits (totsize i : ℕ) (a : Progress) {fuel : ℕ} {f : Files} (hcopy : Copied src f)
    (hfuel : src.length - f.fptr < fuel) :
    ∃ res, (Prog.loop (copyRound E src totsize) fuel i a).val f = .exit res := by
  induction fuel generalizing i a f with
  | zero => omega
  | succ fuel ih =>
      have hround := copyRound_cases (E := E) totsize i a hcopy
      cases hv : (copyRound E src totsize i a).val f with
      | next a' =>
          rw [hv, Flow.holds_next] at hround
          obtain ⟨hnext, hlt, -⟩ := hround
          have hle := hnext.le
          rw [Prog.val_loop_next _ hv]
          exact ih (i + 1) a' hnext (by omega)
      | exit res => exact ⟨res, Prog.val_loop_exit _ hv⟩

/-- Enough rounds always bring a result. -/
theorem exfunsFileCopy_exits {fuel : ℕ} (hfuel : src.length < fuel) (totsize cpdsize fwmode : ℕ) :
    ∃ res, (exfunsFileCopy E src fuel totsize cpdsize fwmode).val opened = .exit res := by
  rw [exfunsFileCopy]
  split_ifs
  · exact ⟨_, rfl⟩
  · exact ⟨_, rfl⟩
  · exact ⟨_, rfl⟩
  · rw [val_copyOpened]
    exact loop_exits E src _ _ _ (copied_opened src) (by rw [opened]; omega)

/-- A call of `exfuns_file_copy` that returns success has made an identical copy, for every
source file, every size to show and every behaviour of FatFs, the allocator and the
callback, exactly when every write that reports success for fewer bytes than it was given
is followed by the callback, which asks to stop, and the closing of the destination loses
nothing of a copy that is complete; or the closing fails and leaves a complete copy. -/
theorem file_copy_iff (fuel totsize cpdsize fwmode : ℕ) :
    ((exfunsFileCopy E src fuel totsize cpdsize fwmode).val opened = .exit 0 →
        ((exfunsFileCopy E src fuel totsize cpdsize fwmode).state opened).dst = src) ↔
      SafeCopy E src fuel totsize cpdsize fwmode := by
  rw [exfunsFileCopy, SafeCopy, ComesToCopy]
  by_cases hmalloc : E.fsrc = false ∨ E.fdst = false ∨ E.fbuf = false
  · rw [if_pos hmalloc]
    exact iff_of_true (fun h => by cases h) fun h => absurd hmalloc h.1
  · by_cases hsrc : E.openSrc = 0
    · by_cases hdst : E.openDst (dstMode fwmode) = 0
      · rw [if_neg hmalloc, if_neg (not_not.mpr hsrc), if_neg (not_not.mpr hdst)]
        have hloop := loop_iff (E := E) (copyTotal src totsize) 0 (copyStart totsize cpdsize) fuel
          (copied_opened src)
        rw [← val_copyOpened] at hloop
        refine Iff.trans (imp_congr_right fun hval => ?_)
          (hloop.trans (imp_iff_right ⟨hmalloc, hsrc, hdst⟩).symm)
        rw [dst_copyOpened E src hval]
      · rw [if_neg hmalloc, if_neg (not_not.mpr hsrc), if_pos hdst]
        exact iff_of_true (fun h => absurd (Flow.exit.inj h) hdst) fun h => absurd h.2.2 hdst
    · rw [if_neg hmalloc, if_pos hsrc]
      exact iff_of_true (fun h => absurd (Flow.exit.inj h) hsrc) fun h => absurd h.2.1 hsrc

/-- A volume that is full: the copy of one byte succeeds and holds nothing. -/
theorem file_copy_full_volume :
    let E : Outcomes :=
      ⟨true, true, true, 0, fun _ => 0, fun _ => 0, fun _ => (0, 0), fun _ => 0, 0, 0, []⟩
    (exfunsFileCopy E [0x61] 2 0 0 1).val opened = .exit 0 ∧
      ((exfunsFileCopy E [0x61] 2 0 0 1).state opened).dst ≠ [0x61] :=
  ⟨rfl, fun h => by cases h⟩

end Apollo.Exfuns
