import Apollo.Wav.Decode
import Apollo.Wav.Fill
import Mathlib.Algebra.Group.Int.Defs
import Mathlib.Order.MinMax

/-!
# Playing a WAV file

`wav_play_song` decodes the header into `wavctrl`, opens the file again, goes to the data and
fills the two buffers in turn.  After each fill it scans the keys and shows the playing time,
for which `wav_get_curtime` divides by `bitrate / 8` and by `datasize`.  Both are what the
header says, or what an earlier song has left when the decoder finds no header and returns `0`
all the same.

## Main definitions

* `Song` — the file and what is in memory; `Course` — the answers of the calls.
* `wavGetCurtime`, `wavPlaySong` — the code.
* `NeverDividesByZero` — no course of the song divides by zero.
* `Song.Short` — the file ends before the time is first shown; `Song.HasDivisors` — the header,
  or what `wavctrl` held before, has divisors that are not `0`.
* `neverDividesByZero_iff` — when a song never divides by zero.
-/

namespace Apollo.Wav
open Lib

/-- The file, what the decoder finds of it, and the memory around the decoder's buffer. -/
structure Song where
  content : List UInt8
  opening : Opening
  isPrefix : opening.read <+: content
  mem : ℕ → UInt8

/-- The answers of the calls, numbered from `0`. -/
structure Course where
  /-- The allocations of `file`, `saibuf1`, `saibuf2` and `tbuf`. -/
  file : Bool
  saibuf1 : Bool
  saibuf2 : Bool
  tbuf : Bool
  /-- The result of `f_open`, and whether `f_lseek` succeeds. -/
  fopen : ℕ
  seeks : Bool
  /-- A read that fails stops after so many bytes. -/
  fails : ℕ → Option ℕ
  /-- The target that the DMA has gone on to at each transfer's end. -/
  target : ℕ → Bool
  /-- The transfers that end while the song is paused, by scans. -/
  ends : ℕ → Bool
  /-- What `key_scan` returns. -/
  key : ℕ → ℕ

/-- `g_audiodev`, the file object, `wavctrl` and the flags of the interrupt. -/
structure Player where
  wavctrl : Wavctrl
  saibuf1 : ℕ → UInt8
  saibuf2 : ℕ → UInt8
  tbuf : ℕ → UInt8
  fptr : ℕ
  err : Bool
  status : ℕ
  wavtransferend : Bool
  wavwitchbuf : Bool
  t : ℕ
  led : Bool
  reads : ℕ
  transfers : ℕ
  scans : ℕ
  /-- Some division has been by zero. -/
  zeroDiv : Bool

/-- `WAV_SAI_TX_DMA_BUFSIZE`. -/
def bufsize : ℕ := 8192

/-- `KEY0_PRES`, `KEY2_PRES` and `WKUP_PRES`. -/
abbrev key0Pres : ℕ := 1
abbrev key2Pres : ℕ := 3
abbrev wkupPres : ℕ := 4

variable (S : Song) (E : Course)

/-! ## The calls -/

/-- `f_read`: the bytes up to the end of the file, fewer of them when it fails, and none after
it has failed. -/
def fRead (btr : ℕ) : Prog Player (List UInt8) := do
  let err ← Prog.get fun s => s.err
  if err = true then pure []
  else do
    let failure ← Prog.get fun s => E.fails s.reads
    let rest ← Prog.get fun s => (S.content.drop s.fptr).take btr
    let read := match failure with
      | none => rest
      | some n => rest.take n
    Prog.modify fun s =>
      { s with fptr := s.fptr + read.length, err := failure.isSome, reads := s.reads + 1 }
    pure read

/-- `f_lseek`, which does not leave the file. -/
def fLseek (ofs : ℕ) : Prog Player Unit := Prog.modify fun s =>
  if E.seeks = true then { s with fptr := min ofs S.content.length } else { s with err := true }

/-- `wav_buffill` of the second buffer or the first. -/
def fill (second : Bool) : Prog Player ℕ := do
  let bits ← Prog.get fun s => s.wavctrl.bps % 256
  let read ← fRead S E (requested bufsize bits)
  let b ← Prog.get fun s => Buffers.mk (if second = true then s.saibuf2 else s.saibuf1) s.tbuf
  let b' := (wavBuffill bufsize bits read).state b
  Prog.modify fun s =>
    if second = true then { s with saibuf2 := b'.buf, tbuf := b'.tbuf }
    else { s with saibuf1 := b'.buf, tbuf := b'.tbuf }
  pure ((wavBuffill bufsize bits read).val b)

/-- `wav_sai_dma_tx_callback`, by the target the DMA has gone on to. -/
def wavSaiDmaTxCallback (target : Bool) : Prog Player Unit := do
  Prog.modify fun s =>
    if target = true then
      { s with
        wavwitchbuf := false
        saibuf1 := if s.status % 2 = 0 then overlay s.saibuf1 0 (fun _ => 0) bufsize
          else s.saibuf1 }
    else
      { s with
        wavwitchbuf := true
        saibuf2 := if s.status % 2 = 0 then overlay s.saibuf2 0 (fun _ => 0) bufsize
          else s.saibuf2 }
  Prog.modify fun s => { s with wavtransferend := true, transfers := s.transfers + 1 }

/-! ## The playing time -/

/-- `wav_get_curtime`, for the position `fptr`; nothing when it divides by zero. -/
def wavGetCurtime (fptr : ℕ) (w : Wavctrl) : Option Wavctrl :=
  if w.bitrate / 8 = 0 then none
  else
    let totsec := w.datasize / (w.bitrate / 8)
    let fpos : ℤ := ((fptr : ℤ) - w.datastart).bmod (2 ^ 64)
    if w.datasize = 0 then none
    else some { w with
      totsec := totsec
      cursec := (((fpos * totsec).bmod (2 ^ 64)).tdiv w.datasize % 2 ^ 32).toNat }

/-- The call of `wav_get_curtime` in the loop. -/
def showTime : Prog Player Unit := Prog.modify fun s =>
  match wavGetCurtime s.fptr s.wavctrl with
  | some w => { s with wavctrl := w }
  | none => { s with zeroDiv := true }

/-! ## The loops -/

/-- `WKUP_PRES` pauses the song, or has it go on. -/
def togglePause (key : ℕ) : Prog Player Unit :=
  if key = wkupPres then Prog.modify fun s => { s with status := s.status ^^^ 1 } else pure ()

/-- Every twentieth round toggles the LED. -/
def blink : Prog Player Unit := Prog.modify fun s =>
  if s.t + 1 = 20 then { s with t := 0, led := !s.led } else { s with t := s.t + 1 }

/-- `delay_ms(10)` in a pause, in which a transfer may end. -/
def delayPaused : Prog Player Unit := do
  let comes ← Prog.get fun s => E.ends s.scans
  let target ← Prog.get fun s => E.target s.transfers
  if comes = true then wavSaiDmaTxCallback target else pure ()

/-- The end of a round of the key loop: it goes on in a pause. -/
def endRound : Prog Player (Lib.Flow Unit ℕ) := do
  blink
  let status ← Prog.get fun s => s.status
  if status % 2 = 0 then do
    delayPaused E
    pure (.next ())
  else pure (.exit 0)

/-- One round of the loop that scans the keys: it leaves with a key that ends the song, or with
`0` when the song goes on. -/
def keyRound (_i : ℕ) (_ : Unit) : Prog Player (Lib.Flow Unit ℕ) := do
  let key ← Prog.get fun s => E.key s.scans
  Prog.modify fun s => { s with scans := s.scans + 1 }
  togglePause key
  if key = key2Pres ∨ key = key0Pres then pure (.exit key)
  else do
    showTime
    endRound E

/-- `while (wavtransferend == 0);` -/
def waitTransfer : Prog Player Unit := do
  let ended ← Prog.get fun s => s.wavtransferend
  let target ← Prog.get fun s => E.target s.transfers
  if ended = true then pure () else wavSaiDmaTxCallback target
  Prog.modify fun s => { s with wavtransferend := false }

/-- One round of the playing loop; it leaves with the value of `res`, or with `none` when the
key loop is still running. -/
def playRound (fuel : ℕ) (_i fillnum : ℕ) : Prog Player (Lib.Flow ℕ (Option ℕ)) := do
  waitTransfer E
  if fillnum ≠ bufsize then pure (.exit (some key0Pres))
  else do
    let witch ← Prog.get fun s => s.wavwitchbuf
    let fillnum ← fill S E witch
    let r ← Prog.loop (keyRound E) fuel 0 ()
    match r with
    | .next _ => pure (.exit none)
    | .exit key => if key = 0 then pure (.next fillnum) else pure (.exit (some key))

/-- From the opened file on. -/
def playFile (fuel : ℕ) : Prog Player (Lib.Flow ℕ (Option ℕ)) := do
  let datastart ← Prog.get fun s => s.wavctrl.datastart
  fLseek S E datastart
  let _ ← fill S E false
  let fillnum ← fill S E true
  Prog.modify fun s => { s with status := 3 }
  let r ← Prog.loop (playRound S E fuel) fuel 0 fillnum
  Prog.modify fun s => { s with status := 0 }
  pure r

/-- `wav_decode_init(fname, &wavctrl)`. -/
def decodeSong : Prog Player ℕ := fun s =>
  ((wavDecodeInit S.opening).val ⟨S.mem, s.wavctrl, []⟩,
    { s with wavctrl := ((wavDecodeInit S.opening).state ⟨S.mem, s.wavctrl, []⟩).wavx })

/-- `wav_play_song`, as far as `fuel` rounds of each loop go. -/
def wavPlaySong (fuel : ℕ) : Prog Player (Lib.Flow ℕ (Option ℕ)) :=
  if E.file = true ∧ E.saibuf1 = true ∧ E.saibuf2 = true ∧ E.tbuf = true then do
    let res ← decodeSong S
    if res = 0 then do
      -- the codec and the DMA are set up for `bps` here
      Prog.modify fun s => { s with status := 0, fptr := 0, err := false }
      if E.fopen = 0 then playFile S E fuel else pure (.exit (some 0xFF))
    else pure (.exit (some 0xFF))
  else pure (.exit (some 0xFF))

/-! ## What the parts leave alone -/

/-- What a read that has not failed before brings, and where it leaves the file. -/
theorem fRead_spec (btr : ℕ) (s : Player) :
    ((fRead S E btr).val s).length ≤ min btr (S.content.length - s.fptr) ∧
      ((fRead S E btr).state s).wavctrl = s.wavctrl ∧
      ((fRead S E btr).state s).zeroDiv = s.zeroDiv ∧
      (((fRead S E btr).state s).err = false → s.err = false ∧
        ((fRead S E btr).val s).length = min btr (S.content.length - s.fptr) ∧
        ((fRead S E btr).state s).fptr = s.fptr + ((fRead S E btr).val s).length) ∧
      (s.err = true → ((fRead S E btr).val s).length = 0) := by
  by_cases herr : s.err = true
  · simp [fRead, herr]
  · cases hfail : E.fails s.reads with
    | none => simp [fRead, herr, hfail]
    | some n => simp [fRead, herr, hfail]

section Fill
variable (second : Bool) (s : Player)

/-- The bytes that a fill asks for with these bits. -/
def asked (w : Wavctrl) : ℕ := requested bufsize (w.bps % 256)

theorem asked_pos (w : Wavctrl) : 0 < asked w := by
  rw [asked, requested, bufsize]
  split <;> decide

theorem fill_keeps : ((fill S E second).state s).wavctrl = s.wavctrl ∧
    ((fill S E second).state s).zeroDiv = s.zeroDiv ∧
    ((fill S E second).state s).err = ((fRead S E (asked s.wavctrl)).state s).err ∧
    ((fill S E second).state s).fptr = ((fRead S E (asked s.wavctrl)).state s).fptr := by
  obtain ⟨-, hctrl, hdiv, -, -⟩ := fRead_spec S E (asked s.wavctrl) s
  cases second <;> exact ⟨hctrl, hdiv, rfl, rfl⟩

/-- A fill returns the size of the buffer exactly if all is delivered that it asks for. -/
theorem val_fill : (fill S E second).val s = bufsize ↔
    ((fRead S E (asked s.wavctrl)).val s).length = asked s.wavctrl := by
  have hle := Nat.le_trans (fRead_spec S E (asked s.wavctrl) s).1 (Nat.min_le_left _ _)
  simp only [fill, Prog.val_bind, Prog.val_get, Prog.state_get, Prog.val_pure]
  change (wavBuffill bufsize (s.wavctrl.bps % 256) ((fRead S E (asked s.wavctrl)).val s)).val _ =
    bufsize ↔ _
  by_cases hbits : s.wavctrl.bps % 256 = 24
  · have hasked : asked s.wavctrl = 6144 := by rw [asked, requested, if_pos hbits, bufsize]
    rw [hasked] at hle ⊢
    rw [hbits, val_wavBuffill_wide (by rw [bufsize]; omega) (by decide), bufsize]
    omega
  · have hasked : asked s.wavctrl = 8192 := by rw [asked, requested, if_neg hbits, bufsize]
    rw [val_wavBuffill_narrow hbits, hasked, bufsize]

/-- After a fill without a failure the file has gone on by what was there, up to a buffer. -/
theorem fill_next (h : ((fill S E second).state s).err = false) : s.err = false ∧
    ((fill S E second).state s).fptr =
      s.fptr + min (asked s.wavctrl) (S.content.length - s.fptr) := by
  obtain ⟨-, -, herr, hfptr⟩ := fill_keeps S E second s
  obtain ⟨-, -, -, hnext, -⟩ := fRead_spec S E (asked s.wavctrl) s
  obtain ⟨hs, hlen, hpos⟩ := hnext (herr ▸ h)
  exact ⟨hs, by rw [hfptr, hpos, hlen]⟩

/-- A full buffer has been in the file. -/
theorem fill_full (h : (fill S E second).val s = bufsize) :
    s.err = false ∧ s.fptr + asked s.wavctrl ≤ S.content.length := by
  have hpos := asked_pos s.wavctrl
  have hlen := (val_fill S E second s).mp h
  obtain ⟨hle, -, -, -, hnone⟩ := fRead_spec S E (asked s.wavctrl) s
  refine ⟨?_, by omega⟩
  by_contra herr
  rw [hnone (by simpa using herr)] at hlen
  omega

/-- Without failures a fill takes what is there. -/
theorem fill_of_no_failure (hE : ∀ n, E.fails n = none) (herr : s.err = false) :
    ((fill S E second).state s).err = false ∧
      ((fRead S E (asked s.wavctrl)).val s).length =
        min (asked s.wavctrl) (S.content.length - s.fptr) := by
  have hread : ((fRead S E (asked s.wavctrl)).state s).err = false := by
    simp [fRead, herr, hE]
  obtain ⟨-, -, -, hnext, -⟩ := fRead_spec S E (asked s.wavctrl) s
  exact ⟨(fill_keeps S E second s).2.2.1.trans hread, (hnext hread).2.1⟩

end Fill

/-! ## Divisors -/

/-- The divisors of `wav_get_curtime` are not `0`. -/
def Timed (w : Wavctrl) : Prop := w.bitrate / 8 ≠ 0 ∧ w.datasize ≠ 0

theorem wavGetCurtime_eq_none {fptr : ℕ} {w : Wavctrl} :
    wavGetCurtime fptr w = none ↔ ¬ Timed w := by
  rw [wavGetCurtime, Timed]
  split
  · simp [*]
  · split <;> simp [*]

/-- The divisors stay what they are. -/
theorem timed_of_wavGetCurtime {fptr : ℕ} {w w' : Wavctrl} (h : wavGetCurtime fptr w = some w') :
    Timed w' ↔ Timed w := by
  rw [wavGetCurtime] at h
  split at h
  · cases h
  · split at h
    · cases h
    · cases h
      exact Iff.rfl

/-- Nothing has been divided by zero, and nothing will be. -/
def OnTime (s : Player) : Prop := Timed s.wavctrl ∧ s.zeroDiv = false

/-- Something has been divided by zero. -/
def Divided (s : Player) : Prop := s.zeroDiv = true

/-- What keeps the divisors and the record keeps either. -/
structure KeepsTime {α : Type} (p : Prog Player α) : Prop where
  wavctrl : ∀ s, (p.state s).wavctrl = s.wavctrl
  zeroDiv : ∀ s, (p.state s).zeroDiv = s.zeroDiv

section KeepsTime
variable {α : Type} {p : Prog Player α}

theorem KeepsTime.onTime (h : KeepsTime p) : Prog.Maintains OnTime p := fun s hs =>
  ⟨(h.wavctrl s).symm ▸ hs.1, (h.zeroDiv s).trans hs.2⟩

theorem KeepsTime.divided (h : KeepsTime p) : Prog.Maintains Divided p := fun s hs =>
  (h.zeroDiv s).trans hs

theorem keepsTime_fill (second : Bool) : KeepsTime (fill S E second) :=
  ⟨fun s => (fill_keeps S E second s).1, fun s => (fill_keeps S E second s).2.1⟩

theorem keepsTime_callback (target : Bool) : KeepsTime (wavSaiDmaTxCallback target) := by
  cases target <;> exact ⟨fun _ => rfl, fun _ => rfl⟩

theorem keepsTime_waitTransfer : KeepsTime (waitTransfer E) := by
  refine ⟨fun s => ?_, fun s => ?_⟩ <;>
    simp only [waitTransfer, Prog.state_bind, Prog.state_get, Prog.val_get, Prog.state_ite,
      Prog.state_modify] <;>
    split <;> simp [(keepsTime_callback _).wavctrl, (keepsTime_callback _).zeroDiv]

theorem keepsTime_fLseek (ofs : ℕ) : KeepsTime (fLseek S E ofs) := by
  refine ⟨fun s => ?_, fun s => ?_⟩ <;> simp only [fLseek, Prog.state_modify] <;> split <;> rfl

end KeepsTime

theorem keepsTime_togglePause (key : ℕ) : KeepsTime (togglePause key) := by
  refine ⟨fun s => ?_, fun s => ?_⟩ <;> rw [togglePause] <;> split <;> rfl

theorem keepsTime_blink : KeepsTime blink := by
  refine ⟨fun s => ?_, fun s => ?_⟩ <;> simp only [blink, Prog.state_modify] <;> split <;> rfl

theorem keepsTime_delayPaused : KeepsTime (delayPaused E) := by
  refine ⟨fun s => ?_, fun s => ?_⟩ <;>
    simp only [delayPaused, Prog.state_bind, Prog.state_get, Prog.val_get, Prog.state_ite] <;>
    split <;> simp [(keepsTime_callback _).wavctrl, (keepsTime_callback _).zeroDiv]

theorem onTime_showTime : Prog.Maintains OnTime showTime := by
  intro s hs
  cases h : wavGetCurtime s.fptr s.wavctrl with
  | none => exact absurd hs.1 (wavGetCurtime_eq_none.mp h)
  | some w =>
      simp only [showTime, Prog.state_modify, h]
      exact ⟨(timed_of_wavGetCurtime h).mpr hs.1, hs.2⟩

section Rounds
variable {I : Player → Prop}
  (hkeep : ∀ {α : Type} {p : Prog Player α}, KeepsTime p → p.Maintains I)
  (hshow : showTime.Maintains I)
include hkeep

theorem maintains_endRound : (endRound E).Maintains I :=
  .bind (hkeep keepsTime_blink) fun _ => .bind (.get _) fun _ =>
    .ite _ (.bind (hkeep (keepsTime_delayPaused E)) fun _ => .pure _) (.pure _)

include hshow

/-- What the calls and the display maintain every round maintains. -/
theorem maintains_keyRound (i : ℕ) (u : Unit) : (keyRound E i u).Maintains I :=
  .bind (.get _) fun key => .bind (hkeep ⟨fun _ => rfl, fun _ => rfl⟩) fun _ =>
    .bind (hkeep (keepsTime_togglePause key)) fun _ => .ite _ (.pure _) <|
      .bind hshow fun _ => maintains_endRound E hkeep

theorem maintains_playRound (fuel i fillnum : ℕ) : (playRound S E fuel i fillnum).Maintains I := by
  refine .bind (hkeep (keepsTime_waitTransfer E)) fun _ => .ite _ (.pure _) ?_
  refine .bind (.get _) fun witch => .bind (hkeep (keepsTime_fill S E witch)) fun fillnum' => ?_
  refine .bind (.loop (maintains_keyRound E hkeep hshow) fuel 0 ()) fun r => ?_
  cases r with
  | next _ => exact .pure _
  | exit key => exact .ite _ (.pure _) (.pure _)

theorem maintains_playFile (fuel : ℕ) : (playFile S E fuel).Maintains I := by
  refine .bind (.get _) fun datastart => .bind (hkeep (keepsTime_fLseek S E datastart)) fun _ => ?_
  refine .bind (hkeep (keepsTime_fill S E false)) fun _ =>
    .bind (hkeep (keepsTime_fill S E true)) fun fillnum => ?_
  exact .bind (hkeep ⟨fun _ => rfl, fun _ => rfl⟩) fun _ =>
    .bind (.loop (maintains_playRound S E hkeep hshow fuel) fuel 0 fillnum) fun _ =>
      .bind (hkeep ⟨fun _ => rfl, fun _ => rfl⟩) fun _ => .pure _

end Rounds

/-! ## When a song is safe -/

/-- No course of the song divides by zero. -/
def NeverDividesByZero (s : Player) : Prop :=
  ∀ E fuel, ((wavPlaySong S E fuel).state { s with zeroDiv := false }).zeroDiv = false

namespace Song

/-- The buffer of the decoder after its `f_read`. -/
def header : ℕ → UInt8 := S.opening.buffer S.mem

/-- The decoder reads the header, and takes it. -/
def Parsed : Prop :=
  (S.opening.ftemp = true ∧ S.opening.buf = true ∧ S.opening.fopen = 0) ∧ Parses S.header

/-- The decoder reads the header of a WAVE file. -/
def IsWave : Prop :=
  (S.opening.ftemp = true ∧ S.opening.buf = true ∧ S.opening.fopen = 0) ∧
    le32 S.header 8 = 0x45564157

instance : Decidable S.Parsed := inferInstanceAs (Decidable (_ ∧ _))
instance : Decidable S.IsWave := inferInstanceAs (Decidable (_ ∧ _))

/-- Where the song begins, for what `wavctrl` held before. -/
def start (w : Wavctrl) : ℕ :=
  if S.Parsed then (dataAt S.header + 8) % 2 ^ 32
  else if S.IsWave then dataAt S.header else w.datastart

/-- The width of the samples, as `wav_buffill` gets it. -/
def bits (w : Wavctrl) : ℕ := (if S.Parsed then le16 S.header 34 else w.bps) % 256

/-- The file does not fill the two buffers, and the time is not shown. -/
def Short (w : Wavctrl) : Prop :=
  S.content.length < S.start w + 2 * requested bufsize (S.bits w)

/-- The header has a byte rate that is not `0` modulo `2 ^ 29` and a data size that is not `0`;
or the decoder has taken no header, and what `wavctrl` held before will do. -/
def HasDivisors (w : Wavctrl) : Prop :=
  if S.Parsed then le32 S.header 28 % 2 ^ 29 ≠ 0 ∧ le32 S.header (dataAt S.header + 4) ≠ 0
  else w.bitrate / 8 ≠ 0 ∧ w.datasize ≠ 0

/-- `wavctrl` after `wav_decode_init`. -/
def decoded (w : Wavctrl) : Wavctrl := ((wavDecodeInit S.opening).state ⟨S.mem, w, []⟩).wavx

theorem decoded_of_parsed {w : Wavctrl} (h : S.Parsed) : S.decoded w = w.filled S.header := by
  rw [decoded, state_wavDecodeInit, if_pos h.1]
  exact if_pos h.2

theorem decoded_of_not_parsed {w : Wavctrl} (h : ¬ S.Parsed) :
    S.decoded w = { w with datastart := S.start w } := by
  rw [start, if_neg h, decoded, state_wavDecodeInit]
  by_cases hopens : S.opening.ftemp = true ∧ S.opening.buf = true ∧ S.opening.fopen = 0
  · rw [if_pos hopens]
    have hparses : ¬ Parses S.header := fun hp => h ⟨hopens, hp⟩
    change w.decoded S.header = _
    rw [Wavctrl.decoded, if_neg hparses]
    by_cases hwave : le32 S.header 8 = 0x45564157
    · rw [if_pos hwave, if_pos ⟨hopens, hwave⟩]
    · rw [if_neg hwave, if_neg fun hw => hwave hw.2]
  · rw [if_neg hopens, if_neg fun hw => hopens hw.1]

theorem datastart_decoded (w : Wavctrl) : (S.decoded w).datastart = S.start w := by
  by_cases h : S.Parsed
  · rw [S.decoded_of_parsed h, start, if_pos h, Wavctrl.filled]
  · rw [S.decoded_of_not_parsed h]

theorem asked_decoded (w : Wavctrl) : asked (S.decoded w) = requested bufsize (S.bits w) := by
  by_cases h : S.Parsed
  · rw [S.decoded_of_parsed h, bits, if_pos h, asked, Wavctrl.filled]
  · rw [S.decoded_of_not_parsed h, bits, if_neg h, asked]

theorem timed_decoded (w : Wavctrl) : Timed (S.decoded w) ↔ S.HasDivisors w := by
  by_cases h : S.Parsed
  · rw [S.decoded_of_parsed h, HasDivisors, if_pos h, Timed, Wavctrl.filled]
    refine and_congr_left fun _ => ?_
    dsimp only
    omega
  · rw [S.decoded_of_not_parsed h, HasDivisors, if_neg h, Timed]

end Song

/-- The song after the file has been opened. -/
def opened (s : Player) : Player :=
  { s with
    wavctrl := S.decoded s.wavctrl, zeroDiv := false, status := 0, fptr := 0, err := false }

/-- A song divides by zero only behind `f_open`. -/
theorem zeroDiv_wavPlaySong (fuel : ℕ) (s : Player) :
    ((wavPlaySong S E fuel).state { s with zeroDiv := false }).zeroDiv =
      if (E.file = true ∧ E.saibuf1 = true ∧ E.saibuf2 = true ∧ E.tbuf = true) ∧ E.fopen = 0 then
        ((playFile S E fuel).state (opened S s)).zeroDiv
      else false := by
  have hval : (decodeSong S).val { s with zeroDiv := false } = 0 := rfl
  by_cases halloc : E.file = true ∧ E.saibuf1 = true ∧ E.saibuf2 = true ∧ E.tbuf = true
  · rw [wavPlaySong, if_pos halloc]
    simp only [Prog.state_bind, hval, if_true, Prog.state_modify]
    by_cases hopen : E.fopen = 0
    · rw [if_pos hopen, if_pos ⟨halloc, hopen⟩]
      rfl
    · rw [if_neg hopen, if_neg fun h => hopen h.2]
      rfl
  · rw [if_neg fun h => halloc h.1, wavPlaySong, if_neg halloc]
    rfl

/-! ### Songs that are safe -/

/-- Divisors that are not `0` stay so. -/
theorem onTime_playFile (fuel : ℕ) : (playFile S E fuel).Maintains OnTime :=
  maintains_playFile S E KeepsTime.onTime onTime_showTime fuel

/-- The song when the first buffer has been filled. -/
def firstFilled (s : Player) : Player :=
  (fill S E false).state ((fLseek S E s.wavctrl.datastart).state s)

theorem wavctrl_firstFilled (s : Player) : (firstFilled S E s).wavctrl = s.wavctrl :=
  ((keepsTime_fill S E false).wavctrl _).trans ((keepsTime_fLseek S E _).wavctrl s)

theorem zeroDiv_playFile (fuel : ℕ) (s : Player) : ((playFile S E fuel).state s).zeroDiv =
    ((Prog.loop (playRound S E fuel) fuel 0 ((fill S E true).val (firstFilled S E s))).state
      { (fill S E true).state (firstFilled S E s) with status := 3 }).zeroDiv := rfl

/-- A second buffer that has been filled to the end has been in the file, behind the first. -/
theorem le_of_second_full {s : Player}
    (h : (fill S E true).val (firstFilled S E s) = bufsize) :
    s.wavctrl.datastart + 2 * asked s.wavctrl ≤ S.content.length := by
  have hpos := asked_pos s.wavctrl
  obtain ⟨herr, hfull⟩ := fill_full S E true _ h
  rw [wavctrl_firstFilled] at hfull
  obtain ⟨herr', hnext⟩ := fill_next S E false _ herr
  rw [(keepsTime_fLseek S E _).wavctrl] at hnext
  change (firstFilled S E s).fptr = _ at hnext
  by_cases hseeks : E.seeks = true
  · simp only [fLseek, Prog.state_modify, hseeks, if_true] at hnext
    omega
  · simp only [fLseek, Prog.state_modify, hseeks] at herr'
    cases herr'

/-- A song whose second buffer is not filled never shows the time. -/
theorem zeroDiv_of_short {fuel : ℕ} {s : Player} (hs : s.zeroDiv = false)
    (h : S.content.length < s.wavctrl.datastart + 2 * asked s.wavctrl) :
    ((playFile S E fuel).state s).zeroDiv = false := by
  have hfill : (fill S E true).val (firstFilled S E s) ≠ bufsize := fun hfull =>
    absurd (le_of_second_full S E hfull) (by omega)
  have hdiv : ((fill S E true).state (firstFilled S E s)).zeroDiv = false := by
    rw [(keepsTime_fill S E true).zeroDiv, firstFilled, (keepsTime_fill S E false).zeroDiv,
      (keepsTime_fLseek S E _).zeroDiv, hs]
  rw [zeroDiv_playFile]
  cases fuel with
  | zero => exact hdiv
  | succ fuel =>
      -- the first round ends the song
      have hround : ∀ t : Player, playRound S E (fuel + 1) 0
          ((fill S E true).val (firstFilled S E s)) t =
            (.exit (some key0Pres), (waitTransfer E).state t) := by
        intro t
        rw [playRound, if_pos hfill]
        rfl
      rw [Prog.state_loop_exit _ (congrArg Prod.fst (hround _)), Prog.state, hround]
      exact ((keepsTime_waitTransfer E).zeroDiv _).trans hdiv

/-! ### Songs that are not -/

/-- A course in which all goes well and no key is pressed. -/
def smooth : Course where
  file := true
  saibuf1 := true
  saibuf2 := true
  tbuf := true
  fopen := 0
  seeks := true
  fails _ := none
  target _ := false
  ends _ := false
  key _ := 0

/-- With a divisor that is `0` the scan of the keys divides by it. -/
theorem divided_keyRound {s : Player} (h : ¬ Timed s.wavctrl) (i : ℕ) :
    Divided ((keyRound smooth i ()).state s) := by
  have hround : (keyRound smooth i ()).state s =
      (endRound smooth).state (showTime.state { s with scans := s.scans + 1 }) := rfl
  rw [hround]
  refine maintains_endRound smooth KeepsTime.divided _ ?_
  have hnone : wavGetCurtime s.fptr s.wavctrl = none := wavGetCurtime_eq_none.mpr h
  simp only [Divided, showTime, Prog.state_modify, hnone]

/-- So does a round of the playing loop whose buffer has been filled. -/
theorem divided_playRound {s : Player} (h : ¬ Timed s.wavctrl) (i : ℕ) :
    Divided ((playRound S smooth 1 i bufsize).state s) := by
  set s₁ := (waitTransfer smooth).state s with hs₁
  set s₂ := (fill S smooth s₁.wavwitchbuf).state s₁ with hs₂
  have hctrl : s₂.wavctrl = s.wavctrl :=
    ((keepsTime_fill S smooth _).wavctrl s₁).trans ((keepsTime_waitTransfer smooth).wavctrl s)
  have hkeys : Divided ((Prog.loop (keyRound smooth) 1 0 ()).state s₂) := by
    rw [Prog.state_loop_one]
    exact divided_keyRound (hctrl ▸ h) 0
  have hrun : (playRound S smooth 1 i bufsize).state s =
      (match (Prog.loop (keyRound smooth) 1 0 ()).val s₂ with
        | .next _ => (pure (.exit none) : Prog Player (Lib.Flow ℕ (Option ℕ)))
        | .exit key => if key = 0 then pure (.next ((fill S smooth s₁.wavwitchbuf).val s₁))
          else pure (.exit (some key))).state
        ((Prog.loop (keyRound smooth) 1 0 ()).state s₂) := by
    rw [playRound, if_neg (by decide)]
    rfl
  rw [hrun]
  split
  · exact hkeys
  · rw [Prog.state_ite]
    split <;> exact hkeys

/-- Where the file fills both buffers and a divisor is `0`, the smooth course divides by it. -/
theorem divided_playFile {s : Player} (hs : s.err = false) (h : ¬ Timed s.wavctrl)
    (hlen : s.wavctrl.datastart + 2 * asked s.wavctrl ≤ S.content.length) :
    Divided ((playFile S smooth 1).state s) := by
  set s₁ := (fLseek S smooth s.wavctrl.datastart).state s with hs₁
  have hseek : s₁ = { s with fptr := min s.wavctrl.datastart S.content.length } := rfl
  have hctrl : (firstFilled S smooth s).wavctrl = s.wavctrl := wavctrl_firstFilled S smooth s
  obtain ⟨herr, -⟩ := fill_of_no_failure S smooth false s₁ (fun _ => rfl) hs
  have hnext : (firstFilled S smooth s).fptr = s.wavctrl.datastart + asked s.wavctrl := by
    obtain ⟨-, hfptr⟩ := fill_next S smooth false s₁ herr
    change (firstFilled S smooth s).fptr = _ at hfptr
    rw [hfptr, hseek]
    dsimp only
    omega
  obtain ⟨-, hread⟩ := fill_of_no_failure S smooth true (firstFilled S smooth s) (fun _ => rfl) herr
  have hfull : (fill S smooth true).val (firstFilled S smooth s) = bufsize := by
    rw [val_fill, hread, hnext, hctrl]
    omega
  have hround := divided_playRound S (i := 0)
    (s := { (fill S smooth true).state (firstFilled S smooth s) with status := 3 })
    (by rwa [(keepsTime_fill S smooth true).wavctrl, hctrl])
  rwa [Divided, zeroDiv_playFile, hfull, Prog.state_loop_one]

/-- A song that is long enough, with a divisor that is `0`, does divide by it. -/
theorem not_neverDividesByZero {s : Player} (hshort : ¬ S.Short s.wavctrl)
    (hdiv : ¬ S.HasDivisors s.wavctrl) : ¬ NeverDividesByZero S s := by
  intro h
  rw [← S.timed_decoded] at hdiv
  rw [Song.Short, ← S.datastart_decoded, ← S.asked_decoded] at hshort
  have hdivided : Divided ((playFile S smooth 1).state (opened S s)) :=
    divided_playFile S rfl hdiv (Nat.le_of_not_lt hshort)
  have hsafe := h smooth 1
  rw [zeroDiv_wavPlaySong, if_pos (by decide), hdivided] at hsafe
  cases hsafe

/-- A song never divides by zero exactly if it is too short for the time to be shown, or neither
divisor is `0`: of the header, where there is one, else of what an earlier song has left. -/
theorem neverDividesByZero_iff (s : Player) :
    NeverDividesByZero S s ↔ S.Short s.wavctrl ∨ S.HasDivisors s.wavctrl := by
  constructor
  · intro h
    by_contra hno
    rw [not_or] at hno
    exact not_neverDividesByZero S hno.1 hno.2 h
  · intro h E fuel
    rw [zeroDiv_wavPlaySong]
    split
    · rcases h with hshort | hdiv
      · refine zeroDiv_of_short S E rfl ?_
        rwa [Song.Short, ← S.datastart_decoded, ← S.asked_decoded] at hshort
      · exact (onTime_playFile S E fuel (opened S s) ⟨(S.timed_decoded _).mpr hdiv, rfl⟩).2
    · rfl

/-- A header for stereo samples of 16 bits whose byte rate is `0`. -/
def rateless : List UInt8 :=
  [0x52, 0x49, 0x46, 0x46, 0x24, 0x40, 0, 0, 0x57, 0x41, 0x56, 0x45,
    0x66, 0x6D, 0x74, 0x20, 16, 0, 0, 0, 1, 0, 2, 0, 0x44, 0xAC, 0, 0, 0, 0, 0, 0, 4, 0, 16, 0,
    0x64, 0x61, 0x74, 0x61, 0, 0x40, 0, 0]

/-- Two buffers of silence behind such a header. -/
def ratelessSong : Song where
  content := rateless ++ List.replicate 16384 0
  opening := ⟨true, true, 0, rateless, by decide⟩
  isPrefix := List.prefix_append _ _
  mem _ := 0

/-- The player at power on. -/
def silentPlayer : Player where
  wavctrl := .blank 0
  saibuf1 _ := 0
  saibuf2 _ := 0
  tbuf _ := 0
  fptr := 0
  err := false
  status := 0
  wavtransferend := false
  wavwitchbuf := false
  t := 0
  led := false
  reads := 0
  transfers := 0
  scans := 0
  zeroDiv := false

/-- The decoder takes a header without a byte rate, and the song divides by it. -/
theorem neverDividesByZero_rateless :
    ¬ ∀ (S : Song) (s : Player), (decodeSong S).val s = 0 → NeverDividesByZero S s := by
  intro h
  have hparsed : ratelessSong.Parsed := by decide +kernel
  refine not_neverDividesByZero ratelessSong ?_ ?_ (h ratelessSong silentPlayer rfl)
  · have hstart : ratelessSong.start (silentPlayer.wavctrl) = 44 := by decide +kernel
    have hbits : ratelessSong.bits (silentPlayer.wavctrl) = 16 := by decide +kernel
    have hlen : ratelessSong.content.length = rateless.length + 16384 := by
      rw [ratelessSong, List.length_append, List.length_replicate]
    rw [Song.Short, hstart, hbits, hlen]
    decide
  · rw [Song.HasDivisors, if_pos hparsed]
    intro hrate
    exact hrate.1 (by decide +kernel)

end Apollo.Wav
