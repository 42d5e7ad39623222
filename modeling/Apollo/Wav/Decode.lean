import Apollo.Lib.Overlay
import Apollo.Lib.Prog
import Mathlib.Algebra.GroupWithZero.Nat

/-!
# The header of a WAV file

`wav_decode_init` reads up to 512 bytes into a buffer and follows the sizes it finds there:
from the format chunk to the next one, and over that one if it is a `fact` or `LIST` chunk.
Neither offset is checked, the additions wrap, the bytes past a short read are what the
buffer held before, and the result is `0` whatever has been found.

## Main definitions

* `Opening` — the outcomes of the allocations and calls; `Decoding` — the memory around the
  buffer, `wavx`, and the offsets that have been read.
* `wavDecodeInit` — the code.
* `ChunkAt`, `DataChunk` — the chunks of a file.
* `DecodesSafely` — reads in the buffer, and `0` only for a file with a data chunk.
* `decodesSafely_iff` — the files for which this is so.
-/

namespace Apollo.Wav
open Lib

/-- `__wavctrl`. -/
structure Wavctrl where
  audioformat : ℕ
  nchannels : ℕ
  blockalign : ℕ
  datasize : ℕ
  totsec : ℕ
  cursec : ℕ
  bitrate : ℕ
  samplerate : ℕ
  bps : ℕ
  datastart : ℕ

/-- A structure that holds nothing but a data size. -/
def Wavctrl.blank (datasize : ℕ) : Wavctrl := ⟨0, 0, 0, datasize, 0, 0, 0, 0, 0, 0⟩

/-- What `wav_decode_init` meets: the allocations of `ftemp` and `buf`, the result of `f_open`,
and the bytes that `f_read` delivers. -/
structure Opening where
  ftemp : Bool
  buf : Bool
  fopen : ℕ
  read : List UInt8
  read_le : read.length ≤ 512

/-- The memory from `buf` on, around the end of the address space; `wavx`; and the offsets
from `buf` that have been read. -/
structure Decoding where
  mem : ℕ → UInt8
  wavx : Wavctrl
  reads : List ℕ

/-! ## Fields -/

/-- The 16-bit number at an offset. -/
def le16 (m : ℕ → UInt8) (o : ℕ) : ℕ :=
  (m (o % 2 ^ 32)).toNat + 256 * (m ((o + 1) % 2 ^ 32)).toNat

/-- The 32-bit number at an offset. -/
def le32 (m : ℕ → UInt8) (o : ℕ) : ℕ := le16 m o + 65536 * le16 m (o + 2)

/-- The offsets of `n` bytes. -/
def bytesAt (o n : ℕ) : List ℕ := (List.range n).map fun i => (o + i) % 2 ^ 32

/-- Read a `uint16_t` field. -/
def half (o : ℕ) : Prog Decoding ℕ := fun s =>
  (le16 s.mem o, { s with reads := s.reads ++ bytesAt o 2 })

/-- Read a `uint32_t` field. -/
def word (o : ℕ) : Prog Decoding ℕ := fun s =>
  (le32 s.mem o, { s with reads := s.reads ++ bytesAt o 4 })

section Fields
variable (o : ℕ) (s : Decoding)

@[simp] theorem val_half : (half o).val s = le16 s.mem o := (rfl)
@[simp] theorem state_half : (half o).state s = { s with reads := s.reads ++ bytesAt o 2 } := (rfl)
@[simp] theorem val_word : (word o).val s = le32 s.mem o := (rfl)
@[simp] theorem state_word : (word o).state s = { s with reads := s.reads ++ bytesAt o 4 } := (rfl)

end Fields

/-! ## The decoder -/

/-- Set `wavx->datastart`, from the chunk behind the format chunk. -/
def findData : Prog Decoding Unit := do
  let chunkSize ← word 16
  let fact := (12 + 8 + chunkSize) % 2 ^ 32
  let id ← word fact
  if id = 0x74636166 ∨ id = 0x5453494C then do
    let size ← word (fact + 4)
    Prog.modify fun s =>
      { s with wavx := { s.wavx with datastart := (12 + 8 + chunkSize + 8 + size) % 2 ^ 32 } }
  else
    Prog.modify fun s =>
      { s with wavx := { s.wavx with datastart := (12 + 8 + chunkSize) % 2 ^ 32 } }

/-- Take the fields over, for the data chunk at `data`. -/
def takeFields (data : ℕ) : Prog Decoding Unit := do
  let audioFormat ← half 20
  let numOfChannels ← half 22
  let sampleRate ← word 24
  let byteRate ← word 28
  let blockAlign ← half 32
  let bitsPerSample ← half 34
  let chunkSize ← word (data + 4)
  Prog.modify fun s =>
    { s with wavx := { s.wavx with
        audioformat := audioFormat
        nchannels := numOfChannels
        samplerate := sampleRate
        bitrate := byteRate * 8 % 2 ^ 32
        blockalign := blockAlign
        bps := bitsPerSample
        datasize := chunkSize
        datastart := (data + 8) % 2 ^ 32 } }

/-- The part of `wav_decode_init` behind `f_read`, with the value of `res`. -/
def decodeHeader : Prog Decoding ℕ := do
  let format ← word 8
  if format = 0x45564157 then do
    findData
    let data ← Prog.get fun s => s.wavx.datastart
    let id ← word data
    if id = 0x61746164 then do
      takeFields data
      pure 0
    else pure 3
  else pure 2

/-- Open the file, read its first bytes and decode them; the value of `res`. -/
def openAndDecode (e : Opening) : Prog Decoding ℕ :=
  if e.ftemp = true ∧ e.buf = true then
    if e.fopen = 0 then do
      Prog.modify fun s =>
        { s with mem := overlay s.mem 0 (fun i => e.read.getD i 0) e.read.length }
      decodeHeader
    else pure 1
  else pure 0

/-- The result does not tell what `res` says. -/
def wavDecodeInit (e : Opening) : Prog Decoding ℕ := do
  let _res ← openAndDecode e
  pure 0

/-! ## What the decoder does -/

/-- The offset behind the format chunk. -/
def factAt (m : ℕ → UInt8) : ℕ := (20 + le32 m 16) % 2 ^ 32

/-- The next chunk is a `fact` or a `LIST` chunk. -/
def Skips (m : ℕ → UInt8) : Prop :=
  le32 m (factAt m) = 0x74636166 ∨ le32 m (factAt m) = 0x5453494C

instance (m : ℕ → UInt8) : Decidable (Skips m) := inferInstanceAs (Decidable (_ ∨ _))

/-- Where the decoder looks for the data chunk. -/
def dataAt (m : ℕ → UInt8) : ℕ :=
  if Skips m then (28 + le32 m 16 + le32 m (factAt m + 4)) % 2 ^ 32 else factAt m

/-- The fields of a header with its data chunk at `dataAt`. -/
def Wavctrl.filled (w : Wavctrl) (m : ℕ → UInt8) : Wavctrl :=
  { w with
    audioformat := le16 m 20
    nchannels := le16 m 22
    samplerate := le32 m 24
    bitrate := le32 m 28 * 8 % 2 ^ 32
    blockalign := le16 m 32
    bps := le16 m 34
    datasize := le32 m (dataAt m + 4)
    datastart := (dataAt m + 8) % 2 ^ 32 }

/-- A header is taken when the format and the id at `dataAt` are right. -/
def Parses (m : ℕ → UInt8) : Prop := le32 m 8 = 0x45564157 ∧ le32 m (dataAt m) = 0x61746164

instance (m : ℕ → UInt8) : Decidable (Parses m) := inferInstanceAs (Decidable (_ ∧ _))

/-- What the decoder makes of `wavx`. -/
def Wavctrl.decoded (w : Wavctrl) (m : ℕ → UInt8) : Wavctrl :=
  if Parses m then w.filled m
  else if le32 m 8 = 0x45564157 then { w with datastart := dataAt m } else w

/-- The offsets of the fields the decoder reads. -/
def headerReads (m : ℕ → UInt8) : List ℕ :=
  bytesAt 8 4 ++
    if le32 m 8 = 0x45564157 then
      bytesAt 16 4 ++ bytesAt (factAt m) 4 ++
        (if Skips m then bytesAt (factAt m + 4) 4 else []) ++ bytesAt (dataAt m) 4 ++
        if Parses m then bytesAt 20 2 ++ bytesAt 22 2 ++ bytesAt 24 4 ++ bytesAt 28 4 ++
          bytesAt 32 2 ++ bytesAt 34 2 ++ bytesAt (dataAt m + 4) 4 else []
    else []

theorem state_findData (s : Decoding) : findData.state s =
    { s with
      wavx := { s.wavx with datastart := dataAt s.mem }
      reads := s.reads ++ (bytesAt 16 4 ++ bytesAt (factAt s.mem) 4 ++
        if Skips s.mem then bytesAt (factAt s.mem + 4) 4 else []) } := by
  by_cases hskip : Skips s.mem
  · have hid : le32 s.mem ((12 + 8 + le32 s.mem 16) % 2 ^ 32) = 0x74636166 ∨
        le32 s.mem ((12 + 8 + le32 s.mem 16) % 2 ^ 32) = 0x5453494C := hskip
    simp only [findData, Prog.state_bind, val_word, state_word, hid, if_true,
      Prog.state_modify, hskip, dataAt, factAt, List.append_assoc]
    congr 3
    rw [show 12 + 8 + le32 s.mem 16 + 8 = 28 + le32 s.mem 16 by omega]
  · have hid : ¬ (le32 s.mem ((12 + 8 + le32 s.mem 16) % 2 ^ 32) = 0x74636166 ∨
        le32 s.mem ((12 + 8 + le32 s.mem 16) % 2 ^ 32) = 0x5453494C) := hskip
    simp only [findData, Prog.state_bind, val_word, state_word, hid, if_false,
      Prog.state_modify, hskip, dataAt, factAt, List.append_assoc, List.append_nil]

/-- The header as it stands in the buffer decides all that the decoder does. -/
theorem state_decodeHeader (s : Decoding) : decodeHeader.state s =
    { s with wavx := s.wavx.decoded s.mem, reads := s.reads ++ headerReads s.mem } := by
  by_cases hwave : le32 s.mem 8 = 0x45564157
  · by_cases hdata : le32 s.mem (dataAt s.mem) = 0x61746164
    · have hparses : Parses s.mem := ⟨hwave, hdata⟩
      simp only [decodeHeader, Prog.state_bind, val_word, state_word, hwave,
        if_true, state_findData, Prog.val_get, Prog.state_get, hdata, takeFields, val_half,
        state_half, Prog.state_modify, Prog.state_pure, Wavctrl.decoded, hparses, Wavctrl.filled,
        headerReads, List.append_assoc]
    · have hparses : ¬ Parses s.mem := fun h => hdata h.2
      simp only [decodeHeader, Prog.state_bind, val_word, state_word, hwave,
        if_true, state_findData, Prog.val_get, Prog.state_get, hdata, if_false, Prog.state_pure,
        Wavctrl.decoded, hparses, headerReads, List.append_assoc, List.append_nil]
  · have hparses : ¬ Parses s.mem := fun h => hwave h.1
    simp only [decodeHeader, Prog.state_bind, val_word, state_word, hwave,
      if_false, Prog.state_pure, Wavctrl.decoded, hparses, headerReads, List.append_nil]

/-- The buffer after `f_read`. -/
def Opening.buffer (e : Opening) (mem : ℕ → UInt8) : ℕ → UInt8 :=
  overlay mem 0 (fun i => e.read.getD i 0) e.read.length

theorem val_wavDecodeInit (e : Opening) (s : Decoding) : (wavDecodeInit e).val s = 0 := (rfl)

/-- With the allocations and the file the header is decoded; without them nothing happens. -/
theorem state_wavDecodeInit (e : Opening) (s : Decoding) : (wavDecodeInit e).state s =
    if e.ftemp = true ∧ e.buf = true ∧ e.fopen = 0 then
      { mem := e.buffer s.mem
        wavx := s.wavx.decoded (e.buffer s.mem)
        reads := s.reads ++ headerReads (e.buffer s.mem) }
    else s := by
  by_cases halloc : e.ftemp = true ∧ e.buf = true
  · by_cases hopen : e.fopen = 0
    · have hall : e.ftemp = true ∧ e.buf = true ∧ e.fopen = 0 := ⟨halloc.1, halloc.2, hopen⟩
      simp only [wavDecodeInit, openAndDecode, Prog.state_bind, halloc, and_self, if_true, hopen,
        Prog.state_modify, state_decodeHeader, Prog.state_pure, Opening.buffer]
    · have hall : ¬ (e.ftemp = true ∧ e.buf = true ∧ e.fopen = 0) := fun h => hopen h.2.2
      simp only [wavDecodeInit, openAndDecode, Prog.state_bind, halloc, and_self, if_true, hopen,
        if_false, Prog.state_pure, and_false]
  · have hall : ¬ (e.ftemp = true ∧ e.buf = true ∧ e.fopen = 0) := fun h => halloc ⟨h.1, h.2.1⟩
    simp only [wavDecodeInit, openAndDecode, Prog.state_bind, halloc, if_false, Prog.state_pure,
      hall]

/-! ## The chunks of a file -/

/-- The 32-bit number at an offset of a file, if the file reaches that far. -/
def wordAt (file : List UInt8) (o : ℕ) : Option ℕ :=
  if o + 4 ≤ file.length then some (le32 (fun i => file.getD i 0) o) else none

/-- The offsets at which the chunks of a RIFF file begin. -/
inductive ChunkAt (file : List UInt8) : ℕ → Prop
  | first : ChunkAt file 12
  | next {o n : ℕ} (h : ChunkAt file o) (hsize : wordAt file (o + 4) = some n) :
      ChunkAt file (o + 8 + n)

/-- The chunk at `d`, behind the format chunk, is a data chunk of `n` bytes. -/
structure DataChunk (file : List UInt8) (d n : ℕ) : Prop where
  chunk : ChunkAt file d
  behind : 12 < d
  id : wordAt file d = some 0x61746164
  size : wordAt file (d + 4) = some n

/-- The decoder reads inside the buffer, and returns `0` only for a WAVE file in which it has
found the data chunk, whatever `wavx` held before. -/
def DecodesSafely (e : Opening) (mem : ℕ → UInt8) : Prop :=
  ∀ wavx : Wavctrl,
    let r := wavDecodeInit e ⟨mem, wavx, []⟩
    (∀ o ∈ r.2.reads, o < 512) ∧
      (r.1 = 0 → wordAt e.read 8 = some 0x45564157 ∧
        ∃ d n, DataChunk e.read d n ∧ r.2.wavx.datastart = d + 8 ∧ r.2.wavx.datasize = n)

/-- The file opens, is a WAVE file, and the data chunk is the second one, or the third one after
a `fact` or `LIST` chunk, with its header in the bytes that have been read. -/
def DataFollows (e : Opening) : Prop :=
  (e.ftemp = true ∧ e.buf = true ∧ e.fopen = 0) ∧ wordAt e.read 8 = some 0x45564157 ∧
    ∃ size, wordAt e.read 16 = some size ∧
      (wordAt e.read (20 + size) = some 0x61746164 ∧ (wordAt e.read (24 + size)).isSome ∨
        ∃ size', (wordAt e.read (20 + size) = some 0x74636166 ∨
            wordAt e.read (20 + size) = some 0x5453494C) ∧
          wordAt e.read (24 + size) = some size' ∧
          wordAt e.read (28 + size + size') = some 0x61746164 ∧
          (wordAt e.read (32 + size + size')).isSome)

theorem wordAt_eq_some {file : List UInt8} {o n : ℕ} :
    wordAt file o = some n ↔ o + 4 ≤ file.length ∧ le32 (fun i => file.getD i 0) o = n := by
  rw [wordAt]
  split
  · rename_i h
    rw [Option.some_inj]
    exact (and_iff_right h).symm
  · rename_i h
    exact iff_of_false (by simp) fun h' => h h'.1

theorem wordAt_isSome {file : List UInt8} {o : ℕ} :
    (wordAt file o).isSome ↔ o + 4 ≤ file.length := by
  rw [wordAt]
  split
  · rename_i h
    exact iff_of_true rfl h
  · rename_i h
    exact iff_of_false (by simp) h

/-- The buffer holds the numbers of the file. -/
theorem le32_buffer (e : Opening) (mem : ℕ → UInt8) {o n : ℕ} (h : wordAt e.read o = some n) :
    le32 (e.buffer mem) o = n := by
  obtain ⟨hle, rfl⟩ := wordAt_eq_some.mp h
  have hlen := e.read_le
  have hbyte : ∀ i < 4, e.buffer mem ((o + i) % 2 ^ 32) = e.read.getD ((o + i) % 2 ^ 32) 0 := by
    intro i hi
    rw [Nat.mod_eq_of_lt (by omega)]
    exact overlay_inside (Nat.zero_le _) (by omega)
  have h0 := hbyte 0 (by omega)
  simp only [le32, le16, Nat.add_assoc]
  rw [Nat.add_zero] at h0
  rw [h0, hbyte 1 (by omega), hbyte 2 (by omega), hbyte (2 + 1) (by omega)]

/-- A chunk behind the second one lies behind the size field of the second one. -/
theorem ChunkAt.cases {file : List UInt8} {d : ℕ} (h : ChunkAt file d) :
    d = 12 ∨ ∃ n, wordAt file 16 = some n ∧
      (d = 20 + n ∨ ∃ m, wordAt file (24 + n) = some m ∧ 28 + n + m ≤ d) := by
  induction h with
  | first => exact Or.inl rfl
  | @next o k _ hsize ih =>
      rcases ih with rfl | ⟨n, hn, rfl | ⟨m, hm, hle⟩⟩
      · exact Or.inr ⟨k, hsize, Or.inl rfl⟩
      · refine Or.inr ⟨n, hn, Or.inr ⟨k, ?_, by omega⟩⟩
        rwa [show 24 + n = 20 + n + 4 by omega]
      · exact Or.inr ⟨n, hn, Or.inr ⟨m, hm, by omega⟩⟩

theorem lt_of_mem_bytesAt {o n i : ℕ} (h : i ∈ bytesAt o n) (hle : o + n ≤ 512) : i < 512 := by
  obtain ⟨j, hj, rfl⟩ := List.mem_map.mp h
  have hj' := List.mem_range.mp hj
  have hmod := Nat.mod_le (o + j) (2 ^ 32)
  omega

/-- The decoder stays in the buffer when the headers it goes to lie there. -/
theorem headerReads_lt {m : ℕ → UInt8} (hfact : factAt m + 8 ≤ 512) (hdata : dataAt m + 8 ≤ 512) :
    ∀ o ∈ headerReads m, o < 512 := by
  intro o ho
  have hfields : ∀ k n, o ∈ bytesAt k n → k + n ≤ 512 → o < 512 := fun _ _ => lt_of_mem_bytesAt
  rw [headerReads] at ho
  simp only [List.mem_append, List.mem_ite_nil_right] at ho
  rcases ho with ho | ⟨-, (((ho | ho) | ⟨-, ho⟩) | ho) | ⟨-, ho⟩⟩
  · exact hfields _ _ ho (by omega)
  · exact hfields _ _ ho (by omega)
  · exact hfields _ _ ho (by omega)
  · exact hfields _ _ ho (by omega)
  · exact hfields _ _ ho (by omega)
  · rcases ho with (((((ho | ho) | ho) | ho) | ho) | ho) | ho <;> exact hfields _ _ ho (by omega)

section Safely
variable {e : Opening} {mem : ℕ → UInt8}

/-- What safe decoding says about a file that opens. -/
theorem decodesSafely_opened (hall : e.ftemp = true ∧ e.buf = true ∧ e.fopen = 0) :
    DecodesSafely e mem ↔ ∀ wavx : Wavctrl,
      (∀ o ∈ headerReads (e.buffer mem), o < 512) ∧ wordAt e.read 8 = some 0x45564157 ∧
        ∃ d n, DataChunk e.read d n ∧ (wavx.decoded (e.buffer mem)).datastart = d + 8 ∧
          (wavx.decoded (e.buffer mem)).datasize = n := by
  refine forall_congr' fun wavx => ?_
  have hval := val_wavDecodeInit e ⟨mem, wavx, []⟩
  have hstate := state_wavDecodeInit e ⟨mem, wavx, []⟩
  rw [if_pos hall] at hstate
  simp only [Prog.val] at hval
  simp only [Prog.state, List.nil_append] at hstate
  simp only [hval, hstate, forall_const]

theorem not_decodesSafely_unopened (hall : ¬ (e.ftemp = true ∧ e.buf = true ∧ e.fopen = 0)) :
    ¬ DecodesSafely e mem := by
  intro h
  have hval := val_wavDecodeInit e ⟨mem, .blank 0, []⟩
  have hstate := state_wavDecodeInit e ⟨mem, .blank 0, []⟩
  rw [if_neg hall] at hstate
  obtain ⟨-, hfound⟩ := h (.blank 0)
  obtain ⟨-, d, n, -, hstart, -⟩ := hfound hval
  simp only [Prog.state] at hstate
  rw [hstate, Wavctrl.blank] at hstart
  exact absurd hstart (by dsimp only; omega)

/-- Where the decoder goes when the format chunk ends in the buffer. -/
theorem factAt_buffer {size : ℕ} (hsize : wordAt e.read 16 = some size) (hlt : 20 + size < 2 ^ 32) :
    factAt (e.buffer mem) = 20 + size := by
  rw [factAt, le32_buffer e mem hsize, Nat.mod_eq_of_lt hlt]

/-- Where it goes behind a chunk that it skips. -/
theorem dataAt_buffer {size size' : ℕ} (hsize : wordAt e.read 16 = some size)
    (hsize' : wordAt e.read (24 + size) = some size') (hskip : Skips (e.buffer mem))
    (hlt : 28 + size + size' < 2 ^ 32) : dataAt (e.buffer mem) = 28 + size + size' := by
  rw [dataAt, if_pos hskip, factAt_buffer hsize (by omega), le32_buffer e mem hsize,
    show 20 + size + 4 = 24 + size by omega, le32_buffer e mem hsize', Nat.mod_eq_of_lt hlt]

/-- The decoder is safe where it goes to the data chunk. -/
theorem decodesSafely_of_dataChunk (hall : e.ftemp = true ∧ e.buf = true ∧ e.fopen = 0)
    (hwave : wordAt e.read 8 = some 0x45564157) (hfact : factAt (e.buffer mem) + 8 ≤ 512) {n : ℕ}
    (hdata : DataChunk e.read (dataAt (e.buffer mem)) n) : DecodesSafely e mem := by
  have hlen := e.read_le
  have hend := (wordAt_eq_some.mp hdata.size).1
  have hparses : Parses (e.buffer mem) :=
    ⟨le32_buffer e mem hwave, le32_buffer e mem hdata.id⟩
  refine (decodesSafely_opened hall).mpr fun wavx =>
    ⟨headerReads_lt hfact (by omega), hwave, _, n, hdata, ?_, ?_⟩
  · rw [Wavctrl.decoded, if_pos hparses, Wavctrl.filled]
    exact Nat.mod_eq_of_lt (by omega)
  · rw [Wavctrl.decoded, if_pos hparses, Wavctrl.filled]
    exact le32_buffer e mem hdata.size

/-- Whatever the decoder is safe for it takes, from a data chunk at `dataAt`. -/
theorem DecodesSafely.dataChunk (h : DecodesSafely e mem) :
    (e.ftemp = true ∧ e.buf = true ∧ e.fopen = 0) ∧ wordAt e.read 8 = some 0x45564157 ∧
      ∃ n, DataChunk e.read (dataAt (e.buffer mem)) n := by
  by_cases hall : e.ftemp = true ∧ e.buf = true ∧ e.fopen = 0
  · have hlen := e.read_le
    rw [decodesSafely_opened hall] at h
    obtain ⟨-, hwave, d, n, hdata, hstart, hsize⟩ := h (.blank 0)
    obtain ⟨-, -, d', n', hdata', hstart', hsize'⟩ := h (.blank 1)
    have hend := (wordAt_eq_some.mp hdata.size).1
    have hformat := le32_buffer e mem hwave
    by_cases hparses : Parses (e.buffer mem)
    · rw [Wavctrl.decoded, if_pos hparses, Wavctrl.filled] at hstart
      dsimp only at hstart
      have hlt : dataAt (e.buffer mem) < 2 ^ 32 := by
        rw [dataAt]
        split
        · exact Nat.mod_lt _ (by decide)
        · exact Nat.mod_lt _ (by decide)
      obtain rfl : dataAt (e.buffer mem) = d := by omega
      exact ⟨hall, hwave, n, hdata⟩
    · -- only `datastart` has been set: the size found is what `wavx` held before
      rw [Wavctrl.decoded, if_neg hparses, if_pos hformat] at hstart hsize hstart' hsize'
      simp only [Wavctrl.blank] at hstart hsize hstart' hsize'
      obtain rfl : d = d' := by omega
      have hn := hdata.size
      rw [hdata'.size, Option.some_inj] at hn
      omega
  · exact absurd h (not_decodesSafely_unopened hall)

/-- A file that is decoded safely has its data chunk where the decoder looks. -/
theorem DecodesSafely.dataFollows (h : DecodesSafely e mem) : DataFollows e := by
  have hlen := e.read_le
  obtain ⟨hall, hwave, n, hdata⟩ := h.dataChunk
  have hend := (wordAt_eq_some.mp hdata.size).1
  refine ⟨hall, hwave, ?_⟩
  rcases hdata.chunk.cases with h12 | ⟨size, hsize, hsecond | ⟨size', hsize', hle⟩⟩
  · exact absurd h12 (Nat.ne_of_gt hdata.behind)
  · refine ⟨size, hsize, Or.inl ⟨hsecond ▸ hdata.id, wordAt_isSome.mpr ?_⟩⟩
    omega
  · have hfact : factAt (e.buffer mem) = 20 + size := factAt_buffer hsize (by omega)
    obtain ⟨id, hid⟩ : ∃ id, wordAt e.read (20 + size) = some id :=
      Option.isSome_iff_exists.mp (wordAt_isSome.mpr (by omega))
    have hbuf := le32_buffer e mem hid
    by_cases hskip : Skips (e.buffer mem)
    · have hthird := dataAt_buffer hsize hsize' hskip (by omega)
      rw [Skips, hfact, hbuf] at hskip
      refine ⟨size, hsize, Or.inr ⟨size', ?_, hsize', hthird ▸ hdata.id,
        wordAt_isSome.mpr (by omega)⟩⟩
      rw [hid]
      exact hskip.imp (congrArg some) (congrArg some)
    · rw [dataAt, if_neg hskip] at hle
      omega

/-- A file whose data chunk follows is decoded safely. -/
theorem DataFollows.decodesSafely (h : DataFollows e) : DecodesSafely e mem := by
  have hlen := e.read_le
  obtain ⟨hall, hwave, size, hsize, ⟨hid, hsome⟩ | ⟨size', hid, hsize', hdata, hsome⟩⟩ := h
  · have hend := wordAt_isSome.mp hsome
    have hfact : factAt (e.buffer mem) = 20 + size := factAt_buffer hsize (by omega)
    have hdataAt : dataAt (e.buffer mem) = 20 + size := by
      rw [dataAt, if_neg, hfact]
      rw [Skips, hfact, le32_buffer e mem hid]
      decide
    obtain ⟨n, hn⟩ := Option.isSome_iff_exists.mp hsome
    refine decodesSafely_of_dataChunk hall hwave (by omega) (n := n) ?_
    rw [hdataAt]
    exact ⟨.next .first hsize, by omega, hid, by rwa [show 20 + size + 4 = 24 + size by omega]⟩
  · have hend := wordAt_isSome.mp hsome
    have hfact : factAt (e.buffer mem) = 20 + size := factAt_buffer hsize (by omega)
    have hskip : Skips (e.buffer mem) := by
      rw [Skips, hfact]
      exact hid.imp (le32_buffer e mem) (le32_buffer e mem)
    obtain ⟨n, hn⟩ := Option.isSome_iff_exists.mp hsome
    refine decodesSafely_of_dataChunk hall hwave (by omega) (n := n) ?_
    have hthird : ChunkAt e.read (12 + 8 + size + 8 + size') := by
      refine .next (.next .first hsize) ?_
      rwa [show 12 + 8 + size + 4 = 24 + size by omega]
    rw [dataAt_buffer hsize hsize' hskip (by omega)]
    exact ⟨by rwa [show 28 + size + size' = 12 + 8 + size + 8 + size' by omega], by omega, hdata,
      by rwa [show 28 + size + size' + 4 = 32 + size + size' by omega]⟩

/-- The decoder reads inside the buffer, and finds what it says it has found, exactly for the
files whose data chunk follows the format chunk, or a single `fact` or `LIST` chunk behind it,
within the bytes that have been read. -/
theorem decodesSafely_iff (e : Opening) (mem : ℕ → UInt8) :
    DecodesSafely e mem ↔ DataFollows e :=
  ⟨fun h => h.dataFollows, fun h => h.decodesSafely⟩

end Safely

/-- A file that begins with the letters ID3. -/
def notWave : Opening := ⟨true, true, 0, [0x49, 0x44, 0x33], by decide⟩

/-- The decoder returns `0` for a file that is no WAVE file. -/
theorem decodesSafely_notWave : ¬ ∀ (e : Opening) (mem : ℕ → UInt8), DecodesSafely e mem := by
  intro h
  obtain ⟨-, hwave, -⟩ := (h notWave fun _ => 0).dataChunk
  exact absurd hwave (by decide)

end Apollo.Wav
