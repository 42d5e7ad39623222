import Apollo.Norflash.Driver

/-!
# The font library

Five font files are copied from a disk into the NOR flash, behind a header that records
where each of them begins and how long it is.  `fontok` in the header marks a library that
is complete; it is written last.

The allocator and FatFs answer as `Answers` says: any answers, but that `f_open` refuses a
null object and that a read which succeeds is short only at the end of the file.

## Main definitions

* `FontInfo` — `ftinfo`; `FontInfo.record` — what an update enters for a file.
* `Answers` — the allocator and FatFs; `FontState` — what an update changes.
* `fontsUpdateFontx`, `fontsUpdateFont` — the code; a result `none` has not come yet.
-/

namespace Apollo.Text
open Lib Norflash

/-- `FONTINFOADDR`. -/
abbrev fontInfoAddr : ℕ := 25 * 1024 * 1024
/-- `FONTSECSIZE`. -/
abbrev fontSecSize : ℕ := 1539

/-- `FONT_GBK_PATH`. -/
def fontGbkPath : ℕ → String
  | 0 => "/SYSTEM/FONT/UNIGBK.BIN"
  | 1 => "/SYSTEM/FONT/GBK12.FON"
  | 2 => "/SYSTEM/FONT/GBK16.FON"
  | 3 => "/SYSTEM/FONT/GBK24.FON"
  | _ => "/SYSTEM/FONT/GBK32.FON"

/-- `_font_info`. -/
structure FontInfo where
  fontok : UInt8
  ugbkaddr : UInt32
  ugbksize : UInt32
  f12addr : UInt32
  gbk12size : UInt32
  f16addr : UInt32
  gbk16size : UInt32
  f24addr : UInt32
  gbk24size : UInt32
  f32addr : UInt32
  gbk32size : UInt32

/-- `sizeof(ftinfo)`. -/
abbrev sizeofFtinfo : ℕ := 41

namespace FontInfo

def wordBytes (w : UInt32) : List UInt8 :=
  [w.toUInt8, (w >>> 8).toUInt8, (w >>> 16).toUInt8, (w >>> 24).toUInt8]

/-- `(uint8_t *)&ftinfo`. -/
def bytes (f : FontInfo) : List UInt8 :=
  f.fontok :: [f.ugbkaddr, f.ugbksize, f.f12addr, f.gbk12size, f.f16addr, f.gbk16size, f.f24addr,
    f.gbk24size, f.f32addr, f.gbk32size].flatMap wordBytes

/-- The recorded address of the font `fx`. -/
def addr (f : FontInfo) : ℕ → ℕ
  | 0 => f.ugbkaddr.toNat
  | 1 => f.f12addr.toNat
  | 2 => f.f16addr.toNat
  | 3 => f.f24addr.toNat
  | 4 => f.f32addr.toNat
  | _ => 0

/-- The recorded size of the font `fx`. -/
def size (f : FontInfo) : ℕ → ℕ
  | 0 => f.ugbksize.toNat
  | 1 => f.gbk12size.toNat
  | 2 => f.gbk16size.toNat
  | 3 => f.gbk24size.toNat
  | 4 => f.gbk32size.toNat
  | _ => 0

/-- The `switch` of `fonts_update_fontx`. -/
def record (f : FontInfo) (fx : ℕ) (objsize : UInt32) : FontInfo :=
  match fx with
  | 0 => { f with ugbkaddr := .ofNat (fontInfoAddr + sizeofFtinfo), ugbksize := objsize }
  | 1 => { f with f12addr := f.ugbkaddr + f.ugbksize, gbk12size := objsize }
  | 2 => { f with f16addr := f.f12addr + f.gbk12size, gbk16size := objsize }
  | 3 => { f with f24addr := f.f16addr + f.gbk16size, gbk24size := objsize }
  | 4 => { f with f32addr := f.f24addr + f.gbk24size, gbk32size := objsize }
  | _ => f

end FontInfo

/-- The answers of the allocator and of FatFs. -/
structure Answers where
  /-- `mymalloc` for `pname`, `buf` and `fftemp` succeeds. -/
  malloc : Fin 3 → Bool
  /-- `f_open` of the check that a file is there. -/
  openFirst : String → ℕ
  /-- `mymalloc` for the `fftemp` and the `tempbuf` of a file succeeds. -/
  mallocFftemp : ℕ → Bool
  mallocTempbuf : ℕ → Bool
  /-- `f_open` of the update, for an object that is not null. -/
  openAgain : String → ℕ
  /-- `f_read` of each transfer of a file. -/
  read : String → ℕ → ℕ
  /-- What the files hold. -/
  content : String → List UInt8

/-- A call of `norflash_write` for the font `fx`. -/
structure FontWrite where
  fx : ℕ
  addr : ℕ
  data : List UInt8

/-- What an update changes, and the calls of `norflash_write` it has made for the fonts. -/
structure FontState where
  nor : Nor
  ftinfo : FontInfo
  writes : List FontWrite

/-- A program of the flash driver. -/
def onNor {α : Type} (p : Prog Nor α) : Prog FontState α :=
  fun s => (p.val s.nor, { s with nor := p.state s.nor })

variable (P : Part) (E : Answers) (src : String)

/-- `pname`. -/
def pname (i : ℕ) : String := src ++ fontGbkPath i

/-- The bytes of the file of a font. -/
def fontFile (i : ℕ) : List UInt8 := E.content (pname src i)

/-- What the loop of `fonts_update_fontx` carries: the position in the file, and `offx`. -/
structure ReadLoop where
  fptr : ℕ
  offx : ℕ

/-- One round of `fonts_update_fontx`: it reads 4096 bytes and writes them to the flash. -/
def readRound (fx flashaddr k : ℕ) (a : ReadLoop) : Prog FontState (Flow ReadLoop ℕ) := do
  let res := E.read (pname src fx) k
  if res ≠ 0 then pure (.exit res)
  else do
    let tempbuf := ((fontFile E src fx).drop a.fptr).take 4096
    let bread := tempbuf.length
    let addr := (a.offx + flashaddr) % 2 ^ 32
    onNor (norflashWrite P (fun j => tempbuf.getD j 0) addr bread)
    Prog.modify fun s => { s with writes := s.writes ++ [⟨fx, addr, tempbuf⟩] }
    if bread ≠ 4096 then pure (.exit 0)
    else pure (.next ⟨a.fptr + bread, (a.offx + bread) % 2 ^ 32⟩)

/-- `FR_INVALID_OBJECT`. -/
abbrev frInvalidObject : ℕ := 9

/-- `fonts_update_fontx`, with a round for each byte of the file to spare. -/
def fontsUpdateFontx (fx : ℕ) : Prog FontState (Option ℕ) := do
  let res := if E.mallocFftemp fx then E.openAgain (pname src fx) else frInvalidObject
  let rval := if res ≠ 0 then 2
    else if E.mallocFftemp fx = false ∨ E.mallocTempbuf fx = false then 1 else 0
  if rval = 0 then do
    let objsize := (fontFile E src fx).length
    Prog.modify fun s => { s with ftinfo := s.ftinfo.record fx (.ofNat objsize) }
    let flashaddr ← Prog.get fun s => s.ftinfo.addr fx
    match ← Prog.loop (readRound P E src fx flashaddr) (objsize + 1) 0 ⟨0, 0⟩ with
    | .next _ => pure none
    | .exit res => pure (some res)
  else pure (some res)

/-- The words of a buffer. -/
def word (buf : ℕ → UInt8) (j : ℕ) : ℕ :=
  (buf (4 * j)).toNat + (buf (4 * j + 1)).toNat * 2 ^ 8 + (buf (4 * j + 2)).toNat * 2 ^ 16 +
    (buf (4 * j + 3)).toNat * 2 ^ 24

/-- The loop that erases the sectors of the fonts. -/
def eraseFonts : Prog Nor Unit :=
  Prog.forUp (fun i _ => do
    let buf ← readFrame P (sendAddress P ((fontInfoAddr / 4096 + i) * 4096))
    if (firstEntry 1024 fun j => word buf j ≠ 0xFFFFFFFF).isSome then
      norflashEraseSector P (fontInfoAddr / 4096 + i)
    else pure ()) fontSecSize 0 ()

/-- One round of the loop over the five files. -/
def updateRound (i : ℕ) (_ : Unit) : Prog FontState (Flow Unit (Option ℕ)) := do
  match ← fontsUpdateFontx P E src i with
  | none => pure (.exit none)
  | some res => if res ≠ 0 then pure (.exit (some (1 + i))) else pure (.next ())

/-- The mark: `fontok`, and the header of the fonts. -/
def writeHeader : Prog FontState Unit := do
  Prog.modify fun s => { s with ftinfo := { s.ftinfo with fontok := 0xAA } }
  let header ← Prog.get fun s => s.ftinfo.bytes
  onNor (norflashWrite P (fun j => header.getD j 0) fontInfoAddr sizeofFtinfo)

def fontsUpdateFont : Prog FontState (Option ℕ) := do
  Prog.modify fun s => { s with ftinfo := { s.ftinfo with fontok := 0xFF } }
  if E.malloc 0 = false ∨ E.malloc 1 = false ∨ E.malloc 2 = false then pure (some 5)
  else if (firstEntry 5 fun i => E.openFirst (pname src i) ≠ 0).isSome then pure (some (1 <<< 7))
  else do
    onNor (eraseFonts P)
    match ← Prog.loop (updateRound P E src) 5 0 () with
    | .exit res => pure res
    | .next _ => do
        writeHeader P
        pure (some 0)

end Apollo.Text
