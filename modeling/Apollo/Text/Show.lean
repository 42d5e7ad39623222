import Apollo.Lcd.Dots
import Apollo.Malloc.Realloc
import Apollo.Text.Fonts

/-!
# Showing a character of two bytes

`text_show_font` allocates a buffer, has `text_get_hz_mat` write the dots of the character into
it, draws them and frees the buffer.  On an RGB panel a dot goes to memory, as a half word in the
frame buffer.

## Main definitions

* `Panel` — the heap, the NOR flash, the screen, and what has been read of a string.
* `textGetHzMat`, `textShowFont` — the code.
* `screen_textShowFont` — what is drawn lies in the cell of the character.
-/

namespace Apollo.Text
open Lib Norflash Malloc Lcd

/-- The heap, the NOR flash, the screen, the offsets of a string that have been read, and
`lcdltdc`, where there is an RGB panel. -/
structure Panel where
  dev : Dev
  nor : Nor
  screen : Screen
  reads : List ℕ
  ltdc : Option Ltdc

/-- The memory after points have been drawn.  Only an RGB panel is drawn into it. -/
def putPoints (ltdc : Option Ltdc) (ps : List Point) (mem : ℕ → ℕ) : ℕ → ℕ :=
  ltdc.elim mem fun P => ps.foldl P.putPoint mem

namespace Panel

/-- A program of the allocator. -/
def onDev {α : Type} (p : Prog Dev α) : Prog Panel α :=
  fun s => (p.val s.dev, { s with dev := p.state s.dev })

/-- A program of the flash driver. -/
def onFlash {α : Type} (p : Prog Nor α) : Prog Panel α :=
  fun s => (p.val s.nor, { s with nor := p.state s.nor })

/-- A program of the display that draws nothing. -/
def onScreen {α : Type} (p : Prog Screen α) : Prog Panel α :=
  fun s => (p.val s.screen, { s with screen := p.state s.screen })

/-- A program of the display that draws, and does not look at the memory: the points that it adds
go there as well, one after the other. -/
def onLcd {α : Type} (p : Prog Screen α) : Prog Panel α :=
  fun s =>
    let drawn := (p.state s.screen).points.drop s.screen.points.length
    (p.val s.screen, { s with
      screen := p.state s.screen
      dev := { s.dev with mem := putPoints s.ltdc drawn s.dev.mem } })

section
variable {α : Type} {s : Panel}

@[simp] theorem val_onDev (p : Prog Dev α) : (onDev p).val s = p.val s.dev := (rfl)
@[simp] theorem state_onDev (p : Prog Dev α) :
    (onDev p).state s = { s with dev := p.state s.dev } := (rfl)
@[simp] theorem val_onFlash (p : Prog Nor α) : (onFlash p).val s = p.val s.nor := (rfl)
@[simp] theorem state_onFlash (p : Prog Nor α) :
    (onFlash p).state s = { s with nor := p.state s.nor } := (rfl)
@[simp] theorem state_onScreen (p : Prog Screen α) :
    (onScreen p).state s = { s with screen := p.state s.screen } := (rfl)
@[simp] theorem screen_onLcd (p : Prog Screen α) :
    ((onLcd p).state s).screen = p.state s.screen := (rfl)

end
end Panel

open Panel

variable (L : Link) (P : Part) (ft : FontInfo) (D : Lcddev)

/-! ## The code -/

/-- The bytes of the dots of a character. -/
def csize (size : ℕ) : ℕ := columnBytes size * size % 256

/-- Write `n` bytes from `mat` on. -/
def store (mat : ℕ) (f : ℕ → UInt8) (n : ℕ) : Prog Dev Unit :=
  Prog.forUp (fun i _ => Prog.modify fun d =>
    { d with mem := Function.update d.mem ((mat + i) % 2 ^ 32) (f i).toNat }) n 0 ()

/-- The font with `size` rows in the flash. -/
def FontInfo.dots (size : ℕ) : ℕ :=
  if size = 12 then ft.f12addr.toNat
  else if size = 16 then ft.f16addr.toNat
  else if size = 24 then ft.f24addr.toNat
  else ft.f32addr.toNat

/-- The code is not one of a character. -/
def NoCharacter (qh ql : ℕ) : Prop := qh < 0x81 ∨ ql < 0x40 ∨ ql = 0xff ∨ qh = 0xff

instance (qh ql : ℕ) : Decidable (NoCharacter qh ql) := inferInstanceAs (Decidable (_ ∨ _))

/-- Where the dots of a character are in the flash. -/
def dotsAddr (qh ql size : ℕ) : ℕ :=
  let ql := if ql < 0x7f then ql - 0x40 else ql - 0x41
  let foffset := (190 * (qh - 0x81) + ql) * csize size
  (foffset + ft.dots size) % 2 ^ 32

def textGetHzMat (qh ql mat size : ℕ) : Prog Panel Unit :=
  if NoCharacter qh ql then onDev (store mat (fun _ => 0) (csize size))
  else if Supported size then do
    let reply ← onFlash (readFrame P (sendAddress P (dotsAddr ft qh ql size)))
    onDev (store mat reply (csize size))
  else pure ()

/-- A byte of the buffer is read when its dots are drawn. -/
def fontByte (y size mode color dzk t : ℕ) (a : Pen) : Prog Panel (Flow Pen Unit) := do
  let temp ← Prog.get fun s => s.dev.mem ((dzk + t) % 2 ^ 32)
  onLcd (byteRound D false y size mode color (fun _ => temp) t a)

/-- `text_show_font`, for a program that fetches the two bytes of the code. -/
def textShowFont (x y : ℕ) (font : Prog Panel (ℕ × ℕ)) (size mode color : ℕ) : Prog Panel Unit :=
  if ¬ Supported size then pure ()
  else do
    let dzk ← onDev (mymalloc L .sramin size)
    if dzk = 0 then pure ()
    else do
      let code ← font
      textGetHzMat P ft code.1 code.2 dzk size
      onScreen (Prog.modify fun s => { s with cells := s.cells ++ [⟨x, y, size, size⟩] })
      let _ ← Prog.loop (fontByte D y size mode color dzk) (csize size) 0 ⟨x, y, 0⟩
      onDev (myfree L .sramin dzk)

/-! ## What is written -/

/-- The dots of a character, as the flash has them. -/
def dotByte (nor : Nor) (qh ql size t : ℕ) : UInt8 :=
  if NoCharacter qh ql then 0
  else (readFrame P (sendAddress P (dotsAddr ft qh ql size))).val nor t

theorem state_textGetHzMat {size : ℕ} (hsize : Supported size) (qh ql mat : ℕ) (s : Panel) :
    (textGetHzMat P ft qh ql mat size).state s =
      { s with dev := (store mat (dotByte P ft s.nor qh ql size) (csize size)).state s.dev } := by
  by_cases hno : NoCharacter qh ql
  · have hbyte : dotByte P ft s.nor qh ql size = fun _ => 0 := by
      funext t
      rw [dotByte, if_pos hno]
    rw [textGetHzMat, if_pos hno, hbyte, state_onDev]
  · have hbyte : dotByte P ft s.nor qh ql size =
        (readFrame P (sendAddress P (dotsAddr ft qh ql size))).val s.nor := by
      funext t
      rw [dotByte, if_neg hno]
    rw [textGetHzMat, if_neg hno, if_pos hsize, hbyte]
    rfl

/-- The dots of a character lie in its cell, whatever the buffer holds. -/
theorem drawnIn_fontBytes {x y size : ℕ} (mode color : ℕ) (hfits : y + size < 2 ^ 16)
    (hright : x + size < 2 ^ 16) (hsize : 0 < size) (dzk : ℕ) {n : ℕ}
    (hn : n ≤ columnBytes size * size) (s : Panel) :
    DrawnIn ⟨x, y, size, size⟩ s.screen
        ((Prog.loop (fontByte D y size mode color dzk) n 0 ⟨x, y, 0⟩).state s).screen ∧
      ((Prog.loop (fontByte D y size mode color dzk) n 0 ⟨x, y, 0⟩).state s).reads = s.reads := by
  set c : Cell := ⟨x, y, size, size⟩ with hc
  set bytes := Prog.loop (fontByte D y size mode color dzk) n 0 ⟨x, y, 0⟩ with hbytes
  have hloop : (bytes.val s).Holds
      (fun a => (DrawnIn c s.screen (bytes.state s).screen ∧ (bytes.state s).reads = s.reads) ∧
        AtByte c n a)
      (fun _ => DrawnIn c s.screen (bytes.state s).screen ∧ (bytes.state s).reads = s.reads) := by
    refine Prog.loop_inv (n := n)
      (I := fun t (a : Pen) (u : Panel) =>
        (DrawnIn c s.screen u.screen ∧ u.reads = s.reads) ∧ AtByte c t a)
      (Q := fun _ (u : Panel) => DrawnIn c s.screen u.screen ∧ u.reads = s.reads)
      (fun t ht a u ⟨⟨hdrawn, hreads⟩, hpen⟩ => ?_)
      (Nat.zero_add n) ⟨⟨.refl c s.screen, rfl⟩, atByte_zero c hsize 0⟩
    obtain ⟨hdraw, hval⟩ := atByte_byteRound D false mode color (c := c) hfits hright
      (Nat.lt_of_lt_of_le ht hn) hpen (fun _ => u.dev.mem ((dzk + t) % 2 ^ 32)) u.screen
    exact hval.imp (fun b hb => ⟨⟨hdrawn.trans hdraw, hreads⟩, hb⟩)
      fun _ _ => ⟨hdrawn.trans hdraw, hreads⟩
  exact (Flow.holds_const _ _).mp (hloop.imp (fun _ h => h.1) fun _ => id)

/-- The panel when the dots of a character are in the buffer and about to be drawn. -/
def Panel.loaded (s : Panel) (dzk x y size : ℕ) (code : ℕ × ℕ) (rs : List ℕ) : Panel :=
  { s with
    dev := (store dzk (dotByte P ft s.nor code.1 code.2 size) (csize size)).state
      ((mymalloc L .sramin size).state s.dev)
    screen := { s.screen with cells := s.screen.cells ++ [⟨x, y, size, size⟩] }
    reads := s.reads ++ rs }

/-- With a font and a buffer the dots are drawn, and the buffer is freed. -/
theorem state_textShowFont (x y : ℕ) {size : ℕ} (hsize : Supported size) {font : Prog Panel (ℕ × ℕ)}
    {rs : List ℕ} (hfont : ∀ s, font.state s = { s with reads := s.reads ++ rs }) (mode color : ℕ)
    {s : Panel} {dzk : ℕ} (hdzk : (mymalloc L .sramin size).val s.dev = dzk) (hnull : dzk ≠ 0) :
    ∃ t, (textShowFont L P ft D x y font size mode color).state s =
      (onDev (myfree L .sramin dzk)).state
        ((Prog.loop (fontByte D y size mode color dzk) (csize size) 0 ⟨x, y, 0⟩).state
          (s.loaded L P ft dzk x y size (font.val t) rs)) := by
  refine ⟨{ s with dev := (mymalloc L .sramin size).state s.dev }, ?_⟩
  rw [textShowFont, if_neg (not_not.mpr hsize)]
  simp only [Prog.state_bind, val_onDev, state_onDev, hdzk, hnull, if_false, hfont,
    state_textGetHzMat P ft hsize, state_onScreen, Prog.state_modify, Panel.loaded]

/-- What a character leaves on the screen, for a program that fetches the code: its cell and
dots in the cell, if there is a font and memory for it, else nothing. -/
theorem screen_textShowFont {x y size : ℕ} (hfits : y + size < 2 ^ 16) (hright : x + size < 2 ^ 16)
    {font : Prog Panel (ℕ × ℕ)} {rs : List ℕ}
    (hfont : ∀ s, font.state s = { s with reads := s.reads ++ rs }) (mode color : ℕ) (s : Panel) :
    ((Supported size ∧ (mymalloc L .sramin size).val s.dev ≠ 0) ∧
      DrawnIn ⟨x, y, size, size⟩
        { s.screen with cells := s.screen.cells ++ [⟨x, y, size, size⟩] }
        ((textShowFont L P ft D x y font size mode color).state s).screen ∧
      ((textShowFont L P ft D x y font size mode color).state s).reads = s.reads ++ rs) ∨
    ¬ (Supported size ∧ (mymalloc L .sramin size).val s.dev ≠ 0) ∧
      ((textShowFont L P ft D x y font size mode color).state s).screen = s.screen ∧
      ((textShowFont L P ft D x y font size mode color).state s).reads = s.reads := by
  by_cases hsize : Supported size
  · by_cases hnull : (mymalloc L .sramin size).val s.dev = 0
    · refine Or.inr ⟨fun h => h.2 hnull, ?_⟩
      rw [textShowFont, if_neg (not_not.mpr hsize)]
      simp only [Prog.state_bind, val_onDev, state_onDev, hnull, if_true, Prog.state_pure, and_self]
    · obtain ⟨t, hstate⟩ := state_textShowFont L P ft D x y hsize hfont mode color rfl hnull
      rw [hstate]
      exact Or.inl ⟨⟨hsize, hnull⟩, drawnIn_fontBytes D mode color hfits hright hsize.le.1 _
        (Nat.mod_le _ _) (s.loaded L P ft _ x y size (font.val t) rs)⟩
  · refine Or.inr ⟨fun h => hsize h.1, ?_⟩
    rw [textShowFont, if_pos hsize]
    exact ⟨rfl, rfl⟩

/-! ## A panel -/

/-- The panel with one allocation of 100 bytes at the end of the pool, and a blank flash. -/
def blankPanel : Panel := ⟨(oneHeld 100).1, Nor.fresh, ⟨[], [], []⟩, [], none⟩

/-- No font library. -/
def noFonts : FontInfo := ⟨0, 0, 0, 0, 0, 0, 0, 0, 0, 0, 0⟩

/-- The display of the board. -/
def lcd800 : Lcddev := ⟨480, 800, 0xFFFF⟩

end Apollo.Text
