import Apollo.Text.Show

/-!
# Showing a string in a box

`text_show_string` goes through a string with a flag for the first byte of a character of two.
It breaks the line where the next character would leave the box on the right, and stops where
it would leave the box below.  A carriage return takes the byte behind it along, whatever that
is, and so does the first byte of a character; the bytes that are shown are not looked at.

## Main definitions

* `CString` — the bytes from `str` on, up to their first `0` and behind it.
* `TextLoop`, `textRound`, `textShowString` — the code.
* `Safe` — no read behind the `0`, no character outside the tables, no dot outside the box.
* `Proper` — the condition on a round.
* `staysInside_iff` — a string is shown safely exactly if all its rounds are proper.
-/

namespace Apollo.Text
open Lib Norflash Malloc Lcd Panel

/-- A string that ends with its first `0`, and the memory behind it. -/
structure CString where
  mem : ℕ → ℕ
  len : ℕ
  nul : mem len = 0
  nonzero : ∀ i < len, mem i ≠ 0

/-- The parameters of `text_show_string`. -/
structure TextBox where
  x : ℕ
  y : ℕ
  width : ℕ
  height : ℕ
  size : ℕ
  mode : ℕ
  color : ℕ

/-- What the loop carries. -/
structure TextLoop where
  pstr : ℕ
  x : ℕ
  y : ℕ
  bHz : Bool

variable (L : Link) (P : Part) (ft : FontInfo) (D : Lcddev) (asc2 : ℕ → ℕ → ℕ → ℕ)
  (B : TextBox) (str : CString)

/-! ## The code -/

/-- `str[i]`. -/
def look (i : ℕ) : Prog Panel ℕ := fun s => (str.mem i, { s with reads := s.reads ++ [i] })

/-- The two bytes that `text_get_hz_mat` reads. -/
def lookCode (i : ℕ) : Prog Panel (ℕ × ℕ) := do
  let qh ← look str i
  let ql ← look str (i + 1)
  pure (qh, ql)

/-- Go on to the next line where a character of `width` columns would leave the box. -/
def breakLine (width : ℕ) (a : TextLoop) : TextLoop :=
  if B.x + B.width < a.x + width then { a with x := B.x, y := (a.y + B.size) % 2 ^ 16 } else a

/-- The line lies below the box. -/
def Below (a : TextLoop) : Prop := B.y + B.height < a.y + B.size

instance (a : TextLoop) : Decidable (Below B a) := inferInstanceAs (Decidable (_ < _))

/-- A byte that is not the first of two. -/
def showByte (chr : ℕ) (a : TextLoop) : Prog Panel (Flow TextLoop Unit) := do
  let b := breakLine B (B.size / 2) a
  if Below B b then pure (.exit ())
  else if chr = 13 then
    pure (.next ⟨b.pstr + 2, (B.x + B.size / 2) % 2 ^ 16, (b.y + B.size) % 2 ^ 16, false⟩)
  else do
    onLcd (lcdShowChar D asc2 b.x b.y chr B.size B.mode B.color)
    pure (.next ⟨b.pstr + 1, (b.x + B.size / 2) % 2 ^ 16, b.y, false⟩)

/-- A character of two bytes. -/
def showPair (a : TextLoop) : Prog Panel (Flow TextLoop Unit) := do
  let b := breakLine B B.size a
  if Below B b then pure (.exit ())
  else do
    textShowFont L P ft D b.x b.y (lookCode str b.pstr) B.size B.mode B.color
    pure (.next ⟨b.pstr + 2, (b.x + B.size) % 2 ^ 16, b.y, false⟩)

/-- One round of the loop of `text_show_string`. -/
def textRound (_i : ℕ) (a : TextLoop) : Prog Panel (Flow TextLoop Unit) := do
  let chr ← look str a.pstr
  if chr = 0 then pure (.exit ())
  else if a.bHz = true then showPair L P ft D B str a
  else if 0x80 < chr then pure (.next { a with bHz := true })
  else showByte D asc2 B chr a

/-- `text_show_string`, as far as `fuel` rounds go. -/
def textShowString (fuel : ℕ) : Prog Panel (Flow TextLoop Unit) :=
  Prog.loop (textRound L P ft D asc2 B str) fuel 0 ⟨0, B.x, B.y, false⟩

/-! ## Safety -/

/-- The box. -/
def TextBox.cell : Cell := ⟨B.x, B.y, B.width, B.height⟩

/-- Nothing behind the `0` has been read, no single-byte character outside the tables has been
shown, and all that has been drawn lies in the box. -/
structure Safe (s : Panel) : Prop where
  reads : ∀ i ∈ s.reads, i ≤ str.len
  chars : ∀ chr ∈ s.screen.chars, 32 ≤ chr ∧ chr ≤ 126
  cells : ∀ c ∈ s.screen.cells, c.Inside B.cell
  points : ∀ p ∈ s.screen.points, B.cell.Holds p

/-- The panel with nothing drawn and nothing read yet. -/
def Panel.cleared (s : Panel) : Panel := { s with screen := ⟨[], [], []⟩, reads := [] }

/-- The string is shown safely, however far the loop runs. -/
def StaysInside (s : Panel) : Prop :=
  ∀ fuel, Safe B str ((textShowString L P ft D asc2 B str fuel).state s.cleared)

/-- There is a font, and memory for a character of two bytes. -/
def Drawn (s : Panel) : Prop := Supported B.size ∧ (mymalloc L .sramin B.size).val s.dev ≠ 0

/-- What a round of a string that is shown safely begins with: within the box, a carriage return
or a character of two bytes is not cut off by the end of the string, a single byte that is shown
is from `' '` to `'~'`, and the row has not gone around to above the box. -/
def Proper (a : TextLoop) (s : Panel) : Prop :=
  str.mem a.pstr ≠ 0 →
    (a.bHz = true → ¬ Below B (breakLine B B.size a) →
      str.mem (a.pstr + 1) ≠ 0 ∧ (Drawn L B s → B.y ≤ (breakLine B B.size a).y)) ∧
    (a.bHz = false → str.mem a.pstr ≤ 0x80 → ¬ Below B (breakLine B (B.size / 2) a) →
      (str.mem a.pstr = 13 → str.mem (a.pstr + 1) ≠ 0) ∧
      (str.mem a.pstr ≠ 13 → Supported B.size →
        (32 ≤ str.mem a.pstr ∧ str.mem a.pstr ≤ 126) ∧ B.y ≤ (breakLine B (B.size / 2) a).y))

/-- What the rounds keep. -/
structure Running (a : TextLoop) (s : Panel) : Prop where
  safe : Safe B str s
  inString : a.pstr ≤ str.len
  left : B.x ≤ a.x
  right : a.x ≤ B.x + B.width

section Rounds
variable {L : Link} {P : Part} {ft : FontInfo} {D : Lcddev} {asc2 : ℕ → ℕ → ℕ → ℕ}
  {B : TextBox} {str : CString} {a : TextLoop} {s s' : Panel}

/-- A byte before the end that is not `0` is not the end. -/
theorem CString.lt_of_ne (h : a.pstr ≤ str.len) (hne : str.mem a.pstr ≠ 0) : a.pstr < str.len := by
  refine Nat.lt_of_le_of_ne h fun heq => hne ?_
  rw [heq, str.nul]

/-- After a break of the line the character does not leave the box on the right. -/
theorem breakLine_spec {width : ℕ} (hwidth : width ≤ B.width) (hleft : B.x ≤ a.x) :
    (breakLine B width a).pstr = a.pstr ∧ B.x ≤ (breakLine B width a).x ∧
      (breakLine B width a).x + width ≤ B.x + B.width := by
  rw [breakLine]
  split
  · exact ⟨rfl, le_rfl, by dsimp only; omega⟩
  · exact ⟨rfl, hleft, by omega⟩

/-- What is drawn in the box and read in the string is safe. -/
theorem Safe.of_drawn (h : Safe B str s) {c : Cell} (hc : c.Inside B.cell) {cs rs : List ℕ}
    (hcs : ∀ chr ∈ cs, 32 ≤ chr ∧ chr ≤ 126) (hrs : ∀ i ∈ rs, i ≤ str.len)
    (hpoints : ∀ q ∈ s'.screen.points, q ∈ s.screen.points ∨ c.Holds q)
    (hcells : s'.screen.cells = s.screen.cells ++ [c])
    (hchars : s'.screen.chars = s.screen.chars ++ cs) (hreads : s'.reads = s.reads ++ rs) :
    Safe B str s' where
  reads i hi := by
    rw [hreads] at hi
    exact (List.mem_append.mp hi).elim (h.reads i) (hrs i)
  chars chr hchr := by
    rw [hchars] at hchr
    exact (List.mem_append.mp hchr).elim (h.chars chr) (hcs chr)
  cells c' hc' := by
    rw [hcells] at hc'
    refine (List.mem_append.mp hc').elim (h.cells c') fun hlast => ?_
    rwa [List.mem_singleton.mp hlast]
  points q hq := (hpoints q hq).elim (h.points q) fun hin => hc.holds hin

/-- What is read in the string is safe. -/
theorem Safe.of_read (h : Safe B str s) {rs : List ℕ} (hrs : ∀ i ∈ rs, i ≤ str.len)
    (hscreen : s'.screen = s.screen) (hreads : s'.reads = s.reads ++ rs) : Safe B str s' where
  reads i hi := by
    rw [hreads] at hi
    exact (List.mem_append.mp hi).elim (h.reads i) (hrs i)
  chars := hscreen ▸ h.chars
  cells := hscreen ▸ h.cells
  points := hscreen ▸ h.points

/-- The box is large enough for a character, and its edges have 16 bits. -/
structure TextBox.Fits (B : TextBox) : Prop where
  width : B.size ≤ B.width
  height : B.size ≤ B.height
  right : B.x + B.width < 2 ^ 16
  bottom : B.y + B.height < 2 ^ 16

/-- A single byte: shown in the box, or below it, or at the end of a line. -/
theorem showByte_good (hB : B.Fits) (h : Running B str a s) {chr : ℕ} (hlt : a.pstr < str.len)
    (hproper : ¬ Below B (breakLine B (B.size / 2) a) → (chr = 13 → a.pstr + 1 < str.len) ∧
      (chr ≠ 13 → Supported B.size → (32 ≤ chr ∧ chr ≤ 126) ∧
        B.y ≤ (breakLine B (B.size / 2) a).y)) :
    ((showByte D asc2 B chr a).val s).Holds
      (fun y => Running B str y ((showByte D asc2 B chr a).state s))
      fun _ => Safe B str ((showByte D asc2 B chr a).state s) := by
  have hfits := hB.bottom
  have hedge := hB.right
  have hwidth := hB.width
  have hhalf : B.size / 2 ≤ B.width := by omega
  obtain ⟨hpstr, hleft, hright⟩ := breakLine_spec hhalf h.left
  rw [showByte]
  set b := breakLine B (B.size / 2) a
  by_cases hbelow : Below B b
  · rw [if_pos hbelow]
    exact h.safe
  · rw [if_neg hbelow]
    obtain ⟨hcr, hshown⟩ := hproper hbelow
    have hrow : b.y + B.size ≤ B.y + B.height := Nat.le_of_not_lt hbelow
    have hx : (b.x + B.size / 2) % 2 ^ 16 = b.x + B.size / 2 := Nat.mod_eq_of_lt (by omega)
    have hx' : (B.x + B.size / 2) % 2 ^ 16 = B.x + B.size / 2 := Nat.mod_eq_of_lt (by omega)
    by_cases hret : chr = 13
    · rw [if_pos hret]
      have hend := hcr hret
      exact ⟨h.safe, by dsimp only; omega, by dsimp only; omega, by dsimp only; omega⟩
    · rw [if_neg hret]
      have hnext : ∀ t, Safe B str t →
          Running B str ⟨b.pstr + 1, (b.x + B.size / 2) % 2 ^ 16, b.y, false⟩ t := fun t ht =>
        ⟨ht, by dsimp only; omega, by dsimp only; omega, by dsimp only; omega⟩
      refine hnext _ ?_
      simp only [Prog.state_bind, Prog.state_pure]
      have hend : b.y + B.size < 2 ^ 16 := by omega
      have hcol : b.x + B.size / 2 < 2 ^ 16 := by omega
      rcases lcdShowChar_spec D asc2 chr B.mode B.color hend hcol s.screen with
        ⟨hsame, -⟩ | ⟨hsize, hdrawn⟩
      · exact h.safe.of_read (List.forall_mem_nil _) hsame (List.append_nil _).symm
      · obtain ⟨htable, htop⟩ := hshown hret hsize
        exact h.safe.of_drawn (c := ⟨b.x, b.y, B.size / 2, B.size⟩)
          ⟨⟨hleft, hright⟩, htop, hrow⟩ (List.forall_mem_singleton.mpr htable)
          (List.forall_mem_nil _) hdrawn.points hdrawn.cells hdrawn.chars (List.append_nil _).symm

theorem state_lookCode (i : ℕ) (s : Panel) :
    (lookCode str i).state s = { s with reads := s.reads ++ [i, i + 1] } := by
  simp only [lookCode, Prog.state_bind, Prog.state_pure]
  simp only [Prog.state, look, List.append_assoc, List.singleton_append]

/-- A character of two bytes: shown in the box, or below it. -/
theorem showPair_good (hB : B.Fits) (h : Running B str a s)
    (hproper : ¬ Below B (breakLine B B.size a) → a.pstr + 1 < str.len ∧
      (Drawn L B s → B.y ≤ (breakLine B B.size a).y)) :
    ((showPair L P ft D B str a).val s).Holds
      (fun y => Running B str y ((showPair L P ft D B str a).state s))
      fun _ => Safe B str ((showPair L P ft D B str a).state s) := by
  have hfits := hB.bottom
  have hedge := hB.right
  obtain ⟨hpstr, hleft, hright⟩ := breakLine_spec hB.width h.left
  rw [showPair]
  set b := breakLine B B.size a
  by_cases hbelow : Below B b
  · rw [if_pos hbelow]
    exact h.safe
  · rw [if_neg hbelow]
    obtain ⟨hend, htop⟩ := hproper hbelow
    have hrow : b.y + B.size ≤ B.y + B.height := Nat.le_of_not_lt hbelow
    have hx : (b.x + B.size) % 2 ^ 16 = b.x + B.size := Nat.mod_eq_of_lt (by omega)
    have hnext : ∀ t, Safe B str t →
        Running B str ⟨b.pstr + 2, (b.x + B.size) % 2 ^ 16, b.y, false⟩ t := fun t ht =>
      ⟨ht, by dsimp only; omega, by dsimp only; omega, by dsimp only; omega⟩
    refine hnext _ ?_
    simp only [Prog.state_bind, Prog.state_pure]
    have hlast : b.y + B.size < 2 ^ 16 := by omega
    have hcol : b.x + B.size < 2 ^ 16 := by omega
    have hreads : ∀ i ∈ [b.pstr, b.pstr + 1], i ≤ str.len := by
      intro i hi
      simp only [List.mem_cons, List.not_mem_nil, or_false] at hi
      omega
    rcases screen_textShowFont L P ft D hlast hcol (state_lookCode b.pstr) B.mode B.color s with
      ⟨hdrawn, hin, hlooked⟩ | ⟨-, hsame, hlooked⟩
    · exact h.safe.of_drawn (c := ⟨b.x, b.y, B.size, B.size⟩) ⟨⟨hleft, hright⟩, htop hdrawn, hrow⟩
        (List.forall_mem_nil _) hreads hin.points hin.cells
        (hin.chars.trans (List.append_nil _).symm) hlooked
    · exact h.safe.of_read (List.forall_mem_nil _) hsame (hlooked.trans (List.append_nil _).symm)

/-- A round behind its test of the byte. -/
theorem textRound_apply (i : ℕ) (a : TextLoop) (s : Panel) :
    textRound L P ft D asc2 B str i a s =
      (if str.mem a.pstr = 0 then pure (.exit ())
        else if a.bHz = true then showPair L P ft D B str a
        else if 0x80 < str.mem a.pstr then pure (.next { a with bHz := true })
        else showByte D asc2 B (str.mem a.pstr) a)
      { s with reads := s.reads ++ [a.pstr] } := rfl

/-- A proper round keeps to the string and to the box. -/
theorem textRound_good (hB : B.Fits) (i : ℕ) (hproper : Proper L B str a s)
    (h : Running B str a s) :
    ((textRound L P ft D asc2 B str i a).val s).Holds
      (fun y => Running B str y ((textRound L P ft D asc2 B str i a).state s))
      fun _ => Safe B str ((textRound L P ft D asc2 B str i a).state s) := by
  set t : Panel := { s with reads := s.reads ++ [a.pstr] } with ht
  have hsafe : Safe B str t :=
    h.safe.of_read (List.forall_mem_singleton.mpr h.inString) rfl rfl
  have hrun : Running B str a t := ⟨hsafe, h.inString, h.left, h.right⟩
  rw [Prog.val, Prog.state, textRound_apply, ← ht]
  by_cases hnul : str.mem a.pstr = 0
  · rw [if_pos hnul]
    exact hsafe
  · rw [if_neg hnul]
    have hlt := CString.lt_of_ne h.inString hnul
    have hnext : str.mem (a.pstr + 1) ≠ 0 → a.pstr + 1 < str.len := fun hne =>
      CString.lt_of_ne (a := { a with pstr := a.pstr + 1 }) hlt hne
    obtain ⟨hpair, hbyte⟩ := hproper hnul
    by_cases hHz : a.bHz = true
    · rw [if_pos hHz]
      exact showPair_good hB hrun fun hin =>
        ⟨hnext (hpair hHz hin).1, fun hdrawn => (hpair hHz hin).2 hdrawn⟩
    · rw [if_neg hHz]
      by_cases hlead : 0x80 < str.mem a.pstr
      · rw [if_pos hlead]
        exact ⟨hsafe, h.inString, h.left, h.right⟩
      · rw [if_neg hlead]
        refine showByte_good hB hrun hlt fun hin => ?_
        obtain ⟨hcr, hshown⟩ := hbyte (by simpa using hHz) (Nat.le_of_not_lt hlead) hin
        exact ⟨fun h13 => hnext (hcr h13), hshown⟩

/-! ### Rounds that are not proper -/

theorem maintains_look (i j : ℕ) : (look str j).Maintains fun s => i ∈ s.reads :=
  fun _ h => List.mem_append_left _ h

/-- A round reads the byte it begins at. -/
theorem mem_reads_textRound (j : ℕ) (a : TextLoop) (s : Panel) :
    a.pstr ∈ ((textRound L P ft D asc2 B str j a).state s).reads := by
  set i := a.pstr with hi
  have hdev : ∀ {α : Type} (p : Prog Dev α), (onDev p).Maintains fun s => i ∈ s.reads :=
    fun _ _ h => h
  have hflash : ∀ {α : Type} (p : Prog Nor α), (onFlash p).Maintains fun s => i ∈ s.reads :=
    fun _ _ h => h
  have hscreen : ∀ {α : Type} (p : Prog Screen α), (onScreen p).Maintains fun s => i ∈ s.reads :=
    fun _ _ h => h
  have hlcd : ∀ {α : Type} (p : Prog Screen α), (onLcd p).Maintains fun s => i ∈ s.reads :=
    fun _ _ h => h
  have hmat : ∀ qh ql mat size, (textGetHzMat P ft qh ql mat size).Maintains fun s =>
      i ∈ s.reads := fun qh ql mat size =>
    .ite _ (hdev _) (.ite _ (.bind (hflash _) fun _ => hdev _) (.pure _))
  have hfont : ∀ x y, (textShowFont L P ft D x y (lookCode str a.pstr) B.size B.mode
      B.color).Maintains fun s => i ∈ s.reads := fun x y =>
    .ite _ (.pure _) <| .bind (hdev _) fun dzk => .ite _ (.pure _) <|
      .bind (.bind (maintains_look i _) fun _ => .bind (maintains_look i _) fun _ => .pure _)
        fun code => .bind (hmat _ _ _ _) fun _ => .bind (hscreen _) fun _ =>
          .bind (.loop (fun _ _ => .bind (.get _) fun _ => hlcd _) _ _ _) fun _ => hdev _
  have hpstr : (breakLine B B.size a).pstr = a.pstr := by
    rw [breakLine]
    split <;> rfl
  have hpair : (showPair L P ft D B str a).Maintains fun s => i ∈ s.reads := by
    rw [showPair, hpstr]
    exact .ite _ (.pure _) <| .bind (hfont _ _) fun _ => .pure _
  have hbyte : ∀ chr, (showByte D asc2 B chr a).Maintains fun s => i ∈ s.reads := fun chr =>
    .ite _ (.pure _) <| .ite _ (.pure _) <| .bind (hlcd _) fun _ => .pure _
  rw [Prog.state, textRound_apply]
  exact Prog.Maintains.ite _ (.pure _) (.ite _ hpair (.ite _ (.pure _) (hbyte _))) _
    (List.mem_append_right _ (List.mem_singleton_self _))

/-- A round that goes on behind the end is the end of safety. -/
theorem not_safe_of_past {i : ℕ} {b : TextLoop}
    (hval : (textRound L P ft D asc2 B str i a).val s = .next b) (hpast : str.len < b.pstr) :
    ¬ Safe B str ((Prog.loop (textRound L P ft D asc2 B str) 2 i a).state s) := by
  intro hsafe
  rw [Prog.state_loop_next _ hval, Prog.state_loop_one] at hsafe
  exact absurd (hsafe.reads b.pstr (mem_reads_textRound _ _ _)) (Nat.not_le_of_lt hpast)

/-- A round whose next byte is the end goes on behind it if it goes on by two. -/
theorem CString.past_of_nul (hnul : str.mem (a.pstr + 1) = 0) : str.len < a.pstr + 2 := by
  by_contra hle
  exact str.nonzero (a.pstr + 1) (by omega) hnul

/-- A character of two bytes that is shown safely is not cut off, and not drawn above the
box. -/
theorem pair_proper (hB : B.Fits) (i : ℕ) (h : Running B str a s)
    (hall : ∀ k, Safe B str ((Prog.loop (textRound L P ft D asc2 B str) k i a).state s))
    (hnul : str.mem a.pstr ≠ 0) (hHz : a.bHz = true) (hin : ¬ Below B (breakLine B B.size a)) :
    str.mem (a.pstr + 1) ≠ 0 ∧ (Drawn L B s → B.y ≤ (breakLine B B.size a).y) := by
  have hfits := hB.bottom
  have hedge := hB.right
  obtain ⟨hpstr, -, hright⟩ := breakLine_spec hB.width h.left
  set t : Panel := { s with reads := s.reads ++ [a.pstr] } with ht
  set b := breakLine B B.size a
  have hround : textRound L P ft D asc2 B str i a s =
      (.next ⟨b.pstr + 2, (b.x + B.size) % 2 ^ 16, b.y, false⟩,
        (textShowFont L P ft D b.x b.y (lookCode str b.pstr) B.size B.mode B.color).state t) := by
    rw [textRound_apply, if_neg hnul, if_pos hHz, showPair, if_neg hin]
    rfl
  refine ⟨fun hnext => ?_, fun hdrawn => ?_⟩
  · refine not_safe_of_past (congrArg Prod.fst hround) ?_ (hall 2)
    rw [hpstr]
    exact CString.past_of_nul hnext
  · have hfirst := hall 1
    rw [Prog.state_loop_one, Prog.state, hround] at hfirst
    have hrow := Nat.le_of_not_lt hin
    have hlast : b.y + B.size < 2 ^ 16 := by omega
    have hcol : b.x + B.size < 2 ^ 16 := by omega
    rcases screen_textShowFont L P ft D hlast hcol (state_lookCode b.pstr) B.mode B.color t with
      ⟨-, hin', -⟩ | ⟨hno, -, -⟩
    · refine (hfirst.cells ⟨b.x, b.y, B.size, B.size⟩ ?_).2.1
      rw [hin'.cells]
      exact List.mem_append_right _ (List.mem_singleton_self _)
    · exact absurd hdrawn hno

/-- A single byte that is shown safely is in the tables and not drawn above the box, and a
carriage return is not the last byte. -/
theorem byte_proper (hB : B.Fits) (i : ℕ) (h : Running B str a s)
    (hall : ∀ k, Safe B str ((Prog.loop (textRound L P ft D asc2 B str) k i a).state s))
    (hnul : str.mem a.pstr ≠ 0) (hHz : a.bHz = false) (hlow : str.mem a.pstr ≤ 0x80)
    (hin : ¬ Below B (breakLine B (B.size / 2) a)) :
    (str.mem a.pstr = 13 → str.mem (a.pstr + 1) ≠ 0) ∧
      (str.mem a.pstr ≠ 13 → Supported B.size →
        (32 ≤ str.mem a.pstr ∧ str.mem a.pstr ≤ 126) ∧ B.y ≤ (breakLine B (B.size / 2) a).y) := by
  have hfits := hB.bottom
  have hedge := hB.right
  have hwidth := hB.width
  have hhalf : B.size / 2 ≤ B.width := by omega
  obtain ⟨hpstr, -, hright⟩ := breakLine_spec hhalf h.left
  set t : Panel := { s with reads := s.reads ++ [a.pstr] } with ht
  have hround : textRound L P ft D asc2 B str i a s =
      showByte D asc2 B (str.mem a.pstr) a t := by
    rw [textRound_apply, if_neg hnul, if_neg (by simpa using hHz), if_neg (Nat.not_lt_of_le hlow)]
  rw [showByte] at hround
  set b := breakLine B (B.size / 2) a
  rw [if_neg hin] at hround
  refine ⟨fun hret hnext => ?_, fun hret hsize => ?_⟩
  · rw [if_pos hret] at hround
    refine not_safe_of_past (congrArg Prod.fst hround) ?_ (hall 2)
    dsimp only
    rw [hpstr]
    exact CString.past_of_nul hnext
  · rw [if_neg hret] at hround
    have hshown : ((textRound L P ft D asc2 B str i a).state s) = (onLcd
        (lcdShowChar D asc2 b.x b.y (str.mem a.pstr) B.size B.mode B.color)).state t :=
      congrArg Prod.snd hround
    have hfirst := hall 1
    rw [Prog.state_loop_one, hshown] at hfirst
    have hrow := Nat.le_of_not_lt hin
    have hlast : b.y + B.size < 2 ^ 16 := by omega
    have hcol : b.x + B.size / 2 < 2 ^ 16 := by omega
    rcases lcdShowChar_spec D asc2 (str.mem a.pstr) B.mode B.color hlast hcol t.screen with
      ⟨-, hno⟩ | ⟨-, hdrawn⟩
    · exact absurd hsize hno
    · refine ⟨hfirst.chars _ ?_, (hfirst.cells ⟨b.x, b.y, B.size / 2, B.size⟩ ?_).2.1⟩
      · rw [screen_onLcd, hdrawn.chars]
        exact List.mem_append_right _ (List.mem_singleton_self _)
      · rw [screen_onLcd, hdrawn.cells]
        exact List.mem_append_right _ (List.mem_singleton_self _)

/-- A round that is not proper is the end of safety before long. -/
theorem textRound_bad (hB : B.Fits) (i : ℕ) (h : Running B str a s)
    (hproper : ¬ Proper L B str a s) :
    ∃ k, ¬ Safe B str ((Prog.loop (textRound L P ft D asc2 B str) k i a).state s) := by
  by_contra hall
  push Not at hall
  exact hproper fun hnul => ⟨fun hHz hin => pair_proper hB i h hall hnul hHz hin,
    fun hHz hlow hin => byte_proper hB i h hall hnul hHz hlow hin⟩

end Rounds

theorem running_cleared (B : TextBox) (str : CString) (s : Panel) :
    Running B str ⟨0, B.x, B.y, false⟩ s.cleared :=
  ⟨⟨List.forall_mem_nil _, List.forall_mem_nil _, List.forall_mem_nil _,
    List.forall_mem_nil _⟩, Nat.zero_le _, le_rfl, Nat.le_add_right _ _⟩

/-- A string is shown without a read behind its end, a character outside the tables or a dot
outside the box exactly if every round that is reached is proper. -/
theorem staysInside_iff (hB : B.Fits) (s : Panel) :
    StaysInside L P ft D asc2 B str s ↔
      ∀ fuel, Prog.Rounds (Proper L B str) (textRound L P ft D asc2 B str) fuel 0
        ⟨0, B.x, B.y, false⟩ s.cleared := by
  change (∀ fuel, Safe B str ((Prog.loop (textRound L P ft D asc2 B str) fuel 0
    ⟨0, B.x, B.y, false⟩).state s.cleared)) ↔ _
  refine Prog.loop_safe_iff_rounds (I := Running B str) (fun _ _ h => h.safe)
    (fun j a t hC hI => @textRound_good L P ft D asc2 B str a t hB j hC hI)
    (fun j a t hI hC => @textRound_bad L P ft D asc2 B str a t hB j hI hC) 0 ?_
  exact running_cleared B str s

/-- A box of the size of a small display, and characters of 16 rows. -/
def smallBox : TextBox := ⟨0, 0, 240, 320, 16, 0, 0⟩

theorem smallBox_fits : smallBox.Fits := ⟨by decide, by decide, by decide, by decide⟩

/-- The string of a single byte. -/
def oneByte (chr : ℕ) (h : chr ≠ 0) : CString where
  mem i := if i = 0 then chr else 0
  len := 1
  nul := rfl
  nonzero i hi := by rwa [if_pos (by omega)]

theorem staysInside_letter :
    StaysInside sramLink part25q256 noFonts lcd800 (fun _ _ _ => 0) smallBox
      (oneByte 65 (by decide)) blankPanel ↔
    ∀ fuel, Prog.Rounds (Proper sramLink smallBox (oneByte 65 (by decide)))
      (textRound sramLink part25q256 noFonts lcd800 (fun _ _ _ => 0) smallBox
        (oneByte 65 (by decide))) fuel 0 ⟨0, smallBox.x, smallBox.y, false⟩ blankPanel.cleared :=
  staysInside_iff sramLink part25q256 noFonts lcd800 (fun _ _ _ => 0) smallBox
    (oneByte 65 (by decide)) smallBox_fits blankPanel

/-- Behind a carriage return at its end the string is read on. -/
theorem staysInside_return : ¬ ∀ (L : Link) (P : Part) (ft : FontInfo) (D : Lcddev)
    (asc2 : ℕ → ℕ → ℕ → ℕ) (B : TextBox) (str : CString) (s : Panel), B.Fits →
    StaysInside L P ft D asc2 B str s := by
  intro hall
  have hstays := hall sramLink part25q256 noFonts lcd800 (fun _ _ _ => 0) smallBox
    (oneByte 13 (by decide)) blankPanel smallBox_fits
  obtain ⟨k, hbad⟩ := @textRound_bad sramLink part25q256 noFonts lcd800 (fun _ _ _ => 0) smallBox
    (oneByte 13 (by decide)) _ _ smallBox_fits 0 (running_cleared _ _ blankPanel) fun hproper =>
      ((hproper (by decide)).2 rfl (by decide) (by decide)).1 rfl rfl
  exact hbad (hstays k)

end Apollo.Text
