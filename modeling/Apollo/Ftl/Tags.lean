import Apollo.Ftl.Code
import Apollo.Nand.Spec
import Mathlib.Data.Nat.Count

/-!
# Tags and the functions that only read

What the tag of a block says, as predicates of the array, and what the searches and
`ftl_create_lut` make of it.  The rebuilt table is `table`, a scan of the tags.

## Main definitions

* `Blank`, `Good`, `tag`, `Owner` — what a tag says.
* `table`, `Dev.rebuilt` — the table and the state after `ftl_create_lut(1)`.
* `Dev.Agrees` — two states with the same array and table.
* `ftlFindSamePlaneUnusedBlock_spec`, `ftlCreateLut_state`.
-/

namespace Apollo.Ftl
open Lib Nand

/-! ## What a tag says -/

section Tag
variable (B : Board) (f : Flash) (b : ℕ)

/-- The four tag bytes of block `b` are `0xFF`: what the searches take for unused. -/
def Blank : Prop := ∀ j < 4, f (b * B.blockPagenum) (B.pageMainsize + j) = 0xFF

/-- Neither of the first two pages of block `b` carries a bad-block mark. -/
def Good : Prop :=
  f (b * B.blockPagenum) B.pageMainsize = 0xFF ∧ f (b * B.blockPagenum + 1) B.pageMainsize = 0xFF

/-- The logical number in bytes 2 and 3 of the tag. -/
def tag : ℕ :=
  (f (b * B.blockPagenum) (B.pageMainsize + 3)).toNat <<< 8 +
    (f (b * B.blockPagenum) (B.pageMainsize + 2)).toNat

/-- Block `b` enters itself into the table. -/
def Owner : Prop := Good B f b ∧ tag B f b < B.blockTotalnum

instance : Decidable (Blank B f b) := inferInstanceAs (Decidable (∀ j < 4, _))
instance : Decidable (Good B f b) := inferInstanceAs (Decidable (_ ∧ _))
instance : DecidablePred (Good B f) := fun b => inferInstanceAs (Decidable (Good B f b))
instance : DecidablePred (Owner B f) := fun _ => inferInstanceAs (Decidable (_ ∧ _))

end Tag

section Blank
variable {B : Board} {f f' : Flash} {b : ℕ}

/-- A blank block carries the number `0xFFFF`, which no logical block has. -/
theorem Blank.tag_eq (h : Blank B f b) : tag B f b = 0xFFFF := by
  rw [tag, h 2 (by omega), h 3 (by omega)]
  rfl

theorem Blank.not_lt (h : Blank B f b) : ¬ tag B f b < B.blockTotalnum := by
  have hlt := B.total_lt
  rw [h.tag_eq]
  omega

end Blank

/-! ## Searching an unused block -/

/-- `d'` holds the array and the table of `d`; the number of reads, the cursor and the
count of good blocks may differ. -/
structure Agrees (d d' : Dev) : Prop where
  flash : d'.flash = d.flash
  lut : d'.lut = d.lut
  validBlocknum : d'.validBlocknum = d.validBlocknum
  copies : d'.ticks .copyback = d.ticks .copyback
  log : d'.log = d.log

theorem Agrees.refl (d : Dev) : Agrees d d := ⟨rfl, rfl, rfl, rfl, rfl⟩

theorem Agrees.trans {d d' d'' : Dev} (h : Agrees d d') (h' : Agrees d' d'') : Agrees d d'' where
  flash := h'.flash.trans h.flash
  lut := h'.lut.trans h.lut
  validBlocknum := h'.validBlocknum.trans h.validBlocknum
  copies := h'.copies.trans h.copies
  log := h'.log.trans h.log

theorem agrees_reads (d : Dev) (k : ℕ) : Agrees d (d.reads k) :=
  ⟨rfl, rfl, rfl, Dev.ticks_reads_of_ne d k (by decide), rfl⟩

/-- `p` keeps the array and the table. -/
def Quiet {α : Type} (p : NandM α) : Prop := ∀ d, Agrees d (p.state d)

namespace Quiet
variable {α β : Type}

theorem of_readOnly {p : NandM α} (hp : ReadOnly p) : Quiet p := by
  intro d
  obtain ⟨k, hk⟩ := hp d
  rw [hk]
  exact agrees_reads d k

theorem pure (a : α) : Quiet (pure a : NandM α) := of_readOnly (.pure a)

theorem get (f : Dev → α) : Quiet (Prog.get f) := of_readOnly (.get f)

theorem setCurblock (b : ℕ) : Quiet (setCurblock b) := fun _ => ⟨rfl, rfl, rfl, rfl, rfl⟩

theorem bind {p : NandM α} {f : α → NandM β} (hp : Quiet p) (hf : ∀ a, Quiet (f a)) :
    Quiet (p >>= f) := fun d => (hp d).trans (hf _ _)

theorem ite (c : Prop) [Decidable c] {p q : NandM α} (hp : Quiet p) (hq : Quiet q) :
    Quiet (if c then p else q) := by
  split
  · exact hp
  · exact hq

end Quiet

variable {B : Board}

/-- What a tag read puts into a buffer. -/
theorem nandReadspare_tag (hB : B.ReadsOk) (pagenum : ℕ) (pbuffer : Bytes) (d : Dev) {j : ℕ}
    (hj : j < 4) :
    ((nandReadspare B pagenum 0 pbuffer 4).val d).2 j = d.flash pagenum (B.pageMainsize + j) := by
  rw [nandReadspare_spec hB _ _ (by omega) (by omega), overlay_inside (by omega) (by omega)]
  rfl

theorem word_tag_eq_ff (hB : B.ReadsOk) (b : ℕ) (pbuffer : Bytes) (d : Dev) :
    word ((nandReadspare B (b * B.blockPagenum) 0 pbuffer 4).val d).2 0 = 0xFFFFFFFF ↔
      Blank B d.flash b := by
  rw [word_eq_ff]
  refine forall₂_congr fun j hj => ?_
  rw [Nat.mul_zero, Nat.zero_add, nandReadspare_tag hB _ _ _ hj]

theorem readOnly_nandReadspare (pagenum colnum : ℕ) (pbuffer : Bytes) (n : ℕ) :
    ReadOnly (nandReadspare B pagenum colnum pbuffer n) := fun _ => ⟨1, state_nandReadspare ..⟩

theorem readOnly_ftlFindUnusedBlockFrom (flag k : ℕ) (temp : Bytes) :
    ReadOnly (ftlFindUnusedBlockFrom B flag k temp) := by
  induction k generalizing temp with
  | zero => exact .pure _
  | succ k ih =>
      refine .ite _ (.bind (readOnly_nandReadspare _ _ _ _) fun r => ?_) (ih temp)
      exact .ite _ (.pure _) (ih r.2)

/-- Block `u` is the highest unused block of the parity below `k`. -/
structure Nearest (B : Board) (f : Flash) (flag k u : ℕ) : Prop where
  lt : u < k
  parity : u % 2 = flag
  blank : Blank B f u
  above : ∀ b, u < b → b < k → b % 2 = flag → ¬ Blank B f b

theorem Nearest.unique {f : Flash} {flag k u u' : ℕ} (h : Nearest B f flag k u)
    (h' : Nearest B f flag k u') : u = u' := by
  rcases Nat.lt_trichotomy u u' with hlt | heq | hlt
  · exact absurd h'.blank (h.above u' hlt h'.lt h'.parity)
  · exact heq
  · exact absurd h.blank (h'.above u hlt h.lt h.parity)

/-- The search finds the highest unused block of the parity, unless there is none. -/
theorem ftlFindUnusedBlockFrom_spec (hB : B.ReadsOk) (flag k : ℕ) (temp : Bytes) (d : Dev) :
    ((ftlFindUnusedBlockFrom B flag k temp).val d = noBlock ∧
      ∀ b < k, b % 2 = flag → ¬ Blank B d.flash b) ∨
    Nearest B d.flash flag k ((ftlFindUnusedBlockFrom B flag k temp).val d) := by
  induction k generalizing temp d with
  | zero => exact Or.inl ⟨rfl, fun b hb => absurd hb (by omega)⟩
  | succ k ih =>
      simp only [ftlFindUnusedBlockFrom, Prog.val_ite, Prog.val_bind, state_nandReadspare,
        word_tag_eq_ff hB, Prog.val_pure]
      by_cases hpar : k % 2 = flag
      · rw [if_pos hpar]
        by_cases hblank : Blank B d.flash k
        · rw [if_pos hblank]
          exact Or.inr ⟨by omega, hpar, hblank, fun b h₁ h₂ => by omega⟩
        · rw [if_neg hblank]
          have hrest := ih ((nandReadspare B (k * B.blockPagenum) 0 temp 4).val d).2 (d.reads 1)
          rcases hrest with ⟨hval, hnone⟩ | ⟨hlt, hp, hb, habove⟩
          · refine Or.inl ⟨hval, fun b hb hbp => ?_⟩
            by_cases hbk : b = k
            · rwa [hbk]
            · exact hnone b (by omega) hbp
          · refine Or.inr ⟨by omega, hp, hb, fun b h₁ h₂ hbp => ?_⟩
            by_cases hbk : b = k
            · rwa [hbk]
            · exact habove b h₁ (by omega) hbp
      · rw [if_neg hpar]
        have hk : ∀ b, b % 2 = flag → b ≠ k := fun b hbp hbk => hpar (hbk ▸ hbp)
        rcases ih temp d with ⟨hval, hnone⟩ | ⟨hlt, hp, hb, habove⟩
        · refine Or.inl ⟨hval, fun b hb hbp => ?_⟩
          have hbk := hk b hbp
          exact hnone b (by omega) hbp
        · refine Or.inr ⟨by omega, hp, hb, fun b h₁ h₂ hbp => ?_⟩
          have hbk := hk b hbp
          exact habove b h₁ (by omega) hbp

/-- The search from a block of the chip covers the blocks up to it. -/
theorem ftlFindUnusedBlock_spec (hB : B.ReadsOk) {sblock : ℕ} (hs : sblock < B.blockTotalnum)
    (flag : ℕ) (d : Dev) :
    ((ftlFindUnusedBlock B sblock flag).val d = noBlock ∧
      ∀ b ≤ sblock, b % 2 = flag → ¬ Blank B d.flash b) ∨
    Nearest B d.flash flag (sblock + 1) ((ftlFindUnusedBlock B sblock flag).val d) := by
  have hlt := B.total_lt
  have hu : u32 (sblock + 1) = sblock + 1 := by simp only [u32]; omega
  rw [ftlFindUnusedBlock, hu]
  rcases ftlFindUnusedBlockFrom_spec hB flag (sblock + 1) (fun _ => 0) d with
    ⟨hval, hnone⟩ | hfound
  · exact Or.inl ⟨hval, fun b hb => hnone b (by omega)⟩
  · exact Or.inr hfound

theorem quiet_ftlFindUnusedBlock (sblock flag : ℕ) : Quiet (ftlFindUnusedBlock B sblock flag) :=
  .of_readOnly (readOnly_ftlFindUnusedBlockFrom _ _ _)

theorem quiet_ftlFindSamePlaneUnusedBlock (sblock : ℕ) :
    Quiet (ftlFindSamePlaneUnusedBlock B sblock) := by
  refine .bind (.get _) fun curblock => .bind (.setCurblock _) fun _ => ?_
  refine .bind (quiet_ftlFindUnusedBlock _ _) fun unusedblock => .bind (.ite _ ?_ (.pure _)) ?_
  · exact .bind (.setCurblock _) fun _ => quiet_ftlFindUnusedBlock _ _
  · exact fun unusedblock => .ite _ (.pure _) (.bind (.setCurblock _) fun _ => .pure _)

/-- The search of the plane finds an unused block of the parity of `sblock`, unless
there is none on the whole chip; wherever the cursor stands. -/
theorem ftlFindSamePlaneUnusedBlock_spec (hB : B.ReadsOk) (sblock : ℕ) (d : Dev) :
    ((ftlFindSamePlaneUnusedBlock B sblock).val d = noBlock ∧
      ∀ b < B.blockTotalnum, b % 2 = sblock % 2 → ¬ Blank B d.flash b) ∨
    ((ftlFindSamePlaneUnusedBlock B sblock).val d < B.blockTotalnum ∧
      (ftlFindSamePlaneUnusedBlock B sblock).val d % 2 = sblock % 2 ∧
      Blank B d.flash ((ftlFindSamePlaneUnusedBlock B sblock).val d)) := by
  have hpos := B.total_pos
  have htot := B.total_lt
  set last := B.blockTotalnum - 1 with hlast
  set cur := if d.curblock > last then last else d.curblock with hcur
  have hcurlt : cur ≤ last := by rw [hcur]; split <;> omega
  set d₁ := (setCurblock cur).state d with hd₁
  have hf₁ : d₁.flash = d.flash := rfl
  set u₁ := (ftlFindUnusedBlock B cur (sblock % 2)).val d₁ with hu₁
  set d₂ := (setCurblock last).state ((ftlFindUnusedBlock B cur (sblock % 2)).state d₁) with hd₂
  have hf₂ : d₂.flash = d.flash := (quiet_ftlFindUnusedBlock cur (sblock % 2) d₁).flash.trans hf₁
  set u₂ := (ftlFindUnusedBlock B last (sblock % 2)).val d₂ with hu₂
  have hval : (ftlFindSamePlaneUnusedBlock B sblock).val d =
      if u₁ = noBlock ∧ cur < last then u₂ else u₁ := by
    simp only [ftlFindSamePlaneUnusedBlock, Prog.val_bind, Prog.val_get, Prog.state_get,
      Prog.val_ite, Prog.val_pure, ← hlast, ← hcur, ← hd₁, ← hu₁, ← hd₂, ← hu₂]
    by_cases hu : (if u₁ = noBlock ∧ cur < last then u₂ else u₁) = noBlock
    · rw [if_pos hu, hu]
    · rw [if_neg hu]
  rw [hval]
  have hfirst := ftlFindUnusedBlock_spec hB (show cur < B.blockTotalnum by omega) (sblock % 2) d₁
  have hsecond := ftlFindUnusedBlock_spec hB (show last < B.blockTotalnum by omega) (sblock % 2) d₂
  rw [← hu₁, hf₁] at hfirst
  rw [← hu₂, hf₂] at hsecond
  rcases hfirst with ⟨hnone, hbelow⟩ | hfound
  · by_cases hwrap : cur < last
    · rw [if_pos ⟨hnone, hwrap⟩]
      rcases hsecond with ⟨hnone', hall⟩ | hfound
      · exact Or.inl ⟨hnone', fun b hb => hall b (by omega)⟩
      · have hlt := hfound.lt
        exact Or.inr ⟨by omega, hfound.parity, hfound.blank⟩
    · rw [if_neg fun h => hwrap h.2]
      exact Or.inl ⟨hnone, fun b hb => hbelow b (by omega)⟩
  · have hlt := hfound.lt
    have hne : u₁ ≠ noBlock := by simp only [noBlock]; omega
    rw [if_neg fun h => hne h.1]
    exact Or.inr ⟨by omega, hfound.parity, hfound.blank⟩

/-! ## Rebuilding the table -/

/-- The table that `ftl_create_lut(1)` builds from the tags over what the table array
held before. -/
def table (B : Board) (f : Flash) (lut : ℕ → ℕ) : ℕ → ℕ :=
  rebuild (Owner B f) (tag B f) (overlay lut 0 (fun _ => 0xFFFF) B.blockTotalnum) B.blockTotalnum

/-- How many logical blocks a table has: its first invalid entry. -/
def validOf (B : Board) (lut : ℕ → ℕ) : Option ℕ :=
  firstEntry B.blockTotalnum fun i => B.blockTotalnum ≤ lut i

/-- `d'` is `d` after `ftl_create_lut(1)`. -/
structure Rebuilt (B : Board) (d d' : Dev) : Prop where
  flash : d'.flash = d.flash
  lut : d'.lut = table B d.flash d.lut
  goodBlocknum : d'.goodBlocknum = Nat.count (Good B d.flash) B.blockTotalnum
  validBlocknum : d'.validBlocknum = (validOf B d'.lut).getD d.validBlocknum
  copies : d'.ticks .copyback = d.ticks .copyback
  log : d'.log = d.log

/-- The state in which the scan of `ftl_create_lut(1)` has passed the blocks below `j`. -/
structure Scanned (B : Board) (d : Dev) (init : ℕ → ℕ) (j : ℕ) (d' : Dev) : Prop where
  flash : d'.flash = d.flash
  lut : d'.lut = rebuild (Owner B d.flash) (tag B d.flash) init j
  goodBlocknum : d'.goodBlocknum = Nat.count (Good B d.flash) j
  validBlocknum : d'.validBlocknum = d.validBlocknum
  copies : d'.ticks .copyback = d.ticks .copyback
  log : d'.log = d.log

/-- One round of the scan: a good block is counted, and enters itself under its number. -/
theorem scanBlock_state (hB : B.ReadsOk) (i : ℕ) (buf : Bytes) (d : Dev) :
    ∃ k, (scanBlock B 1 i buf).state d =
      if Good B d.flash i then { d.reads k with
        lut := if tag B d.flash i < B.blockTotalnum then
          Function.update d.lut (tag B d.flash i) i else d.lut
        goodBlocknum := d.goodBlocknum + 1 } else d.reads k := by
  set buf₁ := ((nandReadspare B (i * B.blockPagenum) 0 buf 4).val d).2 with hbuf₁
  have h₁ : ∀ j < 4, buf₁ j = d.flash (i * B.blockPagenum) (B.pageMainsize + j) :=
    fun j hj => nandReadspare_tag hB _ _ _ hj
  have htag₁ : (buf₁ 3).toNat <<< 8 + (buf₁ 2).toNat = tag B d.flash i := by
    rw [h₁ 3 (by omega), h₁ 2 (by omega), tag]
  by_cases hfirst : buf₁ 0 = 0xFF
  · -- the second read replaces byte 0 only
    set buf₂ := ((nandReadspare B (i * B.blockPagenum + 1) 0 buf₁ 1).val (d.reads 1)).2 with hbuf₂
    have h₂ : buf₂ = overlay buf₁ 0 (shift (d.flash (i * B.blockPagenum + 1)) B.pageMainsize) 1 :=
      nandReadspare_spec hB _ _ (by omega) (by omega) _
    have hzero : buf₂ 0 = d.flash (i * B.blockPagenum + 1) B.pageMainsize := by
      rw [h₂, overlay_inside (by omega) (by omega)]
      rfl
    have hgood : buf₂ 0 = 0xFF ↔ Good B d.flash i := by
      rw [hzero, Good, ← Nat.add_zero B.pageMainsize, ← h₁ 0 (by omega)]
      exact ⟨fun h => ⟨hfirst, h⟩, fun h => h.2⟩
    have htag₂ : (buf₂ 3).toNat <<< 8 + (buf₂ 2).toNat = tag B d.flash i := by
      rw [h₂, overlay_after (by omega), overlay_after (by omega), htag₁]
    refine ⟨2, ?_⟩
    simp only [scanBlock, Prog.state_bind, Prog.val_bind, state_nandReadspare, Prog.state_ite,
      Prog.state_pure, Prog.val_pure, ← hbuf₁, hfirst, ← hbuf₂, ne_eq, not_false_eq_true, and_self,
      if_true, Prog.state_modify, hgood, htag₂, one_ne_zero, Dev.reads_reads]
    rfl
  · have hbad : ¬ Good B d.flash i := by
      intro h
      apply hfirst
      rw [h₁ 0 (by omega)]
      exact h.1
    refine ⟨1, ?_⟩
    simp only [scanBlock, Prog.state_bind, state_nandReadspare, Prog.state_pure, Prog.val_pure,
      ← hbuf₁, hfirst, false_and, if_false, hbad]

theorem Scanned.round (hB : B.ReadsOk) {d d' : Dev} {init : ℕ → ℕ} {j : ℕ} (buf : Bytes)
    (h : Scanned B d init j d') : Scanned B d init (j + 1) ((scanBlock B 1 j buf).state d') := by
  obtain ⟨k, hstate⟩ := scanBlock_state hB j buf d'
  rw [hstate, h.flash]
  have hticks : (d'.reads k).ticks .copyback = d.ticks .copyback := by
    rw [Dev.ticks_reads_of_ne _ _ (by decide), h.copies]
  by_cases hgood : Good B d.flash j
  · rw [if_pos hgood]
    refine ⟨h.flash, ?_, ?_, h.validBlocknum, hticks, h.log⟩
    · rw [rebuild, h.lut]
      by_cases htag : tag B d.flash j < B.blockTotalnum
      · rw [if_pos htag, if_pos (show Owner B d.flash j from ⟨hgood, htag⟩)]
      · rw [if_neg htag, if_neg (fun h : Owner B d.flash j => htag h.2)]
    · rw [Nat.count_succ, if_pos hgood, h.goodBlocknum]
  · rw [if_neg hgood]
    refine ⟨h.flash, ?_, ?_, h.validBlocknum, hticks, h.log⟩
    · rw [Dev.lut_reads, rebuild, h.lut, if_neg (fun h : Owner B d.flash j => hgood h.1)]
    · rw [Dev.goodBlocknum_reads, Nat.count_succ, if_neg hgood, h.goodBlocknum, Nat.add_zero]

/-- `ftl_create_lut(1)` rebuilds the table from the tags and changes nothing else. -/
theorem ftlCreateLut_state (hB : B.ReadsOk) (d : Dev) :
    Rebuilt B d ((ftlCreateLut B 1).state d) := by
  set init := overlay d.lut 0 (fun _ => 0xFFFF) B.blockTotalnum with hinit
  have hstart : Scanned B d init 0 ((resetLut B).state d) :=
    ⟨rfl, rfl, rfl, rfl, rfl, rfl⟩
  have hround : ∀ j < B.blockTotalnum, ∀ buf t, Scanned B d init j t →
      Scanned B d init (j + 1) ((scanBlock B 1 j buf).state t) :=
    fun j _ buf t ht => ht.round hB buf
  have hscan := Prog.forUp_inv (I := fun j _ t => Scanned B d init j t) hround (Nat.zero_add _)
    (a := B.uninit) hstart
  simp only [ftlCreateLut, Prog.state_bind, Prog.val_get, Prog.state_get, Prog.state_ite,
    Prog.state_pure, ite_self]
  exact ⟨hscan.flash, hscan.lut, hscan.goodBlocknum,
    congrArg (fun v => (validOf B _).getD v) hscan.validBlocknum, hscan.copies, hscan.log⟩

/-- It returns 0 when the table has at least 100 logical blocks. -/
theorem ftlCreateLut_val (mode : ℕ) (d : Dev) :
    (ftlCreateLut B mode).val d =
      if ((ftlCreateLut B mode).state d).validBlocknum < 100 then 2 else 0 := by
  simp only [ftlCreateLut, Prog.val_bind, Prog.state_bind, Prog.val_get, Prog.state_get,
    Prog.val_ite, Prog.state_ite, Prog.val_pure, Prog.state_pure, ite_self]

end Apollo.Ftl
