import Apollo.Ftl.Recover

/-!
# Unused blocks are conserved

On a chip on which nothing fails every move frees the block it came from, in the plane it
went to.  So each plane keeps its number of unused blocks, every logical block stays in
its plane, and a disk that starts with an unused block in each plane never runs out of
them.  Bad blocks may be marked in any way here: the searches look at the first page
alone, and a table that is not rebuilt does not see the second.

## Main definitions

* `Balanced` — what a run conserves.
* `Moved.balanced`, `Programmed.balanced` — the two changes a write makes.
* `planes_conserved` — runs from a successful format.
* `Moved.card_lt` — the copy of an unused block.
-/

namespace Apollo.Ftl
open Lib Nand

variable {B : Board}

/-- `d'` is a state with as many logical blocks as `d`, each in the plane it had, and with as many
unused blocks of each parity. -/
structure Balanced (B : Board) (d d' : Dev) : Prop where
  occupied : Occupied B d'.flash d'.lut d'.validBlocknum
  validBlocknum : d'.validBlocknum = d.validBlocknum
  plane : ∀ l < d.validBlocknum, d'.lut l % 2 = d.lut l % 2
  card : ∀ par, (unusedBlocks B d'.flash par).card = (unusedBlocks B d.flash par).card

theorem Balanced.trans {d d' d'' : Dev} (h : Balanced B d d') (h' : Balanced B d' d'') :
    Balanced B d d'' where
  occupied := h'.occupied
  validBlocknum := h'.validBlocknum.trans h.validBlocknum
  plane := fun l hl => by rw [h'.plane l (by rwa [h.validBlocknum]), h.plane l hl]
  card := fun par => (h'.card par).trans (h.card par)

theorem Balanced.of_agrees {d d' : Dev} (h : Occupied B d.flash d.lut d.validBlocknum)
    (ha : Agrees d d') : Balanced B d d' where
  occupied := by rwa [ha.flash, ha.lut, ha.validBlocknum]
  validBlocknum := ha.validBlocknum
  plane := fun _ _ => by rw [ha.lut]
  card := fun _ => by rw [ha.flash]

/-! ## The two changes -/

/-- Moving a block swaps it with an unused one of its plane. -/
theorem Moved.balanced {d d' : Dev} {l u pageoffset : ℕ} {v : CopyArgs}
    (h : Occupied B d.flash d.lut d.validBlocknum) (hl : l < d.validBlocknum)
    (ht : Target B d.flash (d.lut l) u) (hm : Moved B (d.lut l) u pageoffset v d d') :
    Balanced B d d' := by
  have hsu : d.lut l ≠ u := h.ne_of_blank hl ht.blank
  have hlut : d'.lut = Function.update d.lut l u := by rw [hm.lut, h.replaced_eq hl]
  -- only the source has become unused, only the destination is no longer
  have hblank : ∀ b, Blank B d'.flash b ↔ b = d.lut l ∨ (b ≠ u ∧ Blank B d.flash b) := by
    intro b
    rw [hm.flash]
    by_cases hbs : b = d.lut l
    · rw [hbs]
      exact ⟨fun _ => Or.inl rfl, fun _ => moved_blank⟩
    · by_cases hbu : b = u
      · rw [hbu]
        refine ⟨fun hb => absurd hb (not_blank_moved hsu), fun hb => ?_⟩
        rcases hb with heq | hb
        · exact absurd heq.symm hsu
        · exact absurd rfl hb.1
      · rw [Blank, moved_first hbs hbu]
        exact ⟨fun hb => Or.inr ⟨hbu, hb⟩, fun hb => (hb.resolve_left hbs).2⟩
  refine ⟨?_, hm.validBlocknum, fun l' _ => ?_, fun par => ?_⟩
  · rw [hm.flash, hlut, hm.validBlocknum]
    exact h.moved hl ht.lt ht.blank pageoffset v
  · by_cases hne : l' = l
    · rw [hlut, hne, Function.update_self, ht.parity]
    · rw [hlut, Function.update_of_ne hne]
  · by_cases hpar : par = d.lut l % 2
    · have hmem : u ∈ unusedBlocks B d.flash par := by
        rw [hpar]
        exact mem_unusedBlocks_iff_target.mpr ht
      have hnot : d.lut l ∉ (unusedBlocks B d.flash par).erase u := by
        intro hmem'
        exact h.not_blank hl (mem_unusedBlocks.mp (Finset.mem_of_mem_erase hmem')).2.2
      have hset : unusedBlocks B d'.flash par =
          insert (d.lut l) ((unusedBlocks B d.flash par).erase u) := by
        ext b
        rw [mem_unusedBlocks, hblank, Finset.mem_insert, Finset.mem_erase, mem_unusedBlocks]
        by_cases hbs : b = d.lut l
        · rw [hbs, hpar]
          exact ⟨fun _ => Or.inl rfl, fun _ => ⟨h.lut_lt l hl, rfl, Or.inl rfl⟩⟩
        · tauto
      rw [hset, Finset.card_insert_of_notMem hnot, Finset.card_erase_add_one hmem]
    · congr 1
      ext b
      rw [mem_unusedBlocks, hblank, mem_unusedBlocks]
      have hparity := ht.parity
      by_cases hbs : b = d.lut l
      · rw [hbs]
        exact ⟨fun hb => absurd hb.2.1.symm hpar, fun hb => absurd hb.2.1.symm hpar⟩
      · by_cases hbu : b = u
        · rw [hbu]
          exact ⟨fun hb => absurd (hb.2.1.symm.trans hparity) hpar,
            fun hb => absurd (hb.2.1.symm.trans hparity) hpar⟩
        · tauto

/-- Programming a page of a mapped block: a block in use stays in use. -/
theorem Programmed.balanced {d d' : Dev} {l i : ℕ} {reg : Bytes}
    (h : Occupied B d.flash d.lut d.validBlocknum) (hl : l < d.validBlocknum)
    (hi : i < B.blockPagenum)
    (hp : Programmed B (d.lut l * B.blockPagenum + i) (d.lut l) reg d d') : Balanced B d d' := by
  have hand (q c : ℕ) : ∃ y, d'.flash q c = d.flash q c &&& y := by
    rcases hp.flash with hf | hf
    · exact ⟨_, by rw [hf, andPage_and]⟩
    · exact ⟨_, by rw [hf, markUsed, andPage_and, andPage_and, UInt8.and_assoc]⟩
  have hblank : ∀ b, Blank B d'.flash b ↔ Blank B d.flash b := by
    intro b
    by_cases hbl : b = d.lut l
    · refine iff_of_false (fun hb => ?_) (hbl ▸ h.not_blank hl)
      refine h.not_blank hl fun j hj => ?_
      by_contra hne
      obtain ⟨y, hy⟩ := hand (d.lut l * B.blockPagenum) (B.pageMainsize + j)
      exact and_ne_ff hne y (hy.symm.trans (hbl ▸ hb j hj))
    · rw [Blank, Blank, hp.other hi (by rwa [B.page_div_zero])]
  refine ⟨?_, hp.validBlocknum, fun _ _ => by rw [hp.lut], fun par => ?_⟩
  · rw [hp.lut, hp.validBlocknum]
    exact ⟨h.valid_lt, h.lut_lt, h.injective, fun hl' => by rw [hblank]; exact h.not_blank hl',
      h.lut_invalid⟩
  · congr 1
    ext b
    rw [mem_unusedBlocks, mem_unusedBlocks, hblank]

/-! ## Calls -/

/-- A rewrite conserves the unused blocks, and fails only for want of one. -/
theorem balanced_ftlCopyAndWriteToBlock (hB : B.FaultFree) (fuel colnum : ℕ)
    {l pageoffset : ℕ} (pbuffer : Bytes) (n : ℕ) {d : Dev}
    (h : Occupied B d.flash d.lut d.validBlocknum) (hl : l < d.validBlocknum)
    (hp : pageoffset < B.blockPagenum) :
    let r := ftlCopyAndWriteToBlock B fuel (d.lut l * B.blockPagenum + pageoffset) colnum pbuffer n
    Balanced B d (r.state d) ∧
      ∀ c, r.val d = some c → c ≠ 0 → unusedBlocks B d.flash (d.lut l % 2) = ∅ := by
  rcases ftlCopyAndWriteToBlock_faultFree hB fuel colnum pbuffer n (h.lut_lt l hl)
      (h.not_blank hl) hp with
    ⟨-, hval, hstate⟩ | ⟨hval, hnone, ha⟩ | ⟨u, ht, hval, hm⟩
  · refine ⟨?_, fun c hc => ?_⟩
    · rw [hstate]
      exact .of_agrees h (.refl d)
    · rw [hval] at hc
      cases hc
  · refine ⟨.of_agrees h ha, fun c _ _ => ?_⟩
    rw [Finset.eq_empty_iff_forall_notMem]
    exact fun u hu => hnone u (mem_unusedBlocks_iff_target.mp hu)
  · refine ⟨hm.balanced h hl ht, fun c hc hne => ?_⟩
    rw [hval] at hc
    exact absurd (Option.some.inj hc).symm hne

/-- A round of a sector write conserves the unused blocks, and returns 3 only for want of
one. -/
theorem WriteRound.balanced (hB : B.FaultFree) {fuel sectorno sectorsize sectorcount : ℕ}
    (hs : SectorSize B sectorsize) {v : WriteVars} {d d' : Dev} {out : Flow WriteVars (Option ℕ)}
    (h : Occupied B d.flash d.lut d.validBlocknum)
    (hw : WriteRound B fuel sectorno sectorsize sectorcount v d out d') :
    Balanced B d d' ∧ (out = .exit (some 3) → ∃ par < 2, unusedBlocks B d.flash par = ∅) := by
  have hoff := blockoffset_lt hs sectorno v.i
  have hpage := offset_page_lt B hoff
  cases hw with
  | finished => exact ⟨.of_agrees h (.refl d), fun heq => by cases heq⟩
  | outside _ _ ha => exact ⟨.of_agrees h ha, fun heq => by cases heq⟩
  | unreadable _ _ ha => exact ⟨.of_agrees h ha, fun heq => by cases heq⟩
  | inPlace m _ hl hmap _ hp =>
      exact ⟨hp.balanced h (h.lt_of_lut_lt hl hmap) hpage, fun heq => by cases heq⟩
  | @rewrite m d₁ _ hl hmap htried =>
      have ha : Agrees d d₁ := (htried.agrees hB).1
      have hfirst := Balanced.of_agrees h ha
      have hl₁ : lbnno B sectorno sectorsize v.i < d₁.validBlocknum := by
        rw [ha.validBlocknum]
        exact h.lt_of_lut_lt hl hmap
      have hcopy := balanced_ftlCopyAndWriteToBlock hB fuel
        (blockoffset B sectorno sectorsize v.i % B.pageMainsize) v.pbuffer
        (blockSecs B sectorno sectorsize sectorcount v.i * sectorsize) hfirst.occupied hl₁ hpage
      rw [ha.lut, ha.flash] at hcopy
      refine ⟨hfirst.trans hcopy.1, fun heq => ?_⟩
      refine ⟨d.lut (lbnno B sectorno sectorsize v.i) % 2, by omega, ?_⟩
      cases hval : (roundCopy B fuel sectorno sectorsize sectorcount v d).val d₁ with
      | none =>
          rw [hval] at heq
          cases heq
      | some c =>
          refine hcopy.2 c hval ?_
          intro hc
          rw [hval, hc] at heq
          cases heq

theorem balanced_ftlWriteSectors (hB : B.FaultFree) {sectorsize : ℕ} (hs : SectorSize B sectorsize)
    (fuel : ℕ) (pbuffer : Bytes) (sectorno sectorcount : ℕ) {d : Dev}
    (h : Occupied B d.flash d.lut d.validBlocknum) :
    let r := ftlWriteSectors B fuel pbuffer sectorno sectorsize sectorcount
    Balanced B d (r.state d) ∧
      (r.val d = some 3 → ∃ par < 2, unusedBlocks B d.flash par = ∅) := by
  have hround : ∀ j < fuel, ∀ v t, Balanced B d t →
      ((writeRound B fuel sectorno sectorsize sectorcount v).val t).Holds
        (fun _ => Balanced B d ((writeRound B fuel sectorno sectorsize sectorcount v).state t))
        (fun c => Balanced B d ((writeRound B fuel sectorno sectorsize sectorcount v).state t) ∧
          (c = some 3 → ∃ par < 2, unusedBlocks B d.flash par = ∅)) := by
    intro j _ v t ht
    obtain ⟨hbal, hthree⟩ := (writeRound_cases fuel sectorno sectorsize sectorcount v t
      hB.steady).balanced hB hs ht.occupied
    cases hval : (writeRound B fuel sectorno sectorsize sectorcount v).val t with
    | next w => exact ht.trans hbal
    | exit c =>
        refine ⟨ht.trans hbal, fun hc => ?_⟩
        obtain ⟨par, hpar, hempty⟩ := hthree (by rw [hval, hc])
        refine ⟨par, hpar, ?_⟩
        rw [← Finset.card_eq_zero, ← ht.card par, hempty, Finset.card_empty]
  have hloop := Prog.loop_inv (I := fun _ _ t => Balanced B d t)
    (Q := fun c t => Balanced B d t ∧
      (c = some 3 → ∃ par < 2, unusedBlocks B d.flash par = ∅)) hround (Nat.zero_add _)
    (a := ⟨0, pbuffer, 0xFFFFFFFF⟩) (.of_agrees h (.refl d))
  simp only [ftlWriteSectors, Prog.val_bind, Prog.state_bind]
  revert hloop
  cases (Prog.loop (fun _ => writeRound B fuel sectorno sectorsize sectorcount) fuel 0
      ⟨0, pbuffer, 0xFFFFFFFF⟩).val d with
  | next v => exact fun hx => ⟨hx, fun heq => by cases heq⟩
  | exit c => exact fun hx => hx

theorem CallOn.balanced (hB : B.FaultFree) {d d' : Dev}
    (h : Occupied B d.flash d.lut d.validBlocknum) (hc : CallOn B (OnMapped B) d d') :
    Balanced B d d' := by
  cases hc with
  | write fuel pbuffer sectorno sectorsize sectorcount c hs =>
      exact (balanced_ftlWriteSectors hB hs fuel pbuffer sectorno sectorcount h).1
  | copy fuel page colnum pbuffer n c on =>
      obtain ⟨l, hl, i, hi, rfl⟩ := on
      exact (balanced_ftlCopyAndWriteToBlock hB fuel colnum pbuffer n h hl hi).1

/-- On a chip on which nothing fails, however long a run from a successful format is, whose copies
are of pages of mapped blocks: every logical block stays in its plane, each plane keeps its
number of unused blocks, and if the format left one in each, no sector write returns 3. -/
theorem planes_conserved (hB : B.FaultFree) {d₀ d : Dev} (hformat : (ftlFormat B).val d₀ = 0)
    (hrun : Relation.ReflTransGen (CallOn B (OnMapped B)) ((ftlFormat B).state d₀) d) :
    d.validBlocknum = ((ftlFormat B).state d₀).validBlocknum ∧
    (∀ l < d.validBlocknum, d.lut l % 2 = ((ftlFormat B).state d₀).lut l % 2) ∧
    (∀ par, (unusedBlocks B d.flash par).card =
      (unusedBlocks B ((ftlFormat B).state d₀).flash par).card) ∧
    ((∀ par < 2, (unusedBlocks B ((ftlFormat B).state d₀).flash par).Nonempty) →
      ∀ fuel pbuffer sectorno sectorsize sectorcount, SectorSize B sectorsize →
        (ftlWriteSectors B fuel pbuffer sectorno sectorsize sectorcount).val d ≠ some 3) := by
  have hstart := (ftlFormat_tagged hB.steady hformat).toPlaced.occupied
  have hbal : Balanced B ((ftlFormat B).state d₀) d := by
    induction hrun with
    | refl => exact .of_agrees hstart (.refl _)
    | tail _ hc ih => exact ih.trans (hc.balanced hB ih.occupied)
  refine ⟨hbal.validBlocknum, fun l hl => hbal.plane l (by rwa [← hbal.validBlocknum]), hbal.card,
    ?_⟩
  intro hnonempty fuel pbuffer sectorno sectorsize sectorcount hs hthree
  obtain ⟨par, hpar, hempty⟩ :=
    (balanced_ftlWriteSectors hB hs fuel pbuffer sectorno sectorcount hbal.occupied).2 hthree
  have hcard := hbal.card par
  rw [hempty, Finset.card_empty] at hcard
  exact Finset.card_ne_zero.mpr (hnonempty par hpar) hcard.symm

/-- A new chip has an unused block in each plane after its format, and keeps it. -/
theorem planes_conserved_board512 :
    let d := (ftlWriteSectors board512 2 (fun _ => 0) 0 nandEccSectorSize 1).state
      ((ftlFormat board512).state Dev.blank)
    ∀ fuel pbuffer sectorno sectorsize sectorcount, SectorSize board512 sectorsize →
      (ftlWriteSectors board512 fuel pbuffer sectorno sectorsize sectorcount).val d ≠ some 3 := by
  obtain ⟨hval, hformatted, hvalid, -, hblank⟩ :=
    ftlFormat_blank board512_faultFree.steady board512_faultFree.erases
    board512_total
  have hpos := Nat.lt_of_lt_of_le (by decide : 0 < 100) (hvalid ▸ board512_total)
  have hw := wholeSectors_512 board512
  obtain ⟨hwrite, -⟩ := hformatted.write_first board512_faultFree hw hpos fun _ => 0
  have hcall : CallOn board512 (OnMapped board512) _ _ :=
    .write 2 (fun _ => 0) 0 nandEccSectorSize 1 0 hw.toSectorSize hwrite
  refine (planes_conserved board512_faultFree hval (.tail .refl hcall)).2.2.2 fun par hpar => ?_
  -- the last two blocks have not been numbered
  refine ⟨4094 + par, mem_unusedBlocks.mpr ?_⟩
  have htotal : board512.blockTotalnum = 4096 := rfl
  rw [htotal] at hvalid hblank ⊢
  exact ⟨by omega, by omega, hblank _ (by omega) (by omega)⟩

/-! ## Copies of unused blocks -/

/-- The copy of an unused block uses up another: the copy gets the used mark, and the source is as
unused as before. -/
theorem Moved.card_lt {d d' : Dev} {s u pageoffset : ℕ} {v : CopyArgs} (hs : Blank B d.flash s)
    (ht : Target B d.flash s u) (hsu : s ≠ u) (hm : Moved B s u pageoffset v d d') :
    (unusedBlocks B d'.flash (s % 2)).card < (unusedBlocks B d.flash (s % 2)).card := by
  refine Finset.card_lt_card ((Finset.ssubset_iff_of_subset fun b hb => ?_).mpr
    ⟨u, mem_unusedBlocks_iff_target.mpr ht, fun hu => ?_⟩)
  · obtain ⟨hlt, hpar, hblank⟩ := mem_unusedBlocks.mp hb
    refine mem_unusedBlocks.mpr ⟨hlt, hpar, ?_⟩
    by_cases hbs : b = s
    · rwa [hbs]
    · have hbu : b ≠ u := by
        rintro rfl
        rw [hm.flash] at hblank
        exact not_blank_moved hsu hblank
      rwa [Blank, hm.flash, moved_first hbs hbu] at hblank
  · have hblank := (mem_unusedBlocks.mp hu).2.2
    rw [hm.flash] at hblank
    exact not_blank_moved hsu hblank

/-- On a chip on which nothing fails, the copy of an unused block for which the search finds
another. -/
theorem card_lt_ftlCopyAndWriteToBlock (hB : B.FaultFree) {fuel s : ℕ} (colnum : ℕ)
    (pbuffer : Bytes) (n : ℕ) {d : Dev} (hfuel : fuel ≠ 0) (hs : s < B.blockTotalnum)
    (hblank : Blank B d.flash s)
    (hfind : (ftlFindSamePlaneUnusedBlock B s).val d ≠ s) :
    let r := ftlCopyAndWriteToBlock B fuel (s * B.blockPagenum + 0) colnum pbuffer n
    r.val d = some 0 ∧
      (unusedBlocks B (r.state d).flash (s % 2)).card < (unusedBlocks B d.flash (s % 2)).card := by
  obtain ⟨fuel, rfl⟩ := Nat.exists_eq_succ_of_ne_zero hfuel
  rcases ftlFindSamePlaneUnusedBlock_spec hB.steady.reads s d with ⟨-, hall⟩ | ⟨hlt, hpar, hu⟩
  · exact absurd hblank (hall s hs rfl)
  simp only [ftlCopyAndWriteToBlock, B.page_div _ B.pagenum_pos, B.page_mod _ B.pagenum_pos,
    Prog.val_bind, Prog.state_bind]
  set body : ℕ → CopyArgs → NandM (Flow CopyArgs ℕ) := fun _ => ftlCopyAttempt B s 0 with hbody
  have hstep : _ ∨ _ := ftlCopyAttempt_found hB.steady 0 ⟨colnum, pbuffer, n⟩ hs rfl hlt hpar
    (Ne.symm hfind)
  rcases hstep with ⟨hval, hm⟩ | ⟨i, -, -, hr⟩
  · rw [Prog.val_loop_exit body hval, Prog.state_loop_exit body hval]
    exact ⟨rfl, hm.card_lt hblank ⟨hlt, hpar, hu⟩ (Ne.symm hfind)⟩
  · exact absurd (copyOk_of_faultFree hB _) hr.failed

/-- The copy of a block that is not mapped: on the part of 512 MB, after the format of a new chip,
one of the blocks 4092 and 4094 is copied, and an unused block with an even number has gone. -/
theorem planes_leak_board512 :
    board512.FaultFree ∧ (ftlFormat board512).val Dev.blank = 0 ∧
      ∃ d, CallOn board512 (OnChip board512) ((ftlFormat board512).state Dev.blank) d ∧
        (unusedBlocks board512 d.flash 0).card <
          (unusedBlocks board512 ((ftlFormat board512).state Dev.blank).flash 0).card := by
  obtain ⟨hformat, -, hvalid, -, hblank⟩ :=
    ftlFormat_blank board512_faultFree.steady board512_faultFree.erases board512_total
  revert hvalid hblank
  generalize (ftlFormat board512).state Dev.blank = d₀
  intro hvalid hblank
  have htotal : board512.blockTotalnum = 4096 := rfl
  have hpagenum : board512.blockPagenum = 64 := rfl
  rw [htotal] at hvalid hblank
  -- the search looks at the parity of the block alone, and cannot find both
  have hfind : ∃ s, (s = 4092 ∨ s = 4094) ∧
      (ftlFindSamePlaneUnusedBlock board512 s).val d₀ ≠ s := by
    by_cases h : (ftlFindSamePlaneUnusedBlock board512 4092).val d₀ = 4092
    · refine ⟨4094, Or.inr rfl, ?_⟩
      change (ftlFindSamePlaneUnusedBlock board512 4092).val d₀ ≠ 4094
      omega
    · exact ⟨4092, Or.inl rfl, h⟩
  obtain ⟨s, hs, hfind⟩ := hfind
  obtain ⟨hval, hcard⟩ := card_lt_ftlCopyAndWriteToBlock board512_faultFree 0 (fun _ => 0) 0
    Nat.one_ne_zero (by omega) (hblank s (by omega) (by omega)) hfind
  rw [show s % 2 = 0 by omega] at hcard
  refine ⟨board512_faultFree, hformat, _, .copy _ _ _ _ 0 0 ⟨?_, by decide⟩ (by decide) hval, hcard⟩
  rw [hpagenum, htotal]
  omega

end Apollo.Ftl
