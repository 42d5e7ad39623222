import Apollo.Usmart.RoundTrip
import Mathlib.Data.List.DropRight

/-!
# Prototypes

The table of functions holds their prototypes, and `usmart_get_fname` reads each in three passes:
the type in front of the name, where the name begins, and the name with the parameters behind it.
The first and the last of these put their characters together without the blanks between them, and
so take `vo id` for `void`.

## Main definitions

* `Prototype` — a prototype; `Prototype.text` — its text.
* `Prototype.Parsed` — `usmart_get_fname` finds its name, its parameters and what it returns.
* `nonblank`, `Prototype.TypeSplit`, `Prototype.ParmSplit` — where a blank splits `void`.
* `prototype_parsed_iff` — a prototype is read as it is meant exactly when no blank does.
-/

namespace Apollo.Usmart

/-! ## Blanks -/

/-- The characters but the blanks. -/
def nonblank (s : List UInt8) : List UInt8 := s.filter (· ≠ ch ' ')

/-- Blanks only. -/
def IsBlank (s : List UInt8) : Prop := ∀ c ∈ s, c = ch ' '

instance : DecidablePred IsBlank := fun _ => inferInstanceAs (Decidable (∀ _ ∈ _, _))

/-- A text without the blanks on both sides. -/
def trim (s : List UInt8) : List UInt8 := (s.dropWhile (· = ch ' ')).rdropWhile (· = ch ' ')

section
variable {s t : List UInt8} {c : UInt8}

theorem nonblank_append (s t : List UInt8) : nonblank (s ++ t) = nonblank s ++ nonblank t :=
  List.filter_append _ _

theorem nonblank_blank (s : List UInt8) : nonblank (ch ' ' :: s) = nonblank s :=
  List.filter_cons_of_neg (by decide)

theorem nonblank_cons (h : c ≠ ch ' ') (s : List UInt8) : nonblank (c :: s) = c :: nonblank s :=
  List.filter_cons_of_pos (by simpa using h)

theorem nonblank_eq_nil : nonblank s = [] ↔ IsBlank s := by
  rw [nonblank, List.filter_eq_nil_iff]
  simp only [ne_eq, decide_not, Bool.not_eq_true', Bool.not_eq_false, decide_eq_true_eq, IsBlank]

/-- The other characters of a text are those of the text without the blanks on its sides. -/
theorem nonblank_trim (s : List UInt8) : nonblank (trim s) = nonblank s := by
  have hright (t : List UInt8) : nonblank (t.rdropWhile (· = ch ' ')) = nonblank t := by
    have hblank : IsBlank (t.rtakeWhile (· = ch ' ')) := fun c hc => by
      simpa using List.mem_rtakeWhile_imp hc
    conv_rhs => rw [← List.rdropWhile_append_rtakeWhile (p := (· = ch ' ')) (l := t)]
    rw [nonblank_append, nonblank_eq_nil.mpr hblank, List.append_nil]
  have hblank : IsBlank (s.takeWhile (· = ch ' ')) := fun c hc => by
    simpa using List.all_eq_true.mp List.all_takeWhile c hc
  rw [trim, hright]
  conv_rhs => rw [← List.takeWhile_append_dropWhile (p := (· = ch ' ')) (l := s)]
  rw [nonblank_append, nonblank_eq_nil.mpr hblank, List.nil_append]

end

/-! ## Prototypes -/

/-- A letter, a digit or an underscore. -/
def IsWord (c : UInt8) : Prop :=
  (ch 'a' ≤ c ∧ c ≤ ch 'z') ∨ (ch 'A' ≤ c ∧ c ≤ ch 'Z') ∨ (ch '0' ≤ c ∧ c ≤ ch '9') ∨ c = ch '_'

instance : DecidablePred IsWord := fun _ => inferInstanceAs (Decidable (_ ∨ _))

/-- What a parameter is made of. -/
def InParm (c : UInt8) : Prop :=
  ch ' ' ≤ c ∧ c ≠ ch '(' ∧ c ≠ ch ')' ∧ c ≠ ch ',' ∧ c ≠ ch '"'

instance : DecidablePred InParm := fun _ => inferInstanceAs (Decidable (_ ∧ _))

/-- `void`, with blanks around it at most. -/
def IsVoid (s : List UInt8) : Prop := trim s = text "void"

instance : DecidablePred IsVoid := fun _ => inferInstanceAs (Decidable (_ = _))

/-- The type is `void` and then a star. -/
def StarsVoid (type : List UInt8) : Prop :=
  ∃ blanks, IsBlank blanks ∧ text "void" ++ blanks ++ [ch '*'] <+: type

/-- A prototype: `ret`, then blanks and stars, the name, and the parameters between parentheses,
which commas separate.  Blanks are the only white space.  A prototype without parameters has none
of them, or one that is blank. -/
structure Prototype where
  ret : List UInt8
  gap : List UInt8
  name : List UInt8
  blanks : List UInt8
  parms : List (List UInt8)
  ret_chars : ∀ c ∈ ret, IsWord c ∨ c = ch ' ' ∨ c = ch '*'
  ret_head : ∃ c, ret.head? = some c ∧ IsWord c
  ret_last : ∃ c, ret.getLast? = some c ∧ IsWord c
  gap_ne : gap ≠ []
  gap_chars : ∀ c ∈ gap, c = ch ' ' ∨ c = ch '*'
  name_ne : name ≠ []
  name_chars : ∀ c ∈ name, IsWord c
  name_length : name.length ≤ 29
  blanks_chars : IsBlank blanks
  parms_chars : ∀ p ∈ parms, ∀ c ∈ p, InParm c
  parms_blank : 2 ≤ parms.length → ∀ p ∈ parms, ¬ IsBlank p
  /-- The type is `void` itself, or does not begin with it, or has a star behind it. -/
  type : ret = text "void" ∨ ¬ text "void" <+: ret ∨ StarsVoid ret
  /-- No counter of characters wraps. -/
  short : (ret ++ gap ++ name ++ blanks ++
    ch '(' :: ([ch ','].intercalate parms ++ [ch ')'])).length < 250

namespace Prototype
variable (p : Prototype)

/-- The prototype as a string. -/
def text : List UInt8 :=
  p.ret ++ p.gap ++ p.name ++ p.blanks ++ ch '(' :: ([ch ','].intercalate p.parms ++ [ch ')'])

/-- Nothing is returned. -/
def PlainVoid : Prop := p.ret = Usmart.text "void" ∧ ch '*' ∉ p.gap

/-- How many parameters there are. -/
def parmCount : ℕ :=
  match p.parms with
  | [] => 0
  | [q] => if IsBlank q ∨ IsVoid q then 0 else 1
  | ps => ps.length

/-- `usmart_get_fname` succeeds with the name, the number of parameters, and `*rval` that is `0`
for plain `void` only. -/
def Parsed : Prop :=
  ∃ rval, usmartGetFname maxFnameLen p.text = .ok ⟨usmartOk, p.name, p.parmCount, some rval⟩ ∧
    (rval = 0 ↔ p.PlainVoid)

/-- The type does not begin with `void`, but the prototype does when its blanks are left out. -/
def TypeSplit : Prop :=
  ¬ Usmart.text "void" <+: p.ret ∧ Usmart.text "void" <+: nonblank p.text ∧
    (nonblank p.text)[4]? ≠ some (ch '*')

/-- The only parameter is not `void`, but is when its blanks are left out. -/
def ParmSplit : Prop := ∃ q, p.parms = [q] ∧ ¬ IsVoid q ∧ nonblank q = Usmart.text "void"

end Prototype

/-! ## The type in front of the name -/

/-- What is recorded of the characters in front of the name: five if the fifth is a star, else
four. -/
def recorded (s : List UInt8) : List UInt8 := if s[4]? = some (ch '*') then s.take 5 else s.take 4

/-- Once five characters are recorded the loop ends. -/
theorem typeLoop_five (str : List UInt8) {w : List UInt8} (h : w.length = 5) :
    typeLoop str (0x80 + w.length) w = (0x80 + w.length, w) := by
  rw [h]
  cases str with
  | nil => rfl
  | cons c str =>
      rw [typeLoop, if_neg fun hc => absurd hc.2 (by decide)]
      exact if_pos rfl

/-- The loop records what is not blank. -/
theorem typeLoop_recorded (str : List UInt8) {w : List UInt8} (hw : w ≠ []) (hlen : w.length ≤ 4) :
    typeLoop str (0x80 + w.length) w =
      (0x80 + (recorded (w ++ nonblank str)).length, recorded (w ++ nonblank str)) := by
  induction str generalizing w with
  | nil =>
      have hnone : w[4]? ≠ some (ch '*') := by
        rw [List.getElem?_eq_none hlen]
        exact Option.some_ne_none _ |>.symm
      rw [nonblank, List.filter_nil, List.append_nil, recorded, if_neg hnone,
        List.take_of_length_le hlen]
      rfl
  | cons c str ih =>
      have hpos := List.length_pos_of_ne_nil hw
      have hmod : (0x80 + w.length) % 128 = w.length := by omega
      rw [typeLoop]
      by_cases hblank : c = ch ' '
      · rw [if_neg fun h => h.1 hblank, if_neg (by omega), hblank, nonblank_blank]
        exact ih hw hlen
      · have hset : ¬ 0x80 + w.length = 0 := by omega
        rw [if_pos ⟨hblank, by omega⟩, if_neg hset, nonblank_cons hblank]
        dsimp only
        rw [hmod]
        by_cases hfour : w.length = 4
        · have hfifth : (w ++ c :: nonblank str)[4]? = some c := by
            rw [List.getElem?_append_right (by omega), hfour]
            rfl
          rw [recorded, hfifth]
          by_cases hstar : c = ch '*'
          · have hfive : (w ++ c :: nonblank str).take 5 = w ++ [c] := by
              rw [List.take_append, hfour, List.take_of_length_le (by omega)]
              rfl
            have hlast := typeLoop_five str (w := w ++ [c]) (by simp [hfour])
            rw [if_neg fun h => h.2 hstar, if_pos (congrArg some hstar), hfive, ← hlast]
            simp [Nat.add_assoc]
          · have htake : (w ++ c :: nonblank str).take 4 = w := by
              rw [List.take_append, hfour, List.take_of_length_le (by omega)]
              exact List.append_nil w
            rw [if_pos ⟨hfour, hstar⟩, if_neg fun h => hstar (Option.some.inj h), htake]
        · have hnext := ih (w := w ++ [c]) (by simp) (by simp; omega)
          rw [List.append_assoc, List.singleton_append] at hnext
          rw [if_neg fun h => hfour h.1, ← hnext]
          simp [Nat.add_assoc]

/-- `*rval` is `0` when what is recorded is `void`. -/
theorem returnsValue_eq {str : List UInt8} (h : nonblank str ≠ []) :
    returnsValue str = some (if recorded (nonblank str) = text "void" then 0 else 1) := by
  have hloop : typeLoop str 0 [] =
      (0x80 + (recorded (nonblank str)).length, recorded (nonblank str)) := by
    induction str with
    | nil => exact absurd rfl h
    | cons c str ih =>
        rw [typeLoop]
        by_cases hblank : c = ch ' '
        · subst hblank
          rw [nonblank_blank] at h ⊢
          rw [if_neg fun h => h.1 rfl]
          exact ih h
        · rw [if_pos ⟨hblank, by decide⟩, nonblank_cons hblank]
          exact typeLoop_recorded str (List.cons_ne_nil c []) (by simp)
  rw [returnsValue, hloop]
  simp only [usmartStrcmp_eq_zero]
  exact if_neg (by omega)

/-- What is recorded is `void` when the characters begin with it, and no star follows. -/
theorem recorded_void {s : List UInt8} :
    recorded s = text "void" ↔ text "void" <+: s ∧ s[4]? ≠ some (ch '*') := by
  have hvoid : (text "void").length = 4 := by decide +kernel
  rw [recorded]
  by_cases hstar : s[4]? = some (ch '*')
  · rw [if_pos hstar]
    refine iff_of_false (fun h => ?_) fun h => h.2 hstar
    have hlen := congrArg List.length h
    have hlong := (List.getElem?_eq_some_iff.mp hstar).1
    rw [List.length_take, hvoid] at hlen
    omega
  · rw [if_neg hstar, List.prefix_iff_eq_take, hvoid, and_iff_left hstar]
    exact eq_comm

theorem IsWord.plain {c : UInt8} (h : IsWord c) : Plain c := by
  refine ⟨?_, ?_, ?_, ?_, ?_, ?_⟩
  all_goals
    rintro rfl
    revert h
    decide

theorem nonblank_void : nonblank (text "void") = text "void" := by decide +kernel

theorem length_void : (text "void").length = 4 := by decide +kernel

/-- What stands behind `void`. -/
theorem void_append (s : List UInt8) :
    text "void" <+: text "void" ++ s ∧ (text "void" ++ s)[4]? = s.head? := by
  refine ⟨List.prefix_append _ _, ?_⟩
  rw [List.getElem?_append_right length_void.le, length_void, List.head?_eq_getElem?]

/-- What is not blank in a text of blanks and stars. -/
theorem nonblank_gap {gap : List UInt8} (h : ∀ c ∈ gap, c = ch ' ' ∨ c = ch '*')
    (hstar : ch '*' ∈ gap) : (nonblank gap).head? = some (ch '*') := by
  induction gap with
  | nil => exact absurd hstar List.not_mem_nil
  | cons c gap ih =>
      rcases h c List.mem_cons_self with rfl | rfl
      · rw [nonblank_blank]
        refine ih (fun d hd => h d (List.mem_cons_of_mem _ hd)) ?_
        exact (List.mem_cons.mp hstar).resolve_left (by decide)
      · rw [nonblank_cons (by decide)]
        rfl

namespace Prototype
variable (p : Prototype)

/-- The prototype behind its type. -/
def rest : List UInt8 := p.name ++ p.blanks ++
  ch '(' :: ([ch ','].intercalate p.parms ++ [ch ')'])

theorem text_eq : p.text = p.ret ++ p.gap ++ p.rest := by
  rw [text, rest]
  simp only [List.append_assoc]

theorem nonblank_text :
    nonblank p.text = nonblank p.ret ++ (nonblank p.gap ++ nonblank p.rest) := by
  rw [text_eq, nonblank_append, nonblank_append, List.append_assoc]

theorem nonblank_text_ne : nonblank p.text ≠ [] := by
  obtain ⟨c, hhead, hword⟩ := p.ret_head
  obtain ⟨s, hs⟩ := List.head?_eq_some_iff.mp hhead
  rw [nonblank_text, hs, nonblank_cons hword.plain.2.2.1]
  exact List.cons_ne_nil _ _

/-- The name begins with no star. -/
theorem head_rest : (nonblank p.rest).head? ≠ some (ch '*') := by
  obtain ⟨c, s, hs⟩ := List.exists_cons_of_ne_nil p.name_ne
  have hplain := (p.name_chars c (hs ▸ List.mem_cons_self)).plain
  rw [rest, hs, List.append_assoc, List.cons_append, nonblank_cons hplain.2.2.1]
  exact fun h => hplain.2.2.2.1 (Option.some.inj h)

/-- The characters begin with `void`, with no star behind it, for plain `void` only, when the type
begins with `void`. -/
theorem plainVoid_iff (h : Usmart.text "void" <+: p.ret) :
    recorded (nonblank p.text) = Usmart.text "void" ↔ p.PlainVoid := by
  rw [recorded_void, nonblank_text, PlainVoid]
  rcases p.type with hret | hret | ⟨blanks, hblanks, r, hret⟩
  · obtain ⟨hbegin, hfifth⟩ := void_append (nonblank p.gap ++ nonblank p.rest)
    rw [hret, nonblank_void, hfifth, and_iff_right hbegin, and_iff_right rfl]
    by_cases hstar : ch '*' ∈ p.gap
    · rw [List.head?_append, nonblank_gap p.gap_chars hstar]
      exact iff_of_false (fun h => h rfl) fun h => h hstar
    · have hblank : IsBlank p.gap := fun c hc => (p.gap_chars c hc).resolve_right fun h =>
        hstar (h ▸ hc)
      rw [nonblank_eq_nil.mpr hblank, List.nil_append]
      exact iff_of_true p.head_rest hstar
  · exact absurd h hret
  · have hnonblank : nonblank p.ret = Usmart.text "void" ++ (ch '*' :: nonblank r) := by
      rw [← hret]
      simp only [nonblank_append, nonblank_void, nonblank_eq_nil.mpr hblanks,
        List.append_assoc]
      rfl
    obtain ⟨-, hfifth⟩ := void_append (ch '*' :: nonblank r ++ (nonblank p.gap ++ nonblank p.rest))
    rw [hnonblank, List.append_assoc, hfifth]
    refine iff_of_false (fun h => h.2 rfl) fun h => ?_
    have hlen := congrArg List.length (hret.trans h.1)
    rw [List.length_append, List.length_append, List.length_append, length_void,
      List.length_singleton] at hlen
    omega

/-- `*rval` is right exactly when no blank splits `void` at the begin. -/
theorem rval_iff : (recorded (nonblank p.text) = Usmart.text "void" ↔ p.PlainVoid) ↔
    ¬ p.TypeSplit := by
  by_cases h : Usmart.text "void" <+: p.ret
  · exact iff_of_true (p.plainVoid_iff h) fun hsplit => hsplit.1 h
  · have hplain : ¬ p.PlainVoid := fun hp => h (hp.1 ▸ List.prefix_refl _)
    rw [TypeSplit, and_iff_right h, ← recorded_void, iff_false_right hplain]

end Prototype
/-! ## Where the name begins -/

theorem usmartSearchNextc_blanks {blanks : List UInt8} (h : IsBlank blanks) (c : UInt8)
    (s : List UInt8) (hc : c ≠ ch ' ') : usmartSearchNextc (blanks ++ c :: s) = c := by
  induction blanks with
  | nil =>
      rw [usmartSearchNextc, List.nil_append, List.dropWhile_cons_of_neg (by simpa using hc)]
      rfl
  | cons d blanks ih =>
      obtain rfl := h d List.mem_cons_self
      exact ih fun e he => h e (List.mem_cons_of_mem _ he)

/-- One round of the loop, with a character behind. -/
theorem offsetLoop_cons {c : UInt8} (hc : c ≠ ch '(') (d : UInt8) (s : List UInt8)
    (res offset : ℕ) : offsetLoop (c :: d :: s) res offset = offsetLoop (d :: s) (res + 1)
      (if d = ch ' ' ∨ d = ch '*' then
        if usmartSearchNextc s ≠ ch '(' ∧ usmartSearchNextc s ≠ ch '*' then res + 1 else offset
      else offset) := by
  rw [offsetLoop, if_neg hc]

/-- Blanks in front of the parenthesis move nothing. -/
theorem offsetLoop_blanks {blanks : List UInt8} (h : IsBlank blanks) {c : UInt8} (hc : c ≠ ch '(')
    (s : List UInt8) (res offset : ℕ) :
    offsetLoop (c :: (blanks ++ ch '(' :: s)) res offset = offset := by
  induction blanks generalizing c res with
  | nil =>
      rw [List.nil_append, offsetLoop_cons hc, if_neg (by decide), offsetLoop.eq_def]
      exact if_pos rfl
  | cons d blanks ih =>
      obtain rfl := h d List.mem_cons_self
      have hrest : IsBlank blanks := fun e he => h e (List.mem_cons_of_mem _ he)
      rw [List.cons_append, offsetLoop_cons hc, if_pos (.inl rfl),
        usmartSearchNextc_blanks hrest _ _ (by decide), if_neg fun hparen => hparen.1 rfl]
      exact ih hrest (by decide) _

/-- The name moves nothing either. -/
theorem offsetLoop_name {name : List UInt8} (hname : ∀ c ∈ name, Plain c) {blanks : List UInt8}
    (h : IsBlank blanks) {c : UInt8} (hc : c ≠ ch '(') (s : List UInt8) (res offset : ℕ) :
    offsetLoop (c :: (name ++ blanks ++ ch '(' :: s)) res offset = offset := by
  induction name generalizing c res with
  | nil => exact offsetLoop_blanks h hc s res offset
  | cons d name ih =>
      obtain ⟨hopen, -, hblank, hstar, -⟩ := hname d List.mem_cons_self
      have hnext : ¬ (d = ch ' ' ∨ d = ch '*') := not_or.mpr ⟨hblank, hstar⟩
      rw [List.cons_append, List.cons_append, offsetLoop_cons hc, if_neg hnext]
      exact ih (fun e he => hname e (List.mem_cons_of_mem _ he)) hopen _

/-- The last blank or star in front of the name is where the offset ends up. -/
theorem offsetLoop_last {l : List UInt8} (hl : l ≠ []) (hopen : ∀ c ∈ l, c ≠ ch '(') {d : UInt8}
    (hd : d = ch ' ' ∨ d = ch '*') {s : List UInt8} (hs : usmartSearchNextc s ≠ ch '(' ∧
      usmartSearchNextc s ≠ ch '*') (res offset : ℕ) :
    offsetLoop (l ++ d :: s) res offset =
      offsetLoop (d :: s) (res + l.length) (res + l.length) := by
  induction l generalizing res offset with
  | nil => exact absurd rfl hl
  | cons c l ih =>
      have hc := hopen c List.mem_cons_self
      have hrest : ∀ e ∈ l, e ≠ ch '(' := fun e he => hopen e (List.mem_cons_of_mem _ he)
      cases l with
      | nil =>
          rw [List.singleton_append, offsetLoop_cons hc, if_pos hd, if_pos hs]
          rfl
      | cons e l =>
          rw [List.cons_append, List.cons_append, offsetLoop_cons hc, ← List.cons_append,
            ih (List.cons_ne_nil e l) hrest, List.length_cons (a := c), Nat.add_right_comm,
            Nat.add_assoc res]

namespace Prototype
variable (p : Prototype)

/-- The scan for the name begins with the name. -/
theorem nameStart_text : nameStart p.text = p.rest := by
  obtain ⟨front, d, hgap⟩ : ∃ front d, p.gap = front ++ [d] :=
    ⟨_, _, (List.dropLast_append_getLast p.gap_ne).symm⟩
  obtain ⟨c, name, hname⟩ := List.exists_cons_of_ne_nil p.name_ne
  have hplain := fun e he => (p.name_chars e he).plain
  have htext : p.text = (p.ret ++ front) ++ d :: p.rest := by
    rw [text_eq, hgap, List.append_assoc, List.append_assoc, List.append_assoc]
    rfl
  have hne : p.ret ++ front ≠ [] := by
    obtain ⟨e, hhead, -⟩ := p.ret_head
    obtain ⟨s, hs⟩ := List.head?_eq_some_iff.mp hhead
    rw [hs]
    exact List.cons_ne_nil _ _
  have hopen : ∀ e ∈ p.ret ++ front, e ≠ ch '(' := by
    intro e he
    rcases List.mem_append.mp he with he | he
    · rcases p.ret_chars e he with h | rfl | rfl
      exacts [h.plain.1, by decide, by decide]
    · rcases p.gap_chars e (hgap ▸ List.mem_append_left _ he) with rfl | rfl
      exacts [by decide, by decide]
  have hd := p.gap_chars d (hgap ▸ List.mem_append_right _ (List.mem_singleton_self d))
  have hdopen : d ≠ ch '(' := by
    rcases hd with rfl | rfl
    exacts [by decide, by decide]
  obtain ⟨hcopen, -, hcblank, hcstar, -⟩ := hplain c (hname ▸ List.mem_cons_self)
  have hfirst : usmartSearchNextc p.rest = c := by
    have hnil : IsBlank [] := fun e he => absurd he List.not_mem_nil
    rw [rest, hname]
    exact usmartSearchNextc_blanks hnil c _ hcblank
  have hoffset : offsetLoop p.text 0 0 = (p.ret ++ front).length := by
    rw [htext, offsetLoop_last hne hopen hd ⟨hfirst ▸ hcopen, hfirst ▸ hcstar⟩, Nat.zero_add, rest]
    exact offsetLoop_name hplain p.blanks_chars hdopen _ _ _
  rw [nameStart, hoffset, if_neg (Nat.ne_of_gt (List.length_pos_of_ne_nil hne)), htext,
    List.drop_append, List.drop_of_length_le (Nat.le_succ _), Nat.add_sub_cancel_left]
  rfl

end Prototype
/-! ## The name and the parameters -/

/-- The scan passes the blanks behind the name. -/
theorem scanName_blanks {blanks : List UInt8} (h : IsBlank blanks) (s name : List UInt8) :
    scanName (blanks ++ s) ⟨0, false, 1, 0, 0, name, []⟩ =
      scanName s ⟨0, false, 1, 0, 0, name, []⟩ := by
  induction blanks with
  | nil => rw [List.nil_append]
  | cons c blanks ih =>
      obtain rfl := h c List.mem_cons_self
      exact ih fun d hd => h d (List.mem_cons_of_mem _ hd)

section Counted
variable {q : List UInt8} (hq : ∀ c ∈ q, InParm c) (s : List UInt8)
include hq

theorem countedParms_blank (fresh : Bool) (n : ℕ) (h : IsBlank q) :
    countedParms 1 false fresh n (q ++ s) = countedParms 1 false fresh n s := by
  induction q with
  | nil => rfl
  | cons c q ih =>
      obtain rfl := h c List.mem_cons_self
      have hrest := ih (fun d hd => hq d (List.mem_cons_of_mem _ hd)) fun d hd =>
        h d (List.mem_cons_of_mem _ hd)
      rw [List.cons_append, countedParms, ← hrest]
      simp +decide

/-- A parameter whose first character has been seen is not counted again. -/
theorem countedParms_seen (n : ℕ) :
    countedParms 1 false false n (q ++ s) = countedParms 1 false false n s := by
  induction q with
  | nil => rfl
  | cons c q ih =>
      obtain ⟨-, hopen, hclose, hcomma, hquote⟩ := hq c List.mem_cons_self
      rw [List.cons_append, countedParms, ← ih fun d hd => hq d (List.mem_cons_of_mem _ hd)]
      simp [hopen, hclose, hcomma, hquote]

/-- A parameter is counted. -/
theorem countedParms_parm (n : ℕ) (h : ¬ IsBlank q) :
    countedParms 1 false true n (q ++ s) = countedParms 1 false false (n + 1) s := by
  induction q with
  | nil => exact absurd (fun c hc => absurd hc List.not_mem_nil) h
  | cons c q ih =>
      obtain ⟨-, hopen, hclose, hcomma, hquote⟩ := hq c List.mem_cons_self
      have hrest : ∀ d ∈ q, InParm d := fun d hd => hq d (List.mem_cons_of_mem _ hd)
      rw [List.cons_append, countedParms]
      by_cases hblank : c = ch ' '
      · have hmore : ¬ IsBlank q := fun hq' => h (List.forall_mem_cons.mpr ⟨hblank, hq'⟩)
        rw [← ih hrest hmore, hblank]
        simp +decide
      · rw [← countedParms_seen hrest]
        simp [hopen, hclose, hcomma, hquote, hblank]

end Counted

/-- As many parameters are counted as there are between the commas. -/
theorem countedParms_parms {parms : List (List UInt8)} (hne : parms ≠ [])
    (hchars : ∀ q ∈ parms, ∀ c ∈ q, InParm c) (hblank : ∀ q ∈ parms, ¬ IsBlank q) (n : ℕ) :
    countedParms 1 false true n ([ch ','].intercalate parms ++ [ch ')']) =
      some (n + parms.length) := by
  induction parms generalizing n with
  | nil => exact absurd rfl hne
  | cons q parms ih =>
      obtain ⟨hq, hchars⟩ := List.forall_mem_cons.mp hchars
      obtain ⟨hqblank, hblank⟩ := List.forall_mem_cons.mp hblank
      cases parms with
      | nil =>
          rw [List.intercalate_singleton, countedParms_parm hq _ n hqblank]
          rfl
      | cons r parms =>
          rw [List.intercalate_cons_cons, List.append_assoc, List.append_assoc,
            countedParms_parm hq _ n hqblank, List.singleton_append]
          have hrest := ih (List.cons_ne_nil r parms) hchars hblank (n + 1)
          have hlen : n + (q :: r :: parms).length = n + 1 + (r :: parms).length := by
            rw [List.length_cons]
            omega
          rw [hlen, ← hrest, countedParms]
          simp +decide

/-- What is kept of an only parameter: five of its characters. -/
theorem scanName_only {q : List UInt8} (hq : ∀ c ∈ q, InParm c) {a : NameScan}
    (hfover : a.fover = 1) (hnchar : a.nchar = false) (hpcnt : a.pcnt = 0)
    (hlen : a.fpname.length ≤ 5) :
    (scanName (q ++ [ch ')']) a).2.fpname = (a.fpname ++ nonblank q).take 5 := by
  induction q generalizing a with
  | nil =>
      rw [nonblank, List.filter_nil, List.append_nil, List.take_of_length_le hlen]
      simp +decide [scanName, hnchar, hfover]
  | cons c q ih =>
      obtain ⟨-, hopen, hclose, hcomma, hquote⟩ := hq c List.mem_cons_self
      have hne : a.fover ≠ 0 := by omega
      obtain ⟨htake, -, htakeNchar⟩ := NameScan.take_of_fover hne c
      have hfpname : (a.take c).fpname =
          if c ≠ ch ' ' ∧ a.fpname.length < 5 then a.fpname ++ [c] else a.fpname := by
        rw [NameScan.take, if_neg hne, NameScan.fpname_count, NameScan.takeParm, if_neg hcomma]
        by_cases hblank : c = ch ' '
        · simp [hblank]
        · simp [hblank, hopen, hpcnt]
      have htakePcnt : (a.take c).pcnt = 0 := by
        rw [NameScan.take, if_neg hne, NameScan.count, NameScan.takeParm, if_neg hcomma]
        split_ifs <;> exact hpcnt
      have hrest := ih (fun d hd => hq d (List.mem_cons_of_mem _ hd)) (htake.trans hfover)
        (htakeNchar.trans hnchar) htakePcnt
      rw [List.cons_append, scanName, if_neg fun h => hopen h.1, if_neg fun h => hclose h.1,
        if_neg hquote]
      by_cases hblank : c = ch ' '
      · rw [if_neg fun h => h.1 hblank] at hfpname
        rw [hrest (by rw [hfpname]; exact hlen), hfpname, hblank, nonblank_blank]
      · rw [nonblank_cons hblank]
        by_cases hfull : a.fpname.length < 5
        · rw [if_pos ⟨hblank, hfull⟩] at hfpname
          rw [hrest (by rw [hfpname, List.length_append]; exact hfull), hfpname, List.append_assoc,
            List.singleton_append]
        · rw [if_neg fun h => hfull h.2] at hfpname
          rw [hrest (by rw [hfpname]; exact hlen), hfpname, List.take_append, List.take_append,
            Nat.sub_eq_zero_of_le (Nat.not_lt.mp hfull), List.take_zero, List.take_zero]

theorem take_five_void (s : List UInt8) : s.take 5 = text "void" ↔ s = text "void" := by
  constructor
  · intro h
    have hlen := congrArg List.length h
    rw [List.length_take, length_void] at hlen
    rwa [List.take_of_length_le (by omega)] at h
  · intro h
    rw [h, List.take_of_length_le (by rw [length_void]; decide)]

namespace Prototype
variable (p : Prototype)

/-- The scan for the name, when it comes to the parameters. -/
def begun : NameScan := ⟨1, false, 1, 0, 0, p.name, []⟩

theorem scanName_rest : scanName p.rest ⟨0, false, 1, 0, 0, [], []⟩ =
    scanName ([ch ','].intercalate p.parms ++ [ch ')']) p.begun := by
  rw [rest, List.append_assoc, scanName_chars p.name fun c hc => (p.name_chars c hc).plain,
    scanName_blanks p.blanks_chars]
  rfl

/-- How many parameters the scan counts, before it looks for `void`. -/
theorem counted_parms : countedParms 1 false true 0 ([ch ','].intercalate p.parms ++ [ch ')']) =
    some (if ∀ q ∈ p.parms, IsBlank q then 0 else p.parms.length) := by
  by_cases hblank : ∀ q ∈ p.parms, IsBlank q
  · rw [if_pos hblank]
    cases hparms : p.parms with
    | nil => rfl
    | cons q parms =>
        rw [hparms] at hblank
        have hq := hblank q List.mem_cons_self
        cases parms with
        | nil =>
            rw [List.intercalate_singleton, countedParms_blank
              (p.parms_chars q (hparms ▸ List.mem_cons_self)) _ true 0 hq]
            rfl
        | cons r parms =>
            have hlen : 2 ≤ p.parms.length := by simp [hparms]
            exact absurd hq (p.parms_blank hlen q (hparms ▸ List.mem_cons_self))
  · rw [if_neg hblank]
    have hne : p.parms ≠ [] := fun h => hblank (by simp [h])
    have hall : ∀ q ∈ p.parms, ¬ IsBlank q := by
      intro q hq
      by_cases hlen : 2 ≤ p.parms.length
      · exact p.parms_blank hlen q hq
      · obtain ⟨r, hr⟩ : ∃ r, p.parms = [r] := List.length_eq_one_iff.mp (by
          have hpos := List.length_pos_of_ne_nil hne
          omega)
        rw [hr] at hblank hq
        rw [List.forall_mem_singleton] at hblank
        rwa [List.mem_singleton.mp hq]
    rw [countedParms_parms hne p.parms_chars hall, Nat.zero_add]

/-- How many parameters are found. -/
def found : ℕ :=
  let n := if ∀ q ∈ p.parms, IsBlank q then 0 else p.parms.length
  if n = 1 ∧ nonblank ([ch ','].intercalate p.parms) = Usmart.text "void" then 0 else n

theorem findFname_text : findFname p.text = ⟨usmartOk, p.name, p.found,
    some (if recorded (nonblank p.text) = Usmart.text "void" then 0 else 1)⟩ := by
  set n := if ∀ q ∈ p.parms, IsBlank q then 0 else p.parms.length with hn
  set r := scanName ([ch ','].intercalate p.parms ++ [ch ')']) p.begun with hr
  have hcounting : p.begun.Counting := ⟨Nat.one_ne_zero, fun h : 1 = 2 => absurd h (by decide)⟩
  obtain ⟨hres, hparmnum⟩ := (scanName_counted _ Nat.one_ne_zero hcounting n).mpr p.counted_parms
  rw [← hr] at hres hparmnum
  have hname : r.2.fname = p.name := scanName_fname_of_fover _ Nat.one_ne_zero
  have hvoid : n = 1 → (usmartStrcmp r.2.fpname (Usmart.text "void") = 0 ↔
      nonblank ([ch ','].intercalate p.parms) = Usmart.text "void") := by
    intro hone
    have hlen : p.parms.length = 1 := by
      rw [hn] at hone
      split at hone
      · cases hone
      · exact hone
    obtain ⟨q, hq⟩ := List.length_eq_one_iff.mp hlen
    have hchars := p.parms_chars q (hq ▸ List.mem_singleton_self q)
    have honly := scanName_only hchars (a := p.begun) rfl rfl rfl (Nat.zero_le _)
    have hfpname : r.2.fpname = (nonblank q).take 5 := by
      rw [hr, hq, List.intercalate_singleton, honly]
      rfl
    rw [usmartStrcmp_eq_zero, hfpname, take_five_void, hq, List.intercalate_singleton]
  rw [findFname, nameStart_text, scanName_rest, returnsValue_eq p.nonblank_text_ne]
  simp only [← hr, hres, hname, hparmnum, found, ← hn]
  by_cases hone : n = 1
  · simp only [hone, true_and, hvoid hone]
  · simp only [hone, false_and]

/-- The number is right exactly when no blank splits `void` in an only parameter. -/
theorem found_iff : p.found = p.parmCount ↔ ¬ p.ParmSplit := by
  rw [found, parmCount, ParmSplit]
  cases hparms : p.parms with
  | nil => exact iff_of_true rfl fun ⟨q, hq, _⟩ => List.cons_ne_nil q [] hq.symm
  | cons q parms =>
      cases parms with
      | nil =>
          have hsplit : (∃ q', [q] = [q'] ∧ ¬ IsVoid q' ∧ nonblank q' = Usmart.text "void") ↔
              ¬ IsVoid q ∧ nonblank q = Usmart.text "void" := by
            simp only [List.cons.injEq, and_true, exists_eq_left']
          rw [hsplit, List.intercalate_singleton]
          by_cases hblank : IsBlank q
          · have hnonblank : nonblank q ≠ Usmart.text "void" := by
              rw [nonblank_eq_nil.mpr hblank]
              decide +kernel
            rw [if_pos (List.forall_mem_singleton.mpr hblank)]
            refine iff_of_true ?_ fun h => hnonblank h.2
            rw [if_neg fun h => absurd h.1 (by decide)]
            exact (if_pos (.inl hblank)).symm
          · have hnone : ¬ ∀ q' ∈ [q], IsBlank q' := fun h =>
              hblank (List.forall_mem_singleton.mp h)
            rw [if_neg hnone]
            by_cases hvoid : IsVoid q
            · have hnonblank : nonblank q = Usmart.text "void" := by
                rw [← nonblank_trim, hvoid, nonblank_void]
              rw [if_pos ⟨rfl, hnonblank⟩]
              exact iff_of_true (if_pos (.inr hvoid)).symm fun h => h.1 hvoid
            · have hone : (if IsBlank q ∨ IsVoid q then 0 else 1) = 1 :=
                if_neg (not_or.mpr ⟨hblank, hvoid⟩)
              change _ = (if IsBlank q ∨ IsVoid q then 0 else 1) ↔ _
              rw [hone, and_iff_right hvoid]
              by_cases hnonblank : nonblank q = Usmart.text "void"
              · rw [if_pos ⟨rfl, hnonblank⟩]
                exact iff_of_false (by decide) (not_not.mpr hnonblank)
              · rw [if_neg fun h => hnonblank h.2]
                exact iff_of_true rfl hnonblank
      | cons r parms =>
          have hlen : 2 ≤ p.parms.length := by simp [hparms]
          have hblank : ¬ ∀ q' ∈ q :: r :: parms, IsBlank q' := fun h =>
            p.parms_blank hlen q (hparms ▸ List.mem_cons_self) (h q List.mem_cons_self)
          refine iff_of_true ?_ fun ⟨q', hq, _⟩ => by cases hq
          rw [if_neg hblank]
          exact if_neg fun h => absurd h.1 (by simp)

end Prototype

/-! ## When a prototype is read as it is meant -/

/-- Every prototype, whatever blanks and stars stand in it, is read with its name, its number of
parameters and what it returns, exactly when no blank splits a `void` that is none: neither at the
begin of the prototype nor in an only parameter. -/
theorem prototype_parsed_iff (p : Prototype) : p.Parsed ↔ ¬ p.TypeSplit ∧ ¬ p.ParmSplit := by
  have hroom : (findFname p.text).fname.length < maxFnameLen := by
    rw [p.findFname_text]
    exact Nat.lt_succ_of_le p.name_length
  have hrun : usmartGetFname maxFnameLen p.text = .ok (findFname p.text) := if_pos hroom
  rw [Prototype.Parsed, hrun, p.findFname_text, ← p.rval_iff, ← p.found_iff]
  have hzero : (if recorded (nonblank p.text) = text "void" then 0 else 1) = 0 ↔
      recorded (nonblank p.text) = text "void" := by
    rw [ite_eq_left_iff]
    exact ⟨fun h => not_not.mp fun hne => Nat.one_ne_zero (h hne), fun h hne => absurd h hne⟩
  simp only [Except.ok.injEq, FName.mk.injEq, true_and, Option.some.injEq]
  constructor
  · rintro ⟨rval, ⟨hfound, rfl⟩, hplain⟩
    exact ⟨hzero.symm.trans hplain, hfound⟩
  · rintro ⟨hplain, hfound⟩
    exact ⟨_, ⟨hfound, rfl⟩, hzero.trans hplain⟩

/-- `vo id(int a)`. -/
def voId : Prototype where
  ret := [ch 'v', ch 'o']
  gap := [ch ' ']
  name := [ch 'i', ch 'd']
  blanks := []
  parms := [[ch 'i', ch 'n', ch 't', ch ' ', ch 'a']]
  ret_chars := List.all_iff_forall_prop.mp rfl
  ret_head := ⟨_, rfl, by decide⟩
  ret_last := ⟨_, rfl, by decide⟩
  gap_ne := by decide
  gap_chars := List.all_iff_forall_prop.mp rfl
  name_ne := by decide
  name_chars := List.all_iff_forall_prop.mp rfl
  name_length := by decide
  blanks_chars := List.all_iff_forall_prop.mp rfl
  parms_chars := List.forall_mem_singleton.mpr (List.all_iff_forall_prop.mp rfl)
  parms_blank := by decide
  type := .inr (.inl (by decide +kernel))
  short := by decide

/-- `int f(voi d)`. -/
def fVoiD : Prototype where
  ret := [ch 'i', ch 'n', ch 't']
  gap := [ch ' ']
  name := [ch 'f']
  blanks := []
  parms := [[ch 'v', ch 'o', ch 'i', ch ' ', ch 'd']]
  ret_chars := List.all_iff_forall_prop.mp rfl
  ret_head := ⟨_, rfl, by decide⟩
  ret_last := ⟨_, rfl, by decide⟩
  gap_ne := by decide
  gap_chars := List.all_iff_forall_prop.mp rfl
  name_ne := by decide
  name_chars := List.all_iff_forall_prop.mp rfl
  name_length := by decide
  blanks_chars := List.all_iff_forall_prop.mp rfl
  parms_chars := List.forall_mem_singleton.mpr (List.all_iff_forall_prop.mp rfl)
  parms_blank := by decide
  type := .inr (.inl (by decide +kernel))
  short := by decide

/-- In `vo id(int a)` the type and the name are taken for `void`, and in `int f(voi d)` the type and
the name of the parameter. -/
theorem prototype_split : ¬ voId.Parsed ∧ ¬ fVoiD.Parsed := by
  constructor
  · rintro ⟨rval, hrun, hplain⟩
    have hfound : usmartGetFname maxFnameLen voId.text =
        .ok ⟨usmartOk, [ch 'i', ch 'd'], 1, some 0⟩ := by decide +kernel
    have hrval : (0 : ℕ) = rval := by
      rw [hfound] at hrun
      exact Option.some.inj (FName.mk.inj (Except.ok.inj hrun)).2.2.2
    have hvoid : voId.ret ≠ text "void" := by decide +kernel
    exact hvoid (hplain.mp hrval.symm).1
  · rintro ⟨rval, hrun, -⟩
    have hfound : usmartGetFname maxFnameLen fVoiD.text =
        .ok ⟨usmartOk, [ch 'f'], 0, some 1⟩ := by decide +kernel
    have hcount : fVoiD.parmCount = 1 := by decide +kernel
    rw [hfound, hcount] at hrun
    exact absurd (FName.mk.inj (Except.ok.inj hrun)).2.2.1 (by decide)

end Apollo.Usmart
