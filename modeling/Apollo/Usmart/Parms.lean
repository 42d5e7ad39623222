import Apollo.Usmart.Cmd
import Mathlib.Order.Nat

/-!
# The arguments that a text holds

`readParms` reads the arguments of a text from left to right: between two of them blanks
and commas are passed over, a number collects the characters of numbers, a string what
stands between its quotes.  The scan of the code takes one argument at a time and starts
each where it stopped; it finds the same arguments.

## Main definitions

* `Parm`, `Ending`, `readParms` — the arguments of a text, and how they end.
* `aparmLoop_reads` — one call of the scan takes one argument.
* `putAll`, `fparamLoop_eq` — the loop over the arguments stores what `readParms` finds.
-/

namespace Apollo.Usmart

/-- An argument as it stands in the text. -/
inductive Parm where
  | num (digits : List UInt8)
  | str (s : List UInt8)

/-- How the arguments of a text end: at a parenthesis or a NUL, at a character that does not
belong there, or nowhere. -/
inductive Ending where
  | closed
  | bad
  | cut
  deriving DecidableEq

/-- What is being read: nothing yet, a number, what follows a number and its comma, the inside
of a string, what follows a string. -/
inductive Reading where
  | between
  | digits (t : List UInt8)
  | after (t : List UInt8)
  | inside (t : List UInt8)
  | behind (t : List UInt8)

/-- A parenthesis or a NUL ends the arguments. -/
def IsEnd (c : UInt8) : Prop := c = ch ')' ∨ c = 0

instance (c : UInt8) : Decidable (IsEnd c) := inferInstanceAs (Decidable (_ ∨ _))

/-- The arguments of a text, from a state of reading on. -/
def readParms : Reading → List UInt8 → List Parm × Ending
  | _, [] => ([], .cut)
  | .between, c :: s =>
      if IsEnd c then ([], .closed)
      else if IsNumeric c then readParms (.digits [toUpper c]) s
      else if c = ch '"' then readParms (.inside []) s
      else if c = ch ' ' ∨ c = ch ',' then readParms .between s
      else ([], .bad)
  | .digits t, c :: s =>
      if IsEnd c then ([.num t], .closed)
      else if IsNumeric c then readParms (.digits (t ++ [toUpper c])) s
      else if c = ch '"' then readParms (.inside t) s
      else if c = ch ' ' then readParms (.digits t) s
      else if c = ch ',' then readParms (.after t) s
      else ([], .bad)
  | .after t, c :: s =>
      if IsEnd c then ([.num t], .closed)
      else if IsNumeric c then
        let (l, e) := readParms (.digits [toUpper c]) s
        (.num t :: l, e)
      else if c = ch '"' then
        let (l, e) := readParms (.inside []) s
        (.num t :: l, e)
      else if c = ch ' ' ∨ c = ch ',' then readParms (.after t) s
      else ([], .bad)
  | .inside t, c :: s =>
      if c = ch '"' then readParms (.behind t) s
      else if c = ch '\\' then match s with
        | [] => ([], .cut)
        | d :: s => readParms (.inside (t ++ [d])) s
      else readParms (.inside (t ++ [c])) s
  | .behind t, c :: s =>
      if IsEnd c then ([.str t], .closed)
      else if c = ch ',' then
        let (l, e) := readParms .between s
        (.str t :: l, e)
      else readParms (.behind t) s

-- The equations of the two readers are derived here, once for all the rules below.
theorem readParms_eq : type_of% readParms.eq_def := readParms.eq_def

theorem aparmLoop_eq : type_of% aparmLoop.eq_def := aparmLoop.eq_def

/-! ## The scan, character by character -/

theorem IsEnd.ne_comma {c : UInt8} (h : IsEnd c) : c ≠ ch ',' := by
  rintro rfl
  revert h
  decide

/-- The characters of numbers stand for nothing else. -/
theorem IsNumeric.ne {c : UInt8} (h : IsNumeric c) :
    ¬IsEnd c ∧ c ≠ ch ',' ∧ c ≠ ch '"' ∧ c ≠ ch ' ' := by
  refine ⟨fun hend => ?_, ?_, ?_, ?_⟩
  · rcases hend with rfl | rfl <;> revert h <;> decide
  all_goals
    rintro rfl
    revert h
    decide

section
variable {c : UInt8} (s t : List UInt8) (e : Bool)

theorem aparmLoop_end (h : IsEnd c) (a : Aparm) (hstring : a.string = false) :
    aparmLoop (c :: s) a = .ok (a, c :: s) := by
  have hend : c = ch ')' ∨ c = 0 := h
  rw [aparmLoop_eq]
  simp only [h.ne_comma, false_and, if_false, hend, hstring, and_self, if_true]

theorem aparmLoop_numeric (h : IsNumeric c) :
    aparmLoop (c :: s) ⟨e, .number, false, t⟩ =
      if e then .ok (⟨e, .number, false, t⟩, c :: s)
      else aparmLoop s ⟨e, .number, false, t ++ [toUpper c]⟩ := by
  obtain ⟨hend, hcomma, -, -⟩ := h.ne
  have hend' : ¬(c = ch ')' ∨ c = 0) := hend
  rw [aparmLoop_eq]
  simp only [hcomma, false_and, if_false, hend', h, if_true]

theorem aparmLoop_quote :
    aparmLoop (ch '"' :: s) ⟨e, .number, false, t⟩ =
      if e then .ok (⟨e, .number, false, t⟩, ch '"' :: s)
      else aparmLoop s ⟨e, .string, true, t⟩ := by
  rw [aparmLoop_eq]
  simp +decide

theorem aparmLoop_comma :
    aparmLoop (ch ',' :: s) ⟨e, .number, false, t⟩ = aparmLoop s ⟨true, .number, false, t⟩ := by
  rw [aparmLoop_eq]
  simp +decide

theorem aparmLoop_blank :
    aparmLoop (ch ' ' :: s) ⟨e, .number, false, t⟩ = aparmLoop s ⟨e, .number, false, t⟩ := by
  rw [aparmLoop_eq]
  simp +decide

theorem aparmLoop_bad (hend : ¬IsEnd c) (hnum : ¬IsNumeric c) (hquote : c ≠ ch '"')
    (hblank : c ≠ ch ' ') (hcomma : c ≠ ch ',') :
    aparmLoop (c :: s) ⟨e, .number, false, t⟩ = .ok (⟨e, .error, false, t⟩, c :: s) := by
  have hend' : ¬(c = ch ')' ∨ c = 0) := hend
  rw [aparmLoop_eq]
  simp only [hcomma, false_and, if_false, hend', hnum, hquote, hblank, ne_eq, not_false_eq_true,
    and_self, if_true]

theorem aparmLoop_inside_quote :
    aparmLoop (ch '"' :: s) ⟨false, .string, true, t⟩ = aparmLoop s ⟨false, .string, false, t⟩ := by
  rw [aparmLoop_eq]
  simp +decide

theorem aparmLoop_escape (d : UInt8) :
    aparmLoop (ch '\\' :: d :: s) ⟨false, .string, true, t⟩ =
      aparmLoop s ⟨false, .string, true, t ++ [d]⟩ := by
  rw [aparmLoop_eq]
  simp +decide

theorem aparmLoop_inside (hquote : c ≠ ch '"') (hescape : c ≠ ch '\\') :
    aparmLoop (c :: s) ⟨false, .string, true, t⟩ =
      aparmLoop s ⟨false, .string, true, t ++ [c]⟩ := by
  rw [aparmLoop_eq]
  simp [hquote, hescape]

theorem aparmLoop_behind_comma :
    aparmLoop (ch ',' :: s) ⟨false, .string, false, t⟩ =
      .ok (⟨true, .string, false, t⟩, ch ',' :: s) := by
  rw [aparmLoop_eq]
  simp +decide

theorem aparmLoop_behind (hend : ¬IsEnd c) (hcomma : c ≠ ch ',') :
    aparmLoop (c :: s) ⟨false, .string, false, t⟩ = aparmLoop s ⟨false, .string, false, t⟩ := by
  have hend' : ¬(c = ch ')' ∨ c = 0) := hend
  rw [aparmLoop_eq]
  simp [hcomma, hend']

end

/-! ## One argument -/

/-- The flags of the scan in a state of reading. -/
inductive Scans : Reading → Aparm → Prop
  | between (enout : Bool) : Scans .between ⟨enout, .number, false, []⟩
  | digits {t : List UInt8} (h : t ≠ []) : Scans (.digits t) ⟨false, .number, false, t⟩
  | after {t : List UInt8} (h : t ≠ []) : Scans (.after t) ⟨true, .number, false, t⟩
  | inside (t : List UInt8) : Scans (.inside t) ⟨false, .string, true, t⟩
  | behind (t : List UInt8) : Scans (.behind t) ⟨false, .string, false, t⟩

/-- What a call of the scan took: the arguments `p` are it and those of the text it left. -/
def Took (p : List Parm × Ending) (a : Aparm) (rest : List UInt8) : Prop :=
  match a.type with
  | .number => p = if a.fparm = [] then readParms .between rest
      else (.num a.fparm :: (readParms .between rest).1, (readParms .between rest).2)
  | .string => p = (.str a.fparm :: (readParms .between rest).1, (readParms .between rest).2)
  | .error => p = ([], .bad)

/-- What the scan leaves of `str`: it took an argument of `p` without passing the end of the
memory, or there is none. -/
def Outcome (p : List Parm × Ending) (a : Aparm) (str : List UInt8) :
    Except Fault (Aparm × List UInt8) → Prop
  | .error f => f = .pastEnd ∧ p = ([], .cut)
  | .ok (a', rest) => Took p a' rest ∧ rest ≠ [] ∧ rest.length ≤ str.length ∧
      a'.fparm.length + rest.length ≤ a.fparm.length + str.length

theorem Outcome.mono {p : List Parm × Ending} {a b : Aparm} {s str : List UInt8}
    {r : Except Fault (Aparm × List UInt8)} (h : Outcome p a s r) (hlen : s.length ≤ str.length)
    (hsum : a.fparm.length + s.length ≤ b.fparm.length + str.length) : Outcome p b str r := by
  cases r with
  | error f => exact h
  | ok r =>
      obtain ⟨htook, hne, hrest, hroom⟩ := h
      exact ⟨htook, hne, Nat.le_trans hrest hlen, Nat.le_trans hroom hsum⟩

/-- The scan stops in front of a character. -/
theorem Outcome.stop {p : List Parm × Ending} {a a' : Aparm} {c : UInt8} {s : List UInt8}
    (h : Took p a' (c :: s)) (hlen : a'.fparm.length = a.fparm.length) :
    Outcome p a (c :: s) (.ok (a', c :: s)) :=
  ⟨h, List.cons_ne_nil _ _, le_rfl, by rw [hlen]⟩

theorem readParms_end {c : UInt8} {s : List UInt8} (h : IsEnd c) :
    readParms .between (c :: s) = ([], .closed) := by
  rw [readParms_eq]
  exact if_pos h

theorem readParms_comma (s : List UInt8) :
    readParms .between (ch ',' :: s) = readParms .between s := by
  rw [readParms_eq]
  simp +decide

theorem readParms_numeric {c : UInt8} {s : List UInt8} (h : IsNumeric c) :
    readParms .between (c :: s) = readParms (.digits [toUpper c]) s := by
  rw [readParms_eq]
  simp only [h.ne.1, if_false, h, if_true]

theorem readParms_quote (s : List UInt8) :
    readParms .between (ch '"' :: s) = readParms (.inside []) s := by
  rw [readParms_eq]
  simp +decide

/-- Behind the character `c` the scan takes the first argument, in any state that has copied
at most this character. -/
def GoesOn (c : UInt8) (s : List UInt8) (a : Aparm) : Prop :=
  ∀ {m : Reading} {a' : Aparm}, Scans m a' → a'.fparm.length ≤ a.fparm.length + 1 →
    Outcome (readParms m s) a (c :: s) (aparmLoop s a')

namespace GoesOn
variable {c : UInt8} {s t : List UInt8}

theorem between {e : Bool} (hnext : GoesOn c s ⟨e, .number, false, []⟩) :
    Outcome (readParms .between (c :: s)) ⟨e, .number, false, []⟩ (c :: s)
      (aparmLoop (c :: s) ⟨e, .number, false, []⟩) := by
  by_cases hend : IsEnd c
  · rw [aparmLoop_end _ hend _ rfl]
    exact .stop rfl rfl
  by_cases hnum : IsNumeric c
  · rw [aparmLoop_numeric _ _ _ hnum]
    cases e with
    | true => exact .stop rfl rfl
    | false =>
        rw [readParms_numeric hnum]
        exact hnext (.digits (List.cons_ne_nil _ _)) (by simp)
  by_cases hquote : c = ch '"'
  · subst hquote
    rw [aparmLoop_quote]
    cases e with
    | true => exact .stop rfl rfl
    | false =>
        rw [readParms_quote]
        exact hnext (.inside _) (by simp)
  by_cases hcomma : c = ch ','
  · subst hcomma
    rw [aparmLoop_comma, readParms_comma]
    exact hnext (.between _) (by simp)
  by_cases hblank : c = ch ' '
  · subst hblank
    rw [aparmLoop_blank, readParms_eq]
    simp +decide only [if_false, if_true]
    exact hnext (.between _) (by simp)
  rw [aparmLoop_bad _ _ _ hend hnum hquote hblank hcomma, readParms_eq]
  simp only [hend, hnum, hquote, hblank, hcomma, or_self, if_false]
  exact .stop rfl rfl

theorem digits (ht : t ≠ []) (hnext : GoesOn c s ⟨false, .number, false, t⟩) :
    Outcome (readParms (.digits t) (c :: s)) ⟨false, .number, false, t⟩ (c :: s)
      (aparmLoop (c :: s) ⟨false, .number, false, t⟩) := by
  have hlen : (t ++ [toUpper c]).length = t.length + 1 := List.length_append
  by_cases hend : IsEnd c
  · rw [aparmLoop_end _ hend _ rfl, readParms_eq]
    simp only [hend, if_true]
    exact .stop (by simp [Took, ht, readParms_end hend]) rfl
  by_cases hnum : IsNumeric c
  · rw [aparmLoop_numeric _ _ _ hnum, readParms_eq]
    simp only [hend, hnum, if_false, if_true, Bool.false_eq_true]
    exact hnext (.digits (List.append_ne_nil_of_left_ne_nil ht _)) hlen.le
  by_cases hquote : c = ch '"'
  · subst hquote
    rw [aparmLoop_quote, readParms_eq]
    simp +decide only [if_false, if_true]
    exact hnext (.inside _) (Nat.le_succ _)
  by_cases hblank : c = ch ' '
  · subst hblank
    rw [aparmLoop_blank, readParms_eq]
    simp +decide only [if_false, if_true]
    exact hnext (.digits ht) (Nat.le_succ _)
  by_cases hcomma : c = ch ','
  · subst hcomma
    rw [aparmLoop_comma, readParms_eq]
    simp +decide only [if_false, if_true]
    exact hnext (.after ht) (Nat.le_succ _)
  rw [aparmLoop_bad _ _ _ hend hnum hquote hblank hcomma, readParms_eq]
  simp only [hend, hnum, hquote, hblank, hcomma, if_false]
  exact .stop rfl rfl

theorem after (ht : t ≠ []) (hnext : GoesOn c s ⟨true, .number, false, t⟩) :
    Outcome (readParms (.after t) (c :: s)) ⟨true, .number, false, t⟩ (c :: s)
      (aparmLoop (c :: s) ⟨true, .number, false, t⟩) := by
  by_cases hend : IsEnd c
  · rw [aparmLoop_end _ hend _ rfl, readParms_eq]
    simp only [hend, if_true]
    exact .stop (by simp [Took, ht, readParms_end hend]) rfl
  by_cases hnum : IsNumeric c
  · rw [aparmLoop_numeric _ _ _ hnum, readParms_eq]
    simp only [hend, hnum, if_false, if_true]
    exact .stop (by simp [Took, ht, readParms_numeric hnum]) rfl
  by_cases hquote : c = ch '"'
  · subst hquote
    rw [aparmLoop_quote, readParms_eq]
    simp +decide only [if_false, if_true]
    exact .stop (by simp [Took, ht, readParms_quote]) rfl
  by_cases hcomma : c = ch ','
  · subst hcomma
    rw [aparmLoop_comma, readParms_eq]
    simp +decide only [if_false, if_true]
    exact hnext (.after ht) (Nat.le_succ _)
  by_cases hblank : c = ch ' '
  · subst hblank
    rw [aparmLoop_blank, readParms_eq]
    simp +decide only [if_false, if_true]
    exact hnext (.after ht) (Nat.le_succ _)
  rw [aparmLoop_bad _ _ _ hend hnum hquote hblank hcomma, readParms_eq]
  simp only [hend, hnum, hquote, hblank, hcomma, or_self, if_false]
  exact .stop rfl rfl

/-- In a string, a character that is not a backslash. -/
theorem inside (hescape : c ≠ ch '\\') (hnext : GoesOn c s ⟨false, .string, true, t⟩) :
    Outcome (readParms (.inside t) (c :: s)) ⟨false, .string, true, t⟩ (c :: s)
      (aparmLoop (c :: s) ⟨false, .string, true, t⟩) := by
  have hlen : (t ++ [c]).length = t.length + 1 := List.length_append
  by_cases hquote : c = ch '"'
  · subst hquote
    rw [aparmLoop_inside_quote, readParms_eq]
    simp only [if_true]
    exact hnext (.behind _) (Nat.le_succ _)
  rw [aparmLoop_inside _ _ hquote hescape, readParms_eq]
  simp only [hquote, hescape, if_false]
  exact hnext (.inside _) hlen.le

theorem behind (hnext : GoesOn c s ⟨false, .string, false, t⟩) :
    Outcome (readParms (.behind t) (c :: s)) ⟨false, .string, false, t⟩ (c :: s)
      (aparmLoop (c :: s) ⟨false, .string, false, t⟩) := by
  by_cases hend : IsEnd c
  · rw [aparmLoop_end _ hend _ rfl, readParms_eq]
    simp only [hend, if_true]
    exact .stop (by simp [Took, readParms_end hend]) rfl
  by_cases hcomma : c = ch ','
  · subst hcomma
    rw [aparmLoop_behind_comma, readParms_eq]
    simp +decide only [if_false, if_true]
    exact .stop (by simp [Took, readParms_comma]) rfl
  rw [aparmLoop_behind _ _ hend hcomma, readParms_eq]
  simp only [hend, hcomma, if_false]
  exact hnext (.behind _) (Nat.le_succ _)

end GoesOn

/-- The scan takes the first argument of a text. -/
theorem aparmLoop_reads {m : Reading} {a : Aparm} (h : Scans m a) (str : List UInt8) :
    Outcome (readParms m str) a str (aparmLoop str a) := by
  induction hn : str.length using Nat.strongRecOn generalizing str m a with
  | _ n ih =>
    subst hn
    cases str with
    | nil =>
        rw [aparmLoop]
        exact ⟨rfl, by rw [readParms]⟩
    | cons c s =>
        have hnext : GoesOn c s a := fun h' hlen => by
          refine (ih s.length (Nat.lt_succ_self _) h' s rfl).mono (Nat.le_succ _) ?_
          rw [List.length_cons]
          omega
        cases h with
        | between e => exact hnext.between
        | digits ht => exact hnext.digits ht
        | after ht => exact hnext.after ht
        | inside t =>
            by_cases hescape : c = ch '\\'
            · subst hescape
              have hquote : ch '\\' ≠ ch '"' := by decide
              rw [readParms_eq]
              simp only [hquote, if_false, if_true]
              -- The backslash takes the next character with it.
              cases s with
              | nil =>
                  rw [aparmLoop_eq]
                  simp +decide
                  exact ⟨rfl, rfl⟩
              | cons d s =>
                  rw [aparmLoop_escape]
                  have hlen : (t ++ [d]).length = t.length + 1 := List.length_append
                  have hs : s.length + 2 = (ch '\\' :: d :: s).length := rfl
                  refine (ih s.length (by omega) (.inside _) s rfl).mono (by omega) ?_
                  rw [← hs]
                  simp only [hlen]
                  omega
            · exact hnext.inside hescape
        | behind t => exact hnext.behind

/-- A scan that does not stop at once in front of an end moves on. -/
theorem aparmLoop_moves {c : UInt8} {s rest : List UInt8} {a : Aparm} (hend : ¬IsEnd c)
    (htype : a.type ≠ .error)
    (h : aparmLoop (c :: s) ⟨false, .number, false, []⟩ = .ok (a, rest)) :
    rest.length < (c :: s).length := by
  have hrest {m' : Reading} {a' : Aparm} (h' : Scans m' a') (heq : aparmLoop s a' = .ok (a, rest)) :
      rest.length < (c :: s).length := by
    have hout := aparmLoop_reads h' s
    rw [heq] at hout
    exact Nat.lt_succ_of_le hout.2.2.1
  by_cases hnum : IsNumeric c
  · rw [aparmLoop_numeric _ _ _ hnum] at h
    exact hrest (.digits (List.cons_ne_nil _ _)) h
  by_cases hquote : c = ch '"'
  · subst hquote
    rw [aparmLoop_quote] at h
    exact hrest (.inside _) h
  by_cases hcomma : c = ch ','
  · subst hcomma
    rw [aparmLoop_comma] at h
    exact hrest (.between _) h
  by_cases hblank : c = ch ' '
  · subst hblank
    rw [aparmLoop_blank] at h
    exact hrest (.between _) h
  rw [aparmLoop_bad _ _ _ hend hnum hquote hblank hcomma] at h
  cases h
  exact absurd rfl htype

/-! ## All arguments -/

namespace Dev

/-- The entering of an argument: the result or `0`, the number of arguments, and the device. -/
def putParm (dev : Dev) (n : ℕ) : Parm → Except Fault (ℕ × ℕ × Dev)
  | .num t => dev.storeParm n t .number
  | .str t => dev.storeParm n t .string

/-- The entering of all arguments of a text. -/
def putAll : List Parm → Ending → ℕ → Dev → Except Fault (ℕ × ℕ × Dev)
  | [], .closed, n, dev => .ok (usmartOk, n, dev)
  | [], .bad, n, dev => .ok (usmartParmerr, n, dev)
  | [], .cut, _, _ => .error .pastEnd
  | p :: l, e, n, dev => do
      let (sta, n, dev) ← dev.putParm n p
      if sta ≠ 0 then pure (sta, n, dev) else putAll l e n dev

/-- A text has been too long for the buffer of an argument, or its arguments `p` are entered. -/
def Enters (str : List UInt8) (p : List Parm × Ending) (n : ℕ) (dev : Dev)
    (r : Except Fault (ℕ × ℕ × Dev)) : Prop :=
  (parmLen < str.length ∧ r = .error .tstr) ∨ r = putAll p.1 p.2 n dev

/-- If the rest of a text is entered, then the text is, with its first argument in front. -/
theorem Enters.cons {str : List UInt8} {l : List Parm} {e : Ending}
    {rest : ℕ → Dev → Except Fault (ℕ × ℕ × Dev)}
    (h : ∀ n dev, Enters str (l, e) n dev (rest n dev)) (p : Parm) (n : ℕ) (dev : Dev) :
    Enters str (p :: l, e) n dev (do
      let (sta, n, dev) ← dev.putParm n p
      if sta ≠ 0 then pure (sta, n, dev) else rest n dev) := by
  rw [Enters, putAll]
  cases dev.putParm n p with
  | error f => exact Or.inr rfl
  | ok r =>
      obtain ⟨sta, n', dev'⟩ := r
      by_cases hsta : sta = 0
      · subst hsta
        exact h n' dev'
      · right
        simp only [bind, Except.bind, ne_eq, hsta, not_false_eq_true, if_true]

section Loop
variable {str rest : List UInt8} {a : Aparm}

/-- What the loop does with the text behind an argument. -/
def fparamRest (fuel : ℕ) (c : UInt8) (rest : List UInt8) (n : ℕ) (dev : Dev) :
    Except Fault (ℕ × ℕ × Dev) :=
  if IsEnd c then pure (usmartOk, n, dev) else fparamLoop fuel (c :: rest) n dev

theorem fparamLoop_step (fuel n : ℕ) (dev : Dev) {c : UInt8}
    (h : aparmLoop str ⟨false, .number, false, []⟩ = .ok (a, c :: rest))
    (hroom : a.fparm.length < parmLen + 1) :
    fparamLoop (fuel + 1) str n dev = (do
      let (sta, n, dev) ← dev.storeParm n a.fparm a.type
      if sta ≠ 0 then pure (sta, n, dev) else fparamRest fuel c rest n dev) := by
  have haparm : usmartGetAparm (parmLen + 1) .tstr str = .ok (a.fparm, a.type, c :: rest) := by
    rw [usmartGetAparm, h]
    exact if_pos hroom
  rw [fparamLoop, haparm]
  rfl

/-- An argument that is too long overruns `tstr`. -/
theorem fparamLoop_full (fuel n : ℕ) (dev : Dev)
    (h : aparmLoop str ⟨false, .number, false, []⟩ = .ok (a, rest))
    (hfull : parmLen + 1 ≤ a.fparm.length) : fparamLoop (fuel + 1) str n dev = .error .tstr := by
  have haparm : usmartGetAparm (parmLen + 1) .tstr str = .error .tstr := by
    rw [usmartGetAparm, h]
    exact if_neg (Nat.not_lt.mpr hfull)
  rw [fparamLoop, haparm]
  rfl

/-- The loop goes on with the text that the scan has left, which is shorter. -/
theorem fparamRest_enters {fuel : ℕ} {c : UInt8}
    (ih : ∀ s : List UInt8, s.length < str.length → ∀ n dev,
      Enters s (readParms .between s) n dev (fparamLoop fuel s n dev))
    (h : aparmLoop str ⟨false, .number, false, []⟩ = .ok (a, c :: rest)) (htype : a.type ≠ .error)
    (n : ℕ) (dev : Dev) :
    Enters str (readParms .between (c :: rest)) n dev (fparamRest fuel c rest n dev) := by
  by_cases hend : IsEnd c
  · right
    rw [fparamRest, if_pos hend, readParms_end hend]
    rfl
  · rw [fparamRest, if_neg hend]
    have hless : (c :: rest).length < str.length := by
      cases str with
      | nil => cases h
      | cons c₀ s =>
          refine aparmLoop_moves (fun hend₀ => ?_) htype h
          rw [aparmLoop_end _ hend₀ _ rfl] at h
          cases h
          exact hend hend₀
    rcases ih (c :: rest) hless n dev with ⟨hlong, hrun⟩ | hrun
    · exact Or.inl ⟨hlong.trans hless, hrun⟩
    · exact Or.inr hrun

end Loop

/-- The loop stores the arguments that the text holds, unless one of them is longer than its
buffer. -/
theorem fparamLoop_eq (fuel : ℕ) (str : List UInt8) (n : ℕ) (dev : Dev)
    (hfuel : str.length < fuel) :
    Enters str (readParms .between str) n dev (fparamLoop fuel str n dev) := by
  induction fuel generalizing str n dev with
  | zero => omega
  | succ fuel ih =>
      have hout := aparmLoop_reads (.between false) str
      cases haparm : aparmLoop str ⟨false, .number, false, []⟩ with
      | error f =>
          rw [haparm] at hout
          obtain ⟨rfl, hcut⟩ := hout
          right
          rw [hcut, fparamLoop, usmartGetAparm, haparm]
          rfl
      | ok r =>
          obtain ⟨a, rest⟩ := r
          rw [haparm] at hout
          obtain ⟨htook, hne, hlen, hsum⟩ := hout
          obtain ⟨c, rest, rfl⟩ := List.exists_cons_of_ne_nil hne
          rcases Nat.lt_or_ge a.fparm.length (parmLen + 1) with hroom | hfull
          · rw [fparamLoop_step fuel n dev haparm hroom]
            have hrest (htype : a.type ≠ .error) (n : ℕ) (dev : Dev) :
                Enters str (readParms .between (c :: rest)) n dev
                  (fparamRest fuel c rest n dev) :=
              fparamRest_enters (fun s hs n dev => ih s n dev (by omega)) haparm htype n dev
            cases htype : a.type with
            | number =>
                rw [Took, htype] at htook
                by_cases hnil : a.fparm = []
                · rw [if_pos hnil] at htook
                  rw [htook, hnil]
                  exact hrest (by simp [htype]) n dev
                · rw [if_neg hnil] at htook
                  rw [htook]
                  exact .cons (hrest (by simp [htype])) (.num a.fparm) n dev
            | string =>
                rw [Took, htype] at htook
                rw [htook]
                exact .cons (hrest (by simp [htype])) (.str a.fparm) n dev
            | error =>
                rw [Took, htype] at htook
                rw [htook]
                exact Or.inr rfl
          · simp only [List.length_cons, List.length_nil] at hsum
            exact Or.inl ⟨by omega, fparamLoop_full fuel n dev haparm hfull⟩

end Dev
end Apollo.Usmart
