import Apollo.Usmart.Safety

/-!
# The name buffers

`rfname` and `sfname` hold thirty bytes.  The name of a function is copied without a limit,
the name of a system command with one, and the argument of a system command without one.

## Main definitions

* `nameText` — what is copied of the name of a function.
* `copied` — how much is copied of an argument, if its end is in the line.
* `NameFits`, `ParmFits` — the conditions on a line.
* `names_safe_iff` — the name buffers are not overrun exactly under the conditions.
-/

namespace Apollo.Usmart

/-! ## Names of functions -/

/-- The name in a text: what is not blank in front of the first parenthesis outside quotes. -/
def nameText : Bool → List UInt8 → List UInt8
  | _, [] => []
  | quoted, c :: s =>
      if (c = ch '(' ∨ c = ch ')') ∧ quoted = false then []
      else (if c = ch ' ' then [] else [c]) ++ nameText (if c = ch '"' then !quoted else quoted) s

theorem NameScan.take_of_fover {a : NameScan} (h : a.fover ≠ 0) (c : UInt8) :
    (a.take c).fover = a.fover ∧ (a.take c).fname = a.fname ∧ (a.take c).nchar = a.nchar := by
  rw [take, if_neg h, count, takeParm]
  split_ifs <;> exact ⟨rfl, rfl, rfl⟩

theorem NameScan.take_name {a : NameScan} (h : a.fover = 0) (c : UInt8) :
    (a.take c).fover = 0 ∧ (a.take c).fname = a.fname ++ (if c = ch ' ' then [] else [c]) ∧
      (a.take c).nchar = a.nchar := by
  rw [take, if_pos h]
  by_cases hc : c = ch ' '
  · rw [if_neg (not_not.mpr hc), if_pos hc, List.append_nil]
    exact ⟨h, rfl, rfl⟩
  · rw [if_pos hc, if_neg hc]
    exact ⟨h, rfl, rfl⟩

/-- Behind its parenthesis the name does not change. -/
theorem scanName_fname_of_fover (str : List UInt8) {a : NameScan} (h : a.fover ≠ 0) :
    (scanName str a).2.fname = a.fname := by
  induction str generalizing a with
  | nil => rfl
  | cons c s ih =>
      have htake (b : NameScan) (hb : b.fover ≠ 0) (hname : b.fname = a.fname) :
          (scanName s (b.take c)).2.fname = a.fname := by
        obtain ⟨hfover, hfname, -⟩ := NameScan.take_of_fover hb c
        rw [ih (by rw [hfover]; exact hb), hfname, hname]
      rw [scanName]
      split_ifs with hopen hclose hlast hquote
      · exact htake _ (Nat.succ_ne_zero _) rfl
      · rfl
      · exact htake _ hlast rfl
      · exact htake { a with nchar := !a.nchar } h rfl
      · exact htake _ h rfl

/-- The scan copies the name. -/
theorem scanName_fname (str : List UInt8) {a : NameScan} (h : a.fover = 0) :
    (scanName str a).2.fname = a.fname ++ nameText a.nchar str := by
  induction str generalizing a with
  | nil => exact (List.append_nil _).symm
  | cons c s ih =>
      have htake (b : NameScan) (hb : b.fover = 0) (hname : b.fname = a.fname) :
          (scanName s (b.take c)).2.fname =
            a.fname ++ ((if c = ch ' ' then [] else [c]) ++ nameText b.nchar s) := by
        obtain ⟨hfover, hfname, hnchar⟩ := NameScan.take_name hb c
        rw [ih hfover, hfname, hnchar, hname, List.append_assoc]
      rw [scanName, nameText]
      by_cases hopen : c = ch '(' ∧ a.nchar = false
      · obtain ⟨hfover, hfname, -⟩ :=
          NameScan.take_of_fover (a := { a with fover := a.fover + 1 }) (Nat.succ_ne_zero _) c
        rw [if_pos hopen, if_pos ⟨Or.inl hopen.1, hopen.2⟩, List.append_nil,
          scanName_fname_of_fover s (by rw [hfover]; exact Nat.succ_ne_zero _), hfname]
      by_cases hclose : c = ch ')' ∧ a.nchar = false
      · rw [if_neg hopen, if_pos hclose, if_pos h, if_pos ⟨Or.inr hclose.1, hclose.2⟩,
          List.append_nil]
      have hname : ¬((c = ch '(' ∨ c = ch ')') ∧ a.nchar = false) := by tauto
      rw [if_neg hopen, if_neg hclose, if_neg hname]
      by_cases hquote : c = ch '"'
      · rw [if_pos hquote, if_pos hquote]
        exact htake { a with nchar := !a.nchar } h rfl
      · rw [if_neg hquote, if_neg hquote]
        exact htake a h rfl

theorem findFname_fname (str : List UInt8) :
    (findFname str).fname = nameText false (nameStart str) :=
  scanName_fname (nameStart str) rfl

theorem text_ofList (l : List Char) : text (String.ofList l) = l.flatMap String.utf8EncodeChar := by
  simp [text, List.utf8Encode]

/-- The functions of the table have names that fit. -/
theorem nametab_fits : ∀ f ∈ usmartNametab,
    (findFname f.name).res = usmartOk ∧ (findFname f.name).fname.length < maxFnameLen := by
  simp only [findFname_fname, usmartNametab, List.forall_mem_cons, String.reduceAppend,
    List.not_mem_nil, false_implies, implies_true, and_true]
  and_intros
  -- The characters of a string are much cheaper to evaluate than its bytes.
  all_goals
    rw [text_ofList]
    decide +kernel

theorem usmartGetFname_nametab {f : NameTab} (hf : f ∈ usmartNametab) :
    usmartGetFname maxFnameLen f.name = .ok (findFname f.name) := if_pos (nametab_fits f hf).2

/-! ## Other buffers -/

/-- What does not overrun a name buffer. -/
def NameSafe {α : Type} (r : Except Fault α) : Prop := r ≠ .error .fname

namespace NameSafe
variable {α β : Type}

theorem ok (a : α) : NameSafe (.ok a) := fun h => by cases h

theorem error {f : Fault} (h : f ≠ .fname) : NameSafe (.error f : Except Fault α) := fun heq => by
  cases heq
  exact h rfl

theorem bind {r : Except Fault α} {f : α → Except Fault β} (hr : NameSafe r)
    (hf : ∀ a, NameSafe (f a)) : NameSafe (r >>= f) := by
  cases r with
  | error e => exact error fun he => hr (he ▸ rfl)
  | ok a => exact hf a

theorem ite (c : Prop) [Decidable c] {r r' : Except Fault α} (hr : NameSafe r)
    (hr' : NameSafe r') : NameSafe (if c then r else r') := by
  split
  · exact hr
  · exact hr'

end NameSafe

/-- The loop over the functions stays inside `sfname`. -/
theorem findFunc_safe (rfname : List UInt8) (rpnum : ℕ) {funs : List NameTab}
    (hfuns : ∀ f ∈ funs, f ∈ usmartNametab) (i : ℕ) : NameSafe (findFunc rfname rpnum funs i) := by
  induction funs generalizing i with
  | nil => exact .ok _
  | cons f funs ih =>
      have hrest := ih (fun g hg => hfuns g (List.mem_cons_of_mem _ hg)) (i + 1)
      rw [findFunc, usmartGetFname_nametab (hfuns f List.mem_cons_self)]
      exact .bind (.ok _) fun s => .ite _ (.ok _) (.ite _ (.ite _ (.ok _) (.ok _)) hrest)

namespace Dev

theorem room_safe (dev next : Dev) (n size : ℕ) : NameSafe (dev.room n size next) :=
  .ite _ (.error (by decide)) (.ite _ (.error (by decide)) (.ok _))

theorem putParm_safe (dev : Dev) (n : ℕ) (p : Parm) : NameSafe (dev.putParm n p) := by
  cases p with
  | num t => exact .ite _ (.ok _) (.ite _ (.ok _) (.bind (dev.room_safe _ _ _) fun _ => .ok _))
  | str t => exact .bind (dev.room_safe _ _ _) fun _ => .ok _

theorem putAll_safe (l : List Parm) (e : Ending) (n : ℕ) (dev : Dev) :
    NameSafe (putAll l e n dev) := by
  induction l generalizing n dev with
  | nil => cases e <;> first | exact .ok _ | exact .error (by decide)
  | cons p l ih => exact .bind (dev.putParm_safe n p) fun r => .ite _ (.ok _) (ih _ _)

theorem findParen_safe (str : List UInt8) : NameSafe (findParen str) := by
  fun_induction findParen str with
  | case1 => exact .error (by decide)
  | case2 => exact .ok _
  | case3 => exact .error (by decide)
  | case4 => exact .ok _
  | case5 _ _ _ _ _ ih => exact ih

/-- The argument scan has no buffer for names. -/
theorem usmartGetFparam_safe (dev : Dev) (str : List UInt8) :
    NameSafe (dev.usmartGetFparam str) := by
  cases hparen : findParen str with
  | error f =>
      have hsafe := findParen_safe str
      rw [hparen] at hsafe
      rw [usmartGetFparam, hparen]
      exact .error fun hf => hsafe (hf ▸ rfl)
  | ok r =>
      cases r with
      | none =>
          rw [usmartGetFparam, hparen]
          exact .ok _
      | some text =>
          rcases dev.usmartGetFparam_eq hparen with ⟨-, hrun⟩ | hrun
          · rw [hrun]
            exact .error (by decide)
          · rw [hrun]
            exact putAll_safe _ _ _ _

end Dev

/-! ## Arguments of system commands -/

/-- What has been copied of the argument of a system command: nothing yet, so many characters of
a number, so many of a string that is open. -/
inductive Copying where
  | before
  | digits (n : ℕ)
  | inside (n : ℕ)

/-- How many characters an argument copies, unless it is a string that the line does not close. -/
def copied : Copying → List UInt8 → Option ℕ
  | .before, [] => some 0
  | .before, c :: s =>
      if IsNumeric c then copied (.digits 1) s
      else if c = ch '"' then copied (.inside 0) s
      else if c = ch ' ' then copied .before s
      else some 0
  | .digits n, [] => some n
  | .digits n, c :: s =>
      if IsNumeric c then copied (.digits (n + 1)) s
      else if c = ch '"' then copied (.inside n) s
      else if c = ch ' ' then copied (.digits n) s
      else some n
  | .inside _, [] => none
  | .inside n, c :: s =>
      if c = ch '"' then some n
      else if c = ch '\\' then match s with
        | [] => none
        | _ :: s => copied (.inside (n + 1)) s
      else copied (.inside (n + 1)) s

/-- The flags of the scan and how many characters it has copied. -/
inductive Copies : Copying → Aparm → Prop
  | before : Copies .before ⟨false, .number, false, []⟩
  | digits (t : List UInt8) : Copies (.digits t.length) ⟨false, .number, false, t⟩
  | inside (t : List UInt8) : Copies (.inside t.length) ⟨false, .string, true, t⟩

theorem isEnd_nul : IsEnd 0 := Or.inr rfl

/-- Behind a comma a number copies nothing more. -/
theorem aparmLoop_after (s tail t : List UInt8) :
    ∃ a rest, aparmLoop (s ++ 0 :: tail) ⟨true, .number, false, t⟩ = .ok (a, rest) ∧
      a.fparm = t := by
  induction s with
  | nil => exact ⟨_, _, aparmLoop_end _ isEnd_nul _ rfl, rfl⟩
  | cons c s ih =>
      rw [List.cons_append]
      by_cases hend : IsEnd c
      · exact ⟨_, _, aparmLoop_end _ hend _ rfl, rfl⟩
      by_cases hnum : IsNumeric c
      · exact ⟨_, _, aparmLoop_numeric _ _ _ hnum, rfl⟩
      by_cases hquote : c = ch '"'
      · subst hquote
        exact ⟨_, _, aparmLoop_quote _ _ _, rfl⟩
      by_cases hcomma : c = ch ','
      · subst hcomma
        rwa [aparmLoop_comma]
      by_cases hblank : c = ch ' '
      · subst hblank
        rwa [aparmLoop_blank]
      exact ⟨_, _, aparmLoop_bad _ _ _ hend hnum hquote hblank hcomma, rfl⟩

/-- Behind its closing quote a string copies nothing more. -/
theorem aparmLoop_closed (s tail t : List UInt8) :
    ∃ a rest, aparmLoop (s ++ 0 :: tail) ⟨false, .string, false, t⟩ = .ok (a, rest) ∧
      a.fparm = t := by
  induction s with
  | nil => exact ⟨_, _, aparmLoop_end _ isEnd_nul _ rfl, rfl⟩
  | cons c s ih =>
      rw [List.cons_append]
      by_cases hend : IsEnd c
      · exact ⟨_, _, aparmLoop_end _ hend _ rfl, rfl⟩
      by_cases hcomma : c = ch ','
      · subst hcomma
        exact ⟨_, _, aparmLoop_behind_comma _ _, rfl⟩
      rwa [aparmLoop_behind _ _ hend hcomma]

/-- A character that belongs to no argument, or a comma, ends the copying of a number. -/
theorem aparmLoop_stops {c : UInt8} (s tail t : List UInt8) (hnum : ¬IsNumeric c)
    (hquote : c ≠ ch '"') (hblank : c ≠ ch ' ') :
    ∃ a rest, aparmLoop (c :: (s ++ 0 :: tail)) ⟨false, .number, false, t⟩ = .ok (a, rest) ∧
      a.fparm = t := by
  by_cases hend : IsEnd c
  · exact ⟨_, _, aparmLoop_end _ hend _ rfl, rfl⟩
  by_cases hcomma : c = ch ','
  · subst hcomma
    rw [aparmLoop_comma]
    exact aparmLoop_after s tail t
  exact ⟨_, _, aparmLoop_bad _ _ _ hend hnum hquote hblank hcomma, rfl⟩

/-- How a scan with `tail` behind its line ends: with so many characters, or inside a string
that goes on behind the line. -/
def CopyOutcome (tail : List UInt8) (r : Except Fault (Aparm × List UInt8)) : Option ℕ → Prop
  | some n => ∃ a rest, r = .ok (a, rest) ∧ a.fparm.length = n
  | none => ∃ t, r = aparmLoop tail ⟨false, .string, true, t⟩

theorem CopyOutcome.of_fparm {tail t : List UInt8} {r : Except Fault (Aparm × List UInt8)}
    (h : ∃ a rest, r = .ok (a, rest) ∧ a.fparm = t) : CopyOutcome tail r (some t.length) := by
  obtain ⟨a, rest, hr, rfl⟩ := h
  exact ⟨a, rest, hr, rfl⟩

/-- Before the first character of a number nothing of it has been copied. -/
theorem copied_before (line : List UInt8) : copied .before line = copied (.digits 0) line := by
  induction line with
  | nil => rfl
  | cons c s ih =>
      rw [copied.eq_def, copied.eq_def (.digits 0)]
      simp only [ih, Nat.zero_add]

/-- The scan copies what `copied` counts. -/
theorem aparmLoop_copied {m : Copying} {a : Aparm} (h : Copies m a) (line tail : List UInt8) :
    CopyOutcome tail (aparmLoop (line ++ 0 :: tail) a) (copied m line) := by
  induction hlen : line.length using Nat.strongRecOn generalizing line m a with
  | _ len ih =>
    subst hlen
    cases line with
    | nil =>
        rw [copied.eq_def]
        cases h with
        | before => exact .of_fparm ⟨_, _, aparmLoop_end _ isEnd_nul _ rfl, rfl⟩
        | digits t => exact .of_fparm ⟨_, _, aparmLoop_end _ isEnd_nul _ rfl, rfl⟩
        | inside t => exact ⟨t ++ [0], aparmLoop_inside _ _ (by decide) (by decide)⟩
    | cons c s =>
        rw [List.cons_append]
        have hnext {m' : Copying} {a' : Aparm} (h' : Copies m' a') :
            CopyOutcome tail (aparmLoop (s ++ 0 :: tail) a') (copied m' s) :=
          ih s.length (Nat.lt_succ_self _) h' s rfl
        have hdigits (t : List UInt8) : CopyOutcome tail
            (aparmLoop (c :: (s ++ 0 :: tail)) ⟨false, .number, false, t⟩)
            (copied (.digits t.length) (c :: s)) := by
          rw [copied.eq_def]
          by_cases hnum : IsNumeric c
          · simp only [hnum, if_true]
            rw [aparmLoop_numeric _ _ _ hnum]
            have hrest := hnext (.digits (t ++ [toUpper c]))
            rw [List.length_append] at hrest
            exact hrest
          by_cases hquote : c = ch '"'
          · subst hquote
            simp only [hnum, if_false, if_true]
            rw [aparmLoop_quote]
            exact hnext (.inside t)
          by_cases hblank : c = ch ' '
          · subst hblank
            simp only [hnum, hquote, if_false, if_true]
            rw [aparmLoop_blank]
            exact hnext (.digits t)
          simp only [hnum, hquote, hblank, if_false]
          exact .of_fparm (aparmLoop_stops s tail t hnum hquote hblank)
        cases h with
        | before =>
            rw [copied_before]
            exact hdigits []
        | digits t => exact hdigits t
        | inside t =>
            rw [copied.eq_def]
            by_cases hquote : c = ch '"'
            · subst hquote
              simp only [if_true]
              rw [aparmLoop_inside_quote]
              exact .of_fparm (aparmLoop_closed s tail t)
            by_cases hescape : c = ch '\\'
            · subst hescape
              simp only [hquote, if_false, if_true]
              cases s with
              | nil => exact ⟨t ++ [0], aparmLoop_escape _ _ _⟩
              | cons d s =>
                  have hless : s.length < (ch '\\' :: d :: s).length := by
                    simp only [List.length_cons]
                    omega
                  have hrest := ih s.length hless (.inside (t ++ [d])) s rfl
                  rw [List.length_append] at hrest
                  rw [List.cons_append, aparmLoop_escape]
                  exact hrest
            simp only [hquote, hescape, if_false]
            rw [aparmLoop_inside _ _ hquote hescape]
            have hrest := hnext (.inside (t ++ [c]))
            rw [List.length_append] at hrest
            exact hrest

/-- What may stand behind a line: a long rest of its last string. -/
def filler : List UInt8 := List.replicate maxFnameLen (ch 'a') ++ [ch '"', ch ')']

theorem aparmLoop_filler (k : ℕ) (t : List UInt8) :
    ∃ a rest, aparmLoop (List.replicate k (ch 'a') ++ [ch '"', ch ')'])
      ⟨false, .string, true, t⟩ = .ok (a, rest) ∧ t.length + k ≤ a.fparm.length := by
  induction k generalizing t with
  | zero =>
      refine ⟨⟨false, .string, false, t⟩, [ch ')'], ?_, Nat.le_refl _⟩
      rw [List.replicate_zero, List.nil_append, aparmLoop_inside_quote]
      exact aparmLoop_end _ (Or.inl rfl) _ rfl
  | succ k ih =>
      obtain ⟨a, rest, hrun, hlen⟩ := ih (t ++ [ch 'a'])
      refine ⟨a, rest, ?_, ?_⟩
      · rw [List.replicate_succ, List.cons_append, aparmLoop_inside _ _ (by decide) (by decide)]
        exact hrun
      · rw [List.length_append, List.length_singleton] at hlen
        omega

/-! ## System commands -/

/-- The first word of a line, and what follows it. -/
def cmdWord (line : List UInt8) : List UInt8 := line.takeWhile (· ≠ ch ' ')

def afterWord (line : List UInt8) : List UInt8 := line.dropWhile (· ≠ ch ' ')

theorem cstr_append {line : List UInt8} (hnul : 0 ∉ line) (tail : List UInt8) :
    cstr (line ++ 0 :: tail) = line := by
  rw [cstr, List.takeWhile_append_of_pos]
  · simp
  · intro c hc
    simpa using fun h : c = 0 => hnul (h ▸ hc)

/-- The name of a system command is the first word, unless that is too long. -/
theorem cmdnameLoop_eq (maxlen : ℕ) (line t : List UInt8) (ht : t.length < maxlen) :
    (t.length + (cmdWord line).length < maxlen ∧
      cmdnameLoop maxlen line t = (0, t ++ cmdWord line, afterWord line)) ∨
    (maxlen ≤ t.length + (cmdWord line).length ∧
      ∃ name rest, name.length = maxlen ∧ cmdnameLoop maxlen line t = (1, name, rest)) := by
  induction line generalizing t with
  | nil => exact Or.inl ⟨ht, by rw [cmdnameLoop, cmdWord, List.takeWhile_nil, List.append_nil]; rfl⟩
  | cons c s ih =>
      rw [cmdnameLoop]
      by_cases hc : c = ch ' '
      · have hword : cmdWord (c :: s) = [] := by
          rw [cmdWord, List.takeWhile_cons_of_neg (by simpa using hc)]
        have hafter : afterWord (c :: s) = c :: s := by
          rw [afterWord, List.dropWhile_cons_of_neg (by simpa using hc)]
        rw [if_pos hc, hword, hafter, List.append_nil]
        exact Or.inl ⟨ht, rfl⟩
      · have hword : cmdWord (c :: s) = c :: cmdWord s := by
          rw [cmdWord, List.takeWhile_cons_of_pos (by simpa using hc)]
          rfl
        have hafter : afterWord (c :: s) = afterWord s := by
          rw [afterWord, List.dropWhile_cons_of_pos (by simpa using hc)]
          rfl
        rw [if_neg hc, hword, hafter, List.length_cons]
        by_cases hlong : t.length + 1 ≥ maxlen
        · rw [if_pos hlong]
          refine Or.inr ⟨by omega, t ++ [c], s, ?_, rfl⟩
          rw [List.length_append, List.length_singleton]
          omega
        · rw [if_neg hlong]
          have hlen : (t ++ [c]).length = t.length + 1 := List.length_append
          have hrest := ih (t ++ [c]) (by omega)
          rw [hlen, List.append_assoc, List.singleton_append] at hrest
          rcases hrest with ⟨hshort, hrun⟩ | ⟨hlong', hrun⟩
          · exact Or.inl ⟨by omega, hrun⟩
          · exact Or.inr ⟨by omega, hrun⟩

theorem usmartGetCmdname_eq (line : List UInt8) :
    ((cmdWord line).length < maxFnameLen ∧ usmartGetCmdname maxFnameLen maxFnameLen line =
      .ok (0, cmdWord line, afterWord line)) ∨
    (maxFnameLen ≤ (cmdWord line).length ∧ ∃ name rest,
      usmartGetCmdname maxFnameLen maxFnameLen line = .ok (1, name, rest)) := by
  rw [usmartGetCmdname]
  rcases cmdnameLoop_eq maxFnameLen line [] (by decide) with
    ⟨hshort, hrun⟩ | ⟨hlong, name, rest, hname, hrun⟩
  · rw [List.length_nil, Nat.zero_add] at hshort
    rw [hrun, List.nil_append]
    exact Or.inl ⟨hshort, if_pos hshort⟩
  · rw [List.length_nil, Nat.zero_add] at hlong
    rw [hrun]
    exact Or.inr ⟨hlong, name, rest, if_pos hname.le⟩

theorem usmartStrcmp_eq_zero {str1 str2 : List UInt8} :
    usmartStrcmp str1 str2 = 0 ↔ str1 = str2 := by
  induction str1 generalizing str2 with
  | nil => cases str2 <;> simp [usmartStrcmp]
  | cons c s ih =>
      cases str2 with
      | nil => simp [usmartStrcmp]
      | cons d t =>
          rw [usmartStrcmp, List.cons.injEq]
          by_cases hcd : c = d
          · rw [if_neg (not_not.mpr hcd), ih]
            exact (and_iff_right hcd).symm
          · rw [if_pos hcd]
            exact iff_of_false Nat.one_ne_zero fun h => hcd h.1

theorem sysCmdTab_of_findIdx {sfname : List UInt8} {k : ℕ} (hk : k < sysCmdTab.length)
    (h : sysCmdTab.findIdx (fun cmd => usmartStrcmp sfname cmd = 0) = k) :
    sfname = sysCmdTab[k] := by
  subst h
  have hcmp := List.findIdx_getElem (w := hk)
  exact usmartStrcmp_eq_zero.mp (by simpa using hcmp)

/-- The argument of a system command fits, whatever is behind the line. -/
theorem sysCmdParm_safe_iff (s : List UInt8) :
    (∀ tail, NameSafe (sysCmdParm (s ++ 0 :: tail))) ↔
      ∃ n < maxFnameLen, copied .before s = some n := by
  have hfull {mem rest : List UInt8} {a : Aparm}
      (hrun : aparmLoop mem ⟨false, .number, false, []⟩ = .ok (a, rest))
      (hlong : maxFnameLen ≤ a.fparm.length) : ¬NameSafe (sysCmdParm mem) := by
    rw [sysCmdParm, usmartGetAparm, hrun]
    simp only [bind, Except.bind, Nat.not_lt.mpr hlong, if_false]
    exact fun h => h rfl
  cases hcopied : copied .before s with
  | none =>
      refine iff_of_false (fun hsafe => ?_) (by rintro ⟨n, -, h⟩; cases h)
      have hout := aparmLoop_copied .before s filler
      rw [hcopied] at hout
      obtain ⟨t, hopen⟩ := hout
      obtain ⟨a, rest, hrun, hlong⟩ := aparmLoop_filler maxFnameLen t
      exact hfull (hopen.trans hrun) (by omega) (hsafe filler)
  | some n =>
      constructor
      · intro hsafe
        have hout := aparmLoop_copied .before s []
        rw [hcopied] at hout
        obtain ⟨a, rest, hrun, hlen⟩ := hout
        refine ⟨n, ?_, rfl⟩
        by_contra hlong
        exact hfull hrun (by omega) (hsafe [])
      · rintro ⟨m, hm, heq⟩ tail
        have hout := aparmLoop_copied .before s tail
        rw [hcopied] at hout
        obtain ⟨a, rest, hrun, hlen⟩ := hout
        obtain rfl := Option.some.inj heq
        rw [sysCmdParm, usmartGetAparm, hrun]
        simp only [bind, Except.bind, hlen, hm, if_true]
        exact .ok _

theorem sysCmdShow_safe (sptype : ℕ) {str : List UInt8} (dev : Dev) :
    NameSafe (sysCmdShow sptype str dev) ↔ NameSafe (sysCmdParm str) := by
  rw [sysCmdShow]
  cases sysCmdParm str with
  | error f => exact ⟨fun h heq => h (by cases heq; rfl), fun h heq => h (by cases heq; rfl)⟩
  | ok r => exact iff_of_true (by cases r <;> exact .ok _) (.ok r)

theorem sysCmdRuntime_safe {str : List UInt8} (dev : Dev) :
    NameSafe (sysCmdRuntime str dev) ↔ NameSafe (sysCmdParm str) := by
  rw [sysCmdRuntime]
  cases sysCmdParm str with
  | error f => exact ⟨fun h heq => h (by cases heq; rfl), fun h heq => h (by cases heq; rfl)⟩
  | ok r => exact iff_of_true (by cases r <;> exact .ok _) (.ok r)

/-! ## Lines -/

/-- The name of the function fits: at most 29 characters that are not blanks come before the
first parenthesis outside quotes. -/
def NameFits (line : List UInt8) : Prop :=
  (nameText false (nameStart line)).length < maxFnameLen

/-- The argument of a command that takes a number fits: it ends in the line and has at most 29
characters. -/
def ParmFits (line : List UInt8) : Prop :=
  cmdWord line ∈ [text "hex", text "dec", text "runtime"] →
    ∃ n < maxFnameLen, copied .before (afterWord line) = some n

theorem usmartCmdRec_safe_iff {line : List UInt8} (hnul : 0 ∉ line) (tail : List UInt8)
    (dev : Dev) :
    NameSafe (usmartCmdRec (line ++ 0 :: tail) dev) ↔ NameFits line := by
  rw [usmartCmdRec, cstr_append hnul, usmartGetFname, NameFits, findFname_fname]
  by_cases hfits : (nameText false (nameStart line)).length < maxFnameLen
  · rw [if_pos hfits]
    refine iff_of_true (.bind (.ok _) fun r => .ite _ (.ok _) (.bind ?_ fun s => ?_)) hfits
    · exact findFunc_safe _ _ (fun f hf => hf) 0
    · exact .ite _ (.ok _) (.bind (Dev.usmartGetFparam_safe _ _) fun d => .ite _ (.ok _) (.ok _))
  · rw [if_neg hfits]
    exact iff_of_false (fun h => h rfl) hfits

theorem mapM_safe {funs : List NameTab} (hfuns : ∀ f ∈ funs, f ∈ usmartNametab) :
    NameSafe (funs.mapM fun f => usmartGetFname maxFnameLen f.name) := by
  induction funs with
  | nil => exact .ok _
  | cons f funs ih =>
      rw [List.mapM_cons, usmartGetFname_nametab (hfuns f List.mem_cons_self)]
      exact .bind (.ok _) fun _ =>
        .bind (ih fun g hg => hfuns g (List.mem_cons_of_mem _ hg)) fun _ => .ok _

/-- What a system command does, once its name has been found. -/
theorem usmartSysCmdExe_eq {line : List UInt8} (hnul : 0 ∉ line)
    (hname : usmartGetCmdname maxFnameLen maxFnameLen line = .ok (0, cmdWord line, afterWord line))
    (tail : List UInt8) (dev : Dev) :
    usmartSysCmdExe (line ++ 0 :: tail) dev =
      match sysCmdTab.findIdx fun cmd => usmartStrcmp (cmdWord line) cmd = 0 with
      | 0 | 1 | 2 => .ok (0, dev)
      | 3 => (do
          let _ ← usmartNametab.mapM fun f => usmartGetFname maxFnameLen f.name
          pure (0, dev))
      | 4 => sysCmdShow 1 (afterWord line ++ 0 :: tail) dev
      | 5 => sysCmdShow 0 (afterWord line ++ 0 :: tail) dev
      | 6 => sysCmdRuntime (afterWord line ++ 0 :: tail) dev
      | _ => .ok (usmartFuncerr, dev) := by
  have hdrop : (line ++ 0 :: tail).drop (cmdWord line).length = afterWord line ++ 0 :: tail := by
    have hsplit : cmdWord line ++ afterWord line = line := List.takeWhile_append_dropWhile
    conv_lhs => rw [← hsplit]
    rw [List.append_assoc, List.drop_left']
    rw [hsplit]
  rw [usmartSysCmdExe, cstr_append hnul, hname]
  simp only [bind, Except.bind, ne_eq, not_true_eq_false, if_false, hdrop]
  rfl

theorem usmartSysCmdExe_safe_iff {line : List UInt8} (hnul : 0 ∉ line) :
    (∀ tail dev, NameSafe (usmartSysCmdExe (line ++ 0 :: tail) dev)) ↔ ParmFits line := by
  rcases usmartGetCmdname_eq line with ⟨-, hname⟩ | ⟨hlong, name, rest, hname⟩
  · by_cases hmem : cmdWord line ∈ [text "hex", text "dec", text "runtime"]
    · rw [ParmFits, imp_iff_right hmem, ← sysCmdParm_safe_iff]
      refine forall_congr' fun tail => ?_
      have hdev (dev : Dev) : NameSafe (usmartSysCmdExe (line ++ 0 :: tail) dev) ↔
          NameSafe (sysCmdParm (afterWord line ++ 0 :: tail)) := by
        rw [usmartSysCmdExe_eq hnul hname]
        simp only [List.mem_cons, List.not_mem_nil, or_false] at hmem
        rcases hmem with hword | hword | hword
        · have hidx : sysCmdTab.findIdx (fun cmd => usmartStrcmp (cmdWord line) cmd = 0) = 4 := by
            rw [hword]
            decide +kernel
          rw [hidx]
          exact sysCmdShow_safe 1 dev
        · have hidx : sysCmdTab.findIdx (fun cmd => usmartStrcmp (cmdWord line) cmd = 0) = 5 := by
            rw [hword]
            decide +kernel
          rw [hidx]
          exact sysCmdShow_safe 0 dev
        · have hidx : sysCmdTab.findIdx (fun cmd => usmartStrcmp (cmdWord line) cmd = 0) = 6 := by
            rw [hword]
            decide +kernel
          rw [hidx]
          exact sysCmdRuntime_safe dev
      exact ⟨fun h => (hdev usmartDev).mp (h usmartDev), fun h dev => (hdev dev).mpr h⟩
    · refine iff_of_true (fun tail dev => ?_) fun h => absurd h hmem
      rw [usmartSysCmdExe_eq hnul hname]
      split
      · exact .ok _
      · exact .ok _
      · exact .ok _
      · exact .bind (mapM_safe fun f hf => hf) fun _ => .ok _
      · rename_i hidx
        exact absurd (sysCmdTab_of_findIdx (by decide) hidx ▸ by decide) hmem
      · rename_i hidx
        exact absurd (sysCmdTab_of_findIdx (by decide) hidx ▸ by decide) hmem
      · rename_i hidx
        exact absurd (sysCmdTab_of_findIdx (by decide) hidx ▸ by decide) hmem
      · exact .ok _
  · have hshort : ∀ word ∈ [text "hex", text "dec", text "runtime"], word.length < maxFnameLen := by
      decide +kernel
    refine iff_of_true (fun tail dev => ?_) fun h => absurd (hshort _ h) (Nat.not_lt.mpr hlong)
    rw [usmartSysCmdExe, cstr_append hnul, hname]
    exact .ok _

/-- For every line and whatever is behind it, the name buffers of `usmart_cmd_rec` and of
`usmart_sys_cmd_exe` are not overrun exactly when the name of the function fits and, after a
command that takes a number, the argument does. -/
theorem names_safe_iff (line : List UInt8) (hnul : 0 ∉ line) :
    ((∀ tail dev, usmartCmdRec (line ++ 0 :: tail) dev ≠ .error .fname) ∧
        ∀ tail dev, usmartSysCmdExe (line ++ 0 :: tail) dev ≠ .error .fname) ↔
      NameFits line ∧ ParmFits line := by
  have hrec : (∀ tail dev, usmartCmdRec (line ++ 0 :: tail) dev ≠ .error .fname) ↔ NameFits line :=
    ⟨fun h => (usmartCmdRec_safe_iff hnul [] usmartDev).mp (h [] usmartDev),
      fun h tail dev => (usmartCmdRec_safe_iff hnul tail dev).mpr h⟩
  exact and_congr hrec (usmartSysCmdExe_safe_iff hnul)

theorem names_safe_hex :
    ((∀ tail dev, usmartCmdRec (text "hex 255" ++ 0 :: tail) dev ≠ .error .fname) ∧
        ∀ tail dev, usmartSysCmdExe (text "hex 255" ++ 0 :: tail) dev ≠ .error .fname) ↔
      NameFits (text "hex 255") ∧ ParmFits (text "hex 255") :=
  names_safe_iff _ (by decide +kernel)

/-- Thirty letters and no parenthesis: the NUL of the name is written behind `rfname`. -/
theorem names_overrun :
    (text "abcdefghijklmnopqrstuvwxyzabcd").length = 30 ∧
      usmartCmdRec (text "abcdefghijklmnopqrstuvwxyzabcd" ++ [0]) usmartDev = .error .fname := by
  refine ⟨by decide +kernel, ?_⟩
  by_contra hsafe
  have hfits := (usmartCmdRec_safe_iff (by decide +kernel) [] usmartDev).mp hsafe
  revert hfits
  rw [NameFits]
  decide +kernel

end Apollo.Usmart
