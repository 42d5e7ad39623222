import Apollo.Usmart.Stored

/-!
# Commands read back

A command that has been written as text is read by two scans.  The argument scan knows
that a backslash stands before a double quote inside a string; the name scan, which counts
the parameters, takes every double quote as the begin or the end of a string.  A command is
read back as it was written exactly when the name scan finds the end of the list and has
counted enough parameters by then.

## Main definitions

* `NameTab.line` — a command as text.
* `countedParms` — how many parameters a text counts if every double quote is a delimiter.
* `roundTrip_iff` — a command is read back exactly when enough parameters are counted.
* `counted_of_noQuote` — and it is if no string has a double quote in it.
-/

namespace Apollo.Usmart

/-- The name of a function. -/
def NameTab.fname (f : NameTab) : List UInt8 := (findFname f.name).fname

/-- A command: the name of a function, and its arguments in parentheses. -/
def NameTab.line (f : NameTab) (args : List Arg) : List UInt8 :=
  f.fname ++ ch '(' :: (argsText args ++ [ch ')'])

/-- The line is accepted for the function, and the arguments that are stored are those given. -/
def RoundTrips (f : NameTab) (args : List Arg) (dev : Dev) : Prop :=
  ∃ dev', usmartCmdRec (f.line args ++ [0]) dev = .ok (usmartOk, dev') ∧
    (usmartNametab[dev'.id]?).map NameTab.func = some f.func ∧ dev'.args = args.map Arg.value

/-- How many parameters are counted in a text in front of the parenthesis that closes its list.
Every double quote begins or ends a string, but a comma counts inside a string too; a parameter is
counted at its first character, and only at the depth of one parenthesis. -/
def countedParms : ℕ → Bool → Bool → ℕ → List UInt8 → Option ℕ
  | _, _, _, _, [] => none
  | depth, quoted, fresh, n, c :: s =>
      let depth := if quoted then depth else if c = ch '(' then depth + 1
        else if c = ch ')' then depth - 1 else depth
      let quoted := if c = ch '"' then !quoted else quoted
      if depth = 0 then some n
      else if c = ch ',' then countedParms depth quoted true n s
      else if c = ch ' ' ∨ c = ch '(' then countedParms depth quoted fresh n s
      else countedParms depth quoted false (if fresh ∧ depth = 1 then n + 1 else n) s

/-- As many parameters are counted as there are arguments, or more. -/
def EnoughCounted (args : List Arg) : Prop :=
  ∃ n, countedParms 1 false true 0 (argsText args ++ [ch ')']) = some n ∧ args.length ≤ n

/-! ## The name scan behind the name -/

namespace NameScan

/-- The counter of characters: it is started, and a parameter that has been passed by at another
depth is not counted later. -/
def Counting (a : NameScan) : Prop := a.temp ≠ 0 ∧ (a.temp = 2 → a.fover ≠ 1)

/-- What a character does to the counting. -/
theorem take_counting {a : NameScan} {c : UInt8} (hfover : a.fover ≠ 0) (htemp : a.temp ≠ 0)
    (hblank : c = ch ' ' ∨ c = ch '(' → a.temp = 2 → a.fover ≠ 1) :
    (a.take c).Counting ∧
      (decide ((a.take c).temp = 1), (a.take c).parmnum) =
        if c = ch ',' then (true, a.parmnum)
        else if c = ch ' ' ∨ c = ch '(' then (decide (a.temp = 1), a.parmnum)
        else (false, if a.temp = 1 ∧ a.fover = 1 then a.parmnum + 1 else a.parmnum) := by
  rw [take, if_neg hfover, takeParm]
  by_cases hcomma : c = ch ','
  · simp [hcomma, count, Counting]
  by_cases hskip : c = ch ' ' ∨ c = ch '('
  · have hnone : ¬(a.fover = 1 ∧ a.temp = 2) := fun h => hblank hskip h.2 h.1
    have hparm : ¬(c ≠ ch ' ' ∧ c ≠ ch '(') := by tauto
    rw [if_neg hcomma, if_neg hparm, count, if_neg hnone, if_neg hcomma, if_pos hskip]
    exact ⟨⟨htemp, fun h hfover => hnone ⟨hfover, h⟩⟩, rfl⟩
  · have hparm : c ≠ ch ' ' ∧ c ≠ ch '(' := by tauto
    rw [if_neg hcomma, if_pos hparm, count, if_neg hcomma, if_neg hskip]
    by_cases hfirst : a.temp = 1 ∧ a.fover = 1
    · simp [hfirst, Counting]
    · have hnone : ¬(a.fover = 1 ∧ a.temp + 1 = 2) := by omega
      simp only [hnone, if_false, hfirst, Counting]
      refine ⟨⟨Nat.succ_ne_zero _, fun h hfover => hnone ⟨hfover, h⟩⟩, ?_⟩
      simp [htemp]

end NameScan

/-- The scan ends where the list is closed, with the parameters counted until then. -/
theorem scanName_counted (str : List UInt8) {a : NameScan} (hfover : a.fover ≠ 0)
    (h : a.Counting) (n : ℕ) :
    ((scanName str a).1 = usmartOk ∧ (scanName str a).2.parmnum = n) ↔
      countedParms a.fover a.nchar (decide (a.temp = 1)) a.parmnum str = some n := by
  induction str generalizing a with
  | nil => simp [scanName, countedParms]
  | cons c s ih =>
      -- The scan goes on with the state that the character leaves.
      have hnext {b : NameScan} (hb : b.fover ≠ 0) (htemp : b.temp = a.temp)
          (hparmnum : b.parmnum = a.parmnum)
          (hblank : c = ch ' ' ∨ c = ch '(' → b.temp = 2 → b.fover ≠ 1) :
          ((scanName s (b.take c)).1 = usmartOk ∧ (scanName s (b.take c)).2.parmnum = n) ↔
            (if c = ch ',' then countedParms b.fover b.nchar true a.parmnum s
            else if c = ch ' ' ∨ c = ch '(' then
              countedParms b.fover b.nchar (decide (a.temp = 1)) a.parmnum s
            else countedParms b.fover b.nchar false
              (if a.temp = 1 ∧ b.fover = 1 then a.parmnum + 1 else a.parmnum) s) = some n := by
        obtain ⟨hcounting, hcount⟩ := NameScan.take_counting hb (htemp ▸ h.1) hblank
        obtain ⟨hfresh, hnum⟩ := Prod.ext_iff.mp hcount
        obtain ⟨hbfover, -, hbnchar⟩ := NameScan.take_of_fover hb c
        simp only at hfresh hnum
        rw [ih (by rw [hbfover]; exact hb) hcounting, hbfover, hbnchar, hfresh, hnum,
          htemp, hparmnum]
        split_ifs <;> rfl
      have hblank : c = ch ' ' ∨ c = ch '(' → a.temp = 2 → a.fover ≠ 1 := fun _ => h.2
      rw [scanName, countedParms]
      cases hquoted : a.nchar with
      | true =>
          by_cases hquote : c = ch '"'
          · subst hquote
            simpa +decide [hquoted, hfover] using
              hnext (b := { a with nchar := !a.nchar }) hfover rfl rfl hblank
          · simpa +decide [hquoted, hfover, hquote] using hnext (b := a) hfover rfl rfl hblank
      | false =>
          by_cases hopen : c = ch '('
          · subst hopen
            simpa +decide [hquoted] using
              hnext (b := { a with fover := a.fover + 1 }) (Nat.succ_ne_zero _) rfl rfl
                fun _ _ => by simpa using hfover
          by_cases hclose : c = ch ')'
          · subst hclose
            by_cases hlast : a.fover - 1 = 0
            · simp +decide [hfover, hlast]
            · simpa +decide [hquoted, hfover, hlast] using
                hnext (b := { a with fover := a.fover - 1 }) hlast rfl rfl
                  fun h => absurd h (by decide)
          by_cases hquote : c = ch '"'
          · subst hquote
            simpa +decide [hquoted, hfover] using
              hnext (b := { a with nchar := !a.nchar }) hfover rfl rfl hblank
          · simpa +decide [hquoted, hfover, hquote, hopen, hclose] using
              hnext (b := a) hfover rfl rfl hblank

/-! ## The type of the first parameter -/

theorem NameScan.fpname_count (a : NameScan) : a.count.fpname = a.fpname := by
  rw [count]
  split
  · rfl
  · rfl

theorem NameScan.take_fpname {a : NameScan} {d : UInt8} {r : List UInt8} (hfover : a.fover ≠ 0)
    (h : a.fpname = d :: r) (c : UInt8) : ∃ r', (a.take c).fpname = d :: r' := by
  rw [take, if_neg hfover, fpname_count, takeParm]
  split_ifs <;> simp [h]

/-- What is kept of the first parameter begins with its first character. -/
theorem scanName_fpname (str : List UInt8) {a : NameScan} {d : UInt8} {r : List UInt8}
    (hfover : a.fover ≠ 0) (h : a.fpname = d :: r) : ∃ r', (scanName str a).2.fpname = d :: r' := by
  induction str generalizing a r with
  | nil => exact ⟨r, h⟩
  | cons c s ih =>
      have hnext {b : NameScan} (hb : b.fover ≠ 0) (hname : b.fpname = a.fpname) :
          ∃ r', (scanName s (b.take c)).2.fpname = d :: r' := by
        obtain ⟨r', hr'⟩ := NameScan.take_fpname hb (hname.trans h) c
        exact ih (by rw [(NameScan.take_of_fover hb c).1]; exact hb) hr'
      rw [scanName]
      split_ifs with hopen hclose hlast hquote
      · exact hnext (Nat.succ_ne_zero _) rfl
      · exact ⟨r, h⟩
      · exact hnext hlast rfl
      · exact hnext (b := { a with nchar := !a.nchar }) hfover rfl
      · exact hnext hfover rfl

theorem StartsArg.ne {c : UInt8} (h : StartsArg c) :
    c ≠ ch '(' ∧ c ≠ ch ')' ∧ c ≠ ch ',' ∧ c ≠ ch ' ' ∧ c ≠ ch 'v' := by
  refine ⟨?_, ?_, ?_, ?_, ?_⟩
  all_goals
    rintro rfl
    revert h
    decide

theorem usmartStrcmp_void {d : UInt8} (h : d ≠ ch 'v') (r : List UInt8) :
    usmartStrcmp (d :: r) (text "void") ≠ 0 := by
  have hvoid : text "void" = [ch 'v', ch 'o', ch 'i', ch 'd'] := by decide +kernel
  rw [ne_eq, usmartStrcmp_eq_zero, hvoid]
  exact fun heq => h (List.cons.inj heq).1

/-- No list of arguments begins with `void`. -/
theorem scanName_not_void (args : List Arg) (name : List UInt8) :
    usmartStrcmp (scanName (argsText args ++ [ch ')']) ⟨1, false, 1, 0, 0, name, []⟩).2.fpname
      (text "void") ≠ 0 := by
  cases args with
  | nil =>
      change usmartStrcmp [] (text "void") ≠ 0
      decide +kernel
  | cons a args =>
      obtain ⟨c, s, hcs, hc⟩ := argsText_cons a args
      obtain ⟨hopen, hclose, hcomma, hblank, hvoid⟩ := hc.ne
      rw [hcs, List.cons_append, scanName, if_neg fun h => hopen h.1, if_neg fun h => hclose h.1]
      have hkeeps (b : NameScan) (hb : b.fover = 1) (hpcnt : b.pcnt = 0) (hname : b.fpname = []) :
          usmartStrcmp (scanName (s ++ [ch ')']) (b.take c)).2.fpname (text "void") ≠ 0 := by
        have hfpname : (b.take c).fpname = [c] := by
          rw [NameScan.take, if_neg (by omega), NameScan.fpname_count, NameScan.takeParm,
            if_neg hcomma, if_pos ⟨hblank, hopen⟩]
          simp [hpcnt, hname]
        obtain ⟨r, hr⟩ := scanName_fpname (s ++ [ch ')'])
          (by rw [(NameScan.take_of_fover (by omega) c).1]; omega) hfpname
        rw [hr]
        exact usmartStrcmp_void hvoid r
      split
      · exact hkeeps _ rfl rfl rfl
      · exact hkeeps _ rfl rfl rfl

/-! ## The name scan of a command -/

/-- What the name of a function is made of. -/
def Plain (c : UInt8) : Prop :=
  c ≠ ch '(' ∧ c ≠ ch ')' ∧ c ≠ ch ' ' ∧ c ≠ ch '*' ∧ c ≠ ch '"' ∧ c ≠ 0

instance : DecidablePred Plain := fun _ => inferInstanceAs (Decidable (_ ∧ _))

theorem nametab_plain : ∀ f ∈ usmartNametab, ∀ c ∈ f.fname, Plain c := by
  simp only [NameTab.fname, findFname_fname, usmartNametab, List.forall_mem_cons,
    String.reduceAppend, List.not_mem_nil, false_implies, implies_true, and_true]
  and_intros
  all_goals
    rw [text_ofList]
    decide +kernel

/-- Functions of one name are one function, with one number of parameters. -/
theorem nametab_unique : ∀ f ∈ usmartNametab, ∀ g ∈ usmartNametab, g.fname = f.fname →
    g.func = f.func ∧ (findFname g.name).pnum = (findFname f.name).pnum := by
  have hpairs : usmartNametab.Pairwise fun f g => g.fname = f.fname →
      g.func = f.func ∧ (findFname g.name).pnum = (findFname f.name).pnum := by
    simp only [NameTab.fname, findFname_fname]
    decide +kernel
  have hflip : usmartNametab.Pairwise (flip fun f g => g.fname = f.fname →
      g.func = f.func ∧ (findFname g.name).pnum = (findFname f.name).pnum) :=
    hpairs.imp fun h heq => (h heq.symm).imp Eq.symm Eq.symm
  intro f hf g hg
  exact hpairs.forall_of_forall_of_flip (fun _ _ _ => ⟨rfl, rfl⟩) hflip hf hg

/-- Nothing stands in front of a plain name. -/
theorem offsetLoop_plain (name : List UInt8) (h : ∀ c ∈ name, Plain c) (s : List UInt8)
    (res offset : ℕ) : offsetLoop (name ++ ch '(' :: s) res offset = offset := by
  induction name generalizing res with
  | nil =>
      rw [List.nil_append, offsetLoop.eq_def]
      exact if_pos rfl
  | cons c name ih =>
      have hc := h c List.mem_cons_self
      have hrest := ih (fun d hd => h d (List.mem_cons_of_mem _ hd)) (res + 1)
      rw [List.cons_append, offsetLoop.eq_def]
      simp only [hc.1, if_false]
      cases name with
      | nil => simpa +decide using hrest
      | cons d name =>
          have hd := h d (List.mem_cons_of_mem _ List.mem_cons_self)
          simp only [List.cons_append, hd.2.2.1, hd.2.2.2.1, or_self, if_false] at hrest ⊢
          exact hrest

theorem nameStart_plain (name : List UInt8) (h : ∀ c ∈ name, Plain c) (s : List UInt8) :
    nameStart (name ++ ch '(' :: s) = name ++ ch '(' :: s := by
  rw [nameStart, offsetLoop_plain name h]
  rfl

/-- The scan takes the characters of a plain name. -/
theorem scanName_chars (name : List UInt8) (h : ∀ c ∈ name, Plain c) (s pre : List UInt8) :
    scanName (name ++ s) ⟨0, false, 1, 0, 0, pre, []⟩ =
      scanName s ⟨0, false, 1, 0, 0, pre ++ name, []⟩ := by
  induction name generalizing pre with
  | nil => rw [List.append_nil, List.nil_append]
  | cons c name ih =>
      obtain ⟨hopen, hclose, hblank, -, hquote, -⟩ := h c List.mem_cons_self
      rw [List.cons_append, scanName, if_neg fun h => hopen h.1, if_neg fun h => hclose h.1,
        if_neg hquote, NameScan.take, if_pos rfl, if_pos hblank,
        ih fun d hd => h d (List.mem_cons_of_mem _ hd)]
      rw [List.append_assoc, List.singleton_append]

/-- The scan passes a plain name. -/
theorem scanName_plain (name : List UInt8) (h : ∀ c ∈ name, Plain c) (s pre : List UInt8) :
    scanName (name ++ ch '(' :: s) ⟨0, false, 1, 0, 0, pre, []⟩ =
      scanName s ⟨1, false, 1, 0, 0, pre ++ name, []⟩ := by
  rw [scanName_chars name h]
  rfl

section
variable {f : NameTab} (hf : f ∈ usmartNametab) (args : List Arg)
include hf

/-- The name scan finds the name of a command, and ends where its list is closed. -/
theorem findFname_line : (findFname (f.line args)).fname = f.fname ∧
    ∀ n, ((findFname (f.line args)).res = usmartOk ∧ (findFname (f.line args)).pnum = n) ↔
      countedParms 1 false true 0 (argsText args ++ [ch ')']) = some n := by
  have hplain := nametab_plain f hf
  obtain ⟨r, hr⟩ : ∃ r, r =
      scanName (argsText args ++ [ch ')']) ⟨1, false, 1, 0, 0, f.fname, []⟩ := ⟨_, rfl⟩
  have hscan : findFname (f.line args) =
      ⟨r.1, r.2.fname, r.2.parmnum, returnsValue (f.line args)⟩ := by
    have hvoid := scanName_not_void args f.fname
    rw [← hr] at hvoid
    rw [findFname, NameTab.line, nameStart_plain _ hplain, scanName_plain _ hplain, List.nil_append,
      ← hr]
    simp only [hvoid, and_false, if_false]
  refine ⟨?_, fun n => ?_⟩
  · rw [hscan, hr]
    exact scanName_fname_of_fover _ Nat.one_ne_zero
  · rw [hscan, hr]
    exact scanName_counted _ Nat.one_ne_zero
      ⟨Nat.one_ne_zero, fun h : 1 = 2 => absurd h (by decide)⟩ n

end

/-! ## The line in memory -/

theorem IsNumeric.ne_nul {c : UInt8} (h : IsNumeric c) : c ≠ 0 := fun hc => h.ne.1 (Or.inr hc)

theorem nul_not_mem_text (a : Arg) : 0 ∉ a.text := by
  intro h
  cases a with
  | num k => exact (k.isNumeric_text 0 h).ne_nul rfl
  | str s hs =>
      rw [Arg.text, List.mem_cons, List.mem_append, List.mem_flatMap] at h
      rcases h with h | ⟨c, hc, hmem⟩ | h
      · revert h
        decide
      · have hnul : c ≠ 0 := fun h => printable_ne_nul hs (h ▸ hc)
        rw [escape] at hmem
        split at hmem
        · simp [hnul.symm] at hmem
          revert hmem
          decide
        · exact hnul (List.mem_singleton.mp hmem).symm
      · revert h
        decide

theorem nul_not_mem_argsText (args : List Arg) : 0 ∉ argsText args := by
  fun_induction argsText args with
  | case1 => exact List.not_mem_nil
  | case2 a => exact nul_not_mem_text a
  | case3 a b args ih =>
      rw [List.mem_append, List.mem_cons]
      rintro (h | h | h)
      · exact nul_not_mem_text a h
      · revert h
        decide
      · exact ih h

section
variable {f : NameTab} (hf : f ∈ usmartNametab) (args : List Arg)
include hf

theorem nul_not_mem_line : 0 ∉ f.line args := by
  rw [NameTab.line, List.mem_append, List.mem_cons, List.mem_append]
  rintro (h | h | h | h)
  · exact (nametab_plain f hf 0 h).2.2.2.2.2 rfl
  · revert h
    decide
  · exact nul_not_mem_argsText args h
  · revert h
    decide

theorem argText_line : argText (f.line args) = argsText args ++ [ch ')'] := by
  have hname : ∀ name : List UInt8, (∀ c ∈ name, Plain c) → ∀ s,
      argText (name ++ ch '(' :: s) = s := by
    intro name hname s
    induction name with
    | nil =>
        rw [List.nil_append, argText, List.dropWhile_cons_of_neg (by simp)]
        rfl
    | cons c name ih =>
        rw [List.cons_append, argText_cons (hname c List.mem_cons_self).1,
          ih fun d hd => hname d (List.mem_cons_of_mem _ hd)]
  exact hname _ (nametab_plain f hf) _

/-- The arguments of a command that fits are stored. -/
theorem usmartGetFparam_line (hlen : (f.line args).length ≤ 199) (hnum : args.length ≤ maxParm)
    (hsize : (argBytes (args.map Arg.value)).length ≤ parmLen) (dev : Dev) :
    ∃ dev', dev.usmartGetFparam (f.line args ++ [0]) = .ok (usmartOk, args.length, dev') ∧
      dev'.Entered (args.map Arg.value) ∧ dev'.id = dev.id := by
  have hparen : ch '(' ∈ f.line args := by
    rw [NameTab.line, List.mem_append]
    exact Or.inr List.mem_cons_self
  have hfind := findParen_append hparen (nul_not_mem_line hf args) [0]
  rw [argText_line hf, List.append_assoc, List.singleton_append] at hfind
  have hshort : ¬parmLen < (argsText args ++ [ch ')', 0]).length := by
    rw [NameTab.line] at hlen
    simp only [List.length_append, List.length_cons, List.length_nil] at hlen ⊢
    change ¬200 < _
    omega
  have hrun := (dev.usmartGetFparam_eq hfind).resolve_left fun h => hshort h.1
  rw [readParms_argsText] at hrun
  obtain ⟨dev', hput, hentered⟩ := Dev.putAll_args args (.nil dev.cleared)
    (by rwa [List.length_nil, Nat.zero_add]) (by rwa [List.nil_append])
  rw [List.length_nil, Nat.zero_add] at hput
  have hid : dev'.id = dev.cleared.id := Dev.putAll_id hput
  exact ⟨dev', hrun.trans hput, hentered, hid⟩

/-- A function of the table is found by its name, or one that is the same. -/
theorem findFunc_nametab (rpnum : ℕ) :
    ∃ k, (usmartNametab[k]?).map NameTab.func = some f.func ∧
      findFunc f.fname rpnum usmartNametab 0 =
        .ok (if (findFname f.name).pnum > rpnum then usmartParmerr else usmartOk, k) := by
  obtain ⟨g, hg⟩ :
      ∃ g, usmartNametab.find? (fun g => (findFname g.name).fname = f.fname) = some g := by
    rw [← Option.isSome_iff_exists, List.find?_isSome]
    exact ⟨f, hf, by simp [NameTab.fname]⟩
  have hgname : (findFname g.name).fname = f.fname := by simpa using List.find?_some hg
  obtain ⟨hfunc, hpnum⟩ := nametab_unique f hf g (List.mem_of_find?_eq_some hg) hgname
  obtain ⟨k, hk, hfind⟩ := findFunc_eq rpnum (fun f hf => hf) 0 hg
  rw [hpnum, Nat.zero_add] at hfind
  exact ⟨k, by rw [hk, Option.map_some, hfunc], hfind⟩

/-- What a command that fits is answered with: it is accepted if enough parameters are counted. -/
theorem usmartCmdRec_line (hlen : (f.line args).length ≤ 199) (hnum : args.length ≤ maxParm)
    (hcount : args.length = (findFname f.name).pnum)
    (hsize : (argBytes (args.map Arg.value)).length ≤ parmLen) (dev : Dev) :
    (EnoughCounted args ∧ RoundTrips f args dev) ∨
      (¬EnoughCounted args ∧ ∃ sta, sta ≠ usmartOk ∧
        usmartCmdRec (f.line args ++ [0]) dev = .ok (sta, dev)) := by
  obtain ⟨hname, hscan⟩ := findFname_line hf args
  have hget : usmartGetFname maxFnameLen (f.line args) = .ok (findFname (f.line args)) := by
    refine if_pos ?_
    rw [hname]
    exact (nametab_fits f hf).2
  have hcstr : cstr (f.line args ++ [0]) = f.line args := cstr_append (nul_not_mem_line hf args) []
  cases hcounted : countedParms 1 false true 0 (argsText args ++ [ch ')']) with
  | none =>
      have hres : (findFname (f.line args)).res ≠ usmartOk := by
        intro hres
        have := (hscan _).mp ⟨hres, rfl⟩
        rw [hcounted] at this
        cases this
      refine Or.inr ⟨?_, _, hres, ?_⟩
      · rintro ⟨n, hn, -⟩
        rw [hcounted] at hn
        cases hn
      · rw [usmartCmdRec, hcstr, hget]
        exact if_pos hres
  | some n =>
      obtain ⟨hres, hn⟩ := (hscan n).mpr hcounted
      obtain ⟨k, hk, hfind⟩ := findFunc_nametab hf n
      rw [← hcount] at hfind
      by_cases hle : args.length ≤ n
      · obtain ⟨dev', hparam, hentered, hid⟩ :=
          usmartGetFparam_line hf args hlen hnum hsize { dev with id := k }
        rw [if_neg (Nat.not_lt.mpr hle)] at hfind
        refine Or.inl ⟨⟨n, hcounted, hle⟩, { dev' with pnum := args.length }, ?_, ?_, ?_⟩
        · rw [usmartCmdRec, hcstr, hget]
          simp only [bind, Except.bind, hres, ne_eq, not_true_eq_false, if_false, hname, hn, hfind,
            hparam]
          rfl
        · rw [← hk]
          exact congrArg (fun i => (usmartNametab[i]?).map NameTab.func) hid
        · have hentered' : { dev' with pnum := args.length }.Entered (args.map Arg.value) :=
            ⟨hentered.plentbl, hentered.parmtype, hentered.parm⟩
          refine hentered'.args_eq (List.length_map _).symm hsize fun s hs => ?_
          obtain ⟨a, -, ha⟩ := List.mem_map.mp hs
          cases a with
          | num k => cases ha
          | str t ht =>
              cases ha
              exact printable_ne_nul ht
      · rw [if_pos (Nat.not_le.mp hle)] at hfind
        refine Or.inr ⟨?_, usmartParmerr, by decide, ?_⟩
        · rintro ⟨m, hm, hlm⟩
          obtain rfl := Option.some.inj (hcounted.symm.trans hm)
          exact hle hlm
        · rw [usmartCmdRec, hcstr, hget]
          simp only [bind, Except.bind, hres, ne_eq, not_true_eq_false, if_false, hname, hn, hfind]
          rfl

end

/-! ## Strings without quotes -/

/-- Inside a string, what is not a double quote can only add to the count. -/
theorem countedParms_inside (body : List UInt8) (h : ch '"' ∉ body) (s : List UInt8) (fresh : Bool)
    (n : ℕ) : ∃ fresh' n', n ≤ n' ∧
      countedParms 1 true fresh n (body ++ s) = countedParms 1 true fresh' n' s := by
  induction body generalizing fresh n with
  | nil => exact ⟨fresh, n, le_rfl, rfl⟩
  | cons c body ih =>
      have hc : c ≠ ch '"' := fun hc => h (hc ▸ List.mem_cons_self)
      have hrest (fresh' : Bool) (n' : ℕ) (hn : n ≤ n') : ∃ fresh'' n'', n ≤ n'' ∧
          countedParms 1 true fresh' n' (body ++ s) = countedParms 1 true fresh'' n'' s := by
        obtain ⟨fresh'', n'', hle, heq⟩ := ih (fun h' => h (List.mem_cons_of_mem _ h')) fresh' n'
        exact ⟨fresh'', n'', Nat.le_trans hn hle, heq⟩
      rw [List.cons_append, countedParms]
      simp only [if_true, Nat.one_ne_zero, if_false, hc]
      split_ifs
      · exact hrest true n le_rfl
      · exact hrest fresh n le_rfl
      · exact hrest false (n + 1) (Nat.le_succ n)
      · exact hrest false n le_rfl

/-- The characters of a number are counted once. -/
theorem countedParms_numeric (ds : List UInt8) (h : ∀ c ∈ ds, IsNumeric c)
    (s : List UInt8) (n : ℕ) :
    countedParms 1 false false n (ds ++ s) = countedParms 1 false false n s := by
  induction ds with
  | nil => rfl
  | cons c ds ih =>
      have hc := h c List.mem_cons_self
      obtain ⟨hopen, hclose, hcomma, hblank, -⟩ := StartsArg.ne (Or.inl hc)
      rw [List.cons_append, countedParms]
      simp only [Bool.false_eq_true, if_false, hopen, hclose, Nat.one_ne_zero, hcomma, hblank,
        or_self, hc.ne.2.2.1, false_and, ih fun d hd => h d (List.mem_cons_of_mem _ hd)]

theorem quote_not_mem_escape {s : List UInt8} (h : ch '"' ∉ s) : ch '"' ∉ s.flatMap escape := by
  rw [List.mem_flatMap]
  rintro ⟨c, hc, hmem⟩
  have hquote : ch '"' ≠ c := fun heq => h (heq ▸ hc)
  rw [escape] at hmem
  split at hmem
  · simp [hquote] at hmem
    revert hmem
    decide
  · exact hquote (List.mem_singleton.mp hmem)

/-- An argument without a double quote inside is counted. -/
theorem countedParms_text (a : Arg) (h : ∀ s hs, a = .str s hs → ch '"' ∉ s)
    (s : List UInt8) (n : ℕ) :
    ∃ n', n + 1 ≤ n' ∧
      countedParms 1 false true n (a.text ++ s) = countedParms 1 false false n' s := by
  cases a with
  | num k =>
      obtain ⟨c, t, hct⟩ := List.exists_cons_of_ne_nil k.text_ne
      have hnum := k.isNumeric_text
      rw [hct] at hnum
      have hc := hnum c List.mem_cons_self
      obtain ⟨hopen, hclose, hcomma, hblank, -⟩ := StartsArg.ne (Or.inl hc)
      refine ⟨n + 1, le_rfl, ?_⟩
      rw [Arg.text, hct, List.cons_append, countedParms]
      simp only [Bool.false_eq_true, if_false, hopen, hclose, Nat.one_ne_zero, hcomma, hblank,
        or_self, hc.ne.2.2.1, and_self, if_true]
      exact countedParms_numeric t (fun d hd => hnum d (List.mem_cons_of_mem _ hd)) s (n + 1)
  | str t ht =>
      obtain ⟨fresh, m, hm, hinside⟩ := countedParms_inside (t.flatMap escape)
        (quote_not_mem_escape (h t ht rfl)) (ch '"' :: s) false (n + 1)
      refine ⟨if fresh then m + 1 else m, by split <;> omega, ?_⟩
      have hbegin : countedParms 1 false true n ((Arg.str t ht).text ++ s) =
          countedParms 1 true false (n + 1) (t.flatMap escape ++ ch '"' :: s) := by
        rw [Arg.text, List.cons_append, List.append_assoc, countedParms]
        simp +decide
      rw [hbegin, hinside, countedParms]
      simp +decide

/-- Enough parameters are counted if no string has a double quote in it. -/
theorem counted_of_noQuote (args : List Arg) (h : ∀ s hs, .str s hs ∈ args → ch '"' ∉ s) :
    EnoughCounted args := by
  have hall : ∀ n, ∃ m, countedParms 1 false true n (argsText args ++ [ch ')']) = some m ∧
      n + args.length ≤ m := by
    fun_induction argsText args with
    | case1 =>
        intro n
        exact ⟨n, rfl, le_rfl⟩
    | case2 a =>
        intro n
        obtain ⟨m, hm, hrun⟩ := countedParms_text a
          (fun s hs heq => h s hs (heq ▸ List.mem_cons_self)) [ch ')'] n
        exact ⟨m, hrun, hm⟩
    | case3 a b args ih =>
        intro n
        obtain ⟨n', hn', hrun⟩ := countedParms_text a
          (fun s hs heq => h s hs (heq ▸ List.mem_cons_self))
          (ch ',' :: (argsText (b :: args) ++ [ch ')'])) n
        obtain ⟨m, hm, hle⟩ := ih (fun s hs hmem => h s hs (List.mem_cons_of_mem _ hmem)) n'
        refine ⟨m, ?_, ?_⟩
        · rw [List.append_assoc, List.cons_append, hrun, ← hm, countedParms]
          simp +decide
        · rw [List.length_cons]
          omega
  obtain ⟨m, hm, hle⟩ := hall 0
  exact ⟨m, hm, by omega⟩

/-! ## The round trip -/

/-- A command that fits is read back as it was written exactly when the name scan, to which every
double quote begins or ends a string, counts enough parameters. -/
theorem roundTrip_iff (f : NameTab) (hf : f ∈ usmartNametab)
    (hmax : (findFname f.name).pnum ≤ maxParm) (args : List Arg)
    (hcount : args.length = (findFname f.name).pnum) (hlen : (f.line args).length ≤ 199)
    (hsize : (argBytes (args.map Arg.value)).length ≤ parmLen) (dev : Dev) :
    RoundTrips f args dev ↔ EnoughCounted args := by
  rcases usmartCmdRec_line hf args hlen (hcount ▸ hmax) hcount hsize dev with
    ⟨henough, htrips⟩ | ⟨hfew, sta, hsta, hrun⟩
  · exact iff_of_true htrips henough
  · refine iff_of_false ?_ hfew
    rintro ⟨dev', hok, -⟩
    rw [hrun] at hok
    exact hsta (Prod.mk.inj (Except.ok.inj hok)).1

def writeAddr : NameTab := ⟨.write_addr, text "void write_addr(uint32_t addr,uint32_t val)"⟩

theorem writeAddr_mem : writeAddr ∈ usmartNametab := List.mem_cons_of_mem _ List.mem_cons_self

/-- `-1`. -/
def minusOne : Numeral := ⟨.minus, .dec, false, [1], by decide, by decide⟩

/-- `"a\\b",-1`. -/
def backslashArgs : List Arg :=
  [.str [ch 'a', ch '\\', ch 'b'] (List.all_iff_forall_prop.mp rfl), .num minusOne]

theorem roundTrip_backslash :
    RoundTrips writeAddr backslashArgs usmartDev ↔ EnoughCounted backslashArgs :=
  roundTrip_iff writeAddr writeAddr_mem (by decide +kernel) _ (by decide +kernel)
    (by decide +kernel) (by decide +kernel) usmartDev

/-- `"\"",-1`. -/
def quoteArgs : List Arg :=
  [.str [ch '"'] (List.all_iff_forall_prop.mp rfl), .num minusOne]

/-- In `write_addr("\"",-1)` the name scan never finds the end of the list. -/
theorem roundTrip_escapedQuote :
    writeAddr ∈ usmartNametab ∧ (findFname writeAddr.name).pnum = quoteArgs.length ∧
      (writeAddr.line quoteArgs).length ≤ 199 ∧
      (argBytes (quoteArgs.map Arg.value)).length ≤ parmLen ∧
      ¬RoundTrips writeAddr quoteArgs usmartDev := by
  refine ⟨writeAddr_mem, by decide +kernel, by decide +kernel, by decide +kernel, ?_⟩
  rintro ⟨dev', hok, -⟩
  have hres : (usmartCmdRec (writeAddr.line quoteArgs ++ [0]) usmartDev).toOption.map Prod.fst =
      some usmartFuncerr := by decide +kernel
  rw [hok] at hres
  cases hres

end Apollo.Usmart
