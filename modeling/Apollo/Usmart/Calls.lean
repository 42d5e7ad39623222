import Apollo.Usmart.Names

/-!
# The calls of USMART

`usmart_cmd_rec` compares the parameters that the function declares with those that the
name scan has counted, `usmart_exe` converts as many slots as are declared and passes as
many as the argument scan has stored.

## Main definitions

* `namedFunction`, `memParms` — the function and the arguments of a line.
* `putAll_stored`, `findFunc_found` — what a line that is accepted has stored and found.
* `usmartExe_iff` — a call is well formed exactly when the two counts agree.
-/

namespace Apollo.Usmart

/-- The function that a line names: the first of the table with its name. -/
def namedFunction (line : List UInt8) : Option NameTab :=
  usmartNametab.find? fun f => (findFname f.name).fname = (findFname line).fname

/-- The arguments in memory from the first parenthesis on. -/
def memParms (mem : List UInt8) : List Parm := (readParms .between (argText mem)).1

/-- A sequence of steps that succeeds has succeeded at each. -/
theorem bind_ok {α β : Type} {x : Except Fault α} {f : α → Except Fault β} {b : β}
    (h : x >>= f = .ok b) : ∃ a, x = .ok a ∧ f a = .ok b := by
  cases x with
  | error e => cases h
  | ok a => exact ⟨a, rfl, h⟩

/-! ## What is stored -/

namespace Dev

theorem room_id {dev next dev' : Dev} {n size : ℕ} (h : dev.room n size next = .ok dev') :
    dev' = next := by
  rw [room] at h
  split_ifs at h
  cases h
  rfl

theorem putParm_id {dev dev' : Dev} {n n' sta : ℕ} {p : Parm}
    (h : dev.putParm n p = .ok (sta, n', dev')) : dev'.id = dev.id := by
  cases p with
  | num t =>
      rw [putParm, storeParm] at h
      by_cases ht : t = []
      · rw [if_pos ht] at h
        cases h
        rfl
      · rw [if_neg ht] at h
        by_cases hvalid : (usmartStr2num t).1 = 0
        · simp only [hvalid, ne_eq, not_true_eq_false, if_false] at h
          obtain ⟨d, hroom, hpure⟩ := bind_ok h
          obtain rfl := room_id hroom
          cases hpure
          rfl
        · simp only [ne_eq, hvalid, not_false_eq_true, if_true] at h
          cases h
          rfl
  | str t =>
      obtain ⟨d, hroom, hpure⟩ := bind_ok h
      obtain rfl := room_id hroom
      cases hpure
      rfl

/-- The entering of arguments does not touch `id`. -/
theorem putAll_id {l : List Parm} {e : Ending} {dev dev' : Dev} {n n' sta : ℕ}
    (h : putAll l e n dev = .ok (sta, n', dev')) : dev'.id = dev.id := by
  induction l generalizing dev n with
  | nil => cases e <;> cases h <;> rfl
  | cons p l ih =>
      obtain ⟨⟨sta', m, d⟩, hput, hrest⟩ := bind_ok h
      simp only at hrest
      split_ifs at hrest
      · cases hrest
        exact putParm_id hput
      · exact (ih hrest).trans (putParm_id hput)

/-- Arguments that have all been entered are counted, and are at most ten. -/
theorem putAll_stored {l : List Parm} {e : Ending} {dev dev' : Dev} {n n' size : ℕ}
    (h : dev.Holds n size) (hl : ∀ t, .num t ∈ l → t ≠ [])
    (hrun : putAll l e n dev = .ok (usmartOk, n', dev')) : n' = n + l.length ∧ n' ≤ maxParm := by
  induction l generalizing dev n size with
  | nil =>
      cases e with
      | closed =>
          cases hrun
          exact ⟨rfl, h.num_le⟩
      | bad => cases hrun
      | cut => cases hrun
  | cons p l ih =>
      have hp (t : List UInt8) (hpt : p = .num t) : t ≠ [] := hl t (hpt ▸ List.mem_cons_self)
      rw [putAll] at hrun
      rcases putParm_cases h hp with ⟨-, hput⟩ | ⟨-, -, -, hd, hput⟩ | ⟨-, -, f, hput⟩
      · rw [hput] at hrun
        cases hrun
      · rw [hput] at hrun
        obtain ⟨hnum, hle⟩ := ih hd (fun t ht => hl t (List.mem_cons_of_mem _ ht)) hrun
        rw [List.length_cons]
        exact ⟨by omega, hle⟩
      · rw [hput] at hrun
        cases hrun

theorem findParen_some {mem text : List UInt8} (h : findParen mem = .ok (some text)) :
    text = argText mem := by
  fun_induction findParen mem with
  | case1 => cases h
  | case2 s =>
      cases h
      rfl
  | case3 => cases h
  | case4 => cases h
  | case5 c hc d s hd ih =>
      rw [ih h, argText_cons hc]

/-- An argument scan that succeeds has stored all arguments in memory. -/
theorem usmartGetFparam_stored {mem : List UInt8} {dev dev' : Dev} {n : ℕ}
    (h : dev.usmartGetFparam mem = .ok (usmartOk, n, dev')) :
    n = (memParms mem).length ∧ n ≤ maxParm ∧ dev'.id = dev.id := by
  obtain ⟨r, hparen, hrest⟩ := bind_ok h
  cases r with
  | none => cases hrest
  | some text =>
      obtain rfl := findParen_some hparen
      rcases dev.usmartGetFparam_eq hparen with ⟨-, hrun⟩ | hrun
      · rw [hrun] at h
        cases h
      · rw [hrun] at h
        obtain ⟨hnum, hle⟩ :=
          putAll_stored dev.holds_cleared (readParms_num (m := .between) trivial _) h
        have hid : dev'.id = dev.cleared.id := putAll_id h
        exact ⟨hnum.trans (Nat.zero_add _), hle, hid⟩

end Dev

/-! ## What is found -/

/-- The loop over the functions stops at the first one with the name. -/
theorem findFunc_eq {rfname : List UInt8} (rpnum : ℕ) {funs : List NameTab}
    (hfuns : ∀ f ∈ funs, f ∈ usmartNametab) (i : ℕ) {f : NameTab}
    (h : funs.find? (fun f => (findFname f.name).fname = rfname) = some f) :
    ∃ k, funs[k]? = some f ∧ findFunc rfname rpnum funs i =
      .ok (if (findFname f.name).pnum > rpnum then usmartParmerr else usmartOk, i + k) := by
  induction funs generalizing i with
  | nil => cases h
  | cons g funs ih =>
      rw [findFunc, usmartGetFname_nametab (hfuns g List.mem_cons_self)]
      simp only [bind, Except.bind, (nametab_fits g (hfuns g List.mem_cons_self)).1, ne_eq,
        not_true_eq_false, if_false, usmartStrcmp_eq_zero]
      by_cases hname : (findFname g.name).fname = rfname
      · rw [List.find?_cons_of_pos (by simpa using hname)] at h
        obtain rfl := Option.some.inj h
        refine ⟨0, rfl, ?_⟩
        rw [if_pos hname]
        split <;> rfl
      · rw [List.find?_cons_of_neg (by simpa using hname)] at h
        obtain ⟨k, hget, hrun⟩ := ih (fun g hg => hfuns g (List.mem_cons_of_mem _ hg)) (i + 1) h
        refine ⟨k + 1, hget, ?_⟩
        rw [if_neg hname, hrun, Nat.add_assoc, Nat.add_comm 1]

theorem findFunc_none {rfname : List UInt8} (rpnum : ℕ) {funs : List NameTab}
    (hfuns : ∀ f ∈ funs, f ∈ usmartNametab) (i : ℕ)
    (h : funs.find? (fun f => (findFname f.name).fname = rfname) = none) :
    ∃ j, findFunc rfname rpnum funs i = .ok (usmartNofuncfind, j) := by
  induction funs generalizing i with
  | nil => exact ⟨i, rfl⟩
  | cons g funs ih =>
      have hname : ¬(findFname g.name).fname = rfname := by
        simpa using List.find?_eq_none.mp h g List.mem_cons_self
      rw [List.find?_cons_of_neg (by simpa using hname)] at h
      rw [findFunc, usmartGetFname_nametab (hfuns g List.mem_cons_self)]
      simp only [bind, Except.bind, (nametab_fits g (hfuns g List.mem_cons_self)).1, ne_eq,
        not_true_eq_false, if_false, usmartStrcmp_eq_zero, hname]
      exact ih (fun g hg => hfuns g (List.mem_cons_of_mem _ hg)) (i + 1) h

theorem findFunc_found {rfname : List UInt8} {rpnum i j : ℕ}
    (h : findFunc rfname rpnum usmartNametab i = .ok (usmartOk, j)) :
    ∃ k f, j = i + k ∧ usmartNametab[k]? = some f ∧
      usmartNametab.find? (fun f => (findFname f.name).fname = rfname) = some f := by
  cases hfind : usmartNametab.find? fun f => (findFname f.name).fname = rfname with
  | none =>
      obtain ⟨j', hrun⟩ := findFunc_none rpnum (fun f hf => hf) i hfind
      rw [hrun] at h
      cases h
  | some f =>
      obtain ⟨k, hget, hrun⟩ := findFunc_eq rpnum (fun f hf => hf) i hfind
      rw [hrun] at h
      exact ⟨k, f, ((Prod.mk.inj (Except.ok.inj h)).2).symm, hget, rfl⟩

/-- What a line that is accepted leaves in the device. -/
theorem usmartCmdRec_accepted {mem : List UInt8} {dev dev' : Dev}
    (h : usmartCmdRec mem dev = .ok (usmartOk, dev')) :
    ∃ f, namedFunction (cstr mem) = some f ∧ usmartNametab[dev'.id]? = some f ∧
      dev'.pnum = (memParms mem).length ∧ dev'.pnum ≤ maxParm := by
  obtain ⟨r, hname, h⟩ := bind_ok h
  have hr : r = findFname (cstr mem) := by
    rw [usmartGetFname] at hname
    split_ifs at hname
    cases hname
    rfl
  by_cases hres : r.res = 0
  · rw [if_neg (not_not.mpr hres)] at h
    obtain ⟨⟨sta, i⟩, hfunc, h⟩ := bind_ok h
    simp only at h
    by_cases hsta : sta = 0
    · subst hsta
      rw [if_neg (not_not.mpr rfl)] at h
      obtain ⟨⟨sta, n, d⟩, hparam, h⟩ := bind_ok h
      simp only at h
      by_cases hsta : sta = 0
      · subst hsta
        rw [if_neg (not_not.mpr rfl)] at h
        cases h
        obtain ⟨k, f, rfl, hget, hfind⟩ := findFunc_found hfunc
        obtain ⟨hnum, hle, hid⟩ := Dev.usmartGetFparam_stored hparam
        refine ⟨f, ?_, ?_, hnum, hle⟩
        · rw [namedFunction, ← hr]
          exact hfind
        · rw [show d.id = 0 + k from hid, Nat.zero_add]
          exact hget
      · rw [if_pos hsta] at h
        cases h
        exact absurd rfl hsta
    · rw [if_pos hsta] at h
      cases h
      exact absurd rfl hsta
  · rw [if_pos hres] at h
    have := (Prod.mk.inj (Except.ok.inj h)).1
    exact absurd this hres

/-! ## What is passed -/

/-- The slots that a call reads have been stored, and no value that it passes is missing. -/
structure Call.WellFormed (call : Call) (pnum : ℕ) : Prop where
  read : call.read ≤ pnum
  args : ∀ v ∈ call.args, v ≠ none

/-- The call that is made for a line that is accepted. -/
theorem usmartExe_accepted {mem : List UInt8} {dev dev' : Dev}
    (h : usmartCmdRec mem dev = .ok (usmartOk, dev')) :
    ∃ f call, namedFunction (cstr mem) = some f ∧ usmartExe dev' = .ok (some call) ∧
      (call.WellFormed dev'.pnum ↔ (memParms mem).length = (findFname f.name).pnum) := by
  obtain ⟨f, hnamed, hget, hnum, hle⟩ := usmartCmdRec_accepted h
  obtain ⟨hlt, hf⟩ := List.getElem?_eq_some_iff.mp hget
  have hmem : f ∈ usmartNametab := hf ▸ List.getElem_mem hlt
  obtain ⟨temp, htemp⟩ : ∃ temp : ℕ → Option Value,
      temp = fun i => if i < (findFname f.name).pnum then some (dev'.convert i) else none :=
    ⟨_, rfl⟩
  refine ⟨f, ⟨f.func, (findFname f.name).pnum, (List.range dev'.pnum).map temp⟩, hnamed, ?_, ?_⟩
  · rw [usmartExe, hget, htemp]
    simp only [usmartGetFname_nametab hmem, bind, Except.bind]
    rw [if_pos hle]
    rfl
  · constructor
    · rintro ⟨hread, hargs⟩
      refine hnum ▸ Nat.le_antisymm ?_ hread
      by_contra hless
      refine hargs (temp (findFname f.name).pnum)
        (List.mem_map_of_mem (List.mem_range.mpr (Nat.not_le.mp hless))) ?_
      rw [htemp]
      exact if_neg (Nat.lt_irrefl _)
    · intro hcount
      refine ⟨(hcount.symm.trans hnum.symm).le, fun v hv => ?_⟩
      obtain ⟨i, hi, rfl⟩ := List.mem_map.mp hv
      have hlt : i < (findFname f.name).pnum := by
        rw [← hcount, ← hnum]
        exact List.mem_range.mp hi
      rw [htemp]
      simp only [hlt, if_true]
      exact Option.some_ne_none _

/-- A line that is accepted is called, and the call reads only slots that were stored from this
line and passes only values that were converted exactly when the line holds as many arguments
as the function that it names declares. -/
theorem usmartExe_iff (mem : List UInt8) (dev dev' : Dev)
    (h : usmartCmdRec mem dev = .ok (usmartOk, dev')) :
    ∃ call, usmartExe dev' = .ok (some call) ∧ (call.WellFormed dev'.pnum ↔
      ∃ f, namedFunction (cstr mem) = some f ∧
        (memParms mem).length = (findFname f.name).pnum) := by
  obtain ⟨f, call, hnamed, hexe, hiff⟩ := usmartExe_accepted h
  refine ⟨call, hexe, hiff.trans ⟨fun hcount => ⟨f, hnamed, hcount⟩, ?_⟩⟩
  rintro ⟨g, hg, hcount⟩
  obtain rfl := Option.some.inj (hnamed.symm.trans hg)
  exact hcount

/-- A line is accepted if the result of `usmart_cmd_rec` is `0`. -/
theorem accepted_of_result {r : Except Fault (ℕ × Dev)}
    (h : r.toOption.map Prod.fst = some usmartOk) : ∃ dev', r = .ok (usmartOk, dev') := by
  cases r with
  | error f => cases h
  | ok p => exact ⟨p.2, congrArg Except.ok (Prod.ext (Option.some.inj h) rfl)⟩

/-- A call with five numbers, one of them in hexadecimal digits. -/
def drawLine : List UInt8 := text "lcd_draw_line(10,0X1F,200,300,63488)" ++ [0]

theorem usmartExe_drawLine : ∃ dev', usmartCmdRec drawLine usmartDev = .ok (usmartOk, dev') ∧
    ∃ call, usmartExe dev' = .ok (some call) ∧ (call.WellFormed dev'.pnum ↔
      ∃ f, namedFunction (cstr drawLine) = some f ∧
        (memParms drawLine).length = (findFname f.name).pnum) := by
  obtain ⟨dev', h⟩ := accepted_of_result (r := usmartCmdRec drawLine usmartDev)
    (by decide +kernel)
  exact ⟨dev', h, usmartExe_iff _ _ _ h⟩

/-- A comma inside a string counts as the start of a second parameter: the line is accepted, and
the call reads a slot that it has not stored. -/
theorem usmartExe_quotedComma : ∃ dev' call,
    usmartCmdRec (text "write_addr(\"a,b\")" ++ [0]) usmartDev = .ok (usmartOk, dev') ∧
      usmartExe dev' = .ok (some call) ∧ ¬call.WellFormed dev'.pnum := by
  obtain ⟨dev', h⟩ := accepted_of_result
    (r := usmartCmdRec (text "write_addr(\"a,b\")" ++ [0]) usmartDev) (by decide +kernel)
  obtain ⟨f, call, hnamed, hexe, hiff⟩ := usmartExe_accepted h
  have hcounts : (namedFunction (cstr (text "write_addr(\"a,b\")" ++ [0]))).map
      (fun f => (findFname f.name).pnum) = some 2 ∧
      (memParms (text "write_addr(\"a,b\")" ++ [0])).length = 1 := by decide +kernel
  rw [hnamed] at hcounts
  have hpnum : (findFname f.name).pnum = 2 := Option.some.inj hcounts.1
  refine ⟨dev', call, h, hexe, fun hwell => ?_⟩
  have hcount := hiff.mp hwell
  rw [hcounts.2, hpnum] at hcount
  cases hcount

end Apollo.Usmart
