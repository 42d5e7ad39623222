import Apollo.Usmart.Parms

/-!
# The buffers of USMART

The arguments of a line go into three buffers of fixed size: `tstr` holds one of them,
`plentbl` their lengths and `parm` all of them.  Only `tstr` is as long as a line.  The name
of the function and the argument of a system command go into buffers of thirty bytes.

## Main definitions

* `Parm.Valid`, `Parm.size`, `goodParms` — what is stored of an argument, and of a text.
* `putAll_ok_iff` — when the entering of arguments stays inside its buffers.
* `usmartGetFparam_safe_iff` — when the argument scan stays inside its line and buffers.
-/

namespace Apollo.Usmart
open Lib

/-! ## Numbers are not empty -/

/-- A number that is being read has a character. -/
def Reading.Proper : Reading → Prop
  | .digits t | .after t => t ≠ []
  | _ => True

theorem readParms_num {m : Reading} (h : m.Proper) (str : List UInt8) :
    ∀ t, .num t ∈ (readParms m str).1 → t ≠ [] := by
  fun_induction readParms m str <;> simp_all [Reading.Proper]

/-! ## Entering arguments -/

/-- An argument that is not rejected as malformed. -/
def Parm.Valid : Parm → Prop
  | .num t => (usmartStr2num t).1 = 0
  | .str _ => True

instance : DecidablePred Parm.Valid
  | .num t => inferInstanceAs (Decidable ((usmartStr2num t).1 = 0))
  | .str _ => inferInstanceAs (Decidable True)

/-- What an argument takes in `parm`: a number its four bytes, a string its NUL as well. -/
def Parm.size : Parm → ℕ
  | .num _ => 4
  | .str t => (cstr t).length + 1

/-- The arguments in front of the first malformed one. -/
def goodParms (l : List Parm) : List Parm := l.takeWhile (·.Valid)

namespace Dev

/-- `n` arguments have been entered, and take `size` bytes. -/
structure Holds (dev : Dev) (n size : ℕ) : Prop where
  sum : ((List.range n).map dev.plentbl).sum = size
  size_le : size ≤ parmLen
  num_le : n ≤ maxParm

theorem Holds.parmpos {dev : Dev} {n size : ℕ} (h : dev.Holds n size) :
    dev.usmartGetParmpos n = size := by
  have hle : size ≤ 200 := h.size_le
  rw [usmartGetParmpos, h.sum]
  exact Nat.mod_eq_of_lt (by omega)

theorem sum_update (f : ℕ → ℕ) (n v : ℕ) :
    ((List.range (n + 1)).map (Function.update f n v)).sum = ((List.range n).map f).sum + v := by
  have hmap : (List.range n).map (Function.update f n v) = (List.range n).map f :=
    List.map_congr_left fun i hi => Function.update_of_ne (List.mem_range.mp hi).ne v f
  rw [List.range_succ, List.map_append, List.sum_append, hmap]
  simp

/-- The device with an argument entered. -/
def enter (dev : Dev) (n : ℕ) : Parm → Dev
  | .num t => dev.putNum n (usmartStr2num t).2
  | .str t => dev.putStr n (cstr t)

/-- What the entering of an argument does. -/
theorem putParm_cases {dev : Dev} {n size : ℕ} (h : dev.Holds n size) {p : Parm}
    (hp : ∀ t, p = .num t → t ≠ []) :
    (¬p.Valid ∧ dev.putParm n p = .ok (usmartParmerr, n, dev)) ∨
      (p.Valid ∧ n < maxParm ∧ size + p.size ≤ parmLen ∧
        (dev.enter n p).Holds (n + 1) (size + p.size) ∧
          dev.putParm n p = .ok (usmartOk, n + 1, dev.enter n p)) ∨
      (p.Valid ∧ ¬(n < maxParm ∧ size + p.size ≤ parmLen) ∧ ∃ f, dev.putParm n p = .error f) := by
  have hover : n < maxParm → ¬n + 1 > maxParm := fun hlt => by omega
  cases p with
  | num t =>
      have ht := hp t rfl
      by_cases hvalid : (usmartStr2num t).1 = 0
      · right
        by_cases hroom : n < maxParm ∧ size + 4 ≤ parmLen
        · refine Or.inl ⟨hvalid, hroom.1, hroom.2, ⟨?_, hroom.2, hroom.1⟩, ?_⟩
          · rw [enter, putNum, sum_update, h.sum]
            rfl
          · simp only [putParm, storeParm, ht, if_false, hvalid, ne_eq, not_true_eq_false, room,
              h.parmpos, Nat.not_lt.mpr hroom.2, Nat.not_le.mpr hroom.1, bind, Except.bind,
              hover hroom.1]
            rfl
        · refine Or.inr ⟨hvalid, hroom, ?_⟩
          simp only [putParm, storeParm, ht, if_false, hvalid, ne_eq, not_true_eq_false, room,
            h.parmpos]
          by_cases hsize : parmLen < size + 4
          · exact ⟨.parm, by simp only [hsize, if_true, bind, Except.bind]⟩
          · have hnum : maxParm ≤ n := by
              by_contra hlt
              exact hroom ⟨Nat.not_le.mp hlt, Nat.not_lt.mp hsize⟩
            exact ⟨.plentbl, by simp only [hsize, if_false, hnum, if_true, bind, Except.bind]⟩
      · left
        exact ⟨hvalid, by simp only [putParm, storeParm, ht, if_false, ne_eq, hvalid,
          not_false_eq_true, if_true]⟩
  | str t =>
      right
      by_cases hroom : n < maxParm ∧ size + ((cstr t).length + 1) ≤ parmLen
      · have hle : size + ((cstr t).length + 1) ≤ 200 := hroom.2
        have hlen : ((cstr t).length + 1) % 2 ^ 8 = (cstr t).length + 1 :=
          Nat.mod_eq_of_lt (by omega)
        refine Or.inl ⟨trivial, hroom.1, hroom.2, ⟨?_, hroom.2, hroom.1⟩, ?_⟩
        · rw [enter, putStr, sum_update, h.sum, hlen]
          rfl
        · simp only [putParm, storeParm, room, h.parmpos, Nat.not_lt.mpr hroom.2, if_false,
            Nat.not_le.mpr hroom.1, bind, Except.bind, hover hroom.1]
          rfl
      · refine Or.inr ⟨trivial, hroom, ?_⟩
        simp only [putParm, storeParm, room, h.parmpos]
        by_cases hsize : parmLen < size + ((cstr t).length + 1)
        · exact ⟨.parm, by simp only [hsize, if_true, bind, Except.bind]⟩
        · have hnum : maxParm ≤ n := by
            by_contra hlt
            exact hroom ⟨Nat.not_le.mp hlt, Nat.not_lt.mp hsize⟩
          exact ⟨.plentbl, by simp only [hsize, if_false, hnum, if_true, bind, Except.bind]⟩

/-- The entering of all arguments stays inside the buffers and the text exactly when those in
front of the first malformed one are at most ten, fit in `parm`, and either there is a malformed
one or the text has an end. -/
theorem putAll_ok_iff (l : List Parm) (e : Ending) {dev : Dev} {n size : ℕ} (h : dev.Holds n size)
    (hl : ∀ t, .num t ∈ l → t ≠ []) :
    (∃ r, putAll l e n dev = .ok r) ↔
      n + (goodParms l).length ≤ maxParm ∧ size + ((goodParms l).map Parm.size).sum ≤ parmLen ∧
        (goodParms l = l → e ≠ .cut) := by
  induction l generalizing dev n size with
  | nil =>
      have hsize := h.size_le
      have hnum := h.num_le
      cases e with
      | closed => exact iff_of_true ⟨_, rfl⟩ ⟨hnum, hsize, fun _ => by decide⟩
      | bad => exact iff_of_true ⟨_, rfl⟩ ⟨hnum, hsize, fun _ => by decide⟩
      | cut => exact iff_of_false (by rintro ⟨r, h⟩; cases h) fun h => h.2.2 rfl rfl
  | cons p l ih =>
      have hp (t : List UInt8) (hpt : p = .num t) : t ≠ [] := hl t (hpt ▸ List.mem_cons_self)
      rw [putAll]
      rcases putParm_cases h hp with ⟨hvalid, hput⟩ | ⟨hvalid, -, -, hdev', hput⟩ |
        ⟨hvalid, hroom, f, hput⟩
      · -- A malformed argument ends the scan.
        have hgood : goodParms (p :: l) = [] := by
          rw [goodParms, List.takeWhile_cons_of_neg (by simpa using hvalid)]
        rw [hput, hgood]
        exact iff_of_true ⟨_, rfl⟩ ⟨h.num_le, h.size_le, fun h => by cases h⟩
      · have hgood : goodParms (p :: l) = p :: goodParms l := by
          rw [goodParms, List.takeWhile_cons_of_pos (by simpa using hvalid)]
          rfl
        rw [hput, hgood]
        have hrest := ih hdev' fun t ht => hl t (List.mem_cons_of_mem _ ht)
        simp only [bind, Except.bind, ne_eq, not_true_eq_false, if_false, List.length_cons,
          List.map_cons, List.sum_cons, List.cons.injEq, true_and]
        rw [hrest, Nat.add_assoc, Nat.add_assoc, Nat.add_comm 1]
      · have hgood : goodParms (p :: l) = p :: goodParms l := by
          rw [goodParms, List.takeWhile_cons_of_pos (by simpa using hvalid)]
          rfl
        rw [hput, hgood]
        refine iff_of_false (by rintro ⟨r, h⟩; cases h) fun hall => hroom ?_
        simp only [List.length_cons, List.map_cons, List.sum_cons] at hall
        omega

end Dev

/-! ## The argument scan -/

/-- The text behind the first parenthesis of a line. -/
def argText (line : List UInt8) : List UInt8 := (line.dropWhile (· ≠ ch '(')).tail

theorem argText_cons {c : UInt8} (hc : c ≠ ch '(') (s : List UInt8) :
    argText (c :: s) = argText s := by
  rw [argText, List.dropWhile_cons_of_pos (by simpa using hc), argText]

theorem findParen_append {line : List UInt8} (hparen : ch '(' ∈ line) (hnul : 0 ∉ line)
    (mem : List UInt8) : Dev.findParen (line ++ mem) = .ok (some (argText line ++ mem)) := by
  induction line with
  | nil => cases hparen
  | cons c s ih =>
      rw [List.cons_append, Dev.findParen.eq_def]
      by_cases hc : c = ch '('
      · subst hc
        rfl
      · have hs : ch '(' ∈ s := (List.mem_cons.mp hparen).resolve_left (Ne.symm hc)
        have hrest := ih hs fun h => hnul (List.mem_cons_of_mem _ h)
        simp only [hc, if_false, argText_cons hc]
        cases s with
        | nil => cases hs
        | cons d s =>
            have hd : d ≠ 0 := fun h => hnul (by simp [h])
            simp only [List.cons_append, hd, if_false] at hrest ⊢
            exact hrest

theorem NameScan.fover_take {a : NameScan} (h : a.fover = 0) (c : UInt8) :
    (a.take c).fover = 0 := by
  rw [take, if_pos h]
  split
  · exact h
  · exact h

/-- Without a parenthesis there is no name. -/
theorem scanName_noParen {str : List UInt8} (hparen : ch '(' ∉ str) {a : NameScan}
    (h : a.fover = 0) : (scanName str a).1 = usmartFuncerr := by
  induction str generalizing a with
  | nil => rfl
  | cons c s ih =>
      have hc : c ≠ ch '(' := fun hc => hparen (by simp [hc])
      have hs : ch '(' ∉ s := fun hs => hparen (List.mem_cons_of_mem _ hs)
      rw [scanName, if_neg fun hc' => hc hc'.1]
      split
      · rfl
      · split
        · exact ih hs (NameScan.fover_take (a := { a with nchar := !a.nchar }) h _)
        · exact ih hs (NameScan.fover_take h _)

/-- A line whose name has been found has a parenthesis. -/
theorem paren_mem_of_findFname {line : List UInt8} (h : (findFname line).res = usmartOk) :
    ch '(' ∈ line := by
  by_contra hparen
  have hstart : ch '(' ∉ nameStart line := by
    rw [nameStart]
    split
    · exact hparen
    · exact fun hmem => hparen (List.mem_of_mem_drop hmem)
  have hscan : (findFname line).res = usmartFuncerr := scanName_noParen hstart rfl
  rw [hscan] at h
  cases h

namespace Dev

/-- The device with the table of lengths cleared. -/
def cleared (dev : Dev) : Dev :=
  { dev with plentbl := fun i => if i < maxParm then 0 else dev.plentbl i }

theorem holds_cleared (dev : Dev) : dev.cleared.Holds 0 0 := ⟨rfl, Nat.zero_le _, Nat.zero_le _⟩

/-- The argument scan enters the arguments behind the first parenthesis, unless one of them is
longer than its buffer. -/
theorem usmartGetFparam_eq {mem text : List UInt8} (h : findParen mem = .ok (some text))
    (dev : Dev) :
    (parmLen < text.length ∧ dev.usmartGetFparam mem = .error .tstr) ∨
      dev.usmartGetFparam mem =
        putAll (readParms .between text).1 (readParms .between text).2 0 dev.cleared := by
  have hrun : dev.usmartGetFparam mem = fparamLoop (text.length + 1) text 0 dev.cleared := by
    rw [usmartGetFparam, h]
    rfl
  rw [hrun]
  exact fparamLoop_eq _ text 0 dev.cleared (Nat.lt_succ_self _)

end Dev

/-- The arguments of a line in front of the first malformed one are at most ten and take at
most 200 bytes, and if none is malformed, every string is closed. -/
def ArgsFit (line : List UInt8) : Prop :=
  let (l, e) := readParms .between (argText line ++ [0])
  (goodParms l).length ≤ maxParm ∧ ((goodParms l).map Parm.size).sum ≤ parmLen ∧
    (goodParms l = l → e ≠ .cut)

/-- For every line that has a name, the argument scan ends without reading behind the NUL or
writing outside a buffer exactly when the arguments of the line fit. -/
theorem usmartGetFparam_safe_iff (line : List UInt8) (hnul : 0 ∉ line) (hlen : line.length ≤ 199)
    (hname : (findFname line).res = usmartOk) (dev : Dev) :
    (∃ r, dev.usmartGetFparam (line ++ [0]) = .ok r) ↔ ArgsFit line := by
  have hparen := paren_mem_of_findFname hname
  have hshort : (argText line ++ [0]).length ≤ 200 := by
    have hdrop := (List.dropWhile_sublist (l := line) (· ≠ ch '(')).length_le
    simp only [argText, List.length_append, List.length_tail, List.length_singleton]
    omega
  have hrun := (dev.usmartGetFparam_eq (findParen_append hparen hnul [0])).resolve_left
    fun hfull => absurd hfull.1 (Nat.not_lt.mpr hshort)
  rw [hrun, Dev.putAll_ok_iff _ _ dev.holds_cleared (readParms_num (m := .between) trivial _)]
  simp only [Nat.zero_add, ArgsFit]

/-- A call of two strings fits. -/
theorem usmartGetFparam_safe_twoStrings :
    (∃ r, usmartDev.usmartGetFparam (text "f(\"ab\",\"\")" ++ [0]) = .ok r) ↔
      ArgsFit (text "f(\"ab\",\"\")") :=
  usmartGetFparam_safe_iff _ (by decide +kernel) (by decide +kernel) (by decide +kernel) _

/-- Eleven arguments: the last one is written behind `plentbl`. -/
theorem usmartGetFparam_eleven :
    (findFname (text "delay_ms(1,1,1,1,1,1,1,1,1,1,1)")).res = usmartOk ∧
      ¬∃ r, usmartDev.usmartGetFparam (text "delay_ms(1,1,1,1,1,1,1,1,1,1,1)" ++ [0]) = .ok r := by
  refine ⟨by decide +kernel, ?_⟩
  have hfault : (usmartDev.usmartGetFparam
      (text "delay_ms(1,1,1,1,1,1,1,1,1,1,1)" ++ [0])).isOk = false := by decide +kernel
  rintro ⟨r, hr⟩
  rw [hr] at hfault
  cases hfault

end Apollo.Usmart
