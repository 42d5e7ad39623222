import Apollo.Usmart.Calls
import Apollo.Usmart.Render
import Mathlib.Data.List.TakeWhile

/-!
# Stored arguments

The arguments of a line are stored one after the other in `parm`, with their lengths in
`plentbl` and a bit of `parmtype` for every string.  A device in which arguments have been
entered holds them, and they are read back the way `usmart_exe` converts them.

## Main definitions

* `ArgValue`, `Arg.value` — what an argument stands for.
* `Dev.Entered` — the device holds the arguments of a list.
* `Dev.args` — the arguments that a device holds.
* `Dev.putAll_args`, `Dev.Entered.args` — what is written is entered, and is read back.
-/

namespace Apollo.Usmart
open Lib

/-! ## Values -/

/-- What a function receives: a number, or a string. -/
inductive ArgValue where
  | num (n : UInt32)
  | str (s : List UInt8)
  deriving DecidableEq

namespace ArgValue

/-- The bytes in `parm`. -/
def bytes : ArgValue → List UInt8
  | num n => (List.range 4).map (Dev.numBytes n)
  | str s => s ++ [0]

def isStr : ArgValue → Bool
  | num _ => false
  | str _ => true

end ArgValue

def Arg.value : Arg → ArgValue
  | .num k => .num k.value
  | .str s _ => .str s

/-- The bytes that a list of arguments takes in `parm`. -/
def argBytes (l : List ArgValue) : List UInt8 := l.flatMap ArgValue.bytes

@[simp] theorem argBytes_append (l l' : List ArgValue) :
    argBytes (l ++ l') = argBytes l ++ argBytes l' := List.flatMap_append

@[simp] theorem argBytes_singleton (v : ArgValue) : argBytes [v] = v.bytes :=
  List.flatMap_singleton _ v

theorem printable_ne_nul {s : List UInt8} (h : ∀ c ∈ s, Printable c) : 0 ∉ s := fun hnul =>
  absurd (h 0 hnul) (by decide)

theorem cstr_eq_self {s : List UInt8} (h : 0 ∉ s) : cstr s = s := by
  rw [cstr, List.takeWhile_eq_self_iff]
  intro c hc
  simpa using fun heq : c = 0 => h (heq ▸ hc)

/-- An argument takes the bytes of its value. -/
theorem Arg.size_parm (a : Arg) : a.parm.size = a.value.bytes.length := by
  cases a with
  | num k => rfl
  | str s h => rw [parm, Parm.size, cstr_eq_self (printable_ne_nul h), value, ArgValue.bytes,
      List.length_append, List.length_singleton]

theorem Arg.valid_parm (a : Arg) : a.parm.Valid := by
  cases a with
  | num k => exact congrArg Prod.fst k.usmartStr2num_upper
  | str s h => trivial

theorem Arg.parm_num {a : Arg} {t : List UInt8} (h : a.parm = .num t) : t ≠ [] := by
  cases a with
  | num k =>
      cases h
      rw [← k.map_toUpper_text]
      simpa using k.text_ne
  | str s _ => cases h

namespace Dev

/-! ## Reading back -/

/-- The bytes of a number make up the number. -/
theorem readNum_eq {parm : ℕ → UInt8} {pos : ℕ} {n : UInt32}
    (h : ∀ j < 4, parm (pos + j) = numBytes n j) : readNum parm pos = n := by
  rw [readNum, ← Nat.add_zero pos, h 0 (by decide), Nat.add_zero, h 1 (by decide), h 2 (by decide),
    h 3 (by decide)]
  have hlt := n.toNat_lt
  refine UInt32.toNat.inj ?_
  simp [numBytes, UInt32.toNat_shiftRight, Nat.shiftRight_eq_div_pow]
  omega

/-- The string at a position of `parm`. -/
def strAt (dev : Dev) (pos : ℕ) : List UInt8 :=
  cstr ((List.range (parmLen - pos)).map fun j => dev.parm (pos + j))

/-- The argument `i` as a function receives it. -/
def arg (dev : Dev) (i : ℕ) : ArgValue :=
  match dev.convert i with
  | .num n => .num n
  | .ptr pos => .str (dev.strAt pos)

/-- The arguments that have been stored. -/
def args (dev : Dev) : List ArgValue := (List.range dev.pnum).map dev.arg

/-! ## Entering an argument -/

section
variable (dev : Dev) {n : ℕ} (a : Arg)

theorem plentbl_enter (hsize : a.value.bytes.length ≤ parmLen) : (dev.enter n a.parm).plentbl =
    Function.update dev.plentbl n a.value.bytes.length := by
  have hle : a.value.bytes.length ≤ 200 := hsize
  rw [← a.size_parm] at hle ⊢
  cases a with
  | num k => rfl
  | str s h =>
      change (cstr s).length + 1 ≤ 200 at hle
      exact congrArg (Function.update dev.plentbl n) (Nat.mod_eq_of_lt (by omega))

theorem parmtype_enter (hn : n < 16) (i : ℕ) : (dev.enter n a.parm).parmtype.getLsbD i =
    if i = n then a.value.isStr else dev.parmtype.getLsbD i := by
  have hbit : (1#16 <<< n).getLsbD i = decide (i = n) := by
    rw [BitVec.getLsbD_shiftLeft, BitVec.getLsbD_one]
    by_cases hi : i = n
    · simp [hi, hn]
    · simp [hi]
      omega
  cases a with
  | num k =>
      change (dev.parmtype &&& ~~~(1#16 <<< n)).getLsbD i = if i = n then false else _
      rw [BitVec.getLsbD_and, BitVec.getLsbD_not, hbit]
      by_cases hi : i = n
      · simp [hi]
      · simp only [hi, decide_false, Bool.not_false, Bool.and_true, if_false]
        cases hget : dev.parmtype.getLsbD i with
        | false => rfl
        | true => simpa using BitVec.lt_of_getLsbD hget
  | str s h =>
      change (dev.parmtype ||| 1#16 <<< n).getLsbD i = if i = n then true else _
      rw [BitVec.getLsbD_or, hbit]
      by_cases hi : i = n
      · simp [hi]
      · simp [hi]

theorem parm_enter_before {j : ℕ} (hj : j < dev.usmartGetParmpos n) :
    (dev.enter n a.parm).parm j = dev.parm j := by
  cases a with
  | num k =>
      change overlay dev.parm _ (numBytes _) 4 j = _
      exact overlay_before hj
  | str s h =>
      change overlay dev.parm _ (fun i => (cstr s).getD i 0) ((cstr s).length + 1) j = _
      exact overlay_before hj

theorem parm_enter {j : ℕ} {b : UInt8} (hb : a.value.bytes[j]? = some b) :
    (dev.enter n a.parm).parm (dev.usmartGetParmpos n + j) = b := by
  have hj := (List.getElem?_eq_some_iff.mp hb).1
  cases a with
  | num k =>
      have hlt : j < 4 := hj
      change overlay dev.parm _ (numBytes (usmartStr2num k.upper).2) 4 _ = _
      rw [overlay_inside (by omega) (by omega), Nat.add_sub_cancel_left, k.usmartStr2num_upper]
      simpa [Arg.value, ArgValue.bytes, hlt] using hb
  | str s h =>
      have hlt : j < s.length + 1 := by simpa [Arg.value, ArgValue.bytes] using hj
      change overlay dev.parm _ (fun i => (cstr s).getD i 0) ((cstr s).length + 1) _ = _
      rw [cstr_eq_self (printable_ne_nul h), overlay_inside (by omega) (by omega),
        Nat.add_sub_cancel_left]
      change (s ++ [0])[j]? = some b at hb
      rw [List.getD_eq_getElem?_getD]
      by_cases hend : j < s.length
      · rw [List.getElem?_append_left hend] at hb
        rw [hb, Option.getD_some]
      · obtain rfl : j = s.length := by omega
        rw [List.getElem?_concat_length] at hb
        rw [List.getElem?_eq_none le_rfl, Option.getD_none]
        exact Option.some.inj hb

end

/-- The string at a position where its bytes and a NUL stand. -/
theorem strAt_eq (dev : Dev) {s : List UInt8} {pos : ℕ} (hnul : 0 ∉ s)
    (hlen : pos + (s ++ [0]).length ≤ 200)
    (h : ∀ j b, (s ++ [0])[j]? = some b → dev.parm (pos + j) = b) : dev.strAt pos = s := by
  have hmap : (List.range (s ++ [0]).length).map (fun j => dev.parm (pos + j)) = s ++ [0] := by
    refine List.ext_getElem (by simp) fun i h₁ h₂ => ?_
    rw [List.getElem_map, List.getElem_range]
    exact h i _ (List.getElem?_eq_getElem h₂)
  obtain ⟨m, hm⟩ : ∃ m, parmLen - pos = (s ++ [0]).length + m :=
    ⟨200 - pos - (s ++ [0]).length, by change 200 - pos = _; omega⟩
  rw [strAt, hm, List.range_add, List.map_append, hmap, List.append_assoc]
  exact cstr_append hnul _

/-- The device holds the arguments of a list. -/
structure Entered (dev : Dev) (l : List ArgValue) : Prop where
  plentbl : ∀ i v, l[i]? = some v → dev.plentbl i = v.bytes.length
  parmtype : ∀ i v, l[i]? = some v → dev.parmtype.getLsbD i = v.isStr
  parm : ∀ j b, (argBytes l)[j]? = some b → dev.parm j = b

namespace Entered
variable {dev : Dev} {l : List ArgValue}

theorem nil (dev : Dev) : dev.Entered [] := by
  constructor <;> simp [argBytes]

theorem prefix_left {l' : List ArgValue} (h : dev.Entered (l ++ l')) : dev.Entered l := by
  have hget (i : ℕ) (v : ArgValue) (hv : l[i]? = some v) : (l ++ l')[i]? = some v := by
    rw [List.getElem?_append_left (List.getElem?_eq_some_iff.mp hv).1, hv]
  refine ⟨fun i v hv => h.plentbl i v (hget i v hv), fun i v hv => h.parmtype i v (hget i v hv), ?_⟩
  intro j b hb
  refine h.parm j b ?_
  rw [argBytes_append, List.getElem?_append_left (List.getElem?_eq_some_iff.mp hb).1, hb]

theorem sum (h : dev.Entered l) :
    ((List.range l.length).map dev.plentbl).sum = (argBytes l).length := by
  have hmap : (List.range l.length).map dev.plentbl = l.map fun v => v.bytes.length := by
    refine List.ext_getElem (by simp) fun i h₁ h₂ => ?_
    have hi : i < l.length := by simpa using h₁
    simp [h.plentbl i l[i] (List.getElem?_eq_getElem hi)]
  rw [hmap, argBytes, List.length_flatMap]

theorem holds (h : dev.Entered l) (hnum : l.length ≤ maxParm)
    (hsize : (argBytes l).length ≤ parmLen) :
    dev.Holds l.length (argBytes l).length := ⟨h.sum, hsize, hnum⟩

/-- An argument that is entered behind the others. -/
theorem snoc (h : dev.Entered l) (a : Arg) (hnum : l.length < maxParm)
    (hsize : (argBytes l).length + a.value.bytes.length ≤ parmLen) :
    (dev.enter l.length a.parm).Entered (l ++ [a.value]) := by
  have hle : (argBytes l).length + a.value.bytes.length ≤ 200 := hsize
  have hnum' : l.length < 10 := hnum
  have hpos := (h.holds (Nat.le_of_lt hnum) (Nat.le_trans (Nat.le_add_right _ _) hsize)).parmpos
  -- An argument is one of those before, or the new one.
  have hget (i : ℕ) (v : ArgValue) (hv : (l ++ [a.value])[i]? = some v) :
      (i ≠ l.length ∧ l[i]? = some v) ∨ (i = l.length ∧ v = a.value) := by
    by_cases hi : i < l.length
    · rw [List.getElem?_append_left hi] at hv
      exact Or.inl ⟨Nat.ne_of_lt hi, hv⟩
    · have hlt := (List.getElem?_eq_some_iff.mp hv).1
      rw [List.length_append, List.length_singleton] at hlt
      obtain rfl : i = l.length := by omega
      rw [List.getElem?_concat_length] at hv
      exact Or.inr ⟨rfl, (Option.some.inj hv).symm⟩
  constructor
  · intro i v hv
    rw [dev.plentbl_enter a (by omega)]
    rcases hget i v hv with ⟨hi, hv⟩ | ⟨rfl, rfl⟩
    · rw [Function.update_of_ne hi]
      exact h.plentbl i v hv
    · exact Function.update_self ..
  · intro i v hv
    rw [dev.parmtype_enter a (by omega)]
    rcases hget i v hv with ⟨hi, hv⟩ | ⟨rfl, rfl⟩
    · rw [if_neg hi]
      exact h.parmtype i v hv
    · exact if_pos rfl
  · intro j b hb
    rw [argBytes_append, argBytes_singleton] at hb
    by_cases hj : j < (argBytes l).length
    · rw [List.getElem?_append_left hj] at hb
      rw [dev.parm_enter_before a (by rw [hpos]; exact hj)]
      exact h.parm j b hb
    · rw [List.getElem?_append_right (by omega)] at hb
      have hparm := dev.parm_enter (n := l.length) a hb
      rwa [hpos, Nat.add_sub_cancel' (by omega)] at hparm

/-- The bytes of an argument stand behind those of the arguments before it. -/
theorem parm_at {pre post : List ArgValue} {v : ArgValue} (h : dev.Entered (pre ++ v :: post))
    {j : ℕ} {b : UInt8} (hb : v.bytes[j]? = some b) : dev.parm ((argBytes pre).length + j) = b := by
  refine h.parm _ b ?_
  have hj := (List.getElem?_eq_some_iff.mp hb).1
  rw [List.append_cons, argBytes_append, argBytes_append, argBytes_singleton,
    List.getElem?_append_left (by rw [List.length_append]; omega),
    List.getElem?_append_right (Nat.le_add_right _ _), Nat.add_sub_cancel_left, hb]

/-- An argument is read back as it has been entered. -/
theorem arg_at {pre post : List ArgValue} {v : ArgValue} (h : dev.Entered (pre ++ v :: post))
    (hsize : (argBytes (pre ++ v :: post)).length ≤ parmLen) (hstr : ∀ s, v = .str s → 0 ∉ s) :
    dev.arg pre.length = v := by
  have hlen : (argBytes pre).length + v.bytes.length ≤ 200 := by
    rw [List.append_cons, argBytes_append, argBytes_append, argBytes_singleton, List.length_append,
      List.length_append] at hsize
    exact Nat.le_trans (Nat.le_add_right _ _) hsize
  have hpos : dev.usmartGetParmpos pre.length = (argBytes pre).length := by
    rw [usmartGetParmpos, h.prefix_left.sum]
    exact Nat.mod_eq_of_lt (by omega)
  have htype : dev.parmtype.getLsbD pre.length = v.isStr :=
    h.parmtype _ v (by rw [List.getElem?_append_right le_rfl, Nat.sub_self]; rfl)
  rw [arg, convert, htype, hpos]
  have hparm {j : ℕ} {b : UInt8} (hb : v.bytes[j]? = some b) := h.parm_at hb
  cases v with
  | num n =>
      refine congrArg ArgValue.num (readNum_eq fun j hj => hparm ?_)
      simp [ArgValue.bytes, hj]
  | str s =>
      exact congrArg ArgValue.str (dev.strAt_eq (hstr s rfl) hlen fun j b hb => hparm hb)

/-- The arguments that a device holds are read back. -/
theorem args_eq (h : dev.Entered l) (hpnum : dev.pnum = l.length)
    (hsize : (argBytes l).length ≤ parmLen) (hstr : ∀ s, .str s ∈ l → 0 ∉ s) : dev.args = l := by
  rw [args, hpnum]
  refine List.ext_getElem (by simp) fun i h₁ h₂ => ?_
  have hsplit : l = l.take i ++ l[i] :: l.drop (i + 1) := by
    rw [← List.drop_eq_getElem_cons h₂, List.take_append_drop]
  have hlen : (l.take i).length = i := List.length_take_of_le (Nat.le_of_lt h₂)
  have harg := (hsplit ▸ h : dev.Entered (l.take i ++ l[i] :: l.drop (i + 1))).arg_at
    (by rw [← hsplit]; exact hsize) fun s hs => hstr s (hs ▸ List.getElem_mem h₂)
  rw [hlen] at harg
  rw [List.getElem_map, List.getElem_range, harg]

end Entered

/-- The arguments of a command are entered one after the other. -/
theorem putAll_args (l : List Arg) {dev : Dev} {vs : List ArgValue} (h : dev.Entered vs)
    (hnum : vs.length + l.length ≤ maxParm)
    (hsize : (argBytes (vs ++ l.map Arg.value)).length ≤ parmLen) :
    ∃ dev', putAll (l.map Arg.parm) .closed vs.length dev =
      .ok (usmartOk, vs.length + l.length, dev') ∧ dev'.Entered (vs ++ l.map Arg.value) := by
  induction l generalizing dev vs with
  | nil => exact ⟨dev, rfl, by simpa using h⟩
  | cons a l ih =>
      rw [List.map_cons, List.append_cons] at hsize
      have hroom : (argBytes vs).length + a.value.bytes.length ≤ parmLen := by
        rw [argBytes_append, argBytes_append, argBytes_singleton, List.length_append,
          List.length_append] at hsize
        exact Nat.le_trans (Nat.le_add_right _ _) hsize
      rw [List.length_cons] at hnum
      have hlt : vs.length < maxParm := by omega
      have hroom' : (argBytes vs).length + a.parm.size ≤ parmLen := a.size_parm ▸ hroom
      have hholds := h.holds (Nat.le_of_lt hlt) (Nat.le_trans (Nat.le_add_right _ _) hroom)
      have hput : dev.putParm vs.length a.parm =
          .ok (usmartOk, vs.length + 1, dev.enter vs.length a.parm) := by
        rcases putParm_cases hholds fun t => a.parm_num with ⟨hbad, -⟩ | ⟨-, -, -, -, hput⟩ |
          ⟨-, hfull, -⟩
        · exact absurd a.valid_parm hbad
        · exact hput
        · exact absurd ⟨hlt, hroom'⟩ hfull
      have hsnoc := h.snoc a hlt hroom
      have hone : (vs ++ [a.value]).length = vs.length + 1 := List.length_append
      obtain ⟨dev', hrun, hentered⟩ := ih hsnoc (by omega) hsize
      refine ⟨dev', ?_, ?_⟩
      · rw [hone] at hrun
        rw [List.map_cons, putAll, hput, List.length_cons, ← Nat.add_assoc, Nat.add_right_comm]
        exact hrun
      · rwa [List.map_cons, List.append_cons]

end Dev
end Apollo.Usmart
