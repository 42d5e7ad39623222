import Apollo.Usmart.Safety
import Mathlib.Data.Bool.AllAny
import Mathlib.Data.Nat.Digits.Defs

/-!
# Commands as text

A command is written as a name and a list of arguments.  A number is written in decimal or
behind `0X` in hexadecimal, with or without a sign; a string stands between double quotes,
with a backslash before every double quote and backslash in it.  The argument scan reads
back what has been written.

## Main definitions

* `Numeral`, `Arg` — the arguments of a command, and how they are written.
* `argsText` — the list of arguments as text.
* `usmartStr2num_upper` — a numeral has the value that the code computes.
* `readParms_argsText` — the argument scan finds the arguments that have been written.
-/

namespace Apollo.Usmart

/-! ## Numerals -/

inductive Sign where
  | none
  | plus
  | minus
  deriving DecidableEq

def Sign.text : Sign → List UInt8
  | .none => []
  | .plus => [ch '+']
  | .minus => [ch '-']

/-- Decimal, or hexadecimal behind `0X`. -/
inductive Base where
  | dec
  | hex
  deriving DecidableEq

namespace Base

abbrev radix : Base → ℕ
  | dec => 10
  | hex => 16

def text : Base → List UInt8
  | dec => []
  | hex => [ch '0', ch 'X']

end Base

/-- The character of a digit; `a` is the one of ten. -/
def digitChar (a : UInt8) (d : ℕ) : UInt8 :=
  if d < 10 then ch '0' + .ofNat d else a + .ofNat (d - 10)

/-- A number as it is written. -/
structure Numeral where
  sign : Sign
  base : Base
  /-- Hexadecimal digits may be written in lower case. -/
  lower : Bool
  digits : List ℕ
  digits_ne : digits ≠ []
  digits_lt : ∀ d ∈ digits, d < base.radix

namespace Numeral
variable (k : Numeral)

def text : List UInt8 :=
  k.sign.text ++ (k.base.text ++ k.digits.map (digitChar (if k.lower then ch 'a' else ch 'A')))

/-- The text as the argument scan copies it. -/
def upper : List UInt8 := k.sign.text ++ (k.base.text ++ k.digits.map (digitChar (ch 'A')))

/-- The number without its sign. -/
def magnitude : ℕ := Nat.ofDigits k.base.radix k.digits.reverse

/-- The number, as 32 bits. -/
def value : UInt32 :=
  if k.sign = .minus then -.ofNat k.magnitude else .ofNat k.magnitude

end Numeral

/-! ## Arguments -/

/-- What stands in a line: the characters from the blank to the tilde. -/
def Printable (c : UInt8) : Prop := 0x20 ≤ c ∧ c ≤ 0x7E

instance : DecidablePred Printable := fun _ => inferInstanceAs (Decidable (_ ∧ _))

/-- An argument of a command. -/
inductive Arg where
  | num (k : Numeral)
  | str (s : List UInt8) (h : ∀ c ∈ s, Printable c)

/-- A double quote or a backslash stands behind a backslash. -/
def escape (c : UInt8) : List UInt8 := if c = ch '"' ∨ c = ch '\\' then [ch '\\', c] else [c]

namespace Arg

def text : Arg → List UInt8
  | num k => k.text
  | str s _ => ch '"' :: (s.flatMap escape ++ [ch '"'])

/-- What the argument scan finds. -/
def parm : Arg → Parm
  | num k => .num k.upper
  | str s _ => .str s

end Arg

/-- The arguments, with commas between them. -/
def argsText : List Arg → List UInt8
  | [] => []
  | [a] => a.text
  | a :: b :: args => a.text ++ ch ',' :: argsText (b :: args)

/-! ## Digits -/

theorem digitChar_upper : ∀ d < 16, (IsDec (digitChar (ch 'A') d) ∨ IsHex (digitChar (ch 'A') d)) ∧
    digitVal (digitChar (ch 'A') d) = .ofNat d ∧ (d < 10 → ¬ch 'A' ≤ digitChar (ch 'A') d) := by
  decide

theorem digitChar_copied : ∀ d < 16, ∀ lower : Bool,
    IsNumeric (digitChar (if lower then ch 'a' else ch 'A') d) ∧
      toUpper (digitChar (if lower then ch 'a' else ch 'A') d) = digitChar (ch 'A') d := by
  decide

theorem Sign.isNumeric_text (s : Sign) : ∀ c ∈ s.text, IsNumeric c :=
  List.all_iff_forall_prop.mp (by cases s <;> rfl)

theorem Base.isNumeric_text (b : Base) : ∀ c ∈ b.text, IsNumeric c :=
  List.all_iff_forall_prop.mp (by cases b <;> rfl)

theorem Base.radix_le (b : Base) : b.radix ≤ 16 := by
  cases b <;> decide

theorem usmartPow_ofNat (m n : ℕ) : usmartPow (.ofNat m) n = .ofNat (m ^ n) := by
  induction n with
  | zero => rfl
  | succ n ih => rw [usmartPow, ih, Nat.pow_succ, UInt32.ofNat_mul]

/-- The loop sums up the digits. -/
theorem sumDigits_eq (r : ℕ) (l : List ℕ) (hl : ∀ d ∈ l, d < 16) (res : UInt32) :
    sumDigits (.ofNat r) (l.map (digitChar (ch 'A'))) l.length res =
      res + .ofNat (Nat.ofDigits r l.reverse) := by
  induction l generalizing res with
  | nil => simp [sumDigits]
  | cons d l ih =>
      have hval := (digitChar_upper d (hl d List.mem_cons_self)).2.1
      have hdigits : Nat.ofDigits r (d :: l).reverse =
          d * r ^ l.length + Nat.ofDigits r l.reverse := by
        rw [List.reverse_cons, Nat.ofDigits_append, List.length_reverse, Nat.ofDigits_singleton,
          Nat.add_comm, Nat.mul_comm]
      rw [List.map_cons, sumDigits, List.length_cons, Nat.add_sub_cancel, hval, usmartPow_ofNat,
        ih (fun e he => hl e (List.mem_cons_of_mem _ he)), hdigits, UInt32.ofNat_add,
        UInt32.ofNat_mul, UInt32.add_assoc]

/-! ## The value of a numeral -/

theorem isDec_ne_sign {c : UInt8} (h : IsDec c ∨ IsHex c) : c ≠ ch '-' ∧ c ≠ ch '+' := by
  constructor <;>
  · rintro rfl
    revert h
    decide

/-- The checking loop counts digits. -/
theorem checkNum_digits (p : List UInt8) (hp : ∀ c ∈ p, IsDec c ∨ IsHex c) {a : NumCheck}
    (hsign : a.str.head? ≠ some (ch '-') ∧ a.str.head? ≠ some (ch '+'))
    (hhex : ∀ c ∈ p, ch 'A' ≤ c → a.hexdec = 16) :
    checkNum p a = some { a with bnum := a.bnum + p.length } := by
  induction p generalizing a with
  | nil => rfl
  | cons c p ih =>
      have hc : IsDec c ∨ ((a.str.head? = some (ch '-') ∨ a.str.head? = some (ch '+')) ∧
          a.bnum = 0) ∨ IsHex c ∨ (c = ch 'X' ∧ a.bnum = 1) := by
        have := hp c List.mem_cons_self
        tauto
      have hsame : (if ch 'A' ≤ c then { a with hexdec := 16 } else a) = a := by
        split
        · next h => rw [← hhex c List.mem_cons_self h]
        · rfl
      rw [checkNum]
      refine (if_pos hc).trans ?_
      simp only [hsame, hsign.1, hsign.2, if_false]
      rw [ih (a := { a with bnum := a.bnum + 1 })
        (fun d hd => hp d (List.mem_cons_of_mem _ hd)) hsign
        fun d hd => hhex d (List.mem_cons_of_mem _ hd)]
      simp only [List.length_cons, Nat.add_assoc, Nat.add_comm 1]

/-- The checking loop passes the sign. -/
theorem checkNum_sign (s : Sign) (str : List UInt8) :
    ∃ flag, (flag = 2 ↔ s = .minus) ∧
      checkNum (s.text ++ str) ⟨s.text ++ str, 0, 10, 0⟩ = checkNum str ⟨str, 0, 10, flag⟩ := by
  cases s with
  | none => exact ⟨0, by decide, rfl⟩
  | plus => exact ⟨1, by decide, rfl⟩
  | minus => exact ⟨2, by decide, rfl⟩

namespace Numeral
variable (k : Numeral)

theorem digit_lt : ∀ d ∈ k.digits, d < 16 := fun d hd =>
  Nat.lt_of_lt_of_le (k.digits_lt d hd) k.base.radix_le

/-- The digits in upper case. -/
theorem isDigit_upper : ∀ c ∈ k.digits.map (digitChar (ch 'A')), IsDec c ∨ IsHex c := by
  intro c hc
  obtain ⟨d, hd, rfl⟩ := List.mem_map.mp hc
  exact (digitChar_upper d (k.digit_lt d hd)).1

theorem sumDigits_digits : sumDigits (.ofNat k.base.radix) (k.digits.map (digitChar (ch 'A')))
    k.digits.length 0 = .ofNat k.magnitude := by
  rw [sumDigits_eq _ _ k.digit_lt, magnitude]
  exact UInt32.zero_add _

/-- The code computes the value of a numeral. -/
theorem usmartStr2num_upper : usmartStr2num k.upper = (0, k.value) := by
  obtain ⟨flag, hflag, hsign⟩ :=
    checkNum_sign k.sign (k.base.text ++ k.digits.map (digitChar (ch 'A')))
  have hdigits := k.isDigit_upper
  have hsum := k.sumDigits_digits
  obtain ⟨c, p, hcp⟩ : ∃ c p, k.digits.map (digitChar (ch 'A')) = c :: p :=
    List.exists_cons_of_ne_nil (by simpa using k.digits_ne)
  have hc := isDec_ne_sign (hdigits c (by rw [hcp]; exact List.mem_cons_self))
  have hne : k.digits.length ≠ 0 := by simpa using k.digits_ne
  have hthree : ¬2 + k.digits.length < 3 := by omega
  rw [usmartStr2num, upper, hsign]
  cases hbase : k.base with
  | dec =>
      have hdec : ∀ c ∈ k.digits.map (digitChar (ch 'A')), ch 'A' ≤ c → 10 = 16 := by
        intro c hc
        obtain ⟨d, hd, rfl⟩ := List.mem_map.mp hc
        have hlt := k.digits_lt d hd
        rw [hbase] at hlt
        exact fun h => absurd h ((digitChar_upper d (k.digit_lt d hd)).2.2 hlt)
      rw [hbase] at hsum
      rw [Base.text, List.nil_append, checkNum_digits _ hdigits (by simpa [hcp] using hc) hdec]
      simp only [Nat.zero_add, List.length_map, Nat.reduceEqDiff, if_false, hne, hflag]
      rw [show (10 : UInt32) = .ofNat 10 from rfl, hsum]
      rfl
  | hex =>
      rw [hbase] at hsum
      rw [Base.text]
      have hpass : checkNum ([ch '0', ch 'X'] ++ k.digits.map (digitChar (ch 'A')))
          ⟨[ch '0', ch 'X'] ++ k.digits.map (digitChar (ch 'A')), 0, 10, flag⟩ =
          checkNum (k.digits.map (digitChar (ch 'A')))
            ⟨[ch '0', ch 'X'] ++ k.digits.map (digitChar (ch 'A')), 2, 16, flag⟩ := rfl
      rw [hpass, checkNum_digits _ hdigits (by simp +decide) fun _ _ _ => rfl]
      simp only [List.length_map, if_true, hthree, if_false, List.cons_append, List.nil_append,
        and_self, Nat.add_sub_cancel_left, hflag]
      rw [show (16 : UInt32) = .ofNat 16 from rfl, hsum]
      rfl

theorem isNumeric_text : ∀ c ∈ k.text, IsNumeric c := by
  intro c hc
  rw [text, List.mem_append, List.mem_append, List.mem_map] at hc
  rcases hc with hc | hc | ⟨d, hd, rfl⟩
  · exact k.sign.isNumeric_text c hc
  · exact k.base.isNumeric_text c hc
  · exact (digitChar_copied d (k.digit_lt d hd) k.lower).1

theorem map_toUpper_text : k.text.map toUpper = k.upper := by
  have hsign : k.sign.text.map toUpper = k.sign.text := by cases k.sign <;> decide
  have hbase : k.base.text.map toUpper = k.base.text := by cases k.base <;> decide
  have hdigits : (k.digits.map (digitChar (if k.lower then ch 'a' else ch 'A'))).map toUpper =
      k.digits.map (digitChar (ch 'A')) := by
    rw [List.map_map]
    refine List.map_congr_left fun d hd => ?_
    exact (digitChar_copied d (k.digit_lt d hd) k.lower).2
  rw [text, List.map_append, List.map_append, hsign, hbase, hdigits, upper]

theorem text_ne : k.text ≠ [] := by
  simp [text, k.digits_ne]

end Numeral

/-! ## Reading back -/

/-- A number is read to its last character. -/
theorem readParms_digits (ds : List UInt8) (h : ∀ c ∈ ds, IsNumeric c) (t s : List UInt8) :
    readParms (.digits t) (ds ++ s) = readParms (.digits (t ++ ds.map toUpper)) s := by
  induction ds generalizing t with
  | nil => simp
  | cons c ds ih =>
      have hc := h c List.mem_cons_self
      rw [List.cons_append, readParms_eq]
      simp only [hc.ne.1, hc, if_false, if_true]
      rw [ih (fun d hd => h d (List.mem_cons_of_mem _ hd)), List.map_cons, List.append_assoc]
      rfl

/-- A string is read to the quote that ends it. -/
theorem readParms_inside (str t s : List UInt8) :
    readParms (.inside t) (str.flatMap escape ++ ch '"' :: s) =
      readParms (.behind (t ++ str)) s := by
  induction str generalizing t with
  | nil =>
      rw [List.flatMap_nil, List.nil_append, readParms_eq, List.append_nil]
      exact if_pos rfl
  | cons c str ih =>
      rw [List.flatMap_cons, escape, List.append_cons t, ← ih]
      by_cases hc : c = ch '"' ∨ c = ch '\\'
      · rw [if_pos hc, List.cons_append, List.cons_append, readParms_eq]
        simp +decide
      · obtain ⟨hquote, hescape⟩ := not_or.mp hc
        rw [if_neg hc, List.append_assoc, List.singleton_append, readParms_eq]
        simp only [hquote, hescape, if_false]

/-- An argument starts with a character of a number or with a quote. -/
def StartsArg (c : UInt8) : Prop := IsNumeric c ∨ c = ch '"'

instance : DecidablePred StartsArg := fun _ => inferInstanceAs (Decidable (_ ∨ _))

theorem Arg.text_cons (a : Arg) : ∃ c s, a.text = c :: s ∧ StartsArg c := by
  cases a with
  | num k =>
      obtain ⟨c, s, hcs⟩ := List.exists_cons_of_ne_nil k.text_ne
      exact ⟨c, s, hcs, Or.inl (k.isNumeric_text c (by rw [hcs]; exact List.mem_cons_self))⟩
  | str s h => exact ⟨_, _, rfl, Or.inr rfl⟩

theorem argsText_cons (a : Arg) (args : List Arg) :
    ∃ c s, argsText (a :: args) = c :: s ∧ StartsArg c := by
  obtain ⟨c, s, hcs, hc⟩ := a.text_cons
  cases args with
  | nil => exact ⟨c, s, hcs, hc⟩
  | cons b args => exact ⟨c, s ++ ch ',' :: argsText (b :: args), by rw [argsText, hcs]; rfl, hc⟩

theorem readParms_after {c : UInt8} (h : StartsArg c) (t s : List UInt8) :
    readParms (.after t) (c :: s) =
      (.num t :: (readParms .between (c :: s)).1, (readParms .between (c :: s)).2) := by
  rcases h with h | rfl
  · rw [readParms_numeric h, readParms_eq]
    simp only [h.ne.1, h, if_false, if_true]
  · rw [readParms_quote, readParms_eq]
    simp +decide

/-- The reading of an argument, from its first character on. -/
theorem readParms_text (a : Arg) (s : List UInt8) : readParms .between (a.text ++ s) =
    readParms (match a with | .num k => .digits k.upper | .str s _ => .behind s) s := by
  cases a with
  | num k =>
      obtain ⟨c, t, hct⟩ := List.exists_cons_of_ne_nil k.text_ne
      have hnum := k.isNumeric_text
      have hupper := k.map_toUpper_text
      rw [hct] at hnum hupper
      rw [Arg.text, hct, List.cons_append, readParms_numeric (hnum c List.mem_cons_self),
        readParms_digits t fun d hd => hnum d (List.mem_cons_of_mem _ hd)]
      simp only [← hupper, List.map_cons, List.singleton_append]
  | str t h =>
      rw [Arg.text, List.cons_append, readParms_quote, List.append_assoc, List.singleton_append,
        readParms_inside, List.nil_append]

/-- The last argument. -/
theorem readParms_last (a : Arg) (s : List UInt8) :
    readParms .between (a.text ++ ch ')' :: s) = ([a.parm], .closed) := by
  rw [readParms_text, readParms_eq]
  cases a with
  | num k => exact if_pos (by decide)
  | str t h => exact if_pos (by decide)

/-- An argument in front of another one. -/
theorem readParms_arg (a : Arg) {c : UInt8} (h : StartsArg c) (s : List UInt8) :
    readParms .between (a.text ++ ch ',' :: c :: s) =
      (a.parm :: (readParms .between (c :: s)).1, (readParms .between (c :: s)).2) := by
  rw [readParms_text]
  cases a with
  | num k =>
      simp only [Arg.parm, ← readParms_after h]
      rw [readParms_eq]
      simp +decide
  | str t _ =>
      rw [readParms_eq]
      simp +decide [Arg.parm]

/-- The argument scan finds the arguments that have been written. -/
theorem readParms_argsText (args : List Arg) (s : List UInt8) :
    readParms .between (argsText args ++ ch ')' :: s) = (args.map Arg.parm, .closed) := by
  fun_induction argsText args with
  | case1 => exact readParms_end (by decide)
  | case2 a => exact readParms_last a s
  | case3 a b args ih =>
      obtain ⟨c, t, hct, hc⟩ := argsText_cons b args
      rw [hct] at ih ⊢
      rw [List.append_assoc, List.cons_append, List.cons_append, readParms_arg a hc,
        ← List.cons_append, ih]
      rfl

end Apollo.Usmart
