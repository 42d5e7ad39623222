import Apollo.Lib.Overlay
import Mathlib.Algebra.GroupWithZero.Nat
import Mathlib.Data.List.Basic
import Mathlib.Tactic.Common

/-!
# The string functions of USMART

A string is the list of its bytes before the NUL.  The functions that never leave their
string take such a list.  The argument scan can step over the NUL: it takes the memory
from a pointer on, in which the NUL is a byte like any other and where the list ends
nothing can be read.

A write outside a buffer and a read where there is no memory are the `Fault`s.  Lines hold
at most 199 bytes, so no `uint8_t` counter of them wraps.

## Main definitions

* `Fault` — what must not happen; `Dev` — `usmart_dev`.
* `usmartStr2num`, `usmartGetCmdname`, `usmartGetFname`.
* `usmartGetAparm`, `storeParm`, `usmartGetFparam` — the arguments.
-/

namespace Apollo.Usmart
open Lib

/-! ## Characters and strings -/

/-- A character constant. -/
abbrev ch (c : Char) : UInt8 := c.toUInt8

/-- A string constant. -/
def text (s : String) : List UInt8 := s.toByteArray.data.toList

/-- The string at a pointer. -/
def cstr (mem : List UInt8) : List UInt8 := mem.takeWhile (· ≠ 0)

/-- What must not happen: a write outside a buffer, or a read where there is no memory. -/
inductive Fault where
  | fname
  | tstr
  | plentbl
  | parm
  | pastEnd
  /-- The fuel of a loop has run out. -/
  | unfinished
  deriving DecidableEq

abbrev maxFnameLen : ℕ := 30
abbrev maxParm : ℕ := 10
abbrev parmLen : ℕ := 200

abbrev usmartOk : ℕ := 0
abbrev usmartFuncerr : ℕ := 1
abbrev usmartParmerr : ℕ := 2
abbrev usmartParmover : ℕ := 3
abbrev usmartNofuncfind : ℕ := 4

def usmartStrcmp : List UInt8 → List UInt8 → ℕ
  | [], [] => 0
  | c :: str1, d :: str2 => if c ≠ d then 1 else usmartStrcmp str1 str2
  | _, _ => 1

/-! ## Numbers -/

/-- `'0'` to `'9'`. -/
def IsDec (c : UInt8) : Prop := ch '0' ≤ c ∧ c ≤ ch '9'

/-- `'A'` to `'F'`. -/
def IsHex (c : UInt8) : Prop := ch 'A' ≤ c ∧ c ≤ ch 'F'

instance (c : UInt8) : Decidable (IsDec c) := inferInstanceAs (Decidable (_ ∧ _))
instance (c : UInt8) : Decidable (IsHex c) := inferInstanceAs (Decidable (_ ∧ _))

def usmartPow (m : UInt32) : ℕ → UInt32
  | 0 => 1
  | n + 1 => usmartPow m n * m

/-- What the checking loop of `usmart_str2num` carries; `flag` is `2` for a minus. -/
structure NumCheck where
  str : List UInt8
  bnum : ℕ
  hexdec : ℕ
  flag : ℕ

/-- The checking loop; `p` runs ahead of `str`. -/
def checkNum : List UInt8 → NumCheck → Option NumCheck
  | [], a => some a
  | c :: p, a =>
      let sign := a.str.head?
      if IsDec c ∨ ((sign = some (ch '-') ∨ sign = some (ch '+')) ∧ a.bnum = 0) ∨ IsHex c ∨
          (c = ch 'X' ∧ a.bnum = 1) then
        let a := if ch 'A' ≤ c then { a with hexdec := 16 } else a
        checkNum p
          (if sign = some (ch '-') then { a with flag := 2, str := a.str.tail }
          else if sign = some (ch '+') then { a with flag := 1, str := a.str.tail }
          else { a with bnum := a.bnum + 1 })
      else none

/-- The value of a digit. -/
def digitVal (c : UInt8) : UInt32 :=
  if IsDec c then c.toUInt32 - (ch '0').toUInt32 else c.toUInt32 - (ch 'A').toUInt32 + 10

/-- The loop that sums up the digits. -/
def sumDigits (hexdec : UInt32) : List UInt8 → ℕ → UInt32 → UInt32
  | [], _, res => res
  | c :: p, bnum, res =>
      sumDigits hexdec p (bnum - 1) (res + digitVal c * usmartPow hexdec (bnum - 1))

/-- `usmart_str2num`: the code it returns, and `*res`. -/
def usmartStr2num (str : List UInt8) : ℕ × UInt32 :=
  match checkNum str ⟨str, 0, 10, 0⟩ with
  | none => (1, 0)
  | some a =>
      let signed (res : UInt32) := (0, if a.flag = 2 then -res else res)
      if a.hexdec = 16 then
        if a.bnum < 3 then (2, 0)
        else match a.str with
          | c :: d :: p => if c = ch '0' ∧ d = ch 'X' then signed (sumDigits 16 p (a.bnum - 2) 0)
              else (3, 0)
          | _ => (3, 0)
      else if a.bnum = 0 then (4, 0)
      else signed (sumDigits 10 a.str a.bnum 0)

/-! ## Names -/

/-- The loop of `usmart_get_cmdname`: its result, the name, and the rest of the string. -/
def cmdnameLoop (maxlen : ℕ) : List UInt8 → List UInt8 → ℕ × List UInt8 × List UInt8
  | [], cmdname => (0, cmdname, [])
  | c :: str, cmdname =>
      if c = ch ' ' then (0, cmdname, c :: str)
      else if cmdname.length + 1 ≥ maxlen then (1, cmdname ++ [c], str)
      else cmdnameLoop maxlen str (cmdname ++ [c])

/-- `usmart_get_cmdname` with a buffer of `size` bytes; a name that is cut off has no NUL. -/
def usmartGetCmdname (size maxlen : ℕ) (str : List UInt8) :
    Except Fault (ℕ × List UInt8 × List UInt8) :=
  let (res, cmdname, rest) := cmdnameLoop maxlen str []
  let written := if res = 0 then cmdname.length + 1 else cmdname.length
  if written ≤ size then .ok (res, cmdname, rest) else .error .fname

/-- The first loop of `usmart_get_fname`: `pcnt` and the type in front of the name. -/
def typeLoop : List UInt8 → ℕ → List UInt8 → ℕ × List UInt8
  | [], pcnt, fpname => (pcnt, fpname)
  | c :: str, pcnt, fpname =>
      if c ≠ ch ' ' ∧ pcnt % 128 < 5 then
        let pcnt := if pcnt = 0 then 0x80 else pcnt
        if pcnt % 128 = 4 ∧ c ≠ ch '*' then (pcnt, fpname)
        else typeLoop str (pcnt + 1) (fpname ++ [c])
      else if pcnt = 0x85 then (pcnt, fpname)
      else typeLoop str pcnt fpname

/-- `*rval`: whether the function returns something; not written for a blank string. -/
def returnsValue (str : List UInt8) : Option ℕ :=
  let (pcnt, fpname) := typeLoop str 0 []
  if pcnt = 0 then none
  else some (if usmartStrcmp fpname (text "void") = 0 then 0 else 1)

/-- `usmart_search_nextc` for a pointer in front of `str`; `0` is the NUL. -/
def usmartSearchNextc (str : List UInt8) : UInt8 := (str.dropWhile (· = ch ' ')).headD 0

/-- The second loop of `usmart_get_fname`: where a blank or a star stands in front of the name. -/
def offsetLoop : List UInt8 → ℕ → ℕ → ℕ
  | [], _, offset => offset
  | c :: str, res, offset =>
      if c = ch '(' then offset
      else offsetLoop str (res + 1) (match str with
        | [] => offset
        | d :: rest =>
            if d = ch ' ' ∨ d = ch '*' then
              let nchar := usmartSearchNextc rest
              if nchar ≠ ch '(' ∧ nchar ≠ ch '*' then res + 1 else offset
            else offset)

/-- Where the name of the function begins. -/
def nameStart (str : List UInt8) : List UInt8 :=
  let offset := offsetLoop str 0 0
  if offset = 0 then str else str.drop (offset + 1)

/-- What the third loop of `usmart_get_fname` carries: the depth of parentheses, whether it is
inside a string, the name, and the counting of the parameters. -/
structure NameScan where
  fover : ℕ
  nchar : Bool
  temp : ℕ
  pcnt : ℕ
  parmnum : ℕ
  fname : List UInt8
  fpname : List UInt8

/-- What the third loop does with a character of the parameters. -/
def NameScan.takeParm (a : NameScan) (c : UInt8) : NameScan :=
  if c = ch ',' then { a with temp := 1, pcnt := a.pcnt + 1 }
  else if c ≠ ch ' ' ∧ c ≠ ch '(' then
    { a with
      temp := a.temp + 1
      fpname := if a.pcnt = 0 ∧ a.fpname.length < 5 then a.fpname ++ [c] else a.fpname }
  else a

/-- A parameter is counted when its first character has been seen. -/
def NameScan.count (a : NameScan) : NameScan :=
  if a.fover = 1 ∧ a.temp = 2 then { a with temp := a.temp + 1, parmnum := a.parmnum + 1 } else a

/-- What the third loop does with a character once it has looked for parentheses and quotes. -/
def NameScan.take (a : NameScan) (c : UInt8) : NameScan :=
  if a.fover = 0 then if c ≠ ch ' ' then { a with fname := a.fname ++ [c] } else a
  else (a.takeParm c).count

/-- The third loop of `usmart_get_fname`. -/
def scanName : List UInt8 → NameScan → ℕ × NameScan
  | [], a => (usmartFuncerr, a)
  | c :: str, a =>
      if c = ch '(' ∧ a.nchar = false then scanName str ({ a with fover := a.fover + 1 }.take c)
      else if c = ch ')' ∧ a.nchar = false then
        if a.fover = 0 then (usmartFuncerr, a)
        else if a.fover - 1 = 0 then (usmartOk, { a with fover := 0 })
        else scanName str ({ a with fover := a.fover - 1 }.take c)
      else if c = ch '"' then scanName str ({ a with nchar := !a.nchar }.take c)
      else scanName str (a.take c)

/-- What `usmart_get_fname` finds: its result, the name, the number of parameters, `*rval`. -/
structure FName where
  res : ℕ
  fname : List UInt8
  pnum : ℕ
  rval : Option ℕ
  deriving DecidableEq

/-- What `usmart_get_fname` finds, whatever room there is for the name. -/
def findFname (str : List UInt8) : FName :=
  let (res, a) := scanName (nameStart str) ⟨0, false, 1, 0, 0, [], []⟩
  let pnum := if a.parmnum = 1 ∧ usmartStrcmp a.fpname (text "void") = 0 then 0 else a.parmnum
  ⟨res, a.fname, pnum, returnsValue str⟩

/-- `usmart_get_fname` with a buffer of `size` bytes for the name. -/
def usmartGetFname (size : ℕ) (str : List UInt8) : Except Fault FName :=
  let found := findFname str
  if found.fname.length < size then .ok found else .error .fname

/-! ## Arguments -/

/-- The characters of numbers. -/
def IsNumeric (c : UInt8) : Prop :=
  IsDec c ∨ c = ch '-' ∨ c = ch '+' ∨ (ch 'a' ≤ c ∧ c ≤ ch 'f') ∨ IsHex c ∨ c = ch 'X' ∨ c = ch 'x'

instance (c : UInt8) : Decidable (IsNumeric c) := inferInstanceAs (Decidable (_ ∨ _))

/-- Lower case becomes upper case. -/
def toUpper (c : UInt8) : UInt8 := if ch 'a' ≤ c then c - 0x20 else c

/-- `*ptype`. -/
inductive ParmType where
  | number
  | string
  /-- `0XFF`. -/
  | error
  deriving DecidableEq

/-- What the loop of `usmart_get_aparm` carries. -/
structure Aparm where
  enout : Bool
  type : ParmType
  string : Bool
  fparm : List UInt8

/-- The loop of `usmart_get_aparm`, and the pointer it stops at. -/
def aparmLoop : List UInt8 → Aparm → Except Fault (Aparm × List UInt8)
  | [], _ => .error .pastEnd
  | c :: str, a =>
      let a := if c = ch ',' ∧ a.string = false then { a with enout := true } else a
      if (c = ch ')' ∨ c = 0) ∧ a.string = false then .ok (a, c :: str)
      else if a.type = .number then
        if IsNumeric c then
          if a.enout then .ok (a, c :: str)
          else aparmLoop str { a with fparm := a.fparm ++ [toUpper c] }
        else if c = ch '"' then
          if a.enout then .ok (a, c :: str)
          else aparmLoop str { a with type := .string, string := true }
        else if c ≠ ch ' ' ∧ c ≠ ch ',' then .ok ({ a with type := .error }, c :: str)
        else aparmLoop str a
      else
        let a := if c = ch '"' then { a with string := false } else a
        if a.enout then .ok (a, c :: str)
        else if a.string then
          if c = ch '\\' then match str with
            | [] => .error .pastEnd
            | d :: rest => aparmLoop rest { a with fparm := a.fparm ++ [d] }
          else aparmLoop str { a with fparm := a.fparm ++ [c] }
        else aparmLoop str a

/-- `usmart_get_aparm` with a buffer of `size` bytes: the argument, its type, and the pointer
moved by the result. -/
def usmartGetAparm (size : ℕ) (full : Fault) (str : List UInt8) :
    Except Fault (List UInt8 × ParmType × List UInt8) := do
  let (a, rest) ← aparmLoop str ⟨false, .number, false, []⟩
  if a.fparm.length < size then pure (a.fparm, a.type, rest) else throw full

/-- `usmart_dev`, but for the functions. -/
structure Dev where
  pnum : ℕ
  id : ℕ
  sptype : ℕ
  parmtype : BitVec 16
  plentbl : ℕ → ℕ
  parm : ℕ → UInt8
  runtimeflag : ℕ

/-- `usmart_dev` as it is initialised. -/
def usmartDev : Dev := ⟨0, 0, 1, 0, fun _ => 0, fun _ => 0, 0⟩

namespace Dev
variable (dev : Dev)

def usmartGetParmpos (num : ℕ) : ℕ := ((List.range num).map dev.plentbl).sum % 2 ^ 8

/-- The bytes of a number in memory. -/
def numBytes (res : UInt32) : ℕ → UInt8
  | 0 => res.toUInt8
  | 1 => (res >>> 8).toUInt8
  | 2 => (res >>> 16).toUInt8
  | _ => (res >>> 24).toUInt8

/-- A number is entered as the argument `n`. -/
def putNum (n : ℕ) (res : UInt32) : Dev :=
  { dev with
    parm := overlay dev.parm (dev.usmartGetParmpos n) (numBytes res) 4
    parmtype := dev.parmtype &&& ~~~(1#16 <<< n)
    plentbl := Function.update dev.plentbl n 4 }

/-- A string is entered as the argument `n`, with its NUL. -/
def putStr (n : ℕ) (str : List UInt8) : Dev :=
  let len := (str.length + 1) % 2 ^ 8
  { dev with
    parm := overlay dev.parm (dev.usmartGetParmpos n) (fun i => str.getD i 0) (str.length + 1)
    parmtype := dev.parmtype ||| (1#16 <<< n)
    plentbl := Function.update dev.plentbl n len }

/-- The writes of `size` bytes to `parm` and to `plentbl` for the argument `n`. -/
def room (n size : ℕ) (next : Dev) : Except Fault Dev :=
  if parmLen < dev.usmartGetParmpos n + size then .error .parm
  else if maxParm ≤ n then .error .plentbl
  else .ok next

/-- The `switch` of `usmart_get_fparam`: its result or `0`, `n`, and the device. -/
def storeParm (n : ℕ) (tstr : List UInt8) : ParmType → Except Fault (ℕ × ℕ × Dev)
  | .number =>
      if tstr = [] then .ok (usmartOk, n, dev)
      else
        let (i, res) := usmartStr2num tstr
        if i ≠ 0 then .ok (usmartParmerr, n, dev)
        else do
          let dev ← dev.room n 4 (dev.putNum n res)
          pure (if n + 1 > maxParm then usmartParmover else usmartOk, n + 1, dev)
  | .string => do
      let dev ← dev.room n ((cstr tstr).length + 1) (dev.putStr n (cstr tstr))
      pure (if n + 1 > maxParm then usmartParmover else usmartOk, n + 1, dev)
  | .error => .ok (usmartParmerr, n, dev)

/-- The loop of `usmart_get_fparam`: its result, `n`, and the device. -/
def fparamLoop : ℕ → List UInt8 → ℕ → Dev → Except Fault (ℕ × ℕ × Dev)
  | 0, _, _, _ => .error .unfinished
  | fuel + 1, str, n, dev => do
      let (tstr, type, str) ← usmartGetAparm (parmLen + 1) .tstr str
      let (sta, n, dev) ← dev.storeParm n tstr type
      if sta ≠ 0 then pure (sta, n, dev)
      else match str with
        | [] => throw .pastEnd
        | c :: _ =>
          if c = ch ')' ∨ c = 0 then pure (usmartOk, n, dev) else fparamLoop fuel str n dev

/-- The loop that looks for the first parenthesis: the memory behind it, or nothing. -/
def findParen : List UInt8 → Except Fault (Option (List UInt8))
  | [] => .error .pastEnd
  | c :: str =>
      if c = ch '(' then .ok (some str)
      else match str with
        | [] => .error .pastEnd
        | d :: _ => if d = 0 then .ok none else findParen str

/-- `usmart_get_fparam`: its result, `*parn`, and the device. -/
def usmartGetFparam (str : List UInt8) : Except Fault (ℕ × ℕ × Dev) := do
  let dev := { dev with plentbl := fun i => if i < maxParm then 0 else dev.plentbl i }
  match ← findParen str with
  | none => pure (usmartFuncerr, 0, dev)
  | some str => fparamLoop (str.length + 1) str 0 dev

end Dev
end Apollo.Usmart
