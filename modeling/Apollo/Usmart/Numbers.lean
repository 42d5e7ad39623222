import Apollo.Usmart.Render

/-!
# The numbers that `usmart_str2num` takes

The checking loop strips a sign as long as it has counted no digit, so that it strips any
number of them and the last one counts.  Apart from that it takes the numerals and nothing
else.

## Main definitions

* `ReadsNumerals` — a string is accepted exactly if it is a numeral, with its value.
* `ManySigned` — an unsigned numeral behind two signs or more.
* `usmartStr2num_accepts` — what is accepted: an unsigned numeral behind any signs.
* `readsNumerals_iff` — the strings that are treated as numerals are.
-/

namespace Apollo.Usmart

/-- The grammar `[+-]?([0-9]+|0X[0-9A-F]+)`. -/
def IsNumeral (str : List UInt8) : Prop := ∃ k : Numeral, k.upper = str

/-- The string is accepted exactly if it is a numeral, and then has its value. -/
def ReadsNumerals (str : List UInt8) : Prop :=
  ((usmartStr2num str).1 = 0 ↔ IsNumeral str) ∧
    ∀ k : Numeral, k.upper = str → (usmartStr2num str).2 = k.value

/-- A plus or a minus. -/
def IsSign (c : UInt8) : Prop := c = ch '+' ∨ c = ch '-'

instance (c : UInt8) : Decidable (IsSign c) := inferInstanceAs (Decidable (_ ∨ _))

/-- An unsigned numeral behind these signs. -/
def SignedBy (signs str : List UInt8) : Prop :=
  (∀ c ∈ signs, IsSign c) ∧ ∃ k : Numeral, k.sign = .none ∧ str = signs ++ k.upper

/-- An unsigned numeral behind two signs or more. -/
def ManySigned (str : List UInt8) : Prop := ∃ signs, 2 ≤ signs.length ∧ SignedBy signs str

/-! ## The checking loop -/

/-- The string does not begin with a sign. -/
def Unsigned (str : List UInt8) : Prop := ∀ c, str.head? = some c → ¬ IsSign c

/-- The loop strips a sign and keeps which one it was. -/
theorem checkNum_strip {c : UInt8} (hc : IsSign c) (str : List UInt8) (flag : ℕ) :
    checkNum (c :: str) ⟨c :: str, 0, 10, flag⟩ =
      checkNum str ⟨str, 0, 10, if c = ch '-' then 2 else 1⟩ := by
  rcases hc with rfl | rfl
  · rfl
  · rfl

/-- All signs in front are stripped. -/
theorem checkNum_signs {signs : List UInt8} (h : ∀ c ∈ signs, IsSign c) (str : List UInt8)
    (flag : ℕ) : ∃ flag', checkNum (signs ++ str) ⟨signs ++ str, 0, 10, flag⟩ =
      checkNum str ⟨str, 0, 10, flag'⟩ := by
  induction signs generalizing flag with
  | nil => exact ⟨flag, rfl⟩
  | cons c signs ih =>
      rw [List.cons_append, checkNum_strip (h c List.mem_cons_self)]
      exact ih (fun d hd => h d (List.mem_cons_of_mem c hd)) _

/-- Behind the signs the loop counts: an `X` is taken at the second place only. -/
theorem checkNum_counts {p : List UInt8} {a b : NumCheck} (hstr : Unsigned a.str)
    (h : checkNum p a = some b) :
    b = { a with
      bnum := a.bnum + p.length
      hexdec := if ∃ c ∈ p, ch 'A' ≤ c then 16 else a.hexdec } ∧
    ∀ i c, p[i]? = some c → IsDec c ∨ IsHex c ∨ (c = ch 'X' ∧ a.bnum + i = 1) := by
  induction p generalizing a with
  | nil =>
      obtain rfl := Option.some.inj h
      simp
  | cons c p ih =>
      have hminus : a.str.head? ≠ some (ch '-') := fun hs => hstr _ hs (Or.inr rfl)
      have hplus : a.str.head? ≠ some (ch '+') := fun hs => hstr _ hs (Or.inl rfl)
      rw [checkNum] at h
      simp only [hminus, hplus, or_self, false_and, false_or, if_false] at h
      split at h
      case isFalse => cases h
      case isTrue htaken =>
        obtain ⟨hb, hrest⟩ := ih (by split <;> exact hstr) h
        refine ⟨?_, fun i d hd => ?_⟩
        · rw [hb]
          by_cases hA : ch 'A' ≤ c
          · simp [hA, Nat.add_comm 1, Nat.add_assoc]
          · simp [hA, Nat.add_comm 1, Nat.add_assoc]
        · cases i with
          | zero =>
              obtain rfl : c = d := by simpa using hd
              exact htaken
          | succ i =>
              have hnext := hrest i d (by simpa using hd)
              have hbnum : (if ch 'A' ≤ c then { a with hexdec := 16 } else a).bnum = a.bnum := by
                split <;> rfl
              rw [hbnum] at hnext
              simpa [Nat.add_assoc, Nat.add_comm 1] using hnext

/-- Behind the signs the flag is carried along. -/
theorem checkNum_flag (p : List UInt8) {a : NumCheck} (hstr : Unsigned a.str) (flag : ℕ) :
    checkNum p { a with flag := flag } = (checkNum p a).map ({ · with flag := flag }) := by
  induction p generalizing a with
  | nil => rfl
  | cons c p ih =>
      have hminus : a.str.head? ≠ some (ch '-') := fun hs => hstr _ hs (Or.inr rfl)
      have hplus : a.str.head? ≠ some (ch '+') := fun hs => hstr _ hs (Or.inl rfl)
      simp only [checkNum, hminus, hplus, or_self, false_and, false_or, if_false]
      split
      · rw [← ih (by split <;> exact hstr)]
        split <;> rfl
      · rfl

/-! ## Characters and digits -/

/-- The digit that a character stands for. -/
def charDigit (c : UInt8) : ℕ := (digitVal c).toNat

theorem charDigit_eq : ∀ n < 256, (IsDec (.ofNat n) ∨ IsHex (.ofNat n)) →
    digitChar (ch 'A') (charDigit (.ofNat n)) = .ofNat n ∧
      charDigit (.ofNat n) < if ch 'A' ≤ UInt8.ofNat n then 16 else 10 := by
  decide +kernel

theorem digitChar_charDigit {c : UInt8} (h : IsDec c ∨ IsHex c) :
    digitChar (ch 'A') (charDigit c) = c ∧ charDigit c < if ch 'A' ≤ c then 16 else 10 := by
  have hc := charDigit_eq c.toNat c.toNat_lt
  rw [UInt8.ofNat_toNat] at hc
  exact hc h

/-- The characters of digits below the radix spell a numeral. -/
theorem exists_numeral (base : Base) {p : List UInt8} (hne : p ≠ [])
    (hp : ∀ c ∈ p, (IsDec c ∨ IsHex c) ∧ charDigit c < base.radix) :
    ∃ k : Numeral, k.sign = .none ∧ k.upper = base.text ++ p := by
  have hlt : ∀ d ∈ p.map charDigit, d < base.radix := by
    intro d hd
    obtain ⟨c, hc, rfl⟩ := List.mem_map.mp hd
    exact (hp c hc).2
  have hdigits : (p.map charDigit).map (digitChar (ch 'A')) = p := by
    rw [List.map_map]
    refine (List.map_congr_left fun c hc => ?_).trans (List.map_id p)
    exact (digitChar_charDigit (hp c hc).1).1
  refine ⟨⟨.none, base, false, p.map charDigit, by simpa using hne, hlt⟩, rfl, ?_⟩
  rw [Numeral.upper, hdigits]
  rfl

/-! ## What is accepted -/

theorem unsigned_upper {k : Numeral} (hk : k.sign = .none) : Unsigned k.upper := by
  intro c hc hsign
  have hnumeric : IsDec c ∨ IsHex c := by
    obtain ⟨d, p, hd⟩ := List.exists_cons_of_ne_nil k.digits_ne
    rw [Numeral.upper, hk, hd] at hc
    cases hbase : k.base with
    | dec =>
        rw [hbase] at hc
        obtain rfl : digitChar (ch 'A') d = c := by simpa [Sign.text, Base.text] using hc
        refine (digitChar_upper d (k.digit_lt d ?_)).1
        rw [hd]
        exact List.mem_cons_self
    | hex =>
        rw [hbase] at hc
        obtain rfl : ch '0' = c := by simpa [Sign.text, Base.text] using hc
        decide
  have hne := isDec_ne_sign hnumeric
  rcases hsign with hplus | hminus
  · exact hne.2 hplus
  · exact hne.1 hminus

/-- A numeral is an unsigned numeral behind at most one sign. -/
theorem isNumeral_iff {str : List UInt8} :
    IsNumeral str ↔ ∃ signs, signs.length < 2 ∧ SignedBy signs str := by
  constructor
  · rintro ⟨k, rfl⟩
    have hsigns : ∀ c ∈ k.sign.text, IsSign c := by
      cases k.sign <;> simp [Sign.text, IsSign]
    have hlen : k.sign.text.length < 2 := by
      cases k.sign <;> decide
    exact ⟨k.sign.text, hlen, hsigns, { k with sign := .none }, rfl, rfl⟩
  · rintro ⟨signs, hlen, hsigns, k, hk, rfl⟩
    cases signs with
    | nil => exact ⟨k, rfl⟩
    | cons c signs =>
        obtain rfl : signs = [] := List.eq_nil_of_length_eq_zero (by
          rw [List.length_cons] at hlen
          omega)
        have hupper : k.upper = k.base.text ++ k.digits.map (digitChar (ch 'A')) := by
          rw [Numeral.upper, hk]
          rfl
        rw [hupper]
        rcases hsigns c List.mem_cons_self with rfl | rfl
        · exact ⟨{ k with sign := .plus }, rfl⟩
        · exact ⟨{ k with sign := .minus }, rfl⟩

/-- The code does not depend on the signs. -/
theorem code_signs {signs rest : List UInt8} (hsigns : ∀ c ∈ signs, IsSign c)
    (hrest : Unsigned rest) :
    (usmartStr2num (signs ++ rest)).1 = (usmartStr2num rest).1 := by
  obtain ⟨flag, hflag⟩ := checkNum_signs hsigns rest 0
  have hcarry := checkNum_flag rest (a := ⟨rest, 0, 10, 0⟩) hrest flag
  rw [usmartStr2num, usmartStr2num, hflag, hcarry]
  cases checkNum rest ⟨rest, 0, 10, 0⟩ with
  | none => rfl
  | some a =>
      simp only [Option.map_some]
      split
      · split
        · rfl
        · split
          · split <;> rfl
          · rfl
      · split <;> rfl

/-- Without signs only numerals are accepted. -/
theorem unsigned_accepted {rest : List UInt8} (hrest : Unsigned rest)
    (h : (usmartStr2num rest).1 = 0) : ∃ k : Numeral, k.sign = .none ∧ k.upper = rest := by
  rw [usmartStr2num] at h
  cases hcheck : checkNum rest ⟨rest, 0, 10, 0⟩ with
  | none => simp [hcheck] at h
  | some a =>
      obtain ⟨ha, hchars⟩ := checkNum_counts hrest hcheck
      simp only [Nat.zero_add] at ha hchars
      rw [hcheck, ha] at h
      by_cases hhex : ∃ c ∈ rest, ch 'A' ≤ c
      · simp only [hhex, if_true] at h
        split at h
        · cases h
        · rename_i hlen
          split at h
          · rename_i c d p
            split at h
            · rename_i hstart
              obtain ⟨rfl, rfl⟩ := hstart
              refine exists_numeral .hex (p := p) (fun hp => hlen (by simp [hp])) fun c hc => ?_
              obtain ⟨i, hi⟩ := List.mem_iff_getElem?.mp hc
              have hdigit : IsDec c ∨ IsHex c := by
                rcases hchars (i + 2) c (by simpa using hi) with hdec | hletter | ⟨-, hplace⟩
                · exact Or.inl hdec
                · exact Or.inr hletter
                · omega
              refine ⟨hdigit, (digitChar_charDigit hdigit).2.trans_le ?_⟩
              split <;> decide
            · cases h
          · cases h
      · simp only [hhex, if_false] at h
        have hten : ¬ (10 : ℕ) = 16 := by decide
        simp only [hten, if_false] at h
        split at h
        · cases h
        · rename_i hlen
          refine exists_numeral .dec (fun hp => hlen (by simp [hp])) fun c hc => ?_
          obtain ⟨i, hi⟩ := List.mem_iff_getElem?.mp hc
          have hbelow : ¬ ch 'A' ≤ c := fun hA => hhex ⟨c, hc, hA⟩
          have hdigit : IsDec c ∨ IsHex c := by
            rcases hchars i c hi with hdec | hletter | ⟨rfl, -⟩
            · exact Or.inl hdec
            · exact Or.inr hletter
            · exact absurd (by decide) hbelow
          have hlt := (digitChar_charDigit hdigit).2
          rw [if_neg hbelow] at hlt
          exact ⟨hdigit, hlt⟩

/-- What is accepted: an unsigned numeral behind any number of signs. -/
theorem usmartStr2num_accepts (str : List UInt8) :
    (usmartStr2num str).1 = 0 ↔ ∃ signs, SignedBy signs str := by
  constructor
  · intro h
    have hsplit : str = str.takeWhile (IsSign ·) ++ str.dropWhile (IsSign ·) :=
      List.takeWhile_append_dropWhile.symm
    have hsigns : ∀ c ∈ str.takeWhile (IsSign ·), IsSign c := fun c hc => by
      simpa using List.all_eq_true.mp List.all_takeWhile c hc
    have hrest : Unsigned (str.dropWhile (IsSign ·)) := by
      intro c hc hsign
      have hhead := List.head?_dropWhile_not (fun c => decide (IsSign c)) str
      rw [hc] at hhead
      simp [hsign] at hhead
    rw [hsplit, code_signs hsigns hrest] at h
    obtain ⟨k, hk, hupper⟩ := unsigned_accepted hrest h
    exact ⟨_, hsigns, k, hk, by rw [hupper, ← hsplit]⟩
  · rintro ⟨signs, hsigns, k, hk, rfl⟩
    rw [code_signs hsigns (unsigned_upper hk), k.usmartStr2num_upper]

/-- The signs in front of an unsigned numeral are all there are. -/
theorem SignedBy.unique {signs signs' str : List UInt8} (h : SignedBy signs str)
    (h' : SignedBy signs' str) : signs = signs' := by
  obtain ⟨hsigns, k, hk, rfl⟩ := h
  obtain ⟨hsigns', k', hk', heq⟩ := h'
  have htake {l rest : List UInt8} (hl : ∀ c ∈ l, IsSign c) (hrest : Unsigned rest) :
      (l ++ rest).takeWhile (IsSign ·) = l := by
    rw [List.takeWhile_append_of_pos (by simpa using hl)]
    cases rest with
    | nil => simp
    | cons c rest => simp [hrest c rfl]
  rw [← htake hsigns (unsigned_upper hk), heq, htake hsigns' (unsigned_upper hk')]

/-- A string is accepted exactly if it is a numeral, and with its value, unless it is an unsigned
numeral behind two signs or more. -/
theorem readsNumerals_iff (str : List UInt8) : ReadsNumerals str ↔ ¬ ManySigned str := by
  have hvalue : ∀ k : Numeral, k.upper = str → (usmartStr2num str).2 = k.value := by
    rintro k rfl
    rw [k.usmartStr2num_upper]
  rw [ReadsNumerals, and_iff_left hvalue, usmartStr2num_accepts, isNumeral_iff]
  constructor
  · rintro haccepts ⟨signs, htwo, hsigned⟩
    obtain ⟨signs', hone, hsigned'⟩ := haccepts.mp ⟨signs, hsigned⟩
    rw [hsigned.unique hsigned'] at htwo
    omega
  · intro hmany
    refine ⟨fun ⟨signs, hsigned⟩ => ⟨signs, ?_, hsigned⟩,
      fun ⟨signs, _, hsigned⟩ => ⟨signs, hsigned⟩⟩
    by_contra htwo
    exact hmany ⟨signs, by omega, hsigned⟩

/-- `--5` is taken for -5. -/
theorem readsNumerals_twoSigns :
    usmartStr2num [ch '-', ch '-', ch '5'] = (0, -5) ∧
      ¬ IsNumeral [ch '-', ch '-', ch '5'] ∧ ¬ ReadsNumerals [ch '-', ch '-', ch '5'] := by
  have hcode : usmartStr2num [ch '-', ch '-', ch '5'] = (0, -5) := by decide
  have hnot : ¬ IsNumeral [ch '-', ch '-', ch '5'] := by
    rintro ⟨k, hk⟩
    have hone : k.sign.text.length < 2 := by
      cases k.sign <;> decide
    have hsigned : SignedBy [ch '-', ch '-'] [ch '-', ch '-', ch '5'] :=
      ⟨by decide +kernel, ⟨.none, .dec, false, [5], by decide, by decide⟩, rfl, rfl⟩
    obtain ⟨signs, htwo, hsigned'⟩ := isNumeral_iff.mp ⟨k, hk⟩
    rw [← hsigned.unique hsigned'] at htwo
    exact absurd htwo (by decide)
  exact ⟨hcode, hnot, fun h => hnot (h.1.mp (by rw [hcode]))⟩

end Apollo.Usmart
