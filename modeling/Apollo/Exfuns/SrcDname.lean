import Apollo.Exfuns.FolderCopy
import Mathlib.Algebra.GroupWithZero.Nat
import Mathlib.Data.List.GetD
import Mathlib.Data.List.TakeWhile

/-!
# The last component of a path

`exfuns_get_src_dname` goes to the end of a path, counting in sixteen bits, and back from there
to a slash.  Only the count keeps it from going back too far, and a path of four characters may
have no slash at all.

## Main definitions

* `srcDname` — the code, on the indices of a path; `DnameFault` — a read in front of the path.
* `EndsWith` — an index behind the last slash.
* `srcDname_slash`, `srcDname_fault` — where the scan comes to.
* `insidePath_iff` — when it stays in the path.
-/

namespace Apollo.Exfuns
open Lib
open Usmart (ch text)

/-- The scan has gone back to in front of the path. -/
inductive DnameFault where
  | beforePath

/-- `0x5c` or `0x2f`. -/
def IsSlash (c : UInt8) : Prop := c = 0x5c ∨ c = 0x2f

instance (c : UInt8) : Decidable (IsSlash c) := inferInstanceAs (Decidable (_ ∨ _))

/-- The byte at an index of the path, or its NUL. -/
def byteAt (p : List UInt8) (i : ℕ) : UInt8 := p.getD i 0

/-- The first loop of `exfuns_get_src_dname`, which brings the pointer and `temp`. -/
def nulFrom : List UInt8 → ℕ → ℕ → ℕ × ℕ
  | [], i, temp => (i, temp)
  | c :: p, i, temp => if c ≠ 0 then nulFrom p (i + 1) ((temp + 1) % 2 ^ 16) else (i, temp)

/-- The second one. -/
def slashFrom (p : List UInt8) : ℕ → Except DnameFault ℕ
  | 0 => if IsSlash (byteAt p 0) then .ok 0 else .error .beforePath
  | i + 1 => if IsSlash (byteAt p (i + 1)) then .ok (i + 1) else slashFrom p i

/-- `exfuns_get_src_dname`: `none` for a volume, else an index of the path. -/
def srcDname (p : List UInt8) : Except DnameFault (Option ℕ) :=
  if (nulFrom p 0 0).2 < 4 then .ok none
  else (slashFrom p (nulFrom p 0 0).1).map fun i => some (i + 1)

/-! ## Where the scan comes to -/

/-- The index `k` is the one behind the last slash of the path, and `name` follows it. -/
def EndsWith (p : List UInt8) (k : ℕ) (name : List UInt8) : Prop :=
  ∃ folder c, p = folder ++ c :: name ∧ IsSlash c ∧ (∀ c' ∈ name, ¬ IsSlash c') ∧
    k = folder.length + 1

theorem EndsWith.le {p name : List UInt8} {k : ℕ} (h : EndsWith p k name) : k ≤ p.length := by
  obtain ⟨folder, c, rfl, -, -, rfl⟩ := h
  rw [List.length_append, List.length_cons]
  omega

theorem EndsWith.drop {p name : List UInt8} {k : ℕ} (h : EndsWith p k name) : p.drop k = name := by
  obtain ⟨folder, c, rfl, -, -, rfl⟩ := h
  rw [← List.drop_drop, List.drop_left]
  rfl

section Scan
variable {p : List UInt8}

theorem nulFrom_eq (h : 0 ∉ p) (i temp : ℕ) :
    nulFrom p i (temp % 2 ^ 16) = (i + p.length, (temp + p.length) % 2 ^ 16) := by
  induction p generalizing i temp with
  | nil => rfl
  | cons c p ih =>
      have hc : c ≠ 0 := fun hc => h (hc ▸ List.mem_cons_self)
      rw [nulFrom, if_pos hc, Nat.mod_add_mod, ih (fun h0 => h (List.mem_cons_of_mem c h0)),
        List.length_cons]
      refine Prod.ext ?_ ?_ <;> dsimp only <;> omega

/-- The scan stops at the last slash up to where it begins. -/
theorem slashFrom_ok {folder name : List UInt8} {c : UInt8} (hp : p = folder ++ c :: name)
    (hc : IsSlash c) (hname : ∀ c' ∈ name, ¬ IsSlash c') (k : ℕ) :
    slashFrom p (folder.length + k) = .ok folder.length := by
  induction k with
  | zero =>
      have hat : byteAt p folder.length = c := by
        rw [hp, byteAt, List.getD_append_right _ _ _ _ (Nat.le_refl _), Nat.sub_self]
        rfl
      rw [Nat.add_zero]
      cases hlen : folder.length with
      | zero => rw [slashFrom, ← hlen, hat, if_pos hc]
      | succ n => rw [slashFrom, ← hlen, hat, if_pos hc]
  | succ k ih =>
      have hat : ¬ IsSlash (byteAt p (folder.length + k + 1)) := by
        rw [hp, byteAt, List.getD_append_right _ _ _ _ (by omega),
          show folder.length + k + 1 - folder.length = k + 1 by omega, List.getD_cons_succ]
        by_cases hk : k < name.length
        · rw [List.getD_eq_getElem _ _ hk]
          exact hname _ (List.getElem_mem hk)
        · rw [List.getD_eq_default _ _ (Nat.le_of_not_lt hk)]
          decide
      rw [← Nat.add_assoc, slashFrom, if_neg hat, ih]

/-- Without a slash it does not stop. -/
theorem slashFrom_error (h : ∀ c ∈ p, ¬ IsSlash c) (i : ℕ) :
    slashFrom p i = .error .beforePath := by
  have hat (i : ℕ) : ¬ IsSlash (byteAt p i) := by
    rw [byteAt]
    by_cases hi : i < p.length
    · rw [List.getD_eq_getElem _ _ hi]
      exact h _ (List.getElem_mem hi)
    · rw [List.getD_eq_default _ _ (Nat.le_of_not_lt hi)]
      decide
  induction i with
  | zero => rw [slashFrom, if_neg (hat 0)]
  | succ i ih => rw [slashFrom, if_neg (hat (i + 1)), ih]

/-- A path with a slash ends with a name. -/
theorem exists_endsWith (h : ∃ c ∈ p, IsSlash c) : ∃ k name, EndsWith p k name := by
  induction p with
  | nil =>
      obtain ⟨c, hc, -⟩ := h
      cases hc
  | cons c p ih =>
      by_cases hrest : ∃ c ∈ p, IsSlash c
      · obtain ⟨k, name, folder, d, hp, hd, hname, rfl⟩ := ih hrest
        exact ⟨_, name, c :: folder, d, by rw [hp]; rfl, hd, hname, rfl⟩
      · have hc : IsSlash c := by
          obtain ⟨d, hd, hslash⟩ := h
          rcases List.mem_cons.mp hd with rfl | hd
          · exact hslash
          · exact absurd ⟨d, hd, hslash⟩ hrest
        exact ⟨1, p, [], c, rfl, hc, fun d hd hslash => hrest ⟨d, hd, hslash⟩, rfl⟩

variable (h0 : 0 ∉ p)
include h0

theorem nulFrom_path : nulFrom p 0 0 = (p.length, p.length % 2 ^ 16) := by
  have hnul := nulFrom_eq h0 0 0
  rwa [Nat.zero_mod, Nat.zero_add] at hnul

theorem srcDname_volume (hshort : p.length % 2 ^ 16 < 4) : srcDname p = .ok none := by
  rw [srcDname, nulFrom_path h0, if_pos hshort]

theorem srcDname_long (hlong : ¬ p.length % 2 ^ 16 < 4) :
    srcDname p = (slashFrom p p.length).map fun i => some (i + 1) := by
  rw [srcDname, nulFrom_path h0, if_neg hlong]

/-- With a slash the scan comes to the index behind the last one. -/
theorem srcDname_slash (hlong : ¬ p.length % 2 ^ 16 < 4) {k : ℕ} {name : List UInt8}
    (h : EndsWith p k name) : srcDname p = .ok (some k) := by
  obtain ⟨folder, c, hp, hc, hname, rfl⟩ := h
  have hlen : p.length = folder.length + (name.length + 1) := by
    rw [hp, List.length_append, List.length_cons]
  rw [srcDname_long h0 hlong, hlen, slashFrom_ok hp hc hname]
  rfl

/-- Without one it reads in front of the path. -/
theorem srcDname_fault (hlong : ¬ p.length % 2 ^ 16 < 4) (h : ∀ c ∈ p, ¬ IsSlash c) :
    srcDname p = .error .beforePath := by
  rw [srcDname_long h0 hlong, slashFrom_error h]
  rfl

end Scan

/-! ## What is added to a path -/

/-- The bytes that the copy of a folder finds at the result, whatever is in memory before the
path. -/
theorem exfunsGetSrcDname_endsWith {p name : List UInt8} (h0 : 0 ∉ p) (hlong : 4 ≤ p.length) {k : ℕ}
    (h : EndsWith p k name) (before : List UInt8) : exfunsGetSrcDname before p = some name := by
  obtain ⟨folder, c, hp, hc, hname, -⟩ := h
  have hback : (before ++ p).reverse.takeWhile (fun c => c ≠ 0x5c ∧ c ≠ 0x2f) = name.reverse := by
    have hrev : (before ++ p).reverse = name.reverse ++ c :: (before ++ folder).reverse := by
      rw [hp]
      simp
    rw [hrev, List.takeWhile_append_of_pos, List.takeWhile_cons_of_neg, List.append_nil]
    · simpa [IsSlash, or_iff_not_imp_left] using hc
    · intro d hd
      have := hname d (List.mem_reverse.mp hd)
      simpa [IsSlash] using this
  have hnul : name.takeWhile (· ≠ 0) = name := by
    refine List.takeWhile_eq_self_iff.mpr fun d hd => ?_
    have hd0 : d ≠ 0 := fun hd0 => h0 (by
      rw [hp, ← hd0]
      exact List.mem_append_right _ (List.mem_cons_of_mem c hd))
    simpa using hd0
  rw [exfunsGetSrcDname, if_neg (by omega)]
  dsimp only
  rw [hback, List.reverse_reverse, hnul]

/-- What follows the result is what the copy of a folder takes for the name, for the paths that fit
its buffers. -/
theorem exfunsGetSrcDname_eq {p : List UInt8} (h0 : 0 ∉ p) (hfits : FitsPath p) {r : Option ℕ}
    (h : srcDname p = .ok r) (before : List UInt8) :
    exfunsGetSrcDname before p = r.map fun k => p.drop k := by
  have hmod : p.length % 2 ^ 16 = p.length := Nat.mod_eq_of_lt (Nat.lt_trans hfits (by decide))
  by_cases hshort : p.length % 2 ^ 16 < 4
  · rw [srcDname_volume h0 hshort] at h
    rw [← Except.ok.inj h, exfunsGetSrcDname, if_pos (hmod ▸ hshort)]
    rfl
  · have hslash : ∃ c ∈ p, IsSlash c := by
      by_contra hnone
      rw [srcDname_fault h0 hshort fun c hc hslash => hnone ⟨c, hc, hslash⟩] at h
      cases h
    obtain ⟨k, name, hends⟩ := exists_endsWith hslash
    rw [srcDname_slash h0 hshort hends] at h
    rw [← Except.ok.inj h, exfunsGetSrcDname_endsWith h0 (by omega) hends before, Option.map_some,
      hends.drop]

/-- `exfuns_get_src_dname` stays in the path: it returns 0, or the index behind the last slash, and
the copy of a folder adds what follows there. -/
def InsidePath (p : List UInt8) : Prop :=
  srcDname p = .ok none ∨ ∃ k name, srcDname p = .ok (some k) ∧ k ≤ p.length ∧ EndsWith p k name ∧
    ∀ before dstpathname, appendDname before p dstpathname =
      (strcat dstpathname [ch '/']).bind fun dst => strcat dst name

theorem not_insidePath_of_fault {p : List UInt8} (h : srcDname p = .error .beforePath) :
    ¬ InsidePath p := by
  rintro (hvolume | ⟨k, name, hname, -⟩)
  · rw [h] at hvolume
    cases hvolume
  · rw [h] at hname
    cases hname

/-- It stays in the path if the path is short, in sixteen bits, or has a slash. -/
theorem insidePath_iff {p : List UInt8} (h0 : 0 ∉ p) :
    InsidePath p ↔ p.length % 2 ^ 16 < 4 ∨ ∃ c ∈ p, IsSlash c := by
  by_cases hshort : p.length % 2 ^ 16 < 4
  · exact iff_of_true (.inl (srcDname_volume h0 hshort)) (.inl hshort)
  rw [or_iff_right hshort]
  constructor
  · intro h
    by_contra hnone
    have hfault := srcDname_fault h0 hshort fun c hc hslash => hnone ⟨c, hc, hslash⟩
    exact not_insidePath_of_fault hfault h
  · intro h
    obtain ⟨k, name, hends⟩ := exists_endsWith h
    refine .inr ⟨k, name, srcDname_slash h0 hshort hends, hends.le, hends, fun before d => ?_⟩
    have hlong : 4 ≤ p.length := Nat.le_of_not_lt fun hlt =>
      hshort (Nat.lt_of_le_of_lt (Nat.mod_le _ _) hlt)
    rw [appendDname, exfunsGetSrcDname_endsWith h0 hlong hends before]
    rfl

/-- A folder of the root. -/
theorem insidePath_iff_root :
    InsidePath (text "0:/A") ↔ (text "0:/A").length % 2 ^ 16 < 4 ∨ ∃ c ∈ text "0:/A", IsSlash c :=
  insidePath_iff (by decide)

/-- A path of the form `X:XX` is left to the front. -/
theorem not_insidePath_volume : ¬ InsidePath (text "0:AB") := not_insidePath_of_fault rfl

end Apollo.Exfuns
