import Apollo.Usmart.Str

/-!
# Folders and path buffers

What the functions that walk through folders share: the entries that `f_readdir` finds, and the
buffers in which they put a path together.  `strcat` writes as much as there is; what does not fit
is the `overflow` here.

## Main definitions

* `Finfo` — an entry of a folder; `below` — its path.
* `strcat`, `appendName` — a path that is put together; `Stop` — what ends a walk.
-/

namespace Apollo.Exfuns
open Usmart (ch)

/-- `FILINFO`. -/
structure Finfo where
  fname : List UInt8
  fattrib : ℕ
  fsize : ℕ

namespace Finfo
variable (f : Finfo)

/-- `fattrib & 0X10`. -/
def IsFolder : Prop := f.fattrib / 0x10 % 2 = 1

/-- `fname[0] == '.'`. -/
def Skipped : Prop := f.fname.head? = some (ch '.')

instance : Decidable f.IsFolder := inferInstanceAs (Decidable (_ = _))
instance : Decidable f.Skipped := inferInstanceAs (Decidable (_ = _))

end Finfo

/-- What ends a walk without a result. -/
inductive Stop where
  /-- A write behind the end of a path buffer. -/
  | overflow
  /-- The fuel has run out. -/
  | unfinished
  deriving DecidableEq

/-- `MAX_PATHNAME_DEPTH`. -/
abbrev maxPathnameDepth : ℕ := 512 + 1

/-- `strcat` into a buffer of `MAX_PATHNAME_DEPTH` bytes. -/
def strcat (buf s : List UInt8) : Except Stop (List UInt8) :=
  if (buf ++ s).length < maxPathnameDepth then .ok (buf ++ s) else .error .overflow

/-- A slash and a name. -/
def appendName (buf name : List UInt8) : Except Stop (List UInt8) := do
  let buf ← strcat buf [ch '/']
  strcat buf name

/-- The path of an entry. -/
def below (path name : List UInt8) : List UInt8 := path ++ ch '/' :: name

/-- A path that a buffer can hold. -/
def FitsPath (path : List UInt8) : Prop := path.length < maxPathnameDepth

instance (path : List UInt8) : Decidable (FitsPath path) := inferInstanceAs (Decidable (_ < _))

section
variable {path name : List UInt8}

theorem length_below (path name : List UInt8) :
    (below path name).length = path.length + name.length + 1 := by
  rw [below, List.length_append, List.length_cons]
  omega

theorem strcat_fits {buf s : List UInt8} (h : FitsPath (buf ++ s)) :
    strcat buf s = .ok (buf ++ s) := if_pos h

theorem strcat_overflow {buf s : List UInt8} (h : ¬ FitsPath (buf ++ s)) :
    strcat buf s = .error .overflow := if_neg h

/-- A path is copied into an empty buffer. -/
theorem strcat_nil (h : FitsPath path) : strcat [] path = .ok path := strcat_fits h

theorem slash_append (path name : List UInt8) : path ++ [ch '/'] ++ name = below path name := by
  rw [List.append_assoc, List.singleton_append, below]

theorem FitsPath.slash (h : FitsPath (below path name)) : FitsPath (path ++ [ch '/']) := by
  unfold FitsPath at h ⊢
  rw [length_below] at h
  rw [List.length_append, List.length_singleton]
  omega

theorem appendName_fits (h : FitsPath (below path name)) :
    appendName path name = .ok (below path name) := by
  rw [appendName, strcat_fits h.slash]
  rw [← slash_append] at h ⊢
  exact strcat_fits h

theorem appendName_overflow (h : ¬ FitsPath (below path name)) :
    appendName path name = .error .overflow := by
  rw [appendName]
  by_cases hslash : FitsPath (path ++ [ch '/'])
  · rw [← slash_append] at h
    rw [strcat_fits hslash]
    exact strcat_overflow h
  · rw [strcat_overflow hslash]
    rfl

/-- What has been put together has had room. -/
theorem strcat_ok {buf s b : List UInt8} (hok : strcat buf s = .ok b) :
    FitsPath (buf ++ s) ∧ b = buf ++ s := by
  by_cases hfits : FitsPath (buf ++ s)
  · rw [strcat_fits hfits] at hok
    exact ⟨hfits, (Except.ok.inj hok).symm⟩
  · rw [strcat_overflow hfits] at hok
    cases hok

theorem appendName_ok {b : List UInt8} (hok : appendName path name = .ok b) :
    FitsPath (below path name) ∧ b = below path name := by
  by_cases hfits : FitsPath (below path name)
  · rw [appendName_fits hfits] at hok
    exact ⟨hfits, (Except.ok.inj hok).symm⟩
  · rw [appendName_overflow hfits] at hok
    cases hok

end
end Apollo.Exfuns
