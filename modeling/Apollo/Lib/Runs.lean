import Mathlib.Algebra.BigOperators.Group.Finset.Basic
import Mathlib.Algebra.BigOperators.Group.Finset.Piecewise
import Mathlib.Order.Interval.Finset.Nat
import Mathlib.Tactic.Common

/-!
# Disjoint runs of numbered cells

An allocator over a table of cells hands out runs of consecutive cells.  A `Packing`
is a set of owners whose runs lie inside the table and do not meet.  Its `entry` is
what such an allocator writes into each cell: the length of the run that covers the
cell, and `0` where no run does.

## Main definitions

* `Run`, `Run.cells` — a run and the cells it covers.
* `Packing run N` — owners with disjoint runs below `N`.
* `Packing.entry` — the table; `entry_insert`, `entry_erase` — how it changes.
* `Packing.card_used` — the cells in use are as many as the runs are long.
-/

namespace Apollo.Lib

/-- `count` consecutive cells from `first` on. -/
structure Run where
  first : ℕ
  count : ℕ
  deriving DecidableEq

namespace Run

/-- The cells of a run. -/
def cells (r : Run) : Finset ℕ := Finset.Ico r.first (r.first + r.count)

@[simp] theorem mem_cells {r : Run} {i : ℕ} :
    i ∈ r.cells ↔ r.first ≤ i ∧ i < r.first + r.count := Finset.mem_Ico

@[simp] theorem card_cells (r : Run) : r.cells.card = r.count := by
  rw [cells, Nat.card_Ico, Nat.add_sub_cancel_left]

theorem first_mem_cells {r : Run} (h : 0 < r.count) : r.first ∈ r.cells :=
  mem_cells.mpr ⟨le_rfl, Nat.lt_add_of_pos_right h⟩

end Run

/-- Owners whose runs are not empty, lie below `N` and do not meet. -/
structure Packing {ι : Type} (run : ι → Run) (N : ℕ) where
  /-- The owners. -/
  live : Finset ι
  /-- No run is empty. -/
  pos : ∀ g ∈ live, 0 < (run g).count
  /-- Every run lies in the table. -/
  inside : ∀ g ∈ live, (run g).first + (run g).count ≤ N
  /-- The runs do not meet. -/
  disjoint : (live : Set ι).PairwiseDisjoint fun g => (run g).cells

namespace Packing
variable {ι : Type} {run : ι → Run} {N : ℕ} (P : Packing run N)

/-- The table without owners. -/
def empty (run : ι → Run) (N : ℕ) : Packing run N where
  live := ∅
  pos := by simp
  inside := by simp
  disjoint := by simp

/-- One more owner, whose run no other meets. -/
def insert [DecidableEq ι] (g : ι) (hpos : 0 < (run g).count)
    (hin : (run g).first + (run g).count ≤ N)
    (hfree : ∀ g' ∈ P.live, Disjoint (run g).cells (run g').cells) : Packing run N where
  live := Insert.insert g P.live
  pos := by
    intro g' hg'
    rcases Finset.mem_insert.mp hg' with rfl | hg'
    · exact hpos
    · exact P.pos g' hg'
  inside := by
    intro g' hg'
    rcases Finset.mem_insert.mp hg' with rfl | hg'
    · exact hin
    · exact P.inside g' hg'
  disjoint := by
    rw [Finset.coe_insert]
    exact P.disjoint.insert fun g' hg' _ => hfree g' hg'

/-- One owner less. -/
def erase [DecidableEq ι] (g : ι) : Packing run N where
  live := P.live.erase g
  pos g' hg' := P.pos g' (Finset.mem_of_mem_erase hg')
  inside g' hg' := P.inside g' (Finset.mem_of_mem_erase hg')
  disjoint := P.disjoint.subset (Finset.coe_subset.mpr (Finset.erase_subset _ _))

/-- What the table holds for a cell: the length of the run over it. -/
def entry (i : ℕ) : ℕ := ∑ g ∈ P.live with i ∈ (run g).cells, (run g).count

variable {P}

/-- A cell has one owner. -/
theorem owner_unique {g g' : ι} {i : ℕ} (hg : g ∈ P.live) (hg' : g' ∈ P.live)
    (hi : i ∈ (run g).cells) (hi' : i ∈ (run g').cells) : g = g' := by
  by_contra hne
  have hdis : Disjoint (run g).cells (run g').cells := P.disjoint hg hg' hne
  exact Finset.disjoint_left.mp hdis hi hi'

theorem entry_of_mem {g : ι} {i : ℕ} (hg : g ∈ P.live) (hi : i ∈ (run g).cells) :
    P.entry i = (run g).count := by
  have honly : (P.live.filter fun g' => i ∈ (run g').cells) = {g} := by
    ext g'
    simp only [Finset.mem_filter, Finset.mem_singleton]
    refine ⟨fun h => owner_unique h.1 hg h.2 hi, ?_⟩
    rintro rfl
    exact ⟨hg, hi⟩
  rw [entry, honly, Finset.sum_singleton]

theorem entry_of_free {i : ℕ} (h : ∀ g ∈ P.live, i ∉ (run g).cells) : P.entry i = 0 := by
  rw [entry, Finset.filter_eq_empty_iff.mpr fun g hg => h g hg, Finset.sum_empty]

/-- A cell in use has an owner. -/
theorem exists_of_entry {i : ℕ} (h : P.entry i ≠ 0) : ∃ g ∈ P.live, i ∈ (run g).cells := by
  by_contra hno
  exact h (entry_of_free fun g hg hi => hno ⟨g, hg, hi⟩)

theorem entry_eq_zero {i : ℕ} : P.entry i = 0 ↔ ∀ g ∈ P.live, i ∉ (run g).cells := by
  refine ⟨fun h g hg hi => ?_, entry_of_free⟩
  have hpos := P.pos g hg
  rw [entry_of_mem hg hi] at h
  omega

/-- Entries that are `0` all along a run leave room for it. -/
theorem disjoint_of_entry {r : Run} (h : ∀ i ∈ r.cells, P.entry i = 0) :
    ∀ g ∈ P.live, Disjoint r.cells (run g).cells := fun g hg =>
  Finset.disjoint_left.mpr fun i hi => entry_eq_zero.mp (h i hi) g hg

theorem entry_insert [DecidableEq ι] {g : ι} (hpos : 0 < (run g).count)
    (hin : (run g).first + (run g).count ≤ N)
    (hfree : ∀ g' ∈ P.live, Disjoint (run g).cells (run g').cells) (i : ℕ) :
    (P.insert g hpos hin hfree).entry i =
      if i ∈ (run g).cells then (run g).count else P.entry i := by
  split
  · rename_i hi
    exact entry_of_mem (P := P.insert g hpos hin hfree) (Finset.mem_insert_self _ _) hi
  · rename_i hi
    rw [entry, entry, insert, Finset.filter_insert, if_neg hi]

theorem entry_erase [DecidableEq ι] {g : ι} (hg : g ∈ P.live) (i : ℕ) :
    (P.erase g).entry i = if i ∈ (run g).cells then 0 else P.entry i := by
  split
  · rename_i hi
    refine entry_of_free fun g' hg' hi' => ?_
    obtain ⟨hne, hg'⟩ := Finset.mem_erase.mp hg'
    exact hne (owner_unique hg' hg hi' hi)
  · rename_i hi
    rw [entry, entry, erase, Finset.filter_erase, Finset.erase_eq_of_notMem]
    exact fun h => hi (Finset.mem_filter.mp h).2

/-- The cells in use, owner by owner. -/
theorem used_eq : ((Finset.range N).filter fun i => P.entry i ≠ 0) =
    P.live.biUnion fun g => (run g).cells := by
  ext i
  simp only [Finset.mem_filter, Finset.mem_range, Finset.mem_biUnion]
  constructor
  · rintro ⟨-, h⟩
    exact exists_of_entry h
  · rintro ⟨g, hg, hi⟩
    have hin := P.inside g hg
    have hpos := P.pos g hg
    have hlt := (Run.mem_cells.mp hi).2
    refine ⟨by omega, ?_⟩
    rw [entry_of_mem hg hi]
    omega

/-- The cells in use are as many as the runs are long. -/
theorem card_used :
    ((Finset.range N).filter fun i => P.entry i ≠ 0).card = ∑ g ∈ P.live, (run g).count := by
  rw [used_eq, Finset.card_biUnion P.disjoint]
  exact Finset.sum_congr rfl fun g _ => Run.card_cells _

end Packing
end Apollo.Lib
