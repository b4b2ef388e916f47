import Mathlib.Data.List.Basic
import Mathlib.Tactic.Common

/-!
# Blocks of memory

A block is the cells that a pointer to its first cell leads to, with no end of its
own: how many of them belong to the block is a matter of each access.  `copy` is
`memcpy` and `first` reads the cells from the start of the block.
-/

namespace Svc.Lib

/-- `count` cells from `index` on, in a block of `size` cells. -/
structure Access where
  index : Nat
  count : Nat
  size : Nat
  deriving DecidableEq

def Access.InBounds (a : Access) : Prop := ∀ i, a.index ≤ i → i < a.index + a.count → i < a.size

theorem Access.inBounds_iff (a : Access) :
    a.InBounds ↔ a.count = 0 ∨ a.index + a.count ≤ a.size := by
  constructor
  · intro h
    by_contra hout
    have hlast := h (a.index + a.count - 1) (by omega) (by omega)
    omega
  · intro h i hlo hhi
    omega

instance (a : Access) : Decidable a.InBounds := decidable_of_iff _ a.inBounds_iff.symm

namespace Block

variable {α : Type*}

/-- `memcpy(dst + index, src, count)` -/
def copy (dst : Nat → α) (index : Nat) (src : Nat → α) (count : Nat) : Nat → α :=
  fun i => if index ≤ i ∧ i < index + count then src (i - index) else dst i

def first (block : Nat → α) (count : Nat) : List α := (List.range count).map block

def slice (block : Nat → α) (index count : Nat) : List α := first (fun i => block (index + i)) count

variable {dst src : Nat → α} {index count i : Nat}

theorem copy_outside (h : i < index ∨ index + count ≤ i) : copy dst index src count i = dst i := by
  rw [copy, if_neg (by omega)]

theorem copy_inside (h : i < count) : copy dst index src count (index + i) = src i := by
  rw [copy, if_pos (by omega), Nat.add_sub_cancel_left]

theorem copy_inside_start (h : i < count) : copy dst 0 src count i = src i := by
  rw [copy, if_pos (by omega), Nat.sub_zero]

@[simp] theorem length_first (block : Nat → α) (count : Nat) :
    (first block count).length = count := by
  simp [first]

@[simp] theorem first_zero (block : Nat → α) : first block 0 = [] := rfl

theorem first_add (block : Nat → α) (m n : Nat) :
    first block (m + n) = first block m ++ first (fun i => block (m + i)) n := by
  simp [first, List.range_add, Function.comp_def]

/-- A stretch of the first cells is a slice of the block. -/
theorem take_drop_first {block : Nat → α} {n : Nat} (h : index + count ≤ n) :
    ((first block n).drop index).take count = slice block index count := by
  obtain ⟨rest, rfl⟩ := Nat.exists_eq_add_of_le h
  rw [Nat.add_assoc, first_add, List.drop_left' (length_first _ _), first_add,
    List.take_left' (length_first _ _)]
  rfl

theorem first_congr {block block' : Nat → α} (h : ∀ i < count, block i = block' i) :
    first block count = first block' count :=
  List.map_congr_left fun i hi => h i (List.mem_range.1 hi)

theorem first_copy_before : first (copy dst index src count) index = first dst index :=
  first_congr fun _ hi => copy_outside (.inl hi)

/-- What stands in a block up to a cell that was copied into it. -/
theorem first_copy {n : Nat} (h : n ≤ count) :
    first (copy dst index src count) (index + n) = first dst index ++ first src n := by
  have hinside : ∀ i < n, copy dst index src count (index + i) = src i :=
    fun i hi => copy_inside (by omega)
  rw [first_add, first_copy_before, first_congr hinside]

theorem slice_copy_self : slice (copy dst index src count) index count = first src count :=
  first_congr fun _ hi => copy_inside hi

theorem slice_copy_outside {j n : Nat} (h : j + n ≤ index ∨ index + count ≤ j) :
    slice (copy dst index src count) j n = slice dst j n :=
  first_congr fun _ hi => copy_outside (by omega)

theorem slice_copy_inside {j n : Nat} (h : j + n ≤ count) :
    slice (copy dst 0 src count) j n = slice src j n :=
  first_congr fun _ hi => copy_inside_start (by omega)

end Block

end Svc.Lib
