import Mathlib.Data.Fin.Basic
import Mathlib.Tactic.Common

/-!
# Positions on a ring

A ring buffer of `size` slots addresses its slots by their offset from a moving
position.  `offset pos k` is the slot `k` places after `pos`, and `dist pos i`
is the offset at which slot `i` is found.
-/

namespace Svc.Lib.Ring

variable {size : Nat}

/-- The slot `k` places after `pos`. -/
def offset (pos : Fin size) (k : Nat) : Fin size := ⟨(pos + k) % size, Nat.mod_lt _ pos.pos⟩

/-- The number of places from `pos` forward to `i`. -/
def dist (pos i : Fin size) : Nat := (i + size - pos) % size

/-- The place after `pos`, as ring code computes it without a remainder. -/
def next (pos : Fin size) : Fin size :=
  if h : pos.val = size - 1 then ⟨0, pos.pos⟩ else ⟨pos.val + 1, by have := pos.isLt; omega⟩

@[simp] theorem val_offset (pos : Fin size) (k : Nat) :
    (offset pos k : Nat) = (pos + k) % size := rfl

@[simp] theorem offset_zero (pos : Fin size) : offset pos 0 = pos := by
  ext
  simp [Nat.mod_eq_of_lt pos.isLt]

@[simp] theorem offset_offset (pos : Fin size) (j k : Nat) :
    offset (offset pos j) k = offset pos (j + k) := by
  ext
  simp [Nat.add_assoc]

theorem next_eq_offset (pos : Fin size) : next pos = offset pos 1 := by
  have hpos := pos.isLt
  ext
  unfold next
  split
  · rename_i hlast
    simp only [val_offset, hlast]
    rw [show size - 1 + 1 = size by omega, Nat.mod_self]
  · simp only [val_offset]
    rw [Nat.mod_eq_of_lt (by omega)]

/-- The distance as the circular difference of the two positions. -/
theorem dist_eq_sub_emod (pos i : Fin size) : (dist pos i : Int) = ((i : Int) - pos) % size := by
  have hpos := pos.isLt
  have hsum : ((i : Nat) + size - pos : Nat) = (i : Int) - pos + size := by omega
  rw [dist, Int.natCast_emod, hsum, Int.add_emod_right]

theorem dist_lt (pos i : Fin size) : dist pos i < size := Nat.mod_lt _ pos.pos

@[simp] theorem offset_dist (pos i : Fin size) : offset pos (dist pos i) = i := by
  ext
  have hpos := pos.isLt
  have hi := i.isLt
  simp only [val_offset, dist]
  rw [Nat.add_mod_mod, show (pos : Nat) + (i + size - pos) = i + size by omega,
    Nat.add_mod_right, Nat.mod_eq_of_lt hi]

theorem dist_offset (pos : Fin size) {k : Nat} (hk : k < size) : dist pos (offset pos k) = k := by
  have hpos := pos.isLt
  simp only [dist, val_offset]
  by_cases hwrap : (pos : Nat) + k < size
  · rw [Nat.mod_eq_of_lt hwrap, show (pos : Nat) + k + size - pos = k + size by omega,
      Nat.add_mod_right, Nat.mod_eq_of_lt hk]
  · have hmod : ((pos : Nat) + k) % size = pos + k - size := by
      rw [Nat.mod_eq_sub_mod (by omega), Nat.mod_eq_of_lt (by omega)]
    rw [hmod, show (pos : Nat) + k - size + size - pos = k by omega, Nat.mod_eq_of_lt hk]

theorem offset_inj (pos : Fin size) {j k : Nat} (hj : j < size) (hk : k < size) :
    offset pos j = offset pos k ↔ j = k := by
  constructor
  · intro h
    rw [← dist_offset pos hj, ← dist_offset pos hk, h]
  · rintro rfl
    rfl

theorem offset_add_size (pos : Fin size) (k : Nat) : offset pos (k + size) = offset pos k := by
  ext
  simp [← Nat.add_assoc]

theorem offset_size (pos : Fin size) : offset pos size = pos := by
  simpa using offset_add_size pos 0

theorem dist_eq_zero {pos i : Fin size} : dist pos i = 0 ↔ i = pos := by
  constructor
  · intro h
    have hi := offset_dist pos i
    rwa [h, offset_zero, eq_comm] at hi
  · rintro rfl
    simpa using dist_offset i i.pos

/-- Moving the far end on by one place lengthens the way by one place. -/
theorem dist_offset_one {pos i : Fin size} (h : offset i 1 ≠ pos) :
    dist pos (offset i 1) = dist pos i + 1 := by
  have hi : offset pos (dist pos i + 1) = offset i 1 := by rw [← offset_offset, offset_dist]
  have hlt : dist pos i + 1 < size := by
    rcases (Nat.succ_le_of_lt (dist_lt pos i)).lt_or_eq with hlt | heq
    · exact hlt
    · exact absurd (by rw [← hi, show dist pos i + 1 = size from heq, offset_size]) h
  rw [← hi, dist_offset pos hlt]

/-- Moving the near end on by one place shortens the way by one place. -/
theorem dist_offset_one_left {pos i : Fin size} (h : i ≠ pos) :
    dist (offset pos 1) i + 1 = dist pos i := by
  have hpos : 0 < dist pos i := Nat.pos_of_ne_zero fun hzero => h (dist_eq_zero.1 hzero)
  have hlt := dist_lt pos i
  have hi : offset (offset pos 1) (dist pos i - 1) = i := by
    rw [offset_offset, show 1 + (dist pos i - 1) = dist pos i by omega, offset_dist]
  have hdist := dist_offset (offset pos 1) (show dist pos i - 1 < size by omega)
  rw [hi] at hdist
  omega

end Svc.Lib.Ring
