import Mathlib.Algebra.Group.Int.Defs
import Mathlib.Algebra.Group.Nat.Defs
import Mathlib.Data.Fin.Basic
import Mathlib.Tactic.Common

/-!
# Circular packet times

Packet times travel as 16-bit fields, so they are circular: `packet_cage.c`
compares and subtracts them through signed differences and a truncating
remainder.  The lemmas reduce these formulas to the balanced remainder modulo
`65536`, which is what every decision of the jitter buffer depends on.
-/

namespace Svc.Libsvc

def maxTime : Nat := 65535

/-- `packet_time_t`, restricted to the times that occur: `0 .. MAX_TIME`. -/
abbrev PacketTime := Fin (maxTime + 1)

def timeInc (time : PacketTime) : PacketTime :=
  if h : time.val = maxTime then ⟨0, by decide⟩ else ⟨time.val + 1, by have := time.isLt; omega⟩

/-- `time_inc_by`: the sum is an `unsigned int`, hence reduced modulo `2^32` first. -/
def timeIncBy (time : PacketTime) (delta : Int) : PacketTime :=
  ⟨(((time.val : Int) + delta) % 2 ^ 32 % (maxTime + 1)).toNat, by unfold maxTime; omega⟩

def isNewer (time1 time2 : PacketTime) : Bool :=
  let delta : Int := (time1.val : Int) - time2.val
  (decide (delta > 0) && decide (delta < ((maxTime : Int) + 1).tdiv 2)) ||
    (decide (delta < 0) && decide (delta < (-((maxTime : Int) + 1)).tdiv 2))

/-- `sub_time`: the minus sign of the second branch binds before the remainder. -/
def subTime (time1 time2 : PacketTime) : Int :=
  let delta : Int := (time1.val : Int) - time2.val
  if isNewer time1 time2 then (delta + (maxTime + 1)).tmod (maxTime + 1)
  else (-(-delta + (maxTime + 1))).tmod (maxTime + 1)

@[simp] theorem val_le_maxTime (time : PacketTime) : time.val ≤ 65535 :=
  Nat.le_of_lt_succ time.isLt

theorem isNewer_iff_bmod (time1 time2 : PacketTime) :
    isNewer time1 time2 = true ↔ 0 < ((time1.val : Int) - time2.val).bmod 65536 := by
  have h1 := val_le_maxTime time1
  have h2 := val_le_maxTime time2
  have hpos : ((maxTime : Int) + 1).tdiv 2 = 32768 := rfl
  have hneg : (-((maxTime : Int) + 1)).tdiv 2 = -32768 := rfl
  simp only [isNewer, hpos, hneg, Bool.or_eq_true, Bool.and_eq_true, decide_eq_true_eq,
    Int.bmod_def]
  split <;> omega

theorem neg_tmod_of_nonneg {x : Int} (hx : 0 ≤ x) : (-x).tmod 65536 = -(x % 65536) := by
  rw [Int.neg_tmod, Int.tmod_eq_emod_of_nonneg hx]

/-- The circular difference is the balanced remainder of the plain difference. -/
theorem subTime_eq_bmod (time1 time2 : PacketTime) :
    subTime time1 time2 = ((time1.val : Int) - time2.val).bmod 65536 := by
  have h1 := val_le_maxTime time1
  have h2 := val_le_maxTime time2
  have hmax : ((maxTime : Int) + 1) = 65536 := rfl
  have hnewer := isNewer_iff_bmod time1 time2
  unfold subTime
  simp only [hmax]
  rw [Int.bmod_def] at hnewer ⊢
  by_cases hn : isNewer time1 time2 = true
  · rw [if_pos hn, Int.tmod_eq_emod_of_nonneg (by omega)]
    have := hnewer.1 hn
    split <;> omega
  · rw [if_neg hn, neg_tmod_of_nonneg (by omega)]
    have hle := mt hnewer.2 hn
    split <;> omega

theorem isNewer_iff_subTime_pos (time1 time2 : PacketTime) :
    isNewer time1 time2 = true ↔ 0 < subTime time1 time2 := by
  rw [isNewer_iff_bmod, subTime_eq_bmod]

theorem subTime_bounds (time1 time2 : PacketTime) :
    -32768 ≤ subTime time1 time2 ∧ subTime time1 time2 ≤ 32767 := by
  rw [subTime_eq_bmod, Int.bmod_def]
  split <;> omega

theorem val_timeInc (time : PacketTime) : (timeInc time).val = (time.val + 1) % 65536 := by
  have h := val_le_maxTime time
  unfold timeInc
  split
  · rename_i hmax
    rw [hmax]
    rfl
  · rename_i hmax
    have : time.val ≠ 65535 := hmax
    simp only
    omega

theorem val_timeIncBy (time : PacketTime) (delta : Int) :
    ((timeIncBy time delta).val : Int) = ((time.val : Int) + delta) % 65536 := by
  have hmax : ((maxTime : Int) + 1) = 65536 := rfl
  simp only [timeIncBy, hmax]
  omega

theorem timeInc_eq_timeIncBy (time : PacketTime) : timeInc time = timeIncBy time 1 := by
  ext
  have h1 := val_timeInc time
  have h2 := val_timeIncBy time 1
  omega

@[simp] theorem timeIncBy_zero (time : PacketTime) : timeIncBy time 0 = time := by
  ext
  have h := val_timeIncBy time 0
  have hle := val_le_maxTime time
  omega

@[simp] theorem timeIncBy_timeIncBy (time : PacketTime) (j k : Int) :
    timeIncBy (timeIncBy time j) k = timeIncBy time (j + k) := by
  ext
  have h1 := val_timeIncBy time j
  have h2 := val_timeIncBy (timeIncBy time j) k
  have h3 := val_timeIncBy time (j + k)
  omega

theorem subTime_timeIncBy (time1 time2 : PacketTime) (c : Int) :
    subTime (timeIncBy time1 c) (timeIncBy time2 c) = subTime time1 time2 := by
  have h1 := val_timeIncBy time1 c
  have h2 := val_timeIncBy time2 c
  rw [subTime_eq_bmod, subTime_eq_bmod, Int.bmod_def, Int.bmod_def, h1, h2]
  have hmod : (((time1.val : Int) + c) % 65536 - ((time2.val : Int) + c) % 65536) % 65536 =
      ((time1.val : Int) - time2.val) % 65536 := by omega
  rw [show ((65536 : Nat) : Int) = 65536 by rfl, hmod]

theorem isNewer_timeIncBy (time1 time2 : PacketTime) (c : Int) :
    isNewer (timeIncBy time1 c) (timeIncBy time2 c) = isNewer time1 time2 := by
  rw [Bool.eq_iff_iff, isNewer_iff_subTime_pos, isNewer_iff_subTime_pos, subTime_timeIncBy]

@[simp] theorem subTime_self (time : PacketTime) : subTime time time = 0 := by
  rw [subTime_eq_bmod, Int.sub_self]
  rfl

@[simp] theorem isNewer_self (time : PacketTime) : isNewer time time = false := by
  rw [Bool.eq_false_iff]
  intro h
  have := (isNewer_iff_subTime_pos time time).1 h
  simp at this

theorem subTime_timeIncBy_self (time : PacketTime) {delta : Int}
    (hlo : -32768 ≤ delta) (hhi : delta ≤ 32767) :
    subTime (timeIncBy time delta) time = delta := by
  have h := val_timeIncBy time delta
  rw [subTime_eq_bmod, Int.bmod_def, h]
  split <;> omega

theorem isNewer_timeIncBy_self (time : PacketTime) {delta : Int}
    (hpos : 0 < delta) (hhi : delta ≤ 32767) :
    isNewer (timeIncBy time delta) time = true := by
  rw [isNewer_iff_subTime_pos, subTime_timeIncBy_self time (by omega) hhi]
  exact hpos

theorem timeIncBy_subTime (time1 time2 : PacketTime) :
    timeIncBy time2 (subTime time1 time2) = time1 := by
  ext
  have hval := val_timeIncBy time2 (subTime time1 time2)
  have hle := val_le_maxTime time1
  have hsub := subTime_eq_bmod time1 time2
  rw [Int.bmod_def] at hsub
  split at hsub <;> omega

theorem subTime_timeIncBy_right (time1 time2 : PacketTime) {delta : Int}
    (hlo : -32768 ≤ subTime time1 time2 - delta) (hhi : subTime time1 time2 - delta ≤ 32767) :
    subTime time1 (timeIncBy time2 delta) = subTime time1 time2 - delta := by
  have htime : time1 = timeIncBy (timeIncBy time2 delta) (subTime time1 time2 - delta) := by
    rw [timeIncBy_timeIncBy, show delta + (subTime time1 time2 - delta) = subTime time1 time2 by
      omega, timeIncBy_subTime]
  calc subTime time1 (timeIncBy time2 delta)
      = subTime (timeIncBy (timeIncBy time2 delta) (subTime time1 time2 - delta))
          (timeIncBy time2 delta) := by rw [← htime]
    _ = subTime time1 time2 - delta := subTime_timeIncBy_self _ hlo hhi

theorem timeIncBy_congr (time : PacketTime) {j k : Int} (h : j % 65536 = k % 65536) :
    timeIncBy time j = timeIncBy time k := by
  ext
  have h1 := val_timeIncBy time j
  have h2 := val_timeIncBy time k
  omega

end Svc.Libsvc
