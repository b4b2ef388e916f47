import Mathlib.Data.Int.ModEq
import Mathlib.Logic.Function.Iterate
import Svc.Lib.Signed
import Svc.Libsvc.PacketTime

/-!
# Packet times in machine words

`packet_time_t` is an `unsigned int`, and the functions on times compute with an `int` of 32
bits, whose remainder truncates.  On the times `0 .. MAX_TIME` they are the functions of the
model on `PacketTime`, and these are the arithmetic of a circle.
-/

namespace Svc.Libsvc.Words

open Svc.Lib

/-! ## The functions of `packet_cage.c` -/

def maxTime : Int32 := 65535

def timeInc (time : UInt32) : UInt32 := if time = maxTime.toUInt32 then 0 else time + 1

def timeIncBy (time : UInt32) (delta : Int32) : UInt32 :=
  (time + delta.toUInt32) % (maxTime + 1).toUInt32

def isNewer (time1 time2 : UInt32) : Bool :=
  let delta := time1.toInt32 - time2.toInt32
  (decide (delta > 0) && decide (delta < (maxTime + 1) / 2)) ||
    (decide (delta < 0) && decide (delta < -(maxTime + 1) / 2))

def subTime (time1 time2 : UInt32) : Int32 :=
  let delta := time1.toInt32 - time2.toInt32
  if isNewer time1 time2 then (delta + (maxTime + 1)) % (maxTime + 1)
  else -(-delta + (maxTime + 1)) % (maxTime + 1)

/-! ## Times as words -/

def word (time : PacketTime) : UInt32 := .ofNat time.val

section Word

variable (time time1 time2 : PacketTime)

@[simp] theorem toNat_word : (word time).toNat = time.val := by
  have hle := val_le_maxTime time
  rw [word, UInt32.toNat_ofNat']
  omega

theorem word_inj {time1 time2 : PacketTime} : word time1 = word time2 ↔ time1 = time2 := by
  rw [← UInt32.toNat_inj, toNat_word, toNat_word, Fin.ext_iff]

theorem exists_eq_word {a : UInt32} (ha : a.toNat ≤ 65535) : ∃ time, a = word time := by
  refine ⟨⟨a.toNat, Nat.lt_succ_of_le ha⟩, ?_⟩
  rw [word, UInt32.ofNat_toNat]

@[simp] theorem toInt_word : (word time).toInt32.toInt = time.val := by
  have hle := val_le_maxTime time
  rw [Signed.toInt_toInt32_of_lt (by rw [toNat_word]; omega), toNat_word]

theorem toInt_delta :
    ((word time1).toInt32 - (word time2).toInt32).toInt = (time1.val : Int) - time2.val := by
  have h1 := val_le_maxTime time1
  have h2 := val_le_maxTime time2
  rw [Int32.toInt_sub, toInt_word, toInt_word, Int.bmod_eq_of_le (by omega) (by omega)]

theorem timeInc_word : timeInc (word time) = word (Libsvc.timeInc time) := by
  have hle := val_le_maxTime time
  have hval := val_timeInc time
  rw [← UInt32.toNat_inj, toNat_word, timeInc]
  split_ifs with hmax
  · have hmax : time.val = 65535 := by rw [← toNat_word time, hmax]; rfl
    rw [hval, hmax]
    rfl
  · have hne : time.val ≠ 65535 := fun heq => hmax (by
      rw [← UInt32.toNat_inj, toNat_word, heq]
      rfl)
    rw [UInt32.toNat_add, toNat_word, UInt32.toNat_one, hval]
    omega

theorem timeIncBy_word (delta : Int32) :
    timeIncBy (word time) delta = word (Libsvc.timeIncBy time delta.toInt) := by
  have hval := val_timeIncBy time delta.toInt
  have hdelta := Signed.toNat_toUInt32 delta
  rw [← UInt32.toNat_inj, toNat_word, timeIncBy, UInt32.toNat_mod, UInt32.toNat_add, toNat_word]
  have hmax : (maxTime + 1).toUInt32.toNat = 65536 := rfl
  rw [hmax]
  omega

theorem isNewer_word : isNewer (word time1) (word time2) = Libsvc.isNewer time1 time2 := by
  have hpos : ((maxTime + 1) / 2).toInt = 32768 := rfl
  have hneg : (-(maxTime + 1) / 2).toInt = -32768 := rfl
  simp only [isNewer, Libsvc.isNewer, gt_iff_lt, Int32.lt_iff_toInt_lt, toInt_delta, hpos, hneg]
  rfl

theorem toInt_subTime_word :
    (subTime (word time1) (word time2)).toInt = Libsvc.subTime time1 time2 := by
  have h1 := val_le_maxTime time1
  have h2 := val_le_maxTime time2
  have hmax : (maxTime + 1).toInt = 65536 := rfl
  unfold subTime Libsvc.subTime
  rw [isNewer_word]
  dsimp only
  split_ifs
  · rw [Int32.toInt_mod, Int32.toInt_add, toInt_delta, hmax,
      Int.bmod_eq_of_le (by omega) (by omega)]
    rfl
  · have hneg : (-((word time1).toInt32 - (word time2).toInt32)).toInt =
        -((time1.val : Int) - time2.val) := by
      rw [Int32.toInt_neg, toInt_delta, Int.bmod_eq_of_le (by omega) (by omega)]
    have hadd : (-((word time1).toInt32 - (word time2).toInt32) + (maxTime + 1)).toInt =
        -((time1.val : Int) - time2.val) + 65536 := by
      rw [Int32.toInt_add, hneg, hmax, Int.bmod_eq_of_le (by omega) (by omega)]
    rw [Int32.toInt_mod, Int32.toInt_neg, hadd, hmax,
      Int.bmod_eq_of_le (by omega) (by omega)]
    rfl

theorem iterate_timeInc_word (n : Nat) :
    timeInc^[n] (word time) = word (Libsvc.timeInc^[n] time) := by
  have hsemi : Function.Semiconj word Libsvc.timeInc timeInc := fun t => (timeInc_word t).symm
  exact ((hsemi.iterate_right n).eq time).symm

end Word

/-! ## The circle -/

section Circle

variable (time time1 time2 : PacketTime)

/-- The difference is the only representative of its residue in the balanced range. -/
theorem balanced_iff_eq_subTime (d : Int) :
    (-32768 ≤ d ∧ d ≤ 32767 ∧ d ≡ (time1.val : Int) - time2.val [ZMOD 65536]) ↔
      d = Libsvc.subTime time1 time2 := by
  rw [Int.ModEq, subTime_eq_bmod, Int.bmod_def]
  constructor
  · rintro ⟨hlo, hhi, hmod⟩
    split <;> omega
  · intro hd
    split at hd <;> omega

theorem isNewer_asymm (h : Libsvc.isNewer time1 time2 = true) :
    Libsvc.isNewer time2 time1 = false := by
  rw [isNewer_iff_bmod, Int.bmod_def] at h
  rw [Bool.eq_false_iff, ne_eq, isNewer_iff_bmod, Int.bmod_def]
  split at h <;> split <;> omega

/-- Neither time is newer only for equal times and for opposite ones. -/
theorem not_newer_iff :
    Libsvc.isNewer time1 time2 = false ∧ Libsvc.isNewer time2 time1 = false ↔
      time1.val = time2.val ∨ time1.val + 32768 = time2.val ∨ time2.val + 32768 = time1.val := by
  have h1 := val_le_maxTime time1
  have h2 := val_le_maxTime time2
  rw [Bool.eq_false_iff, Bool.eq_false_iff, ne_eq, ne_eq, isNewer_iff_bmod, isNewer_iff_bmod,
    Int.bmod_def, Int.bmod_def]
  split <;> split <;> omega

theorem iterate_timeInc (n : Nat) : Libsvc.timeInc^[n] time = Libsvc.timeIncBy time n := by
  induction n with
  | zero => simp
  | succ n ih =>
    rw [Function.iterate_succ_apply', ih, timeInc_eq_timeIncBy, timeIncBy_timeIncBy]
    rfl

end Circle

/-- On the times `0 .. MAX_TIME` the functions on words are the arithmetic of a circle: the
difference is the balanced residue, a time is newer when its difference is positive, and
stepping is addition modulo `MAX_TIME + 1`. -/
theorem circular_arithmetic (a b : UInt32) (delta : Int32)
    (ha : a.toNat ≤ 65535) (hb : b.toNat ≤ 65535) :
    (∀ d : Int, (-32768 ≤ d ∧ d ≤ 32767 ∧ d ≡ (a.toNat : Int) - b.toNat [ZMOD 65536]) ↔
      d = (subTime a b).toInt) ∧
    (isNewer a b = true ↔ 0 < subTime a b) ∧
    isNewer a a = false ∧
    (isNewer a b = true → isNewer b a = false) ∧
    (isNewer a b = false ∧ isNewer b a = false ↔
      a = b ∨ a.toNat + 32768 = b.toNat ∨ b.toNat + 32768 = a.toNat) ∧
    (timeIncBy b delta).toNat ≤ 65535 ∧
    ((timeIncBy b delta).toNat : Int) ≡ b.toNat + delta.toInt [ZMOD 65536] ∧
    timeIncBy b (subTime a b) = a ∧
    ∀ n < 2 ^ 31, timeInc^[n] b = timeIncBy b (.ofNat n) := by
  obtain ⟨time1, rfl⟩ := exists_eq_word ha
  obtain ⟨time2, rfl⟩ := exists_eq_word hb
  have hinc := val_timeIncBy time2 delta.toInt
  simp only [toNat_word, toInt_subTime_word, isNewer_word, timeIncBy_word, word_inj,
    Int32.lt_iff_toInt_lt, Int32.toInt_zero]
  refine ⟨balanced_iff_eq_subTime time1 time2, isNewer_iff_subTime_pos time1 time2,
    isNewer_self time1, isNewer_asymm time1 time2, ?_, val_le_maxTime _, ?_,
    timeIncBy_subTime time1 time2, ?_⟩
  · rw [not_newer_iff, Fin.ext_iff]
  · rw [Int.ModEq, hinc, Int.emod_emod]
  · intro n hn
    rw [iterate_timeInc_word, iterate_timeInc, Int32.toInt_ofNat_of_lt hn]

/-- Times half the circle apart: the difference is `-32768` both ways. -/
theorem circular_arithmetic_opposite :
    (subTime 0 32768).toInt = -32768 ∧ (subTime 32768 0).toInt = -32768 ∧
      timeIncBy 32768 (subTime 0 32768) = 0 ∧ timeInc^[40000] 32768 = 7232 := by
  have h := circular_arithmetic 0 32768 40000 (by decide) (by decide)
  have hn := h.2.2.2.2.2.2.2.2 40000 (by decide)
  refine ⟨by decide, by decide, h.2.2.2.2.2.2.2.1, hn.trans (by decide)⟩

end Svc.Libsvc.Words
