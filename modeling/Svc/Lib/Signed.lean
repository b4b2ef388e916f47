import Mathlib.Algebra.Group.Int.Defs
import Mathlib.Algebra.Group.Nat.Defs
import Mathlib.Tactic.Common

/-!
# Words read as signed numbers

A conversion between a signed and an unsigned type of one width keeps the bits.  The lemmas
say what it does to the value.
-/

namespace Svc.Lib.Signed

theorem toInt_toInt8 (b : UInt8) :
    b.toInt8.toInt = if b.toNat < 128 then (b.toNat : Int) else b.toNat - 256 := by
  have hval : b.toInt8.toInt = b.toBitVec.toInt := rfl
  rw [hval, BitVec.toInt_eq_toNat_cond, UInt8.toNat_toBitVec]
  split_ifs <;> omega

theorem toInt_toInt32_of_lt {x : UInt32} (hx : x.toNat < 2 ^ 31) : x.toInt32.toInt = x.toNat := by
  have hval : x.toInt32.toInt = x.toBitVec.toInt := rfl
  rw [hval, BitVec.toInt_eq_toNat_cond, UInt32.toNat_toBitVec, if_pos (by omega)]

theorem toNat_toUInt32 (x : Int32) : (x.toUInt32.toNat : Int) = x.toInt % 2 ^ 32 := by
  have hval : x.toInt = x.toUInt32.toBitVec.toInt := rfl
  have hlt := x.toUInt32.toNat_lt
  rw [hval, BitVec.toInt_eq_toNat_cond, UInt32.toNat_toBitVec]
  split_ifs <;> omega

end Svc.Lib.Signed
